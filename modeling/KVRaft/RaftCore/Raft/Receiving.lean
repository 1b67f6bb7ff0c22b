import Mathlib.Order.Lattice
import KVRaft.RaftCore.Raft.Overwrite

/-!
# Receiving entries over complete logs

Which part of `AppendEntries1` can fail for a request cut from a leader's log.
-/

namespace KVRaft
namespace RaftCore

open Foundation (bind_eq_ok bind_eq_error check_of check_eq_ok check_eq_error)

namespace Holds

variable {n : Nat} {rf : Raft n} {L M : List LogEntry} {s p : Nat}

theorem matchLog (h : Holds rf L s) (hlo : s ≤ p) (hhi : p ≤ L.length) (logTerm : Int) :
    rf.matchLog (p : Int) logTerm = .ok (logTerm == termAt L p) := by
  have hrange : (p : Int) ≥ rf.lastSnapshotIncludeIndex ∧ (p : Int) ≤ rf.getLastLogIndex := by
    rw [h.index, h.lastIndex]
    omega
  rw [Raft.matchLog, myAssert, check_of hrange]
  simp only [bind, Except.bind, h.termOf hlo hhi]
  rfl

theorem matchLog_inv (h : Holds rf L s) {logIndex logTerm : Int} {matched : Bool}
    (hmatch : rf.matchLog logIndex logTerm = .ok matched) :
    exists k : Nat, logIndex = k ∧ s ≤ k ∧ k ≤ L.length ∧
      (matched = true <-> logTerm = termAt L k) := by
  unfold Raft.matchLog at hmatch
  rcases bind_eq_ok.mp hmatch with ⟨_, _, hmatch⟩
  rcases bind_eq_ok.mp hmatch with ⟨t, ht, hmatch⟩
  rcases h.termOf_inv ht with ⟨k, hk, hlo, hhi, rfl⟩
  cases hmatch
  exact ⟨k, hk, hlo, hhi, beq_iff_eq⟩

theorem conflictHint (h : Holds rf L s) (hlo : s ≤ p) (hhi : p ≤ L.length) (steps : Nat)
    {index : Int} (hsteps : (s : Int) + steps ≤ index + 1) (hindex : index ≤ p) :
    exists hint, rf.conflictHint (p : Int) steps index = .ok hint := by
  induction steps generalizing index with
  | zero => exact ⟨p, rfl⟩
  | succ steps ih =>
      obtain ⟨k, rfl⟩ : exists k : Nat, index = k := ⟨index.toNat, by omega⟩
      simp only [Raft.conflictHint, bind, Except.bind,
        h.termOf (show s ≤ k by omega) (show k ≤ L.length by omega), h.termOf hlo hhi]
      by_cases hne : termAt L k ≠ termAt L p
      · rw [if_pos hne]
        exact ⟨(k : Int) + 1, rfl⟩
      · rw [if_neg hne]
        exact ih (by omega) (by omega)

/-- The search ends at the index asked about, or below it and above the snapshot. -/
theorem conflictHint_inv (h : Holds rf L s) {steps : Nat} {index hint : Int}
    (hindex : index ≤ p) (hrun : rf.conflictHint (p : Int) steps index = .ok hint) :
    hint = p ∨ (s < hint ∧ hint ≤ p) := by
  induction steps generalizing index with
  | zero =>
      cases hrun
      exact Or.inl rfl
  | succ steps ih =>
      unfold Raft.conflictHint at hrun
      rcases bind_eq_ok.mp hrun with ⟨here, hhere, hrun⟩
      rcases bind_eq_ok.mp hrun with ⟨there, hthere, hrun⟩
      by_cases hne : here ≠ there
      · rw [if_pos hne] at hrun
        cases hrun
        rcases h.termOf_inv hhere with ⟨k, rfl, hlo, _, rfl⟩
        rcases h.termOf_inv hthere with ⟨q, hq, _, _, rfl⟩
        have hkp : k ≠ p := by
          intro hkp
          apply hne
          rw [show k = q by omega]
        right
        omega
      · rw [if_neg hne] at hrun
        exact ih (by omega) hrun

theorem follow (h : Holds rf L s) (term : Int) : Holds (rf.follow term) L s :=
  h.congr (Raft.follow_logs rf term) (Raft.follow_lastSnapshotIncludeIndex rf term)
    (Raft.follow_lastSnapshotIncludeTerm rf term)

variable [Archive]

theorem rejectEntries (h : Holds rf L s) (hlo : s ≤ p) (hhi : p ≤ L.length)
    {args : AppendEntriesArgs} (hprev : args.prevLogIndex = p)
    (reply : AppendEntriesReply) :
    exists result, rf.rejectEntries args reply = .ok result := by
  rcases h.conflictHint hlo hhi ((p : Int) - s + 1).toNat (by omega) (le_refl (p : Int)) with
    ⟨hint, heq⟩
  unfold Raft.rejectEntries
  simp only [hprev, h.index, heq, bind, Except.bind]
  exact ⟨_, rfl⟩

theorem acceptEntries (h : Holds rf L s) (hcommit : rf.commitIndex ≤ L.length)
    (hlo : s ≤ p) (hhi : p ≤ L.length) (hpM : p ≤ M.length) (hM : Numbered M)
    (hagree : Agree L M) {args : AppendEntriesArgs} (hprev : args.prevLogIndex = p)
    (hentries : args.entries = M.drop p) (reply : AppendEntriesReply) :
    exists result, rf.acceptEntries args reply = .ok result := by
  have hfold := h.foldlM_appendEntry hlo hhi hpM hM hagree
  have hnew := h.overwrite hlo hhi hpM hM
  have hlength := overwrite_length hhi hpM
  rw [← hentries] at hfold
  generalize hrf : { rf with logs := (RaftCore.overwrite L M p).drop s } = rf1 at hfold hnew
  have hcommit1 : rf1.commitIndex = rf.commitIndex := by
    rw [← hrf]
  have hsent : rf1.getLastLogIndex ≥ args.prevLogIndex + args.entriesSize := by
    rw [hnew.lastIndex, hlength, AppendEntriesArgs.entriesSize, hprev, hentries,
      List.length_drop]
    omega
  have hbound : (rf1.advanceCommit args.leaderCommit).getLastLogIndex ≥
      (rf1.advanceCommit args.leaderCommit).commitIndex := by
    rw [Raft.advanceCommit_getLastLogIndex]
    unfold Raft.advanceCommit
    by_cases hlt : args.leaderCommit > rf1.commitIndex
    · rw [if_pos hlt]
      exact min_le_right _ _
    · rw [if_neg hlt, hcommit1, hnew.lastIndex, hlength]
      omega
  unfold Raft.acceptEntries
  simp only [hfold, bind, Except.bind, myAssert, check_of hsent, check_of hbound]
  exact ⟨_, rfl⟩

/-- A request cut from a log that agrees with the receiver's fails exactly when it
is still current and starts below the receiver's snapshot. -/
theorem appendEntries1 (h : Holds rf L s) (hcommit : rf.commitIndex ≤ L.length)
    (hpM : p ≤ M.length) (hM : Numbered M) (hagree : Agree L M)
    {args : AppendEntriesArgs} (hprev : args.prevLogIndex = p)
    (hentries : args.entries = M.drop p) :
    (exists result, rf.appendEntries1 args = .ok result) <->
      args.term < rf.currentTerm ∨ rf.lastSnapshotIncludeIndex ≤ args.prevLogIndex := by
  constructor
  · rintro ⟨⟨rf', reply⟩, hrun⟩
    cases Raft.appendEntries1_effect hrun with
    | stale hlt _ _ => exact Or.inl hlt
    | tooNew _ hnew _ _ _ =>
        right
        have := h.le
        rw [h.lastIndex] at hnew
        rw [h.index]
        omega
    | mismatch _ hmatch _ _ _ =>
        rcases h.matchLog_inv hmatch with ⟨k, hk, hlo, _⟩
        right
        rw [h.index, hk]
        omega
    | accepted _ hmatch _ _ _ _ =>
        rcases h.matchLog_inv hmatch with ⟨k, hk, hlo, _⟩
        right
        rw [h.index, hk]
        omega
  · intro hcond
    unfold Raft.appendEntries1
    by_cases hlt : args.term < rf.currentTerm
    · simp only [if_pos hlt]
      exact ⟨_, rfl⟩
    have hle : rf.currentTerm ≤ args.term := by omega
    have hlo : s ≤ p := by
      rcases hcond with hstale | hlo
      · omega
      · rw [h.index, hprev] at hlo
        omega
    have hfollow := h.follow args.term
    have hterm : args.term = (rf.observe args.term).currentTerm :=
      (Raft.observe_currentTerm hle).symm
    simp only [if_neg hlt, myAssert, check_of hterm, bind, Except.bind]
    rw [hfollow.lastIndex, hprev]
    by_cases hnew : (p : Int) > L.length
    · rw [if_pos hnew]
      exact ⟨_, rfl⟩
    have hhi : p ≤ L.length := by omega
    rw [if_neg hnew, hfollow.matchLog hlo hhi]
    cases hmatch : args.prevLogTerm == termAt L p with
    | true =>
        exact hfollow.acceptEntries (by rw [Raft.follow_commitIndex]; exact hcommit) hlo hhi
          hpM hM hagree hprev hentries _
    | false => exact hfollow.rejectEntries hlo hhi hprev _

/-- The only assertion that such a request can fail. -/
theorem appendEntries1_fault (h : Holds rf L s) (hcommit : rf.commitIndex ≤ L.length)
    (hpM : p ≤ M.length) (hM : Numbered M) (hagree : Agree L M)
    {args : AppendEntriesArgs} (hprev : args.prevLogIndex = p)
    (hentries : args.entries = M.drop p) {fault : Fault}
    (hrun : rf.appendEntries1 args = .error fault) : fault = .matchLogRange := by
  have hcond : ¬ (args.term < rf.currentTerm ∨
      rf.lastSnapshotIncludeIndex ≤ args.prevLogIndex) := by
    intro hcond
    rcases (h.appendEntries1 hcommit hpM hM hagree hprev hentries).mpr hcond with
      ⟨result, hresult⟩
    rw [hresult] at hrun
    cases hrun
  have hlt : ¬ args.term < rf.currentTerm := fun hlt => hcond (Or.inl hlt)
  have hbelow : args.prevLogIndex < rf.lastSnapshotIncludeIndex :=
    not_le.mp fun hle => hcond (Or.inr hle)
  have hfollow := h.follow args.term
  have hterm : args.term = (rf.observe args.term).currentTerm :=
    (Raft.observe_currentTerm (not_lt.mp hlt)).symm
  have hold : ¬ args.prevLogIndex > (rf.follow args.term).getLastLogIndex := by
    have hle := h.le
    rw [h.index] at hbelow
    rw [hfollow.lastIndex]
    omega
  unfold Raft.appendEntries1 at hrun
  simp only [if_neg hlt, myAssert, check_of hterm, bind, Except.bind, if_neg hold] at hrun
  rcases bind_eq_error.mp hrun with hmatch | ⟨matched, hmatch, _⟩
  · rcases bind_eq_error.mp hmatch with hrange | ⟨_, hrange, _⟩
    · exact (check_eq_error.mp hrange).2
    · have hlo := (check_eq_ok.mp hrange).1
      rw [Raft.follow_lastSnapshotIncludeIndex] at hlo
      exact absurd hlo (not_le.mpr hbelow)
  · rcases bind_eq_ok.mp hmatch with ⟨_, hrange, _⟩
    have hlo := (check_eq_ok.mp hrange).1
    rw [Raft.follow_lastSnapshotIncludeIndex] at hlo
    exact absurd hlo (not_le.mpr hbelow)

end Holds
end RaftCore
end KVRaft
