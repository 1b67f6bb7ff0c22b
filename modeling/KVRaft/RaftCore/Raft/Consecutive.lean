import Mathlib.Order.MinMax
import KVRaft.RaftCore.Raft.Handler

/-!
# Consecutive entries

The entries of a node carry consecutive indices from the one after its snapshot on,
and its indices stand in a fixed order.  Receiving entries that are consecutive
themselves keeps both, and so does a snapshot.
-/

namespace KVRaft
namespace RaftCore

open Foundation (bind_eq_ok check_of check_eq_ok getElem?_concat_cases getElem?_set_cases)

/-- The first entry has the given index and every other one the next. -/
def Consecutive (first : Int) : List LogEntry -> Prop
  | [] => True
  | log :: rest => log.logIndex = first ∧ Consecutive (first + 1) rest

instance decidableConsecutive (first : Int) :
    (logs : List LogEntry) -> Decidable (Consecutive first logs)
  | [] => isTrue trivial
  | log :: rest =>
      let _ := decidableConsecutive (first + 1) rest
      inferInstanceAs (Decidable (log.logIndex = first ∧ Consecutive (first + 1) rest))

theorem consecutive_iff {first : Int} {logs : List LogEntry} :
    Consecutive first logs <->
      forall (k : Nat) (log : LogEntry), logs[k]? = some log -> log.logIndex = first + k := by
  induction logs generalizing first with
  | nil =>
      constructor
      · intro _ k log hlog
        cases hlog
      · intro _
        trivial
  | cons e rest ih =>
      constructor
      · rintro ⟨hfirst, hrest⟩ k log hlog
        cases k with
        | zero =>
            cases hlog
            rw [hfirst]
            exact (Int.add_zero first).symm
        | succ k =>
            rw [ih.mp hrest k log hlog]
            push_cast
            omega
      · intro h
        constructor
        · rw [h 0 e rfl]
          exact Int.add_zero first
        · apply ih.mpr
          intro k log hlog
          rw [h (k + 1) log hlog]
          push_cast
          omega

namespace Consecutive

variable {first : Int} {logs : List LogEntry} {log : LogEntry}

theorem concat (h : Consecutive first logs) (hlog : log.logIndex = first + logs.length) :
    Consecutive first (logs ++ [log]) := by
  rw [consecutive_iff] at h ⊢
  intro k e he
  rcases getElem?_concat_cases he with hold | ⟨hk, rfl⟩
  · exact h k e hold
  · rw [hk]
    exact hlog

theorem set (h : Consecutive first logs) {slot : Nat} (hlog : log.logIndex = first + slot) :
    Consecutive first (logs.set slot log) := by
  rw [consecutive_iff] at h ⊢
  intro k e he
  rcases getElem?_set_cases he with ⟨rfl, rfl⟩ | ⟨_, hold⟩
  · exact hlog
  · exact h k e hold

theorem drop (h : Consecutive first logs) (k : Nat) :
    Consecutive (first + k) (logs.drop k) := by
  rw [consecutive_iff] at h ⊢
  intro m e he
  rw [List.getElem?_drop] at he
  rw [h (k + m) e he]
  push_cast
  omega

/-- The last index of a node follows from the length of its vector. -/
theorem lastIndex {n : Nat} {rf : Raft n}
    (h : Consecutive (rf.lastSnapshotIncludeIndex + 1) rf.logs) :
    rf.getLastLogIndex = rf.lastSnapshotIncludeIndex + rf.logs.length := by
  unfold Raft.getLastLogIndex Raft.getLastLogIndexAndTerm
  cases hlast : rf.logs.getLast? with
  | none =>
      rw [List.getLast?_eq_none_iff.mp hlast]
      exact (Int.add_zero _).symm
  | some log =>
      rw [List.getLast?_eq_getElem?] at hlast
      have hlt := (List.getElem?_eq_some_iff.mp hlast).1
      change log.logIndex = _
      rw [consecutive_iff.mp h _ log hlast]
      omega

theorem logAtIndex {n : Nat} {rf : Raft n}
    (h : Consecutive (rf.lastSnapshotIncludeIndex + 1) rf.logs) {i : Int}
    (hlog : rf.logAtIndex i = .ok log) : log.logIndex = i := by
  unfold Raft.logAtIndex Raft.getSlicesIndexFromLogIndex at hlog
  rcases bind_eq_ok.mp hlog with ⟨slot, hslot, hlog⟩
  rcases bind_eq_ok.mp hslot with ⟨_, hlo, hslot⟩
  rcases bind_eq_ok.mp hslot with ⟨_, _, hslot⟩
  have hlo := check_eq_ok.mp hlo
  cases hslot
  obtain ⟨k, hk⟩ : exists k : Nat, i - rf.lastSnapshotIncludeIndex - 1 = k :=
    ⟨(i - rf.lastSnapshotIncludeIndex - 1).toNat, by omega⟩
  rw [hk, logAt_natCast] at hlog
  rw [consecutive_iff.mp h k log hlog]
  omega

/-- The place of a retained index. -/
theorem slice_eq {n : Nat} {rf : Raft n}
    (h : Consecutive (rf.lastSnapshotIncludeIndex + 1) rf.logs) {k : Nat}
    (hk : k < rf.logs.length) :
    rf.getSlicesIndexFromLogIndex (rf.lastSnapshotIncludeIndex + 1 + k) = .ok (k : Int) := by
  have hlast := h.lastIndex
  have hlo : rf.lastSnapshotIncludeIndex + 1 + k > rf.lastSnapshotIncludeIndex := by omega
  have hhi : rf.lastSnapshotIncludeIndex + 1 + k ≤ rf.getLastLogIndex := by omega
  unfold Raft.getSlicesIndexFromLogIndex
  rw [myAssert, check_of hlo, myAssert, check_of hhi]
  exact congrArg Except.ok (by omega)

/-- Where the entry at a place of the vector is looked up. -/
theorem logAtIndex_eq {n : Nat} {rf : Raft n}
    (h : Consecutive (rf.lastSnapshotIncludeIndex + 1) rf.logs) {k : Nat}
    (hlog : rf.logs[k]? = some log) :
    rf.logAtIndex (rf.lastSnapshotIncludeIndex + 1 + k) = .ok log := by
  rw [Raft.logAtIndex, h.slice_eq (List.getElem?_eq_some_iff.mp hlog).1]
  exact logAt_natCast.mpr hlog

/-- A retained index is the place of some entry. -/
theorem exists_place {n : Nat} {rf : Raft n}
    (h : Consecutive (rf.lastSnapshotIncludeIndex + 1) rf.logs) {i : Int}
    (hlo : rf.lastSnapshotIncludeIndex < i) (hhi : i ≤ rf.getLastLogIndex) :
    exists (k : Nat) (log : LogEntry), i = rf.lastSnapshotIncludeIndex + 1 + k ∧
      rf.logs[k]? = some log := by
  rw [h.lastIndex] at hhi
  have hlt : (i - rf.lastSnapshotIncludeIndex - 1).toNat < rf.logs.length := by omega
  rcases getElem?_of_lt hlt with ⟨log, hlog⟩
  exact ⟨_, log, by omega, hlog⟩

theorem term_base {n : Nat} {rf : Raft n}
    (h : Consecutive (rf.lastSnapshotIncludeIndex + 1) rf.logs) :
    rf.getLogTermFromLogIndex rf.lastSnapshotIncludeIndex =
      .ok rf.lastSnapshotIncludeTerm := by
  have hlast := h.lastIndex
  have hhi : rf.lastSnapshotIncludeIndex ≤ rf.getLastLogIndex := by omega
  unfold Raft.getLogTermFromLogIndex
  rw [myAssert, check_of (ge_iff_le.mpr (le_refl _)), myAssert, check_of hhi]
  change (if rf.lastSnapshotIncludeIndex = rf.lastSnapshotIncludeIndex then _ else _) = _
  rw [if_pos rfl]
  rfl

theorem term_eq {n : Nat} {rf : Raft n}
    (h : Consecutive (rf.lastSnapshotIncludeIndex + 1) rf.logs) {k : Nat}
    (hlog : rf.logs[k]? = some log) :
    rf.getLogTermFromLogIndex (rf.lastSnapshotIncludeIndex + 1 + k) = .ok log.logTerm := by
  have hlt := (List.getElem?_eq_some_iff.mp hlog).1
  have hlast := h.lastIndex
  have hlo : rf.lastSnapshotIncludeIndex + 1 + k ≥ rf.lastSnapshotIncludeIndex := by omega
  have hhi : rf.lastSnapshotIncludeIndex + 1 + k ≤ rf.getLastLogIndex := by omega
  unfold Raft.getLogTermFromLogIndex
  rw [myAssert, check_of hlo, myAssert, check_of hhi]
  change (if rf.lastSnapshotIncludeIndex + 1 + k = rf.lastSnapshotIncludeIndex then _
    else _) = _
  rw [if_neg (by omega), h.logAtIndex_eq hlog]
  rfl

/-- The entries kept behind a place are the rest of the vector. -/
theorem trunckedLogs_eq {n : Nat} {rf : Raft n}
    (h : Consecutive (rf.lastSnapshotIncludeIndex + 1) rf.logs) (steps : Nat) {m : Nat}
    (hm : m + steps = rf.logs.length) :
    rf.trunckedLogs steps (rf.lastSnapshotIncludeIndex + 1 + m) = .ok (rf.logs.drop m) := by
  induction steps generalizing m with
  | zero =>
      rw [List.drop_eq_nil_of_le (by omega)]
      rfl
  | succ steps ih =>
      rcases getElem?_of_lt (show m < rf.logs.length by omega) with ⟨log, hlog⟩
      have hlook := h.logAtIndex_eq hlog
      have hrest := ih (m := m + 1) (by omega)
      have hnext : rf.lastSnapshotIncludeIndex + 1 + ((m + 1 : Nat) : Int) =
          rf.lastSnapshotIncludeIndex + 1 + m + 1 := by omega
      rw [hnext] at hrest
      have hdrop : rf.logs.drop m = log :: rf.logs.drop (m + 1) :=
        (List.drop_eq_getElem_cons (by omega)).trans (by
          rw [(List.getElem?_eq_some_iff.mp hlog).2])
      rw [Raft.trunckedLogs, hdrop]
      simp only [bind, Except.bind, hlook, hrest]
      rfl

theorem trunckedLogs {n : Nat} {rf : Raft n}
    (h : Consecutive (rf.lastSnapshotIncludeIndex + 1) rf.logs) {steps : Nat} {i : Int}
    {kept : List LogEntry} (hkept : rf.trunckedLogs steps i = .ok kept) :
    Consecutive i kept := by
  induction steps generalizing i kept with
  | zero =>
      cases hkept
      trivial
  | succ steps ih =>
      unfold Raft.trunckedLogs at hkept
      rcases bind_eq_ok.mp hkept with ⟨log, hlog, hkept⟩
      rcases bind_eq_ok.mp hkept with ⟨rest, hrest, hkept⟩
      cases hkept
      exact ⟨h.logAtIndex hlog, ih hrest⟩

end Consecutive

/-!
# The indices of a node
-/

section

variable {n : Nat}

structure Indexed (rf : Raft n) : Prop where
  logs : Consecutive (rf.lastSnapshotIncludeIndex + 1) rf.logs
  snapshot : rf.lastSnapshotIncludeIndex ≤ rf.lastApplied
  applied : rf.lastApplied ≤ rf.commitIndex
  commit : rf.commitIndex ≤ rf.getLastLogIndex

/-- Nothing goes back between two states of a node. -/
structure NoneLess (rf rf' : Raft n) : Prop where
  term : rf.currentTerm ≤ rf'.currentTerm
  commit : rf.commitIndex ≤ rf'.commitIndex
  applied : rf.lastApplied ≤ rf'.lastApplied
  snapshot : rf.lastSnapshotIncludeIndex ≤ rf'.lastSnapshotIncludeIndex
  last : rf.getLastLogIndex ≤ rf'.getLastLogIndex

theorem NoneLess.refl (rf : Raft n) : NoneLess rf rf where
  term := le_refl _
  commit := le_refl _
  applied := le_refl _
  snapshot := le_refl _
  last := le_refl _

theorem NoneLess.trans {rf rf' rf'' : Raft n} (h : NoneLess rf rf')
    (k : NoneLess rf' rf'') : NoneLess rf rf'' where
  term := h.term.trans k.term
  commit := h.commit.trans k.commit
  applied := h.applied.trans k.applied
  snapshot := h.snapshot.trans k.snapshot
  last := h.last.trans k.last

theorem Indexed.blank (me : Fin n) (persister : Persister) :
    Indexed (Raft.blank me persister) where
  logs := trivial
  snapshot := le_refl _
  applied := le_refl _
  commit := le_refl _

/-- What a handler makes of a node: its indices stay in order and none goes back. -/
structure Proceeds (rf rf' : Raft n) : Prop where
  indexed : Indexed rf'
  noneLess : NoneLess rf rf'

theorem Proceeds.refl {rf : Raft n} (h : Indexed rf) : Proceeds rf rf where
  indexed := h
  noneLess := NoneLess.refl rf

theorem Proceeds.trans {rf rf' rf'' : Raft n} (h : Proceeds rf rf')
    (k : Proceeds rf' rf'') : Proceeds rf rf'' where
  indexed := k.indexed
  noneLess := h.noneLess.trans k.noneLess

/-- A handler that leaves the log alone and may move to a newer term. -/
theorem Proceeds.of_same {rf rf' : Raft n} (h : Indexed rf)
    (hterm : rf.currentTerm ≤ rf'.currentTerm) (hlogs : rf'.logs = rf.logs)
    (hsnapshot : rf'.lastSnapshotIncludeIndex = rf.lastSnapshotIncludeIndex)
    (happlied : rf'.lastApplied = rf.lastApplied)
    (hcommit : rf'.commitIndex = rf.commitIndex) : Proceeds rf rf' := by
  have hlogs' : Consecutive (rf'.lastSnapshotIncludeIndex + 1) rf'.logs := by
    rw [hsnapshot, hlogs]
    exact h.logs
  have hlast : rf'.getLastLogIndex = rf.getLastLogIndex := by
    rw [hlogs'.lastIndex, h.logs.lastIndex, hsnapshot, hlogs]
  constructor
  · constructor
    · exact hlogs'
    · rw [hsnapshot, happlied]
      exact h.snapshot
    · rw [happlied, hcommit]
      exact h.applied
    · rw [hcommit, hlast]
      exact h.commit
  · constructor
    · exact hterm
    · exact hcommit.ge
    · exact happlied.ge
    · exact hsnapshot.ge
    · exact hlast.ge

/-!
# Receiving entries
-/

theorem appendEntry_consecutive {rf rf' : Raft n} {log : LogEntry} {last : Int}
    (h : Consecutive (rf.lastSnapshotIncludeIndex + 1) rf.logs)
    (hlast : last ≤ rf.getLastLogIndex) (hlog : log.logIndex = last + 1)
    (hrun : rf.appendEntry log = .ok rf') :
    Consecutive (rf.lastSnapshotIncludeIndex + 1) rf'.logs ∧
      rf'.lastSnapshotIncludeIndex = rf.lastSnapshotIncludeIndex ∧
      rf.logs.length ≤ rf'.logs.length ∧
      last + 1 ≤ rf.lastSnapshotIncludeIndex + rf'.logs.length := by
  rw [h.lastIndex] at hlast
  unfold Raft.appendEntry at hrun
  by_cases hbeyond : log.logIndex > rf.getLastLogIndex
  · rw [if_pos hbeyond] at hrun
    cases hrun
    rw [h.lastIndex] at hbeyond
    refine ⟨h.concat (by omega), rfl, ?_, ?_⟩
    · rw [List.length_append]
      exact Nat.le_add_right _ _
    · rw [List.length_append, List.length_singleton]
      push_cast
      omega
  rw [if_neg hbeyond] at hrun
  rw [h.lastIndex] at hbeyond
  unfold Raft.getSlicesIndexFromLogIndex at hrun
  rcases bind_eq_ok.mp hrun with ⟨slot, hslot, hrun⟩
  rcases bind_eq_ok.mp hslot with ⟨_, hlo, hslot⟩
  rcases bind_eq_ok.mp hslot with ⟨_, _, hslot⟩
  have hlo := check_eq_ok.mp hlo
  cases hslot
  rcases bind_eq_ok.mp hrun with ⟨held, _, hrun⟩
  by_cases hconflict : held.logTerm = log.logTerm ∧ held.command ≠ log.command
  · rw [if_pos hconflict] at hrun
    cases hrun
  rw [if_neg hconflict] at hrun
  by_cases hterm : held.logTerm ≠ log.logTerm
  · rw [if_pos hterm] at hrun
    cases hrun
    refine ⟨h.set (by omega), rfl, ?_, ?_⟩
    · rw [List.length_set]
    · rw [List.length_set]
      omega
  · rw [if_neg hterm] at hrun
    cases hrun
    exact ⟨h, rfl, Nat.le_refl _, by omega⟩

/-- The whole loop, for entries that follow on an index the log reaches. -/
theorem foldlM_appendEntry_consecutive {rf rf' : Raft n} {entries : List LogEntry}
    {last : Int} (h : Consecutive (rf.lastSnapshotIncludeIndex + 1) rf.logs)
    (hlast : last ≤ rf.getLastLogIndex) (hentries : Consecutive (last + 1) entries)
    (hrun : entries.foldlM Raft.appendEntry rf = .ok rf') :
    Consecutive (rf.lastSnapshotIncludeIndex + 1) rf'.logs ∧
      rf'.lastSnapshotIncludeIndex = rf.lastSnapshotIncludeIndex ∧
      rf.logs.length ≤ rf'.logs.length := by
  induction entries generalizing rf last with
  | nil =>
      cases hrun
      exact ⟨h, rfl, Nat.le_refl _⟩
  | cons log rest ih =>
      rw [List.foldlM_cons] at hrun
      rcases bind_eq_ok.mp hrun with ⟨rf1, hone, hrest⟩
      rcases appendEntry_consecutive h hlast hentries.1 hone with ⟨h1, hsnap, hlen, hnext⟩
      rw [← hsnap] at h1 hnext
      rw [← h1.lastIndex] at hnext
      rcases ih h1 hnext hentries.2 hrest with ⟨h2, hsnap2, hlen2⟩
      rw [hsnap] at h2 hsnap2
      exact ⟨h2, hsnap2, hlen.trans hlen2⟩

theorem advanceCommit_le {rf : Raft n} (leaderCommit : Int)
    (h : rf.commitIndex ≤ rf.getLastLogIndex) :
    rf.commitIndex ≤ (rf.advanceCommit leaderCommit).commitIndex ∧
      (rf.advanceCommit leaderCommit).commitIndex ≤ rf.getLastLogIndex := by
  unfold Raft.advanceCommit
  by_cases hgt : leaderCommit > rf.commitIndex
  · rw [if_pos hgt]
    exact ⟨le_min hgt.le h, min_le_right _ _⟩
  · rw [if_neg hgt]
    exact ⟨le_refl _, h⟩

/-- Below the last entry, the previous entry of a request that is accepted. -/
theorem matchLog_le {rf : Raft n} {logIndex logTerm : Int} {matched : Bool}
    (h : rf.matchLog logIndex logTerm = .ok matched) : logIndex ≤ rf.getLastLogIndex := by
  unfold Raft.matchLog at h
  rcases bind_eq_ok.mp h with ⟨_, hrange, _⟩
  exact (check_eq_ok.mp hrange).2

theorem follow_proceeds {rf : Raft n} (h : Indexed rf) (term : Int) :
    Proceeds rf (rf.follow term) :=
  .of_same h (Raft.follow_keepsVote rf term).term (Raft.follow_logs rf term)
    (Raft.follow_lastSnapshotIncludeIndex rf term) (Raft.follow_lastApplied rf term)
    (Raft.follow_commitIndex rf term)

/-- Taking over entries that follow on one another. -/
theorem accept_proceeds {rf rf' : Raft n} {entries : List LogEntry} {last : Int}
    (h : Indexed rf) (hlast : last ≤ rf.getLastLogIndex)
    (hentries : Consecutive (last + 1) entries)
    (hrun : entries.foldlM Raft.appendEntry rf = .ok rf') (leaderCommit : Int) :
    Proceeds rf (rf'.advanceCommit leaderCommit) := by
  rcases foldlM_appendEntry_consecutive h.logs hlast hentries hrun with
    ⟨hlogs, hsnapshot, hlength⟩
  have hframe := Raft.foldlM_appendEntry_eq hrun
  have hcommit : rf'.commitIndex = rf.commitIndex := by rw [hframe]
  have happlied : rf'.lastApplied = rf.lastApplied := by rw [hframe]
  have hterm : rf'.currentTerm = rf.currentTerm := by rw [hframe]
  rw [← hsnapshot] at hlogs
  have hmore : rf.getLastLogIndex ≤ rf'.getLastLogIndex := by
    rw [h.logs.lastIndex, hlogs.lastIndex, hsnapshot]
    omega
  have hbound : rf'.commitIndex ≤ rf'.getLastLogIndex := by
    rw [hcommit]
    exact h.commit.trans hmore
  rcases advanceCommit_le leaderCommit hbound with ⟨hup, hdown⟩
  rw [hcommit] at hup
  have hlast' := Raft.advanceCommit_getLastLogIndex rf' leaderCommit
  rw [Raft.advanceCommit_eq] at hlast' ⊢
  constructor
  · constructor
    · exact hlogs
    · change rf'.lastSnapshotIncludeIndex ≤ rf'.lastApplied
      rw [hsnapshot, happlied]
      exact h.snapshot
    · change rf'.lastApplied ≤ _
      rw [happlied]
      exact h.applied.trans hup
    · rw [hlast']
      exact hdown
  · constructor
    · exact hterm.ge
    · exact hup
    · exact happlied.ge
    · exact hsnapshot.ge
    · rw [hlast']
      exact hmore

/-!
# Snapshots
-/

/-- The log starts after a later index, which it need not reach. -/
theorem compact_proceeds {rf rf' : Raft n} {index : Int} (h : Indexed rf)
    (hindex : rf.lastSnapshotIncludeIndex < index)
    (hterm : rf.currentTerm ≤ rf'.currentTerm)
    (hsnapshot : rf'.lastSnapshotIncludeIndex = index)
    (happlied : rf'.lastApplied = max rf.lastApplied index)
    (hcommit : rf'.commitIndex = max rf.commitIndex index)
    (hlogs : Consecutive (index + 1) rf'.logs)
    (hlength : index + rf'.logs.length = max rf.getLastLogIndex index) :
    Proceeds rf rf' := by
  have hlast : rf'.getLastLogIndex = max rf.getLastLogIndex index := by
    rw [← hsnapshot] at hlogs
    rw [hlogs.lastIndex, hsnapshot]
    exact hlength
  constructor
  · constructor
    · rw [hsnapshot]
      exact hlogs
    · rw [hsnapshot, happlied]
      exact le_max_right _ _
    · rw [happlied, hcommit]
      exact max_le_max h.applied (le_refl index)
    · rw [hcommit, hlast]
      exact max_le_max h.commit (le_refl index)
  · constructor
    · exact hterm
    · rw [hcommit]
      exact le_max_left _ _
    · rw [happlied]
      exact le_max_left _ _
    · rw [hsnapshot]
      exact hindex.le
    · rw [hlast]
      exact le_max_left _ _

theorem logsBeyond_consecutive {rf : Raft n} {index : Int} {logs : List LogEntry}
    (h : Consecutive (rf.lastSnapshotIncludeIndex + 1) rf.logs)
    (hindex : rf.lastSnapshotIncludeIndex < index) (hrun : rf.logsBeyond index = .ok logs) :
    Consecutive (index + 1) logs ∧ index + logs.length = max rf.getLastLogIndex index := by
  unfold Raft.logsBeyond at hrun
  by_cases hbeyond : rf.getLastLogIndex > index
  · rw [if_pos hbeyond] at hrun
    unfold Raft.getSlicesIndexFromLogIndex at hrun
    rcases bind_eq_ok.mp hrun with ⟨slot, hslot, hrun⟩
    rcases bind_eq_ok.mp hslot with ⟨_, _, hslot⟩
    rcases bind_eq_ok.mp hslot with ⟨_, _, hslot⟩
    cases hslot
    cases hrun
    obtain ⟨k, hk⟩ : exists k : Nat, index = rf.lastSnapshotIncludeIndex + k :=
      ⟨(index - rf.lastSnapshotIncludeIndex).toNat, by omega⟩
    have hslots : (index - rf.lastSnapshotIncludeIndex - 1 + 1).toNat = k := by omega
    rw [h.lastIndex] at hbeyond
    rw [h.lastIndex, hslots]
    constructor
    · rw [hk, show rf.lastSnapshotIncludeIndex + k + 1 =
        rf.lastSnapshotIncludeIndex + 1 + k by omega]
      exact h.drop k
    · rw [List.length_drop]
      omega
  · rw [if_neg hbeyond] at hrun
    cases hrun
    rw [max_eq_right (not_lt.mp hbeyond)]
    exact ⟨trivial, Int.add_zero index⟩

end

end RaftCore
end KVRaft
