import KVRaft.RaftCore.Safety.NodeInvariant

/-!
# Compaction is transparent

A snapshot that a node takes of itself leaves every answer about the log above it as it
was.
-/

namespace KVRaft
namespace RaftCore

open Foundation (bind_eq_ok check_of)

variable {n : Nat}

/-- Both nodes answer alike about the log from index `s` on. -/
structure SameAbove (s : Int) (rf rf' : Raft n) : Prop where
  term : forall i, s ≤ i -> i ≤ rf.getLastLogIndex -> exists t,
    rf.getLogTermFromLogIndex i = .ok t ∧ rf'.getLogTermFromLogIndex i = .ok t
  matchLog : forall i t, s ≤ i -> i ≤ rf.getLastLogIndex ->
    rf'.matchLog i t = rf.matchLog i t
  upToDate : forall index term, rf'.upToDate index term = rf.upToDate index term
  newCommandIndex : rf'.getNewCommandIndex = rf.getNewCommandIndex
  lastLogIndex : rf'.getLastLogIndex = rf.getLastLogIndex
  lastLogTerm : rf'.getLastLogTerm = rf.getLastLogTerm
  entry : forall i, s < i -> i ≤ rf.getLastLogIndex -> exists log,
    rf.logAtIndex i = .ok log ∧ rf'.logAtIndex i = .ok log ∧ log.logIndex = i

/-- The same vector with its first entries moved into the snapshot, the last of them
remembered by its term. -/
structure CutBehind (rf rf' : Raft n) (m : Nat) (newLast : LogEntry) : Prop where
  held : rf.logs[m]? = some newLast
  index : rf'.lastSnapshotIncludeIndex = rf.lastSnapshotIncludeIndex + 1 + m
  term : rf'.lastSnapshotIncludeTerm = newLast.logTerm
  logs : rf'.logs = rf.logs.drop (m + 1)

namespace CutBehind

variable {rf rf' : Raft n} {m : Nat} {newLast : LogEntry}

theorem consecutive (h : CutBehind rf rf' m newLast)
    (hlogs : Consecutive (rf.lastSnapshotIncludeIndex + 1) rf.logs) :
    Consecutive (rf'.lastSnapshotIncludeIndex + 1) rf'.logs := by
  rw [h.index, h.logs]
  have hdrop := hlogs.drop (m + 1)
  rw [show rf.lastSnapshotIncludeIndex + 1 + ((m + 1 : Nat) : Int) =
    rf.lastSnapshotIncludeIndex + 1 + m + 1 by omega] at hdrop
  exact hdrop

theorem getElem? (h : CutBehind rf rf' m newLast) (k : Nat) :
    rf'.logs[k]? = rf.logs[m + 1 + k]? := by
  rw [h.logs, List.getElem?_drop]

/-- An empty rest ends where the snapshot does. -/
theorem getLast (h : CutBehind rf rf' m newLast)
    (hlogs : Consecutive (rf.lastSnapshotIncludeIndex + 1) rf.logs) :
    rf'.getLastLogIndexAndTerm = rf.getLastLogIndexAndTerm := by
  have hlt := (List.getElem?_eq_some_iff.mp h.held).1
  unfold Raft.getLastLogIndexAndTerm
  rw [h.logs, List.getLast?_drop]
  by_cases hall : rf.logs.length ≤ m + 1
  · have hlast : rf.logs.getLast? = some newLast := by
      rw [List.getLast?_eq_getElem?, show rf.logs.length - 1 = m by omega]
      exact h.held
    rw [if_pos hall, hlast, h.index, h.term]
    simp only [Prod.mk.injEq, and_true]
    exact (consecutive_iff.mp hlogs m newLast h.held).symm
  · rw [if_neg hall]
    cases hlast : rf.logs.getLast? with
    | none =>
        rw [List.getLast?_eq_none_iff.mp hlast] at hlt
        exact absurd hlt (Nat.not_lt_zero m)
    | some log => rfl

theorem entry (h : CutBehind rf rf' m newLast)
    (hlogs : Consecutive (rf.lastSnapshotIncludeIndex + 1) rf.logs) {i : Int}
    (hlo : rf'.lastSnapshotIncludeIndex < i) (hhi : i ≤ rf.getLastLogIndex) :
    exists log, rf.logAtIndex i = .ok log ∧ rf'.logAtIndex i = .ok log ∧ log.logIndex = i ∧
      rf.getLogTermFromLogIndex i = .ok log.logTerm ∧
      rf'.getLogTermFromLogIndex i = .ok log.logTerm := by
  have hlogs' := h.consecutive hlogs
  have hlast : rf'.getLastLogIndex = rf.getLastLogIndex := congrArg Prod.fst (h.getLast hlogs)
  rcases hlogs'.exists_place hlo (by rw [hlast]; exact hhi) with ⟨k, log, rfl, hlog⟩
  have hold := hlog
  rw [h.getElem?] at hold
  have hplace : rf'.lastSnapshotIncludeIndex + 1 + k =
      rf.lastSnapshotIncludeIndex + 1 + ((m + 1 + k : Nat) : Int) := by
    rw [h.index]
    push_cast
    omega
  refine ⟨log, ?_, hlogs'.logAtIndex_eq hlog, ?_, ?_, hlogs'.term_eq hlog⟩
  · rw [hplace]
    exact hlogs.logAtIndex_eq hold
  · exact consecutive_iff.mp hlogs' k log hlog
  · rw [hplace]
    exact hlogs.term_eq hold

theorem sameAbove (h : CutBehind rf rf' m newLast)
    (hlogs : Consecutive (rf.lastSnapshotIncludeIndex + 1) rf.logs) :
    SameAbove rf'.lastSnapshotIncludeIndex rf rf' := by
  have hpair := h.getLast hlogs
  have hlast : rf'.getLastLogIndex = rf.getLastLogIndex := congrArg Prod.fst hpair
  have hterm : forall i, rf'.lastSnapshotIncludeIndex ≤ i -> i ≤ rf.getLastLogIndex ->
      exists t, rf.getLogTermFromLogIndex i = .ok t ∧
        rf'.getLogTermFromLogIndex i = .ok t := by
    intro i hlo hhi
    rcases lt_or_eq_of_le hlo with hlt | rfl
    · rcases h.entry hlogs hlt hhi with ⟨log, _, _, _, hold, hnew⟩
      exact ⟨log.logTerm, hold, hnew⟩
    · -- the base itself: an entry before, the snapshot afterwards
      refine ⟨newLast.logTerm, ?_, ?_⟩
      · rw [h.index]
        exact hlogs.term_eq h.held
      · rw [(h.consecutive hlogs).term_base, h.term]
  have hlo := h.index
  constructor
  · exact hterm
  · intro i t hge hhi
    rcases hterm i hge hhi with ⟨u, hold, hnew⟩
    have hrange : i ≥ rf.lastSnapshotIncludeIndex ∧ i ≤ rf.getLastLogIndex :=
      ⟨by omega, hhi⟩
    have hrange' : i ≥ rf'.lastSnapshotIncludeIndex ∧ i ≤ rf'.getLastLogIndex :=
      ⟨hge, by rw [hlast]; exact hhi⟩
    unfold Raft.matchLog
    rw [myAssert, check_of hrange', myAssert, check_of hrange, hold, hnew]
  · intro index term
    unfold Raft.upToDate
    rw [hpair]
  · unfold Raft.getNewCommandIndex
    rw [hlast]
  · exact hlast
  · exact congrArg Prod.snd hpair
  · intro i hgt hhi
    rcases h.entry hlogs hgt hhi with ⟨log, hold, hnew, hindex, _⟩
    exact ⟨log, hold, hnew, hindex⟩

end CutBehind

theorem NodeInvariant.consecutive {rf : Raft n} (h : NodeInvariant rf) :
    Consecutive (rf.lastSnapshotIncludeIndex + 1) rf.logs :=
  consecutive_iff.mpr h.logs

section

variable [Archive]

/-- A snapshot of retained entries that are committed cuts the vector behind its index. -/
theorem snapshot_cuts {rf : Raft n} (h : NodeInvariant rf) {s : Int}
    (hlo : rf.lastSnapshotIncludeIndex < s) (hhi : s ≤ rf.commitIndex) (data : Bytes) :
    exists rf' m newLast, rf.snapshot s data = .ok rf' ∧ CutBehind rf rf' m newLast ∧
      rf'.lastSnapshotIncludeIndex = s := by
  have hlogs := h.consecutive
  have hlast := hlogs.lastIndex
  rcases hlogs.exists_place hlo (hhi.trans h.commit) with ⟨m, newLast, rfl, hnew⟩
  have hlt := (List.getElem?_eq_some_iff.mp hnew).1
  have hsteps : (rf.getLastLogIndex - (rf.lastSnapshotIncludeIndex + 1 + m)).toNat =
      rf.logs.length - (m + 1) := by
    omega
  have hkept := hlogs.trunckedLogs_eq (rf.logs.length - (m + 1)) (m := m + 1) (by omega)
  rw [show rf.lastSnapshotIncludeIndex + 1 + ((m + 1 : Nat) : Int) =
    rf.lastSnapshotIncludeIndex + 1 + m + 1 by omega] at hkept
  have hlength : ((rf.logs.drop (m + 1)).length : Int) +
      (rf.lastSnapshotIncludeIndex + 1 + m) = rf.getLastLogIndex := by
    rw [List.length_drop]
    omega
  refine ⟨rf.compactTo (rf.lastSnapshotIncludeIndex + 1 + m) newLast
    (rf.logs.drop (m + 1)) data, m, newLast, ?_, ⟨hnew, rfl, rfl, rfl⟩, rfl⟩
  unfold Raft.snapshot
  rw [if_neg (not_or.mpr ⟨not_le.mpr hlo, not_lt.mpr hhi⟩)]
  simp only [bind, Except.bind, hlogs.logAtIndex_eq hnew, hsteps, hkept,
    myAssert, check_of hlength]
  rfl

/-- A local snapshot does nothing, or it changes no answer about the log above it. -/
theorem snapshot_transparent {rf : Raft n} (h : NodeInvariant rf) (s : Int)
    (data : Bytes) :
    ((s ≤ rf.lastSnapshotIncludeIndex ∨ rf.commitIndex < s) ∧
      rf.snapshot s data = .ok rf) ∨
    (rf.lastSnapshotIncludeIndex < s ∧ s ≤ rf.commitIndex ∧
      exists rf', rf.snapshot s data = .ok rf' ∧ SameAbove s rf rf') := by
  by_cases hreject : s ≤ rf.lastSnapshotIncludeIndex ∨ rf.commitIndex < s
  · exact Or.inl ⟨hreject, if_pos hreject⟩
  · rw [not_or, not_le, not_lt] at hreject
    rcases snapshot_cuts h hreject.1 hreject.2 data with ⟨rf', m, newLast, hrun, hcut, hs⟩
    have hsame := hcut.sameAbove h.consecutive
    rw [hs] at hsame
    exact Or.inr ⟨hreject.1, hreject.2, rf', hrun, hsame⟩

end

/-- A node that has taken a snapshot up to index 2. -/
def compactedNode : Raft 3 :=
  { Raft.blank 0 (Persister.create [] []) with
    currentTerm := 3
    logs := [⟨[1], 2, 3⟩, ⟨[2], 3, 4⟩]
    commitIndex := 4
    lastApplied := 3
    lastSnapshotIncludeIndex := 2
    lastSnapshotIncludeTerm := 1 }

theorem compactedNode_invariant : NodeInvariant compactedNode where
  logs := consecutive_iff.mp (by decide)
  snapshot := by decide
  applied := by decide
  commit := by decide

/-- The last entry goes into the snapshot and its term with it. -/
theorem compactedNode_transparent : exists rf',
    @Raft.snapshot 3 plainArchive compactedNode 4 [7] = .ok rf' ∧
      SameAbove 4 compactedNode rf' := by
  rcases @snapshot_transparent 3 plainArchive compactedNode compactedNode_invariant 4 [7]
    with ⟨hreject, _⟩ | ⟨_, _, hrun⟩
  · exact absurd hreject (by decide)
  · exact hrun

end RaftCore
end KVRaft
