import KVRaft.Foundation.Lists
import KVRaft.RaftCore.Raft.State

/-!
# Log indices

A log entry has a logical index that never changes; its slice index is its place
in the vector, which starts after the last entry of the snapshot.
-/

namespace KVRaft
namespace RaftCore

open Foundation (bind_eq_ok check_of check_eq_ok getElem?_concat_cases getElem?_of_isPrefix)

namespace Raft

variable {n : Nat}

def getLastLogIndexAndTerm (rf : Raft n) : Int × Int :=
  match rf.logs.getLast? with
  | none => (rf.lastSnapshotIncludeIndex, rf.lastSnapshotIncludeTerm)
  | some log => (log.logIndex, log.logTerm)

def getLastLogIndex (rf : Raft n) : Int :=
  rf.getLastLogIndexAndTerm.1

def getLastLogTerm (rf : Raft n) : Int :=
  rf.getLastLogIndexAndTerm.2

def getSlicesIndexFromLogIndex (rf : Raft n) (logIndex : Int) : Outcome Int := do
  myAssert (logIndex > rf.lastSnapshotIncludeIndex) .sliceOfCompacted
  myAssert (logIndex ≤ rf.getLastLogIndex) .sliceBeyondLast
  return logIndex - rf.lastSnapshotIncludeIndex - 1

/-- The entry with a logical index, as the source looks it up everywhere. -/
def logAtIndex (rf : Raft n) (logIndex : Int) : Outcome LogEntry := do
  logAt rf.logs (<- rf.getSlicesIndexFromLogIndex logIndex)

def getLogTermFromLogIndex (rf : Raft n) (logIndex : Int) : Outcome Int := do
  myAssert (logIndex ≥ rf.lastSnapshotIncludeIndex) .termOfCompacted
  myAssert (logIndex ≤ rf.getLastLogIndex) .termBeyondLast
  if logIndex = rf.lastSnapshotIncludeIndex then
    return rf.lastSnapshotIncludeTerm
  else
    return (<- rf.logAtIndex logIndex).logTerm

def getNewCommandIndex (rf : Raft n) : Int :=
  rf.getLastLogIndex + 1

end Raft

/-!
# The complete log behind a node

`termAt L k` is the term of the entry with index `k` of a complete log, with
term 0 for index 0.  A node holds the complete log `L` compacted up to `s` when
its vector is what is left of `L` and its snapshot fields describe entry `s`.
-/

def termAt (L : List LogEntry) : Nat -> Int
  | 0 => 0
  | k + 1 =>
      match L[k]? with
      | some log => log.logTerm
      | none => 0

/-- Entries carry their own index and a positive term. -/
def Numbered (L : List LogEntry) : Prop :=
  forall (k : Nat) (log : LogEntry), L[k]? = some log ->
    log.logIndex = k + 1 ∧ 1 ≤ log.logTerm

structure Holds {n : Nat} (rf : Raft n) (L : List LogEntry) (s : Nat) : Prop where
  le : s ≤ L.length
  index : rf.lastSnapshotIncludeIndex = s
  term : rf.lastSnapshotIncludeTerm = termAt L s
  logs : rf.logs = L.drop s
  numbered : Numbered L

@[simp] theorem termAt_zero (L : List LogEntry) : termAt L 0 = 0 :=
  rfl

theorem termAt_succ {L : List LogEntry} {k : Nat} {log : LogEntry}
    (h : L[k]? = some log) : termAt L (k + 1) = log.logTerm := by
  simp [termAt, h]

theorem getElem?_of_lt {L : List LogEntry} {k : Nat} (h : k < L.length) :
    exists log, L[k]? = some log :=
  ⟨L[k], List.getElem?_eq_getElem h⟩

theorem Numbered.of_isPrefix {L K : List LogEntry} (h : Numbered K) (hpre : L <+: K) :
    Numbered L := by
  intro k log hlog
  exact h k log (getElem?_of_isPrefix hpre hlog)

theorem Numbered.termAt_pos {L : List LogEntry} (h : Numbered L) {k : Nat}
    (hk : k < L.length) : 1 ≤ termAt L (k + 1) := by
  rcases getElem?_of_lt hk with ⟨log, hlog⟩
  rw [termAt_succ hlog]
  exact (h k log hlog).2

theorem Numbered.append {L : List LogEntry} (h : Numbered L) {log : LogEntry}
    (hindex : log.logIndex = L.length + 1) (hterm : 1 ≤ log.logTerm) :
    Numbered (L ++ [log]) := by
  intro k e he
  rcases getElem?_concat_cases he with hold | ⟨hk, rfl⟩
  · exact h k e hold
  · exact ⟨by rw [hk]; exact hindex, hterm⟩

/-- The term of an index is that of any log agreeing at the index. -/
theorem termAt_congr {L K : List LogEntry} {k : Nat}
    (h : forall j, j < k -> L[j]? = K[j]?) : termAt L k = termAt K k := by
  cases k with
  | zero => rfl
  | succ k => simp [termAt, h k (Nat.lt_succ_self k)]

theorem termAt_of_isPrefix {L K : List LogEntry} (hpre : L <+: K) {k : Nat}
    (hk : k ≤ L.length) : termAt K k = termAt L k := by
  apply termAt_congr
  intro j hj
  rcases hpre with ⟨rest, rfl⟩
  exact List.getElem?_append_left (by omega)

theorem termAt_take {L : List LogEntry} {k m : Nat} (h : k ≤ m) :
    termAt (L.take m) k = termAt L k := by
  apply termAt_congr
  intro j hj
  exact List.getElem?_take_of_lt (by omega)

/-- A complete log's last entry fixes its length. -/
theorem getLast?_eq {L : List LogEntry} {log : LogEntry} (h : L.getLast? = some log) :
    L[L.length - 1]? = some log ∧ 0 < L.length := by
  rw [List.getLast?_eq_getElem?] at h
  have := (List.getElem?_eq_some_iff.mp h).1
  exact ⟨h, by omega⟩

namespace Holds

variable {n : Nat} {rf : Raft n} {L : List LogEntry} {s : Nat}

theorem getLast (h : Holds rf L s) :
    rf.getLastLogIndexAndTerm = ((L.length : Int), termAt L L.length) := by
  rcases Nat.lt_or_ge s L.length with hs | hs
  · have hlen : L.length - 1 + 1 = L.length := by omega
    rcases getElem?_of_lt (show L.length - 1 < L.length by omega) with ⟨log, hlog⟩
    have hlast : rf.logs.getLast? = some log := by
      rw [h.logs, List.getLast?_drop, if_neg (by omega), List.getLast?_eq_getElem?]
      exact hlog
    have hindex := (h.numbered _ _ hlog).1
    have hterm := termAt_succ hlog
    rw [hlen] at hterm
    rw [Raft.getLastLogIndexAndTerm, hlast, hterm]
    simp only [Prod.mk.injEq, and_true]
    omega
  · have hsL : s = L.length := Nat.le_antisymm h.le hs
    have hnil : rf.logs = [] := by
      rw [h.logs, List.drop_eq_nil_of_le hs]
    rw [Raft.getLastLogIndexAndTerm, hnil, h.index, h.term, hsL]
    rfl

theorem lastIndex (h : Holds rf L s) : rf.getLastLogIndex = L.length := by
  rw [Raft.getLastLogIndex, h.getLast]

theorem lastTerm (h : Holds rf L s) : rf.getLastLogTerm = termAt L L.length := by
  rw [Raft.getLastLogTerm, h.getLast]

theorem getElem? (h : Holds rf L s) (k : Nat) : rf.logs[k]? = L[s + k]? := by
  rw [h.logs, List.getElem?_drop]

theorem slice (h : Holds rf L s) {i : Int} (hlo : (s : Int) < i) (hhi : i ≤ L.length) :
    rf.getSlicesIndexFromLogIndex i = .ok (i - s - 1) := by
  have h1 : i > rf.lastSnapshotIncludeIndex := by
    rw [h.index]
    exact hlo
  have h2 : i ≤ rf.getLastLogIndex := by
    rw [h.lastIndex]
    exact hhi
  rw [Raft.getSlicesIndexFromLogIndex, myAssert, check_of h1, myAssert, check_of h2, h.index]
  rfl

theorem slice_inv (h : Holds rf L s) {i j : Int}
    (hi : rf.getSlicesIndexFromLogIndex i = .ok j) :
    (s : Int) < i ∧ i ≤ L.length ∧ j = i - s - 1 := by
  unfold Raft.getSlicesIndexFromLogIndex at hi
  rcases bind_eq_ok.mp hi with ⟨_, h1, hi⟩
  rcases bind_eq_ok.mp hi with ⟨_, h2, hi⟩
  have hlo := check_eq_ok.mp h1
  have hhi := check_eq_ok.mp h2
  rw [h.index] at hlo hi
  rw [h.lastIndex] at hhi
  cases hi
  exact ⟨hlo, hhi, rfl⟩

/-- Looking up a retained index finds the entry of the complete log. -/
theorem logAtIndex (h : Holds rf L s) {k : Nat} (hlo : s ≤ k) {log : LogEntry}
    (hlog : L[k]? = some log) : rf.logAtIndex ((k : Int) + 1) = .ok log := by
  have hlen := (List.getElem?_eq_some_iff.mp hlog).1
  rw [Raft.logAtIndex, h.slice (by omega) (by omega)]
  have hslot : (k : Int) + 1 - s - 1 = ((k - s : Nat) : Int) := by omega
  change logAt rf.logs ((k : Int) + 1 - s - 1) = _
  rw [hslot, logAt_natCast, h.getElem?]
  rw [show s + (k - s) = k by omega]
  exact hlog

theorem logAtIndex_inv (h : Holds rf L s) {i : Int} {log : LogEntry}
    (hi : rf.logAtIndex i = .ok log) :
    exists k : Nat, i = k + 1 ∧ s ≤ k ∧ L[k]? = some log := by
  unfold Raft.logAtIndex at hi
  rcases bind_eq_ok.mp hi with ⟨j, hj, hi⟩
  rcases h.slice_inv hj with ⟨hlo, hhi, rfl⟩
  have hslot : i - s - 1 = (((i - s - 1).toNat : Nat) : Int) := by omega
  rw [hslot, logAt_natCast, h.getElem?] at hi
  exact ⟨s + (i - s - 1).toNat, by omega, by omega, hi⟩

theorem termOf (h : Holds rf L s) {k : Nat} (hlo : s ≤ k) (hhi : k ≤ L.length) :
    rf.getLogTermFromLogIndex (k : Int) = .ok (termAt L k) := by
  have h1 : (k : Int) ≥ rf.lastSnapshotIncludeIndex := by
    rw [h.index]
    omega
  have h2 : (k : Int) ≤ rf.getLastLogIndex := by
    rw [h.lastIndex]
    omega
  rw [Raft.getLogTermFromLogIndex, myAssert, check_of h1, myAssert, check_of h2, h.index]
  change (if (k : Int) = s then _ else _) = _
  by_cases hks : (k : Int) = s
  · rw [if_pos hks, h.term, show s = k by omega]
    rfl
  · rw [if_neg hks]
    obtain ⟨j, rfl⟩ : exists j, k = j + 1 := ⟨k - 1, by omega⟩
    rcases getElem?_of_lt (show j < L.length by omega) with ⟨log, hlog⟩
    have hlook := h.logAtIndex (by omega) hlog
    rw [show ((j + 1 : Nat) : Int) = (j : Int) + 1 by omega, hlook, termAt_succ hlog]
    rfl

theorem termOf_inv (h : Holds rf L s) {i : Int} {t : Int}
    (hi : rf.getLogTermFromLogIndex i = .ok t) :
    exists k : Nat, i = k ∧ s ≤ k ∧ k ≤ L.length ∧ t = termAt L k := by
  have hi' := hi
  unfold Raft.getLogTermFromLogIndex at hi'
  rcases bind_eq_ok.mp hi' with ⟨_, h1, hi'⟩
  rcases bind_eq_ok.mp hi' with ⟨_, h2, _⟩
  have hlo := check_eq_ok.mp h1
  have hhi := check_eq_ok.mp h2
  rw [h.index] at hlo
  rw [h.lastIndex] at hhi
  obtain ⟨k, rfl⟩ : exists k : Nat, i = k := ⟨i.toNat, by omega⟩
  refine ⟨k, rfl, by omega, by omega, ?_⟩
  rw [h.termOf (by omega) (by omega)] at hi
  cases hi
  rfl

theorem newCommandIndex (h : Holds rf L s) : rf.getNewCommandIndex = L.length + 1 := by
  rw [Raft.getNewCommandIndex, h.lastIndex]

/-- Holding a log is a matter of three fields. -/
theorem congr (h : Holds rf L s) {rf' : Raft n} (hlogs : rf'.logs = rf.logs)
    (hindex : rf'.lastSnapshotIncludeIndex = rf.lastSnapshotIncludeIndex)
    (hterm : rf'.lastSnapshotIncludeTerm = rf.lastSnapshotIncludeTerm) :
    Holds rf' L s where
  le := h.le
  index := hindex.trans h.index
  term := hterm.trans h.term
  logs := hlogs.trans h.logs
  numbered := h.numbered

end Holds
end RaftCore
end KVRaft
