import Mathlib.Algebra.BigOperators.Fin
import Mathlib.Algebra.Order.BigOperators.Group.Finset
import KVRaft.Foundation.Searching
import KVRaft.RaftCore.Safety.CommitNotMissed

/-!
# The commit rule by match indices

`leaderUpdateCommitIndex` goes down from the last entry to the first one a majority is
known to hold.  It starts from the snapshot instead of the commit index, and a follower
that holds the entry adds its number to the sum instead of one.
-/

namespace KVRaft
namespace RaftCore

open Foundation

namespace Raft

variable {n : Nat} {rf : Raft n}

def addMatched (rf : Raft n) (index : Int) (sum : Nat) (i : Fin n) : Nat :=
  if i = rf.me then
    sum + 1
  else if rf.matchIndex i ≥ index then
    sum + i
  else
    sum

def sumMatched (rf : Raft n) (index : Int) : Nat :=
  (List.finRange n).foldl (rf.addMatched index) 0

/-- The loop over the indices above the snapshot, with so many of them to go. -/
def commitDown (rf : Raft n) : Nat -> Outcome (Raft n)
  | 0 => return rf
  | k + 1 => do
      let index := rf.lastSnapshotIncludeIndex + ((k + 1 : Nat) : Int)
      if rf.sumMatched index ≥ n / 2 + 1 then
        if (<- rf.getLogTermFromLogIndex index) = rf.currentTerm then
          return { rf with commitIndex := index }
        else
          rf.commitDown k
      else
        rf.commitDown k

def leaderUpdateCommitIndex (rf : Raft n) : Outcome (Raft n) :=
  { rf with commitIndex := rf.lastSnapshotIncludeIndex }.commitDown
    (rf.getLastLogIndex - rf.lastSnapshotIncludeIndex).toNat

/-- The log has an entry of the leader's term at an index. -/
def OwnEntry (rf : Raft n) (index : Int) : Prop :=
  exists log, rf.logAtIndex index = .ok log ∧ log.logTerm = rf.currentTerm

/-- At least half of all servers, and the leader besides, hold the log up to an index. -/
def Covered (rf : Raft n) (index : Int) : Prop :=
  n / 2 + 1 ≤ (rf.matching index).card

/-- The followers known to hold the log up to an index. -/
def followers (rf : Raft n) (index : Int) : Finset (Fin n) :=
  (rf.matching index).erase rf.me

/-- The numbers of the followers that hold the log up to an index make up half of the
number of all servers. -/
def NumbersReach (rf : Raft n) (index : Int) : Prop :=
  n / 2 ≤ ∑ i ∈ rf.followers index, i.val

/-- The peers are numbered so that the sum of the numbers tells a majority at every index
the commit index may move to, and one of these, or the commit index itself, is reached
unless the commit index is the one of the snapshot. -/
structure NumbersTell (rf : Raft n) : Prop where
  reached : rf.commitIndex = rf.lastSnapshotIncludeIndex ∨
    exists N, rf.OwnEntry N ∧ rf.commitIndex ≤ N ∧ rf.NumbersReach N
  agree : forall N, rf.OwnEntry N -> rf.commitIndex < N ->
    (rf.NumbersReach N <-> n / 2 ≤ (rf.followers N).card)

/-!
# The sum over the peers
-/

theorem me_mem_matching (rf : Raft n) (index : Int) : rf.me ∈ rf.matching index :=
  mem_matching.mpr (Or.inl rfl)

theorem mem_followers {index : Int} {i : Fin n} :
    i ∈ rf.followers index <-> i ≠ rf.me ∧ index ≤ rf.matchIndex i := by
  rw [followers, Finset.mem_erase, mem_matching]
  constructor
  · rintro ⟨hne, hme | hmatch⟩
    · exact absurd hme hne
    · exact ⟨hne, hmatch⟩
  · rintro ⟨hne, hmatch⟩
    exact ⟨hne, Or.inr hmatch⟩

/-- What a peer adds to the sum. -/
def numberOf (rf : Raft n) (index : Int) (i : Fin n) : Nat :=
  if i = rf.me then 1 else if rf.matchIndex i ≥ index then i else 0

theorem addMatched_eq (rf : Raft n) (index : Int) (sum : Nat) (i : Fin n) :
    rf.addMatched index sum i = sum + rf.numberOf index i := by
  unfold addMatched numberOf
  split
  · rfl
  · split
    · rfl
    · rfl

theorem foldl_addMatched (rf : Raft n) (index : Int) (peers : List (Fin n)) (sum : Nat) :
    peers.foldl (rf.addMatched index) sum =
      sum + (peers.map (rf.numberOf index)).sum := by
  induction peers generalizing sum with
  | nil => rfl
  | cons i rest ih =>
      rw [List.foldl_cons, ih, addMatched_eq, List.map_cons, List.sum_cons, Nat.add_assoc]

theorem sumMatched_eq (rf : Raft n) (index : Int) :
    rf.sumMatched index = 1 + ∑ i ∈ rf.followers index, i.val := by
  have hme : rf.numberOf index rf.me = 1 := if_pos rfl
  have hothers : ∑ i ∈ Finset.univ.erase rf.me, rf.numberOf index i =
      ∑ i ∈ rf.followers index, i.val := by
    symm
    apply Finset.sum_subset_zero_on_sdiff
    · intro i hi
      exact Finset.mem_erase.mpr ⟨(mem_followers.mp hi).1, Finset.mem_univ i⟩
    · intro i hi
      rcases Finset.mem_sdiff.mp hi with ⟨hi, hnot⟩
      have hne := Finset.ne_of_mem_erase hi
      rw [numberOf, if_neg hne, if_neg]
      exact fun hmatch => hnot (mem_followers.mpr ⟨hne, hmatch⟩)
    · intro i hi
      rcases mem_followers.mp hi with ⟨hne, hmatch⟩
      rw [numberOf, if_neg hne, if_pos hmatch]
  rw [sumMatched, foldl_addMatched, Nat.zero_add, ← Fin.sum_univ_def,
    ← Finset.add_sum_erase _ _ (Finset.mem_univ rf.me), hme, hothers]

theorem reach_iff_sumMatched {index : Int} :
    n / 2 + 1 ≤ rf.sumMatched index <-> rf.NumbersReach index := by
  rw [sumMatched_eq, NumbersReach]
  omega

theorem covered_iff {index : Int} :
    rf.Covered index <-> n / 2 ≤ (rf.followers index).card := by
  have hcard := Finset.card_erase_add_one (rf.me_mem_matching index)
  change n / 2 + 1 ≤ _ <-> n / 2 ≤ ((rf.matching index).erase rf.me).card
  omega

/-!
# Fewer peers hold more
-/

theorem matching_subset (rf : Raft n) {M N : Int} (h : M ≤ N) :
    rf.matching N ⊆ rf.matching M := by
  intro i hi
  rw [mem_matching] at hi ⊢
  exact hi.imp_right h.trans

theorem Covered.below {M N : Int} (h : M ≤ N) (hN : rf.Covered N) : rf.Covered M :=
  hN.trans (Finset.card_le_card (rf.matching_subset h))

theorem NumbersReach.below {M N : Int} (h : M ≤ N) (hN : rf.NumbersReach N) :
    rf.NumbersReach M :=
  hN.trans (Finset.sum_le_sum_of_subset
    (Finset.erase_subset_erase rf.me (rf.matching_subset h)))

/-!
# Going down the log
-/

theorem OwnEntry.above {index : Int} (h : rf.OwnEntry index) :
    rf.lastSnapshotIncludeIndex < index := by
  rcases h with ⟨log, hlog, _⟩
  unfold logAtIndex getSlicesIndexFromLogIndex at hlog
  rcases bind_eq_ok.mp hlog with ⟨slot, hslot, _⟩
  rcases bind_eq_ok.mp hslot with ⟨_, hlo, _⟩
  exact check_eq_ok.mp hlo

theorem OwnEntry.le_last {index : Int} (h : rf.OwnEntry index) :
    index ≤ rf.getLastLogIndex := by
  rcases h with ⟨log, hlog, _⟩
  unfold logAtIndex getSlicesIndexFromLogIndex at hlog
  rcases bind_eq_ok.mp hlog with ⟨slot, hslot, _⟩
  rcases bind_eq_ok.mp hslot with ⟨_, _, hslot⟩
  rcases bind_eq_ok.mp hslot with ⟨_, hhi, _⟩
  exact check_eq_ok.mp hhi

/-- The term of a retained index is looked up and compared. -/
theorem ownEntry_iff (h : Consecutive (rf.lastSnapshotIncludeIndex + 1) rf.logs)
    {index : Int} (hlo : rf.lastSnapshotIncludeIndex < index)
    (hhi : index ≤ rf.getLastLogIndex) :
    exists term, rf.getLogTermFromLogIndex index = .ok term ∧
      (term = rf.currentTerm <-> rf.OwnEntry index) := by
  rcases h.exists_place hlo hhi with ⟨k, log, rfl, hlog⟩
  refine ⟨log.logTerm, h.term_eq hlog, ?_⟩
  have hlook := h.logAtIndex_eq hlog
  constructor
  · intro hterm
    exact ⟨log, hlook, hterm⟩
  · rintro ⟨log', hlog', hterm⟩
    rw [hlook] at hlog'
    cases hlog'
    exact hterm

/-- The indices the loop may find with so many of them to go. -/
def Candidates (rf : Raft n) (k : Nat) : Set Int :=
  Findable rf.lastSnapshotIncludeIndex
    (fun N => rf.OwnEntry N ∧ N ≤ rf.lastSnapshotIncludeIndex + k) rf.NumbersReach

theorem commitDown_greatest (h : Consecutive (rf.lastSnapshotIncludeIndex + 1) rf.logs)
    (hreset : rf.commitIndex = rf.lastSnapshotIncludeIndex) (k : Nat)
    (hk : rf.lastSnapshotIncludeIndex + k ≤ rf.getLastLogIndex) :
    exists commitIndex, rf.commitDown k = .ok { rf with commitIndex := commitIndex } ∧
      IsGreatest (rf.Candidates k) commitIndex := by
  induction k with
  | zero =>
      refine ⟨rf.commitIndex, rfl, ?_⟩
      have hempty := @findable_empty _ _ _ rf.NumbersReach _
        fun N (hN : rf.OwnEntry N) => hN.above
      rw [hreset]
      simpa [Candidates] using hempty
  | succ k ih =>
      rcases ih (by omega) with ⟨below, hbelow, hgreatest⟩
      have hlo : rf.lastSnapshotIncludeIndex <
          rf.lastSnapshotIncludeIndex + ((k + 1 : Nat) : Int) := by omega
      rcases ownEntry_iff h hlo hk with ⟨term, hterm, hown⟩
      have hpass : (rf.OwnEntry (rf.lastSnapshotIncludeIndex + ((k + 1 : Nat) : Int)) ->
          ¬ rf.NumbersReach (rf.lastSnapshotIncludeIndex + ((k + 1 : Nat) : Int))) ->
          IsGreatest (rf.Candidates (k + 1)) below := by
        intro hnot
        refine findable_below (by omega) (fun N hN => ?_) hnot hgreatest
        omega
      rw [commitDown]
      by_cases hsum : rf.sumMatched (rf.lastSnapshotIncludeIndex + ((k + 1 : Nat) : Int)) ≥
          n / 2 + 1
      · have hreach := reach_iff_sumMatched.mp hsum
        simp only [hsum, if_true, hterm, bind, Except.bind]
        by_cases heq : term = rf.currentTerm
        · rw [if_pos heq]
          exact ⟨_, rfl, findable_top (by omega) (hown.mp heq) hreach⟩
        · rw [if_neg heq]
          exact ⟨below, hbelow, hpass fun howned => absurd (hown.mpr howned) heq⟩
      · simp only [hsum, if_false]
        exact ⟨below, hbelow, hpass fun _ hreach => hsum (reach_iff_sumMatched.mpr hreach)⟩

/-- What the function finds, in terms of the numbers of the followers. -/
theorem leaderUpdateCommitIndex_greatest
    (h : Consecutive (rf.lastSnapshotIncludeIndex + 1) rf.logs) :
    exists commitIndex,
      rf.leaderUpdateCommitIndex = .ok { rf with commitIndex := commitIndex } ∧
      IsGreatest (Findable rf.lastSnapshotIncludeIndex rf.OwnEntry rf.NumbersReach)
        commitIndex := by
  have hlast := h.lastIndex
  rcases @commitDown_greatest _ { rf with commitIndex := rf.lastSnapshotIncludeIndex } h rfl
    (rf.getLastLogIndex - rf.lastSnapshotIncludeIndex).toNat
    (by change rf.lastSnapshotIncludeIndex + _ ≤ rf.getLastLogIndex; omega) with
    ⟨commitIndex, hrun, hgreatest⟩
  refine ⟨commitIndex, hrun, ?_⟩
  have hall : rf.Candidates (rf.getLastLogIndex - rf.lastSnapshotIncludeIndex).toNat =
      Findable rf.lastSnapshotIncludeIndex rf.OwnEntry rf.NumbersReach := by
    ext N
    apply or_congr_right
    apply and_congr_left'
    constructor
    · exact And.left
    · intro hN
      have hle := hN.le_last
      exact ⟨hN, by omega⟩
  rw [← hall]
  exact hgreatest

/-- The rule the function is meant to compute. -/
def CommitsGreatest (rf : Raft n) : Prop :=
  exists commitIndex,
    rf.leaderUpdateCommitIndex = .ok { rf with commitIndex := commitIndex } ∧
    IsGreatest {N | N = rf.commitIndex ∨ (rf.OwnEntry N ∧ rf.Covered N)} commitIndex

/-- The function commits the greatest entry of the leader's term that a majority holds,
and never less than before, exactly where the numbers tell the majorities. -/
theorem leaderUpdateCommitIndex_iff
    (h : Consecutive (rf.lastSnapshotIncludeIndex + 1) rf.logs) :
    rf.CommitsGreatest <-> rf.NumbersTell := by
  rcases leaderUpdateCommitIndex_greatest h with ⟨found, hrun, hfound⟩
  have hiff := @findable_greatest_iff _ _ _ _ _ _ rf.commitIndex _
    (fun N (hN : rf.OwnEntry N) => hN.above) (fun _ _ h hN => NumbersReach.below h hN)
    (fun _ _ h (hN : rf.Covered _) => hN.below h) hfound
  constructor
  · rintro ⟨commitIndex, hrun', hgreatest⟩
    rw [hrun] at hrun'
    have heq : found = commitIndex :=
      congrArg Raft.commitIndex (Except.ok.inj hrun')
    rw [← heq] at hgreatest
    rcases hiff.mp hgreatest with ⟨hreached, hagree⟩
    exact ⟨hreached, fun N howned hnew => (hagree N howned hnew).trans covered_iff⟩
  · rintro ⟨hreached, hagree⟩
    exact ⟨found, hrun, hiff.mpr ⟨hreached, fun N howned hnew =>
      (hagree N howned hnew).trans covered_iff.symm⟩⟩

end Raft

/-!
# Numbers for votes
-/

/-- A leader of five servers whose entry only the server with number 4 is known to hold. -/
def lonelyLeader : Raft 5 :=
  { Raft.blank 0 (Persister.create [] []) with
    currentTerm := 1
    logs := [⟨[1], 1, 1⟩]
    matchIndex := fun i => if i = 4 then 1 else 0
    status := .leader }

theorem lonelyLeader_not_commitsGreatest : ¬ lonelyLeader.CommitsGreatest := by
  rintro ⟨commitIndex, hrun, hgreatest⟩
  have hfound : lonelyLeader.leaderUpdateCommitIndex.toOption.map Raft.commitIndex = some 1 := by
    decide
  rw [hrun] at hfound
  have hindex : commitIndex = 1 := Option.some.inj hfound
  rw [hindex] at hgreatest
  rcases hgreatest.1 with hold | ⟨_, hcovered⟩
  · exact absurd hold (by decide)
  · exact absurd hcovered (by unfold Raft.Covered; decide)

/-- A leader of three servers whose follower 1 holds everything. -/
def heldLeader : Raft 3 :=
  { Raft.blank 0 (Persister.create [] []) with
    currentTerm := 1
    logs := [⟨[1], 1, 1⟩, ⟨[2], 1, 2⟩]
    matchIndex := fun i => if i = 1 then 2 else 0
    status := .leader }

theorem heldLeader_commitsGreatest : heldLeader.CommitsGreatest :=
  (Raft.leaderUpdateCommitIndex_iff (by decide)).mpr
    { reached := Or.inl rfl
      agree := by
        intro N howned hnew
        have hlo := howned.above
        have hhi := howned.le_last
        change N ≤ 2 at hhi
        change 0 < N at hlo
        have hN : N = 1 ∨ N = 2 := by omega
        rcases hN with rfl | rfl
        · unfold Raft.NumbersReach
          decide
        · unfold Raft.NumbersReach
          decide }

end RaftCore
end KVRaft
