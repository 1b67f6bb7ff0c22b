import KVRaft.RaftCore.Safety.LeaderCompleteness
import KVRaft.RaftCore.Safety.NodeInvariant

/-!
# The tail behind a snapshot

`InstallSnapshot` keeps every entry behind the snapshot.  They belong there only
if the server holds the snapshot's last entry itself.
-/

namespace KVRaft
namespace RaftCore

open Foundation Cluster

section

variable {n : Nat}

namespace Raft

/-- The server holds the last entry of the snapshot. -/
def HoldsEntry (rf : Raft n) (logIndex logTerm : Int) : Prop :=
  exists held, rf.logAtIndex logIndex = .ok held ∧ held.logTerm = logTerm

/-- What installing a snapshot should leave of the log. -/
structure KeepsMatchingTail (rf : Raft n) (args : InstallSnapshotRequest) (rf' : Raft n) :
    Prop where
  index : rf'.lastSnapshotIncludeIndex = args.lastSnapshotIncludeIndex
  term : rf'.lastSnapshotIncludeTerm = args.lastSnapshotIncludeTerm
  kept : HoldsEntry rf args.lastSnapshotIncludeIndex args.lastSnapshotIncludeTerm ->
    rf'.logs = rf.logs.filter fun log => args.lastSnapshotIncludeIndex < log.logIndex
  dropped : ¬ HoldsEntry rf args.lastSnapshotIncludeIndex args.lastSnapshotIncludeTerm ->
    rf'.logs = []

end Raft

/-- The entries behind an index are those that the slots of the vector say. -/
theorem Consecutive.filter_eq_drop {first : Int} {logs : List LogEntry}
    (h : Consecutive first logs) (index : Int) :
    logs.filter (fun log => index < log.logIndex) = logs.drop (index + 1 - first).toNat := by
  induction logs generalizing first with
  | nil => rw [List.drop_nil, List.filter_nil]
  | cons log rest ih =>
      rcases h with ⟨hlog, hrest⟩
      have hind := ih hrest
      by_cases hbehind : index < first
      · have hzero : (index + 1 - first).toNat = 0 := by omega
        have hzero' : (index + 1 - (first + 1)).toNat = 0 := by omega
        rw [hzero', List.drop_zero] at hind
        rw [List.filter_cons_of_pos (by rw [hlog]; exact decide_eq_true hbehind), hind,
          hzero, List.drop_zero]
      · have hsucc : (index + 1 - first).toNat = (index + 1 - (first + 1)).toNat + 1 := by
          omega
        rw [List.filter_cons_of_neg (by rw [hlog]; simpa using hbehind), hind, hsucc,
          List.drop_succ_cons]

namespace Raft

/-- Whatever lies behind the snapshot is kept. -/
theorem logsBeyond_eq {rf : Raft n} {index : Int}
    (h : Consecutive (rf.lastSnapshotIncludeIndex + 1) rf.logs)
    (hindex : rf.lastSnapshotIncludeIndex < index) :
    rf.logsBeyond index = .ok (rf.logs.filter fun log => index < log.logIndex) := by
  rw [h.filter_eq_drop]
  unfold logsBeyond
  by_cases hbeyond : rf.getLastLogIndex > index
  · have hslot : (index - rf.lastSnapshotIncludeIndex - 1 + 1).toNat =
        (index + 1 - (rf.lastSnapshotIncludeIndex + 1)).toNat := by omega
    unfold getSlicesIndexFromLogIndex
    rw [if_pos hbeyond, myAssert, check_of hindex, myAssert, check_of hbeyond.le, ← hslot]
    rfl
  · rw [if_neg hbeyond]
    rw [h.lastIndex] at hbeyond
    rw [List.drop_eq_nil_of_le (by omega)]

theorem filter_eq_nil_iff {rf : Raft n} {index : Int}
    (h : Consecutive (rf.lastSnapshotIncludeIndex + 1) rf.logs)
    (hindex : rf.lastSnapshotIncludeIndex < index) :
    (rf.logs.filter fun log => index < log.logIndex) = [] <->
      rf.getLastLogIndex ≤ index := by
  rw [h.filter_eq_drop, h.lastIndex, List.drop_eq_nil_iff]
  omega

/-- A server whose log reaches further holds some entry at the index. -/
theorem logAtIndex_total {rf : Raft n} {index : Int}
    (h : Consecutive (rf.lastSnapshotIncludeIndex + 1) rf.logs)
    (hindex : rf.lastSnapshotIncludeIndex < index) (hlast : index ≤ rf.getLastLogIndex) :
    exists held, rf.logAtIndex index = .ok held := by
  have hlen := hlast
  rw [h.lastIndex] at hlen
  obtain ⟨k, hk⟩ : exists k : Nat, index - rf.lastSnapshotIncludeIndex - 1 = k :=
    ⟨(index - rf.lastSnapshotIncludeIndex - 1).toNat, by omega⟩
  rcases getElem?_of_lt (show k < rf.logs.length by omega) with ⟨held, hheld⟩
  refine ⟨held, ?_⟩
  unfold logAtIndex getSlicesIndexFromLogIndex
  rw [myAssert, check_of hindex, myAssert, check_of hlast]
  simp only [bind, Except.bind, pure, Except.pure, hk]
  exact logAt_natCast.mpr hheld

theorem keepsForeignTail_iff {rf : Raft n} {args : InstallSnapshotRequest}
    (h : Consecutive (rf.lastSnapshotIncludeIndex + 1) rf.logs)
    (hterm : rf.currentTerm ≤ args.term)
    (hindex : rf.lastSnapshotIncludeIndex < args.lastSnapshotIncludeIndex) :
    KeepsForeignTail rf args <->
      args.lastSnapshotIncludeIndex < rf.getLastLogIndex ∧
        ¬ HoldsEntry rf args.lastSnapshotIncludeIndex args.lastSnapshotIncludeTerm := by
  constructor
  · rintro ⟨_, _, hlonger, held, hheld, hne⟩
    refine ⟨hlonger, ?_⟩
    rintro ⟨held', hheld', heq⟩
    rw [hheld] at hheld'
    cases hheld'
    exact hne heq
  · rintro ⟨hlonger, hnone⟩
    rcases logAtIndex_total h hindex hlonger.le with ⟨held, hheld⟩
    exact ⟨hterm, hindex, hlonger, held, hheld, fun heq => hnone ⟨held, hheld, heq⟩⟩

end Raft

variable [Archive]

open Raft

/-- In every state of every run an accepted snapshot is installed, and it leaves the
tail it should unless the server holds another entry at the snapshot's last index
and more behind it. -/
theorem keeps_matching_tail_iff (r : (clusterSystem n).Run) {σ : Cluster n}
    (hσ : r.Visits σ) (i : Fin n) (args : InstallSnapshotRequest)
    (hterm : (σ.raft i).currentTerm ≤ args.term)
    (hindex : (σ.raft i).lastSnapshotIncludeIndex < args.lastSnapshotIncludeIndex) :
    exists rf' reply,
      (σ.raft i).installSnapshot args = .ok (rf', reply, some (snapshotMsg args)) ∧
        (KeepsMatchingTail (σ.raft i) args rf' <-> ¬ KeepsForeignTail (σ.raft i) args) := by
  rcases hσ.trace with ⟨earlier, htrace, _⟩
  have hlogs := (indexed htrace i).logs
  generalize σ.raft i = rf at hterm hindex hlogs
  have hfollow : (rf.followSnapshot args.term).lastSnapshotIncludeIndex =
      rf.lastSnapshotIncludeIndex := by
    rw [followSnapshot_eq]
    exact follow_lastSnapshotIncludeIndex rf args.term
  refine ⟨(rf.followSnapshot args.term).takeSnapshot args
    (rf.logs.filter fun log => args.lastSnapshotIncludeIndex < log.logIndex),
    { term := ((rf.followSnapshot args.term).takeSnapshot args
        (rf.logs.filter fun log => args.lastSnapshotIncludeIndex < log.logIndex)).currentTerm },
    ?_, ?_⟩
  · unfold Raft.installSnapshot
    simp only [if_neg (not_lt.mpr hterm), hfollow, if_neg (not_le.mpr hindex),
      followSnapshot_logsBeyond, logsBeyond_eq hlogs hindex]
    rfl
  · rw [keepsForeignTail_iff hlogs hterm hindex]
    constructor
    · rintro hkeeps ⟨hlonger, hnone⟩
      exact absurd ((filter_eq_nil_iff hlogs hindex).mp (hkeeps.dropped hnone))
        (not_le.mpr hlonger)
    · intro hnot
      refine ⟨rfl, rfl, fun _ => rfl, ?_⟩
      intro hnone
      exact (filter_eq_nil_iff hlogs hindex).mpr
        (not_lt.mp fun hlonger => hnot ⟨hlonger, hnone⟩)

end

/-!
# A tail of another history

Server 0 leads term 1 and keeps three entries to itself.  Server 1, leading term 2,
commits its own first entry with server 2, takes a snapshot of it and sends that to
server 0.
-/

open Raft

def foreignTailSchedule : List (Action 3) :=
  [.doElection 0, .requestVote 0, .requestVoteReply 0,
    .start 0 [1], .start 0 [1], .start 0 [1],
    .doElection 1, .requestVote 3, .requestVoteReply 3, .start 1 [2], .doHeartBeat 1,
    .appendEntries 1, .appendEntriesReply 1, .applierTicker 1, .snapshot 1 1 [9],
    .doHeartBeat 1, .leaderSendSnapShot 0]

def foreignTailRun : (@clusterSystem plainArchive 3).Run :=
  TransitionSystem.runOf _ foreignTailSchedule (by decide +kernel)

theorem foreignTailRun_keeps_tail :
    exists call args, call ∈ foreignTailRun.state.snapshotCalls ∧ call.callee = 0 ∧
      call.request = some args ∧
      (foreignTailRun.state.raft 0).currentTerm ≤ args.term ∧
      (foreignTailRun.state.raft 0).lastSnapshotIncludeIndex <
        args.lastSnapshotIncludeIndex ∧
      exists rf' reply msg,
        @Raft.installSnapshot 3 plainArchive (foreignTailRun.state.raft 0) args =
          .ok (rf', reply, msg) ∧
        ¬ KeepsMatchingTail (foreignTailRun.state.raft 0) args rf' := by
  have h : exists call, call ∈ foreignTailRun.state.snapshotCalls ∧ call.callee = 0 ∧
      exists args, args ∈ call.request ∧
        (foreignTailRun.state.raft 0).currentTerm ≤ args.term ∧
        (foreignTailRun.state.raft 0).lastSnapshotIncludeIndex <
          args.lastSnapshotIncludeIndex ∧
        HoldsOther (foreignTailRun.state.raft 0) args.lastSnapshotIncludeIndex
          args.lastSnapshotIncludeTerm ∧
        (@Raft.installSnapshot 3 plainArchive (foreignTailRun.state.raft 0) args).map
          (fun result => result.1.logs.length) = .ok 2 := by
    decide +kernel
  rcases h with ⟨call, hcall, hcallee, args, hargs, hterm, hindex, ⟨held, hheld, hne⟩, hrun⟩
  refine ⟨call, args, hcall, hcallee, hargs, hterm, hindex, ?_⟩
  cases hresult : @Raft.installSnapshot 3 plainArchive (foreignTailRun.state.raft 0) args with
  | error fault =>
      rw [hresult] at hrun
      cases hrun
  | ok result =>
      rw [hresult] at hrun
      refine ⟨result.1, result.2.1, result.2.2, rfl, ?_⟩
      intro hkeeps
      have htwo : result.1.logs.length = 2 := Except.ok.inj hrun
      have hnone : ¬ HoldsEntry (foreignTailRun.state.raft 0) args.lastSnapshotIncludeIndex
          args.lastSnapshotIncludeTerm := by
        rintro ⟨held', hheld', heq⟩
        rw [hheld] at hheld'
        cases hheld'
        exact hne heq
      rw [hkeeps.dropped hnone] at htwo
      cases htwo

/-- A snapshot of the first of two entries, held with the same term. -/
def matchingRequest : InstallSnapshotRequest where
  leaderId := 1
  term := 2
  lastSnapshotIncludeIndex := 1
  lastSnapshotIncludeTerm := 1
  data := [9]

theorem orderlyRun_keeps_matching_tail :
    HoldsEntry (orderlyRun.state.raft 1) 1 1 ∧ exists rf' reply,
      @Raft.installSnapshot 3 plainArchive (orderlyRun.state.raft 1) matchingRequest =
        .ok (rf', reply, some (snapshotMsg matchingRequest)) ∧
      KeepsMatchingTail (orderlyRun.state.raft 1) matchingRequest rf' := by
  have hheld : ((orderlyRun.state.raft 1).logAtIndex 1).map LogEntry.logTerm = .ok 1 := by
    decide +kernel
  have hholds : HoldsEntry (orderlyRun.state.raft 1) 1 1 := by
    cases hat : (orderlyRun.state.raft 1).logAtIndex 1 with
    | error fault =>
        rw [hat] at hheld
        cases hheld
    | ok held =>
        rw [hat] at hheld
        exact ⟨held, hat, Except.ok.inj hheld⟩
  have hclean : ¬ KeepsForeignTail (orderlyRun.state.raft 1) matchingRequest := by
    decide +kernel
  rcases @keeps_matching_tail_iff 3 plainArchive orderlyRun _ (Or.inl rfl) 1 matchingRequest
    (by decide +kernel) (by decide +kernel) with ⟨rf', reply, hrun, hkeeps⟩
  exact ⟨hholds, rf', reply, hrun, hkeeps.mpr hclean⟩

end RaftCore
end KVRaft
