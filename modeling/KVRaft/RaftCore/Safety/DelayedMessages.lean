import KVRaft.RaftCore.Cluster.Simulation
import KVRaft.RaftCore.Raft.PlainArchive

/-!
# Delayed messages

Whatever its receiver has done in the meantime, a request of a heartbeat is
answered, unless it is still current and starts below the receiver's snapshot.
-/

namespace KVRaft
namespace RaftCore

open Foundation LogSystem Cluster

section

variable {n : Nat} [Archive]

/-- The handler ends by returning a reply. -/
def Answers (rf : Raft n) (args : AppendEntriesArgs) : Prop :=
  exists result, rf.appendEntries1 args = .ok result

/-- Every request sent so far would be answered now. -/
def AnswersDelayed (r : (clusterSystem n).Run) : Prop :=
  forall σ, r.Visits σ -> forall call, call ∈ σ.appendCalls ->
    Answers (σ.raft call.callee) call.args

theorem answers_iff (r : (clusterSystem n).Run) {σ : Cluster n} (hσ : r.Visits σ)
    {call : AppendCall n} (hcall : call ∈ σ.appendCalls) :
    Answers (σ.raft call.callee) call.args <->
      call.args.term < (σ.raft call.callee).currentTerm ∨
        (σ.raft call.callee).lastSnapshotIncludeIndex ≤ call.args.prevLogIndex := by
  rcases hσ.trace with ⟨earlier, htrace, _⟩
  rcases explained htrace with ⟨α, hα⟩
  have hnode := hα.refines.node call.callee
  rcases hnode.held with ⟨s, hs, _⟩
  rcases hα.refines.rounds.request hcall with ⟨M, p, hreq⟩
  exact hs.appendEntries1 hnode.commit hreq.le hreq.numbered
    (Represents.request_agree hα.ballots hreq) hreq.prevLogIndex hreq.entries

end

/-!
# A request from before a snapshot

Server 0 sends its first entry twice.  Server 1 takes one of the two, learns that
the entry is committed, applies it and takes a snapshot; then the other arrives.
-/

def snapshotSchedule : List (Action 2) :=
  [.doElection 0, .requestVote 0, .requestVoteReply 0, .start 0 [1], .doHeartBeat 0,
    .doHeartBeat 0, .appendEntries 0, .appendEntriesReply 0, .doHeartBeat 0,
    .appendEntries 2, .applierTicker 1, .snapshot 1 1 [5]]

def snapshotRun : (@clusterSystem plainArchive 2).Run :=
  TransitionSystem.runOf _ snapshotSchedule (by decide +kernel)

def lateCall : AppendCall 2 where
  caller := 0
  callee := 1
  args :=
    { term := 1
      leaderId := 0
      prevLogIndex := 0
      prevLogTerm := 0
      entries := [⟨[1], 1, 1⟩]
      leaderCommit := 0 }
  counter := 1
  phase := .requested

theorem lateCall_mem : lateCall ∈ snapshotRun.state.appendCalls := by
  decide +kernel

theorem lateCall_not_answered :
    ¬ @AnswersDelayed 2 plainArchive snapshotRun := by
  intro h
  rcases h _ (Or.inl rfl) lateCall lateCall_mem with ⟨result, hresult⟩
  have hfault : (@Raft.appendEntries1 2 plainArchive (snapshotRun.state.raft 1)
      lateCall.args).toOption.isNone = true := by
    decide +kernel
  change @Raft.appendEntries1 2 plainArchive (snapshotRun.state.raft 1) lateCall.args =
    _ at hresult
  rw [hresult] at hfault
  cases hfault

/-- Server 1 itself answers the late request before it takes its snapshot. -/
theorem lateCall_answered_before : exists t, t ∈ snapshotRun.trace ∧
    t.action = .snapshot 1 1 [5] ∧
      @Answers 2 plainArchive (t.before.raft 1) lateCall.args := by
  have hstep : exists t, t ∈ snapshotRun.trace ∧ t.action = .snapshot 1 1 [5] ∧
      lateCall ∈ t.before.appendCalls ∧
      (t.before.raft 1).lastSnapshotIncludeIndex ≤ lateCall.args.prevLogIndex := by
    decide +kernel
  rcases hstep with ⟨t, ht, haction, hcall, hindex⟩
  exact ⟨t, ht, haction, (@answers_iff 2 plainArchive snapshotRun t.before
    (Or.inr ⟨t, ht, rfl⟩) lateCall hcall).mpr (Or.inr hindex)⟩

end RaftCore
end KVRaft
