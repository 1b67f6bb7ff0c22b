import KVRaft.RaftCore.Cluster.Simulation
import KVRaft.RaftCore.Raft.Proceeding

/-!
# A run as one of its nodes sees it

A step of the cluster runs at most one handler, at one node, and what the node
receives is what some call carries.
-/

namespace KVRaft
namespace RaftCore

open Foundation LogSystem

namespace Cluster

variable {n : Nat} [Archive]

/-- A handler that a node may run next. -/
def MayRun (σ : Cluster n) : Handler n -> Prop
  | .appendEntries1 args => exists call, call ∈ σ.appendCalls ∧ call.args = args
  | _ => True

/-- The node is left alone, or one of its handlers has run through. -/
def NodeStep (σ σ' : Cluster n) (i : Fin n) : Prop :=
  σ'.raft i = σ.raft i ∨
    exists handler, σ.MayRun handler ∧ handler.run (σ.raft i) = .ok (σ'.raft i)

section

variable {σ : Cluster n} {i j : Fin n}

theorem nodeStep_setServer {server : Server n} (handler : Handler n)
    (hmay : σ.MayRun handler) (hrun : handler.run (σ.raft j) = .ok server.raft) :
    NodeStep σ (σ.setServer j server) i := by
  by_cases hi : i = j
  · right
    have hafter : (σ.setServer j server).raft i = server.raft := by
      rw [raft, setServer_servers, if_pos hi]
    refine ⟨handler, hmay, ?_⟩
    rw [hafter, hi]
    exact hrun
  · left
    rw [raft, setServer_servers, if_neg hi]

theorem nodeStep_same {server : Server n} (hsame : server.raft = σ.raft j) :
    NodeStep σ (σ.setServer j server) i := by
  left
  rw [raft, setServer_servers]
  by_cases hi : i = j
  · rw [if_pos hi, hsame, hi]
  · rw [if_neg hi]

/-- A handler that faults stops its server and leaves the node as it was. -/
theorem nodeStep_resume {β : Type} {outcome : Outcome β} {next : β -> Cluster n}
    (h : forall b, outcome = .ok b -> NodeStep σ (next b) i) :
    NodeStep σ (σ.resume j outcome next) i := by
  cases houtcome : outcome with
  | error fault => exact nodeStep_same rfl
  | ok b => exact h b houtcome

end

theorem StepEffect.nodeStep {σ σ' : Cluster n} {a : Action n} (h : StepEffect σ a σ')
    (i : Fin n) : NodeStep σ σ' i := by
  cases h with
  | @doElection j hrun =>
      unfold Cluster.doElection
      cases helect : (σ.raft j).doElection with
      | mk rf requests =>
          cases requests with
          | none => exact Or.inl (by simp only [helect])
          | some requests =>
              simp only [helect]
              exact nodeStep_setServer .doElection trivial
                (congrArg (fun r : _ × _ => Except.ok r.1) helect)
  | @doHeartBeat j hrun =>
      unfold Cluster.doHeartBeat
      cases hbeat : (σ.raft j).doHeartBeat with
      | none => exact Or.inl (by simp only [hbeat])
      | some result =>
          simp only [hbeat]
          exact nodeStep_same rfl
  | @start j command hrun => exact nodeStep_setServer (.start command) trivial rfl
  | @applierTicker j hrun =>
      apply nodeStep_resume
      rintro ⟨rf, msgs⟩ happly
      exact nodeStep_setServer .getApplyLogs trivial
        (congrArg (Except.map Prod.fst) happly)
  | @snapshot j index data hrun =>
      apply nodeStep_resume
      intro rf hsnapshot
      exact nodeStep_setServer (.snapshot index data) trivial hsnapshot
  | @requestVote k call hcall hrun hphase =>
      apply nodeStep_resume
      rintro ⟨rf, reply⟩ hvote
      exact nodeStep_setServer (.requestVote call.args) trivial
        (congrArg (Except.map Prod.fst) hvote)
  | @requestVoteReply k call reply hcall hrun hphase =>
      apply nodeStep_resume
      rintro ⟨rf, votedNum⟩ hvote
      exact nodeStep_setServer (.sendRequestVote reply _) trivial
        (congrArg (Except.map Prod.fst) hvote)
  | @appendEntries k call hcall hrun hphase =>
      apply nodeStep_resume
      rintro ⟨rf, reply⟩ happend
      exact nodeStep_setServer (.appendEntries1 call.args)
        ⟨call, List.mem_of_getElem? hcall, rfl⟩ (congrArg (Except.map Prod.fst) happend)
  | @appendEntriesReply k call reply hcall hrun hphase =>
      apply nodeStep_resume
      rintro ⟨rf, appendNums⟩ happend
      exact nodeStep_setServer (.sendAppendEntries call.callee call.args reply _) trivial
        (congrArg (Except.map Prod.fst) happend)
  | @leaderSendSnapShot k call hcall hrun hphase =>
      exact nodeStep_setServer .leaderSendSnapShot trivial rfl
  | @installSnapshot k call args hcall hrun hphase =>
      apply nodeStep_resume
      rintro ⟨rf, reply, msg⟩ hinstall
      exact nodeStep_setServer (.installSnapshot args) trivial
        (congrArg (Except.map Prod.fst) hinstall)
  | @installSnapshotReply k call args reply hcall hrun hphase =>
      exact nodeStep_setServer (.leaderSendSnapShotReply call.callee args reply) trivial rfl

omit [Archive] in
/-- The requests of heartbeats carry consecutive entries. -/
theorem followsOn_of_mayRun {α : Logs n} {σ : Cluster n} (h : Refines α σ)
    {handler : Handler n} (hmay : σ.MayRun handler) : handler.FollowsOn := by
  cases handler with
  | appendEntries1 args =>
      rcases hmay with ⟨call, hcall, rfl⟩
      rcases h.rounds.request hcall with ⟨M, p, hreq⟩
      apply consecutive_iff.mpr
      intro k log hlog
      rw [hreq.entries, List.getElem?_drop] at hlog
      rw [(hreq.numbered _ _ hlog).1, hreq.prevLogIndex]
      push_cast
      omega
  | _ => trivial

end Cluster
end RaftCore
end KVRaft
