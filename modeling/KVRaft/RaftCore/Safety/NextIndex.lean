import KVRaft.RaftCore.Safety.DelayedMessages
import KVRaft.RaftCore.Safety.LeaderNotes

/-!
# The range of nextIndex

A leader's next indices stay inside its log and its own assertions hold, as long
as the terms that short followers answer with do not outgrow the log.
-/

namespace KVRaft
namespace RaftCore

open Foundation LogSystem Cluster

section

variable {n : Nat}

/-- Next indices in range, a heartbeat that runs through, and threads of
heartbeats that survive the replies under way. -/
structure LeadsSafely (σ : Cluster n) (i : Fin n) : Prop where
  next : forall j, j ≠ i -> 1 ≤ (σ.raft i).nextIndex j ∧
    (σ.raft i).nextIndex j ≤ (σ.raft i).getLastLogIndex + 1
  heartBeat : exists messages, (σ.raft i).doHeartBeat = some (messages, none)
  reply : forall call, call ∈ σ.appendCalls -> call.caller = i -> forall reply,
    call.phase = .replied reply -> exists result,
      (σ.raft i).sendAppendEntries call.callee call.args reply
        ((σ.appendNums i).getD call.counter 0) = .ok result

theorem Progress.leadsSafely {α : Logs n} {σ : Cluster n} (h : Progress σ)
    (hnoted : Noted σ) (href : Refines α σ) {i : Fin n} (hl : (σ.raft i).status = .leader) :
    LeadsSafely σ i where
  next := (h.leader i hl).next
  heartBeat := by
    rcases (href.node i).held with ⟨s, hs, _⟩
    have hnone : ((σ.raft i).heartBeats (Raft.othersOf (σ.raft i).me)).2 = none := by
      apply Raft.heartBeats_total
      intro j hj
      rw [Raft.mem_othersOf, (href.node i).me] at hj
      rcases (h.leader i hl).next j hj with ⟨hlo, hhi⟩
      rw [hs.lastIndex] at hhi
      exact hs.heartBeatTo_total hlo hhi
    refine ⟨((σ.raft i).heartBeats (Raft.othersOf (σ.raft i).me)).1, ?_⟩
    rw [Raft.doHeartBeat, if_pos hl, ← hnone]
  reply := by
    rintro call hcall rfl reply hphase
    exact hnoted.sendAppendEntries href hcall hphase _

variable [Archive]

theorem progress {tr : List (Transition (Cluster n) (Action n))} {σ : Cluster n}
    (h : (clusterSystem n).Trace tr σ) (hrange : forall t, t ∈ tr -> HintsInRange t) :
    Progress σ := by
  refine TransitionSystem.Trace.invariant_under (P := fun _ σ => Progress σ)
    Progress.initial ?_ h hrange
  intro tr σ σ' a htrace _ ih hstep hlast
  rcases explained htrace with ⟨α, hα⟩
  exact ih.step hα.refines (step_effect hstep) hlast

theorem next_index_in_range (r : (clusterSystem n).Run) (hrange : r.Always HintsInRange)
    {σ : Cluster n} (hσ : r.Visits σ) {i : Fin n} (hl : (σ.raft i).status = .leader) :
    LeadsSafely σ i := by
  rcases hσ.trace with ⟨earlier, htrace, hsub⟩
  rcases explained htrace with ⟨α, hα⟩
  exact (progress htrace fun t ht => hrange t (hsub t ht)).leadsSafely (noted htrace)
    hα.refines hl

end

/-!
# A high term over a short log

Server 0 is elected in term 5 and replicates one of two entries to server 1.
Elected again in term 7 it offers what follows its second entry; server 1 lacks
that entry and answers 6, one more than the term of its last one.
-/

def highTermSchedule : List (Action 2) :=
  [.doElection 0, .doElection 0, .doElection 0, .doElection 0, .doElection 0,
    .requestVote 4, .requestVoteReply 4, .start 0 [1], .doHeartBeat 0, .appendEntries 0,
    .appendEntriesReply 0, .start 0 [2], .doElection 1, .requestVote 5, .doElection 0,
    .requestVote 6, .requestVoteReply 6, .doHeartBeat 0, .appendEntries 1,
    .appendEntriesReply 1]

def highTermRun : (@clusterSystem plainArchive 2).Run :=
  TransitionSystem.runOf _ highTermSchedule (by decide +kernel)

theorem highTermRun_leaves_range :
    highTermRun.Visits highTermRun.state ∧
      (highTermRun.state.raft 0).status = .leader ∧
      ¬ LeadsSafely highTermRun.state 0 ∧
      exists messages, (highTermRun.state.raft 0).doHeartBeat =
        some (messages, some .sliceBeyondLast) := by
  refine ⟨Or.inl rfl, by decide +kernel, ?_, ?_⟩
  · intro h
    have hnext : (highTermRun.state.raft 0).nextIndex 1 = 6 ∧
        (highTermRun.state.raft 0).getLastLogIndex = 2 := by
      decide +kernel
    have := (h.next 1 (by decide)).2
    omega
  · have hfault : ((highTermRun.state.raft 0).doHeartBeat.map Prod.snd) =
        some (some .sliceBeyondLast) := by
      decide +kernel
    rcases Option.map_eq_some_iff.mp hfault with ⟨⟨messages, fault⟩, heq, rfl⟩
    exact ⟨messages, heq⟩

def lowTermRun : (@clusterSystem plainArchive 2).Run :=
  TransitionSystem.runOf _ (highTermSchedule.take 17) (by decide +kernel)

/-- Before that offer every next index is in range. -/
theorem lowTermRun_leads_safely : LeadsSafely lowTermRun.state 0 := by
  have hrange : forall t, t ∈ lowTermRun.trace -> HintsInRange t := by
    decide +kernel
  exact @next_index_in_range 2 plainArchive lowTermRun hrange _ (Or.inl rfl) 0
    (by decide +kernel)

end RaftCore
end KVRaft
