import KVRaft.RaftCore.Cluster.Simulation

/-!
# Election safety

A term has one leader, which is elected once.
-/

namespace KVRaft
namespace RaftCore

open Foundation LogSystem Cluster

variable {n : Nat} [Archive]

/-- The thread of an answered vote call carries on without a failed assertion. -/
theorem sendRequestVote_total {α : Logs n} {σ : Cluster n} (hb : (raftLogs n).Ballots α)
    (h : Refines α σ) {call : VoteCall n} (hcall : call ∈ σ.voteCalls)
    {reply : RequestVoteReply} (hphase : call.phase = .replied reply) :
    exists result, (σ.raft call.caller).sendRequestVote reply
      ((σ.votedNums call.caller).getD call.counter 0) = .ok result := by
  cases houtcome : (σ.raft call.caller).sendRequestVote reply
      ((σ.votedNums call.caller).getD call.counter 0) with
  | ok result => exact ⟨result, rfl⟩
  | error fault =>
      exfalso
      rcases Raft.sendRequestVote_fault houtcome with
        ⟨_, hterm, hgrant, hquorum, hstatus⟩
      rcases List.mem_iff_getElem?.mp hcall with ⟨k, hk⟩
      have hcounter := counter_getD (h.elections.counted hcall)
      have hsame := (h.elections.granted hcall (Or.inl hphase) hgrant).1
      have hnone := (h.elections.fresh hb hk hphase hgrant hcounter hquorum).1
      rcases (h.node call.caller).leads hstatus with ⟨_, hlead, _⟩
      rw [← hterm, hsame, hnone] at hlead
      cases hlead

/-- No term is won twice, by whomever, and no winner is asked to win again. -/
theorem election_safety (r : (clusterSystem n).Run) :
    (r.trace.Pairwise fun t u => forall i j T U, BecomesLeader t i T ->
      BecomesLeader u j U -> T ≠ U) ∧
    (forall t, t ∈ r.trace -> forall i j T, BecomesLeader t i T ->
      BecomesLeader t j T -> i = j) ∧
    (forall σ, r.Visits σ -> forall call, call ∈ σ.voteCalls -> forall reply,
      call.phase = .replied reply -> exists result,
        (σ.raft call.caller).sendRequestVote reply
          ((σ.votedNums call.caller).getD call.counter 0) = .ok result) := by
  rcases explained r.valid with ⟨α, hα⟩
  refine ⟨?_, ?_, ?_⟩
  · refine hα.elections.imp ?_
    intro t u htu i j T U hT hU
    exact htu hT hU
  · intro t ht i j T hi hj
    have hlead := ((hα.recorded t ht).elected hi).1
    rw [((hα.recorded t ht).elected hj).1] at hlead
    exact (Option.some.inj hlead).symm
  · intro σ hσ call hcall reply hphase
    rcases hσ.trace with ⟨earlier, htrace, _⟩
    rcases explained htrace with ⟨β, hβ⟩
    exact sendRequestVote_total hβ.ballots hβ.refines hcall hphase

end RaftCore
end KVRaft
