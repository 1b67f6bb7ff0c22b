import KVRaft.RaftCore.Cluster.Simulation
import KVRaft.RaftCore.Raft.PlainArchive

/-!
# Log matching

Two logs that share an entry share everything before it, unless some step has
mixed two logs.
-/

namespace KVRaft
namespace RaftCore

open Foundation LogSystem Cluster

namespace Cluster

variable {n : Nat}

def LogMatching (σ : Cluster n) : Prop :=
  forall i j index d e, (σ.raft i).logAtIndex index = .ok d ->
    (σ.raft j).logAtIndex index = .ok e -> d.logTerm = e.logTerm ->
    forall below d' e', below < index -> (σ.raft i).logAtIndex below = .ok d' ->
      (σ.raft j).logAtIndex below = .ok e' ->
      d'.logTerm = e'.logTerm ∧ d'.command = e'.command

end Cluster

section

variable {n : Nat}

theorem Sound.logMatching {α : Logs n} {σ : Cluster n} (h : Refines α σ)
    (hs : Sound α σ) : LogMatching σ := by
  intro i j index d e hd he hterm below d' e' hbelow hd' he'
  rcases (h.node i).held with ⟨s, hi, _⟩
  rcases (h.node j).held with ⟨t, hj, _⟩
  rcases hi.logAtIndex_inv hd with ⟨k, hk, _, hdk⟩
  rcases hj.logAtIndex_inv he with ⟨k', hk', _, hek⟩
  rcases hi.logAtIndex_inv hd' with ⟨m, hm, _, hdm⟩
  rcases hj.logAtIndex_inv he' with ⟨m', hm', _, hem⟩
  have hkk : k' = k := by omega
  have hmm : m' = m := by omega
  rw [hkk] at hek
  rw [hmm] at hem
  have htake := (hs.safe.log_coherent i).log_matching (hs.safe.log_coherent j) hdk hek hterm
  have hlt : m < k + 1 := by omega
  rw [← List.getElem?_take_of_lt hlt, htake, List.getElem?_take_of_lt hlt, hem] at hdm
  cases hdm
  exact ⟨rfl, rfl⟩

theorem logs_match [Archive] (r : (clusterSystem n).Run) (hclean : r.Always Clean)
    {σ : Cluster n} (hσ : r.Visits σ) : LogMatching σ := by
  rcases hσ.trace with ⟨earlier, htrace, hsub⟩
  rcases explained htrace with ⟨α, hα⟩
  exact (hα.sound fun t ht => hclean t (hsub t ht)).1.logMatching hα.refines

end

/-!
# Two leaders and a follower

Server 0 leads term 1 and replicates two entries to server 1.  Server 2, elected
in term 2 by servers that have seen neither, replaces the first of them there.
-/

def mixedSchedule : List (Action 5) :=
  [.doElection 0, .requestVote 2, .requestVoteReply 2, .requestVote 3, .requestVoteReply 3,
    .start 0 [1], .start 0 [2], .doHeartBeat 0, .appendEntries 0,
    .doElection 2, .doElection 2, .requestVote 10, .requestVoteReply 10, .requestVote 11,
    .requestVoteReply 11, .start 2 [3], .doHeartBeat 2, .appendEntries 5]

def mixedRun : (@clusterSystem plainArchive 5).Run :=
  TransitionSystem.runOf _ mixedSchedule (by decide +kernel)

theorem mixedRun_breaks_log_matching :
    mixedRun.Visits mixedRun.state ∧ ¬ LogMatching mixedRun.state := by
  refine ⟨Or.inl rfl, ?_⟩
  intro h
  have hlast : (mixedRun.state.raft 0).logAtIndex 2 = .ok ⟨[2], 1, 2⟩ ∧
      (mixedRun.state.raft 1).logAtIndex 2 = .ok ⟨[2], 1, 2⟩ := by
    decide +kernel
  have hfirst : (mixedRun.state.raft 0).logAtIndex 1 = .ok ⟨[1], 1, 1⟩ ∧
      (mixedRun.state.raft 1).logAtIndex 1 = .ok ⟨[3], 2, 1⟩ := by
    decide +kernel
  have hsame := h 0 1 2 _ _ hlast.1 hlast.2 rfl 1 _ _ (by decide) hfirst.1 hfirst.2
  exact absurd hsame.1 (by decide)

/-- The same run up to the second election is clean. -/
theorem logs_match_replicated : LogMatching
    (TransitionSystem.runOf (@clusterSystem plainArchive 5) (mixedSchedule.take 9)
      (by decide +kernel)).state := by
  refine @logs_match 5 plainArchive _ ?_ _ (Or.inl rfl)
  have hclean : forall t, t ∈ (TransitionSystem.runOf (@clusterSystem plainArchive 5)
      (mixedSchedule.take 9) (by decide +kernel)).trace -> Clean t := by
    decide +kernel
  exact hclean

end RaftCore
end KVRaft
