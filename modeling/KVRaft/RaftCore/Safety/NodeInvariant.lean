import KVRaft.RaftCore.Cluster.NodeSteps
import KVRaft.RaftCore.Safety.LogMatching

/-!
# The invariant of a node

In every state of every run the entries of a server carry the indices of their places
and its indices stand in order; over a run none of them goes back, nor does its term.
-/

namespace KVRaft
namespace RaftCore

open Foundation LogSystem Cluster

variable {n : Nat}

structure NodeInvariant (rf : Raft n) : Prop where
  logs : forall (k : Nat) (log : LogEntry), rf.logs[k]? = some log ->
    log.logIndex = rf.lastSnapshotIncludeIndex + 1 + k
  snapshot : rf.lastSnapshotIncludeIndex ≤ rf.lastApplied
  applied : rf.lastApplied ≤ rf.commitIndex
  commit : rf.commitIndex ≤ rf.getLastLogIndex

theorem Indexed.nodeInvariant {rf : Raft n} (h : Indexed rf) : NodeInvariant rf where
  logs := consecutive_iff.mp h.logs
  snapshot := h.snapshot
  applied := h.applied
  commit := h.commit

section

variable [Archive]

theorem indexed {tr : List (Transition (Cluster n) (Action n))} {σ : Cluster n}
    (h : (clusterSystem n).Trace tr σ) (i : Fin n) : Indexed (σ.raft i) := by
  refine TransitionSystem.Trace.invariant
    (P := fun _ σ => forall i, Indexed (Cluster.raft σ i)) ?_ ?_ h i
  · intro i
    change Indexed ((Cluster.initial n).raft i)
    rw [initial_raft]
    exact Indexed.blank i _
  · intro tr σ σ' a htrace ih hstep i
    rcases explained htrace with ⟨α, hα⟩
    rcases (step_effect hstep).nodeStep i with hsame | ⟨handler, hmay, hrun⟩
    · rw [hsame]
      exact ih i
    · exact (Handler.run_proceeds (ih i) (followsOn_of_mayRun hα.refines hmay) hrun).indexed

theorem noneLess_of_mem (r : (clusterSystem n).Run) (i : Fin n) :
    r.Always fun t => NoneLess (t.before.raft i) (t.after.raft i) := by
  intro t ht
  rcases r.valid.before_of_mem ht with ⟨earlier, htrace, _⟩
  rcases explained htrace with ⟨α, hα⟩
  rcases (step_effect (r.valid.step_of_mem ht)).nodeStep i with
    hsame | ⟨handler, hmay, hrun⟩
  · rw [hsame]
    exact NoneLess.refl _
  · exact (Handler.run_proceeds (indexed htrace i) (followsOn_of_mayRun hα.refines hmay)
      hrun).noneLess

/-- The run ends in any state that comes later. -/
theorem node_invariant (r : (clusterSystem n).Run) (i : Fin n) {σ : Cluster n}
    (hσ : r.Visits σ) :
    NodeInvariant (σ.raft i) ∧ NoneLess (σ.raft i) (r.state.raft i) := by
  constructor
  · rcases hσ.trace with ⟨earlier, htrace, _⟩
    exact (indexed htrace i).nodeInvariant
  · refine r.visits_rel (R := fun σ σ' => NoneLess (Cluster.raft σ i) (Cluster.raft σ' i))
      (fun _ => NoneLess.refl _) (fun _ _ _ h k => h.trans k) (noneLess_of_mem r i) hσ

end

/-- A server that has let go of an entry of another leader. -/
theorem mixedRun_nodeInvariant :
    (mixedRun.state.raft 1).getLastLogIndex = 2 ∧
      NodeInvariant (mixedRun.state.raft 1) ∧
      NoneLess (mixedRun.state.raft 1) (mixedRun.state.raft 1) :=
  ⟨by decide +kernel, @node_invariant 5 plainArchive mixedRun 1 _ (Or.inl rfl)⟩

end RaftCore
end KVRaft
