import KVRaft.RaftCore.Safety.LeaderCompleteness

/-!
# State machine safety

Two servers hand over the same command at the same index, unless some step has
mixed two logs.
-/

namespace KVRaft
namespace RaftCore

open Foundation LogSystem Cluster

section

variable {n : Nat}

def StateMachineSafe [Archive] (r : (clusterSystem n).Run) : Prop :=
  forall t, t ∈ r.trace -> forall u, u ∈ r.trace -> forall i j msg msg',
    Produces t i msg -> Produces u j msg' -> msg.commandIndex = msg'.commandIndex ->
      msg.command = msg'.command

theorem Delivers.agree {α : Logs n} (hb : (raftLogs n).Ballots α)
    (hs : (raftLogs n).Safe α) {msg msg' : ApplyMsg} (h : Delivers α msg)
    (h' : Delivers α msg') (hindex : msg.commandIndex = msg'.commandIndex) :
    msg = msg' := by
  rcases h with ⟨L, T, k, log, hcom, hlog, rfl⟩
  rcases h' with ⟨L', T', k', log', hcom', hlog', rfl⟩
  have hk : (k : Int) + 1 = (k' : Int) + 1 := hindex
  have hkk : k = k' := by omega
  rw [← hkk] at hlog' ⊢
  have hsame : log = log' := by
    rcases hs.committed_comparable hb hcom hcom' with hpre | hpre
    · exact Option.some.inj ((getElem?_of_isPrefix hpre hlog).symm.trans hlog')
    · exact Option.some.inj (hlog.symm.trans (getElem?_of_isPrefix hpre hlog'))
  rw [hsame]

theorem state_machine_safety [Archive] (r : (clusterSystem n).Run)
    (hclean : r.Always Clean) : StateMachineSafe r := by
  rcases explained r.valid with ⟨α, hα⟩
  rcases hα.sound hclean with ⟨hs, hdelivers⟩
  intro t ht u hu i j msg msg' hmsg hmsg' hindex
  rw [(hdelivers t ht i msg hmsg).agree hα.ballots hs.safe (hdelivers u hu j msg' hmsg')
    hindex]

end

/-- Both servers hand over the first command. -/
theorem orderlyRun_stateMachineSafe :
    (exists t, t ∈ orderlyRun.trace ∧ Produces t 0 (Raft.commandMsg ⟨[1], 1, 1⟩ 0)) ∧
    (exists u, u ∈ orderlyRun.trace ∧ Produces u 1 (Raft.commandMsg ⟨[1], 1, 1⟩ 0)) ∧
    @StateMachineSafe 3 plainArchive orderlyRun :=
  ⟨by decide +kernel, by decide +kernel,
    @state_machine_safety 3 plainArchive orderlyRun orderlyRun_clean⟩

/-- After the stale tail has won, the second index is handed over twice. -/
theorem staleTailRun_not_stateMachineSafe :
    ¬ @StateMachineSafe 3 plainArchive staleTailRun := by
  intro h
  have hfirst : exists t, t ∈ staleTailRun.trace ∧
      Produces t 2 (Raft.commandMsg ⟨[3], 3, 2⟩ 1) := by
    decide +kernel
  have hsecond : exists u, u ∈ staleTailRun.trace ∧
      Produces u 1 (Raft.commandMsg ⟨[4], 4, 2⟩ 1) := by
    decide +kernel
  rcases hfirst with ⟨t, ht, hmsg⟩
  rcases hsecond with ⟨u, hu, hmsg'⟩
  exact absurd (h t ht u hu 2 1 _ _ hmsg hmsg' rfl) (by decide)

end RaftCore
end KVRaft
