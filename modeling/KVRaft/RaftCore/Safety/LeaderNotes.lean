import KVRaft.RaftCore.Cluster.Notes
import KVRaft.RaftCore.Cluster.Progress
import KVRaft.RaftCore.Safety.NodeInvariant

/-!
# What leaders have noted

No leader has noted more than it holds, whatever its peers have answered, so the
threads of its heartbeats carry on with every reply.
-/

namespace KVRaft
namespace RaftCore

open Foundation LogSystem Cluster

variable {n : Nat}

/-- Every noted index is one of the leader's own log. -/
def Raft.Matched (rf : Raft n) : Prop :=
  forall j, 0 ≤ rf.matchIndex j ∧ rf.matchIndex j ≤ rf.getLastLogIndex

theorem Raft.Matched.update {rf : Raft n} (h : rf.Matched) (server : Fin n) {index : Int}
    (hlo : 0 ≤ index) (hhi : index ≤ rf.getLastLogIndex) (j : Fin n) :
    0 ≤ Function.update rf.matchIndex server index j ∧
      Function.update rf.matchIndex server index j ≤ rf.getLastLogIndex := by
  rw [Function.update_apply]
  by_cases hj : j = server
  · rw [if_pos hj]
    exact ⟨hlo, hhi⟩
  · rw [if_neg hj]
    exact h j

theorem Raft.Matched.recordMatch {rf : Raft n} (h : rf.Matched) (server : Fin n)
    {args : AppendEntriesArgs}
    (hhi : args.prevLogIndex + args.entriesSize ≤ rf.getLastLogIndex) :
    (rf.recordMatch server args).Matched := by
  intro j
  have hserver := h server
  exact h.update server (by omega) (by omega) j

theorem Raft.Matched.commitSent {rf : Raft n} (h : rf.Matched) (args : AppendEntriesArgs) :
    (rf.commitSent args).Matched := by
  rcases commitSent_cases rf args with hsame | ⟨_, hraise⟩
  · rw [hsame]
    exact h
  · rw [hraise]
    exact h

structure Noted (σ : Cluster n) : Prop where
  matched : forall i, (σ.raft i).status = .leader -> (σ.raft i).Matched
  other : forall c, c ∈ σ.snapshotCalls -> c.callee ≠ c.caller
  base : forall c, c ∈ σ.snapshotCalls -> forall args, c.Carries args ->
    0 ≤ args.lastSnapshotIncludeIndex ∧
      args.lastSnapshotIncludeIndex ≤ (σ.raft c.caller).lastSnapshotIncludeIndex

namespace Noted

variable {α : Logs n} {σ σ' : Cluster n}

/-- What an accepted reply may make its leader note. -/
theorem replied (h : Noted σ) (href : Refines α σ) {call : AppendCall n}
    (hcall : call ∈ σ.appendCalls) {reply : AppendEntriesReply}
    (hphase : call.phase = .replied reply) {rf : Raft n} {appendNums appendNums' : Nat}
    (heffect : Raft.AppendReplyEffect (σ.raft call.caller) call.callee call.args reply
      appendNums rf appendNums') (hl : rf.status = .leader) : rf.Matched := by
  have hsent : reply.success = true -> reply.term = (σ.raft call.caller).currentTerm ->
      (σ.raft call.caller).status = .leader ->
      call.args.prevLogIndex + call.args.entriesSize ≤
        (σ.raft call.caller).getLastLogIndex := by
    intro hyes hterm hleader
    have hargs := (href.rounds.accepted hcall (Or.inl hphase) hyes).1
    exact Progress.sent_le href hcall hleader (hterm.symm.trans hargs)
  cases heffect with
  | newerTerm _ => cases hl
  | ignored => exact h.matched call.caller hl
  | hinted _ hleader _ _ => exact h.matched call.caller hleader
  | counted hterm hleader hyes _ =>
      exact (h.matched call.caller hleader).recordMatch call.callee
        (hsent hyes hterm hleader)
  | majority hterm hleader hyes _ _ =>
      exact ((h.matched call.caller hleader).recordMatch call.callee
        (hsent hyes hterm hleader)).commitSent call.args

variable [Archive]

theorem initial : Noted (Cluster.initial n) where
  matched := by
    intro i hl
    rw [initial_raft] at hl
    cases hl
  other _ hc := absurd hc List.not_mem_nil
  base _ hc := absurd hc List.not_mem_nil

theorem matched_step {a : Action n} (h : Noted σ) (href : Refines α σ)
    (hstep : StepEffect σ a σ') (hless : forall i, NoneLess (σ.raft i) (σ'.raft i))
    (i : Fin n) (hl : (σ'.raft i).status = .leader) : (σ'.raft i).Matched := by
  have hlast := (hless i).last
  have hnote := hstep.noteStep i
  rcases (href.node i).held with ⟨s, hs, _⟩
  have hlength := hs.lastIndex
  revert hl hlast hnote
  generalize σ'.raft i = rf
  intro hl hlast hnote
  cases hnote with
  | kept hkeep =>
      intro j
      have hmatched := h.matched i (hkeep.leads hl).1 j
      rw [hkeep.matchIndex]
      omega
  | elected _ =>
      intro j
      change (0 : Int) ≤ 0 ∧ 0 ≤ (σ.raft i).getLastLogIndex
      omega
  | replied hk hcaller hphase hrun =>
      rw [← hcaller] at hrun
      exact h.replied href (List.mem_of_getElem? hk) hphase
        (Raft.sendAppendEntries_effect hrun) hl
  | noted hk hcaller hphase hcounts =>
      intro j
      rcases h.base _ (List.mem_of_getElem? hk) _ (Or.inr ⟨_, hphase⟩) with ⟨hlo, hhi⟩
      have hle := hs.le
      rw [hcaller, hs.index] at hhi
      exact (h.matched i hcounts.1).update _ hlo (by omega) j

theorem base_step {a : Action n} (h : Noted σ) (href : Refines α σ)
    (hstep : StepEffect σ a σ') (hless : forall i, NoneLess (σ.raft i) (σ'.raft i))
    {c : SnapshotCall n} (hc : c ∈ σ'.snapshotCalls) {args : InstallSnapshotRequest}
    (hargs : c.Carries args) : 0 ≤ args.lastSnapshotIncludeIndex ∧
      args.lastSnapshotIncludeIndex ≤ (σ'.raft c.caller).lastSnapshotIncludeIndex := by
  have hgrow := (hless c.caller).snapshot
  cases hstep.snapshotCall hc with
  | kept hd hcaller _ hcarry =>
      have hold := h.base _ hd args (hcarry args hargs)
      rw [hcaller] at hold
      omega
  | built _ _ _ hphase =>
      rcases (href.node c.caller).held with ⟨s, hs, _⟩
      have hindex := hs.index
      rw [SnapshotCall.eq_of_requested hphase hargs]
      change 0 ≤ (σ.raft c.caller).lastSnapshotIncludeIndex ∧
        (σ.raft c.caller).lastSnapshotIncludeIndex ≤ _
      omega
  | started hphase _ => exact absurd hargs (not_carries_started hphase)

theorem step {a : Action n} (h : Noted σ) (href : Refines α σ) (hstep : StepEffect σ a σ')
    (hless : forall i, NoneLess (σ.raft i) (σ'.raft i)) : Noted σ' where
  matched := h.matched_step href hstep hless
  other := by
    intro c hc
    cases hstep.snapshotCall hc with
    | kept hd hcaller hcallee _ =>
        rw [← hcaller, ← hcallee]
        exact h.other _ hd
    | built hd hcaller hcallee _ =>
        rw [← hcaller, ← hcallee]
        exact h.other _ hd
    | started _ hother =>
        rw [(href.node c.caller).me] at hother
        exact hother
  base := fun _ hc _ hargs => h.base_step href hstep hless hc hargs

omit [Archive] in
/-- A reply never brings its leader down. -/
theorem sendAppendEntries (h : Noted σ) (href : Refines α σ) {call : AppendCall n}
    (hcall : call ∈ σ.appendCalls) {reply : AppendEntriesReply}
    (hphase : call.phase = .replied reply) (appendNums : Nat) : exists result,
      (σ.raft call.caller).sendAppendEntries call.callee call.args reply appendNums =
        .ok result := by
  cases houtcome : (σ.raft call.caller).sendAppendEntries call.callee call.args reply
      appendNums with
  | ok result => exact ⟨result, rfl⟩
  | error fault =>
      exfalso
      rcases Raft.sendAppendEntries_fault houtcome with ⟨hleader, hterm, hyes, hfault⟩
      have hargs := (href.rounds.accepted hcall (Or.inl hphase) hyes).1
      have hsent := Progress.sent_le href hcall hleader (hterm.symm.trans hargs)
      have hnode := href.node call.caller
      rcases hnode.held with ⟨s, hs, _⟩
      have hcommit := hnode.commit
      rw [← hs.lastIndex] at hcommit
      rcases hfault with hnext | hover
      · have hmatched := (h.matched call.caller hleader).recordMatch call.callee hsent
          call.callee
        have hone : ((σ.raft call.caller).recordMatch call.callee call.args).nextIndex
            call.callee =
          ((σ.raft call.caller).recordMatch call.callee call.args).matchIndex
            call.callee + 1 := by
          simp only [Raft.recordMatch, Function.update_self]
        have hlast : ((σ.raft call.caller).recordMatch call.callee call.args).matchIndex
            call.callee ≤ (σ.raft call.caller).getLastLogIndex := hmatched.2
        omega
      · rcases Raft.commitSent_cases ((σ.raft call.caller).recordMatch call.callee call.args)
          call.args with hsame | ⟨_, hraise⟩
        · rw [hsame] at hover
          exact absurd hcommit (not_le.mpr hover)
        · rw [hraise] at hover
          exact absurd (max_le hcommit hsent) (not_le.mpr hover)

end Noted

variable [Archive]

theorem noneLess_of_step {tr : List (Transition (Cluster n) (Action n))}
    {σ σ' : Cluster n} {a : Action n} (h : (clusterSystem n).Trace tr σ)
    (hstep : (clusterSystem n).step σ a = some σ') (i : Fin n) :
    NoneLess (σ.raft i) (σ'.raft i) :=
  noneLess_of_mem ⟨_, σ', .snoc h hstep⟩ i _
    (List.mem_append_right tr (List.mem_singleton_self _))

theorem noted {tr : List (Transition (Cluster n) (Action n))} {σ : Cluster n}
    (h : (clusterSystem n).Trace tr σ) : Noted σ := by
  refine TransitionSystem.Trace.invariant (P := fun _ σ => Noted σ) Noted.initial ?_ h
  intro tr σ σ' a htrace ih hstep
  rcases explained htrace with ⟨α, hα⟩
  exact ih.step hα.refines (step_effect hstep) (noneLess_of_step htrace hstep)

end RaftCore
end KVRaft
