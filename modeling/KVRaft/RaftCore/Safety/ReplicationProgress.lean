import KVRaft.RaftCore.Safety.LeaderNotes
import KVRaft.RaftCore.Raft.PlainArchive

/-!
# Progress of replication goes back

Accepted entries only ever raise what a leader has noted about a peer.  A late
rejection moves the next index alone, and a late snapshot reply overwrites both
indices.
-/

namespace KVRaft
namespace RaftCore

open Foundation LogSystem Cluster

section

variable {n : Nat}

/-- Server `i` leads one term through the step. -/
def StaysLeader (t : Transition (Cluster n) (Action n)) (i : Fin n) : Prop :=
  (t.before.raft i).status = .leader ∧ (t.after.raft i).status = .leader ∧
    (t.after.raft i).currentTerm = (t.before.raft i).currentTerm

instance (t : Transition (Cluster n) (Action n)) (i : Fin n) : Decidable (StaysLeader t i) := by
  unfold StaysLeader
  infer_instance

/-- The step hands server `i` the reply to one of its calls. -/
def RepliesTo (t : Transition (Cluster n) (Action n)) (i : Fin n) : Prop :=
  (exists k call, t.action = .appendEntriesReply k ∧ t.before.appendCalls[k]? = some call ∧
    call.caller = i) ∨
  (exists k call, t.action = .installSnapshotReply k ∧
    t.before.snapshotCalls[k]? = some call ∧ call.caller = i)

/-- A match index never falls and, once a reply is processed, the next index lies
beyond it. -/
def ProgressMonotone [Archive] (r : (clusterSystem n).Run) : Prop :=
  forall t, t ∈ r.trace -> forall i, StaysLeader t i -> forall j, j ≠ i ->
    (t.before.raft i).matchIndex j ≤ (t.after.raft i).matchIndex j ∧
      (RepliesTo t i -> (t.after.raft i).matchIndex j < (t.after.raft i).nextIndex j)

/-- A leader that is told where to go on. -/
def Raft.FollowsHint (rf : Raft n) (reply : AppendEntriesReply) : Prop :=
  reply.appState ≠ disconnected ∧ rf.status = .leader ∧ reply.term = rf.currentTerm ∧
    reply.success = false ∧ reply.updateNextIndex ≠ -100

/-- A rejection that the leader follows points beyond what it knows the peer to hold. -/
def HintsForward (t : Transition (Cluster n) (Action n)) : Prop :=
  forall k, t.action = .appendEntriesReply k -> forall call,
    t.before.appendCalls[k]? = some call -> forall reply, call.phase = .replied reply ->
    (t.before.raft call.caller).FollowsHint reply ->
    (t.before.raft call.caller).matchIndex call.callee < reply.updateNextIndex

/-- A snapshot that the leader takes note of covers what it knows the peer to hold. -/
def SnapshotsForward (t : Transition (Cluster n) (Action n)) : Prop :=
  forall k, t.action = .installSnapshotReply k -> forall call,
    t.before.snapshotCalls[k]? = some call -> forall args reply,
    call.phase = .replied args reply ->
    (t.before.raft call.caller).CountsSnapshot args reply ->
    (t.before.raft call.caller).matchIndex call.callee ≤ args.lastSnapshotIncludeIndex

/-- Every peer's next index lies beyond its match index. -/
def Raft.Ahead (rf : Raft n) : Prop :=
  forall j, rf.matchIndex j < rf.nextIndex j

theorem Raft.Ahead.record {rf : Raft n} (h : rf.Ahead) (server : Fin n) (index : Int)
    (j : Fin n) :
    Function.update rf.matchIndex server index j <
      Function.update rf.nextIndex server (index + 1) j := by
  rw [Function.update_apply, Function.update_apply]
  by_cases hj : j = server
  · rw [if_pos hj, if_pos hj]
    omega
  · rw [if_neg hj, if_neg hj]
    exact h j

theorem Raft.Ahead.hint {rf : Raft n} (h : rf.Ahead) {server : Fin n} {index : Int}
    (hhint : rf.matchIndex server < index) (j : Fin n) :
    rf.matchIndex j < Function.update rf.nextIndex server index j := by
  rw [Function.update_apply]
  by_cases hj : j = server
  · rw [if_pos hj, hj]
    exact hhint
  · rw [if_neg hj]
    exact h j

theorem le_update {f : Fin n -> Int} {server : Fin n} {index : Int}
    (hle : f server ≤ index) (j : Fin n) : f j ≤ Function.update f server index j := by
  rw [Function.update_apply]
  by_cases hj : j = server
  · rw [if_pos hj, hj]
    exact hle
  · rw [if_neg hj]

/-- What an append reply does to the notes, as long as its hint points forward. -/
theorem Raft.AppendReplyEffect.forward {rf rf' : Raft n} {server : Fin n}
    {args : AppendEntriesArgs} {reply : AppendEntriesReply} {appendNums appendNums' : Nat}
    (h : Raft.AppendReplyEffect rf server args reply appendNums rf' appendNums')
    (hahead : rf.Ahead)
    (hforward : reply.success = false -> reply.updateNextIndex ≠ -100 ->
      reply.term = rf.currentTerm -> rf.status = .leader ->
      rf.matchIndex server < reply.updateNextIndex) :
    rf'.Ahead ∧ forall j, rf.matchIndex j ≤ rf'.matchIndex j := by
  have hrecord : (rf.recordMatch server args).Ahead ∧
      forall j, rf.matchIndex j ≤ (rf.recordMatch server args).matchIndex j :=
    ⟨hahead.record server _, le_update (le_max_left _ _)⟩
  cases h with
  | newerTerm _ => exact ⟨hahead, fun _ => le_refl _⟩
  | ignored => exact ⟨hahead, fun _ => le_refl _⟩
  | hinted hterm hleader hno hother =>
      exact ⟨hahead.hint (hforward hno hother hterm hleader), fun _ => le_refl _⟩
  | counted _ _ _ _ => exact hrecord
  | majority _ _ _ _ _ =>
      rcases Raft.commitSent_cases (rf.recordMatch server args) args with hsame | ⟨_, hraise⟩
      · rw [hsame]
        exact hrecord
      · rw [hraise]
        exact hrecord

theorem Raft.AppendReplyEffect.leads {rf rf' : Raft n} {server : Fin n}
    {args : AppendEntriesArgs} {reply : AppendEntriesReply} {appendNums appendNums' : Nat}
    (h : Raft.AppendReplyEffect rf server args reply appendNums rf' appendNums')
    (hl : rf'.status = .leader) : rf.status = .leader := by
  cases h with
  | newerTerm _ => cases hl
  | ignored => exact hl
  | hinted _ hleader _ _ => exact hleader
  | counted _ hleader _ _ => exact hleader
  | majority _ hleader _ _ _ => exact hleader

variable [Archive]

theorem hinted_step {σ σ' : Cluster n} {k : Nat} {call : AppendCall n}
    {reply : AppendEntriesReply} (hstep : StepEffect σ (.appendEntriesReply k) σ')
    (hk : σ.appendCalls[k]? = some call) (hphase : call.phase = .replied reply)
    (hfollows : (σ.raft call.caller).FollowsHint reply) :
    σ'.raft call.caller =
      { σ.raft call.caller with
        nextIndex := Function.update (σ.raft call.caller).nextIndex call.callee
          reply.updateNextIndex } := by
  rcases hfollows with ⟨hup, hleader, hterm, hno, hhint⟩
  exact hstep.appendEntriesReply_raft hk hphase
    (Raft.sendAppendEntries_hinted hup hleader hterm hno hhint _ _ _)

theorem noted_step {σ σ' : Cluster n} {k : Nat} {call : SnapshotCall n}
    {args : InstallSnapshotRequest} {reply : InstallSnapshotResponse}
    (hstep : StepEffect σ (.installSnapshotReply k) σ')
    (hk : σ.snapshotCalls[k]? = some call) (hphase : call.phase = .replied args reply)
    (hcounts : (σ.raft call.caller).CountsSnapshot args reply) :
    σ'.raft call.caller =
      (σ.raft call.caller).noteSnapshot call.callee args.lastSnapshotIncludeIndex := by
  cases hstep with
  | installSnapshotReply hk' _ hphase' =>
      rw [hk] at hk'
      cases hk'
      rw [hphase] at hphase'
      cases hphase'
      refine (touches_setServer σ call.caller _ call.caller).trans ?_
      rw [if_pos rfl]
      exact Raft.leaderSendSnapShotReply_counts hcounts call.callee

/-- What one step does to the notes of every server, as long as it points forward. -/
theorem notes_forward {α : Logs n} {σ σ' : Cluster n} {a : Action n} (href : Refines α σ)
    (hstep : StepEffect σ a σ')
    (hhint : HintsForward { before := σ, action := a, after := σ' })
    (hsnapshot : SnapshotsForward { before := σ, action := a, after := σ' })
    (hahead : forall i, (σ.raft i).status = .leader -> (σ.raft i).Ahead) (i : Fin n)
    (hl : (σ'.raft i).status = .leader) :
    (σ'.raft i).Ahead ∧ ((σ.raft i).status = .leader ->
      forall j, (σ.raft i).matchIndex j ≤ (σ'.raft i).matchIndex j) := by
  have hnote := hstep.noteStep i
  revert hl hnote
  generalize σ'.raft i = rf
  intro hl hnote
  cases hnote with
  | kept hkeep =>
      have hbefore := hahead i (hkeep.leads hl).1
      constructor
      · intro j
        rw [hkeep.matchIndex, hkeep.nextIndex]
        exact hbefore j
      · intro _ j
        rw [hkeep.matchIndex]
  | elected hno =>
      refine ⟨?_, fun hyes => absurd hyes hno⟩
      intro j
      rcases (href.node i).held with ⟨s, hs, _⟩
      have hlast := hs.lastIndex
      change (0 : Int) < (σ.raft i).getLastLogIndex + 1
      omega
  | @replied k appendNums call reply _ hk hcaller hphase hrun =>
      have heffect := Raft.sendAppendEntries_effect hrun
      have hbefore := hahead i (heffect.leads hl)
      by_cases hdown : reply.appState = disconnected
      · rw [Raft.sendAppendEntries, if_pos hdown] at hrun
        cases hrun
        exact ⟨hbefore, fun _ _ => le_refl _⟩
      · have hpast := hhint k rfl call hk reply hphase
        rw [hcaller] at hpast
        rcases heffect.forward hbefore fun hno hother hterm hleader =>
          hpast ⟨hdown, hleader, hterm, hno, hother⟩ with ⟨hafter, hmono⟩
        exact ⟨hafter, fun _ => hmono⟩
  | @noted k call args reply hk hcaller hphase hcounts =>
      have hbefore := hahead i hcounts.1
      refine ⟨hbefore.record call.callee _, fun _ => le_update ?_⟩
      have hcovers := hsnapshot k rfl call hk args reply hphase
      rw [hcaller] at hcovers
      exact hcovers hcounts

theorem leaders_ahead {tr : List (Transition (Cluster n) (Action n))} {σ : Cluster n}
    (h : (clusterSystem n).Trace tr σ)
    (hforward : forall t, t ∈ tr -> HintsForward t ∧ SnapshotsForward t) (i : Fin n)
    (hl : (σ.raft i).status = .leader) : (σ.raft i).Ahead := by
  refine TransitionSystem.Trace.invariant_under
    (P := fun _ σ => forall i, (Cluster.raft σ i).status = .leader ->
      (Cluster.raft σ i).Ahead) ?_ ?_ h hforward i hl
  · intro i hl
    change ((Cluster.initial n).raft i).status = .leader at hl
    rw [initial_raft] at hl
    cases hl
  · rintro tr σ σ' a htrace _ hold hstep ⟨hhint, hsnapshot⟩ i hl
    rcases explained htrace with ⟨α, hα⟩
    exact (notes_forward hα.refines (step_effect hstep) hhint hsnapshot hold i hl).1

/-- Progress is monotone exactly in the runs whose followed hints and noted snapshots
all point forward. -/
theorem progress_monotone_iff (r : (clusterSystem n).Run) :
    ProgressMonotone r <-> r.Always fun t => HintsForward t ∧ SnapshotsForward t := by
  constructor
  · intro hmono t ht
    have hstep := step_effect (r.valid.step_of_mem ht)
    rcases r.valid.before_of_mem ht with ⟨earlier, htrace, _⟩
    rcases explained htrace with ⟨α, hα⟩
    constructor
    · intro k haction call hk reply hphase hfollows
      have hother := hα.refines.rounds.other (List.mem_of_getElem? hk)
      rw [haction] at hstep
      have hafter := hinted_step hstep hk hphase hfollows
      have hstays : StaysLeader t call.caller := by
        unfold StaysLeader
        rw [hafter]
        exact ⟨hfollows.2.1, hfollows.2.1, rfl⟩
      have hpast := (hmono t ht call.caller hstays call.callee hother).2
        (Or.inl ⟨k, call, haction, hk, rfl⟩)
      rw [hafter] at hpast
      simp only [Function.update_self] at hpast
      exact hpast
    · intro k haction call hk args reply hphase hcounts
      have hother := (noted htrace).other call (List.mem_of_getElem? hk)
      rw [haction] at hstep
      have hafter := noted_step hstep hk hphase hcounts
      have hstays : StaysLeader t call.caller := by
        unfold StaysLeader
        rw [hafter]
        exact ⟨hcounts.1, hcounts.1, rfl⟩
      have hcovers := (hmono t ht call.caller hstays call.callee hother).1
      rw [hafter] at hcovers
      simp only [Raft.noteSnapshot, Function.update_self] at hcovers
      exact hcovers
  · intro hforward t ht i hstays j _
    have hstep := step_effect (r.valid.step_of_mem ht)
    rcases r.valid.before_of_mem ht with ⟨earlier, htrace, hsub⟩
    rcases explained htrace with ⟨α, hα⟩
    have hahead := leaders_ahead htrace fun u hu => hforward u (hsub u hu)
    rcases notes_forward hα.refines hstep (hforward t ht).1 (hforward t ht).2 hahead i
      hstays.2.1 with ⟨hafter, hmono⟩
    exact ⟨hmono hstays.1 j, fun _ => hafter j⟩

end

/-!
# Late replies

Server 0, elected again with an entry that nobody else has, sends two rounds that server
1 rejects.  It follows the first rejection and replicates its entry; then the second
rejection arrives.
-/

def lateRejectionSchedule : List (Action 3) :=
  [.doElection 0, .requestVote 0, .requestVoteReply 0, .start 0 [1], .doElection 1,
    .requestVote 2, .doElection 0, .requestVote 4, .requestVoteReply 4, .doHeartBeat 0,
    .doHeartBeat 0, .appendEntries 0, .appendEntries 2, .appendEntriesReply 0,
    .doHeartBeat 0, .appendEntries 4, .appendEntriesReply 4, .appendEntriesReply 2]

def lateRejectionRun : (@clusterSystem plainArchive 3).Run :=
  TransitionSystem.runOf _ lateRejectionSchedule (by decide +kernel)

theorem lateRejectionRun_not_monotone :
    ¬ @ProgressMonotone 3 plainArchive lateRejectionRun := by
  intro h
  have hlate : exists t, t ∈ lateRejectionRun.trace ∧ t.action = .appendEntriesReply 2 ∧
      (exists call, t.before.appendCalls[2]? = some call ∧ call.caller = 0) ∧
      StaysLeader t 0 ∧ (t.after.raft 0).matchIndex 1 = 1 ∧
      (t.after.raft 0).nextIndex 1 = 1 := by
    decide +kernel
  rcases hlate with ⟨t, ht, haction, ⟨call, hcall, hcaller⟩, hstays, hmatch, hnext⟩
  have hahead := (h t ht 0 hstays 1 (by decide)).2 (Or.inl ⟨2, call, haction, hcall, hcaller⟩)
  omega

/-!
Server 1 installs the same snapshot twice.  One reply comes back at once and is followed
by a new entry, the other comes back after that.
-/

def lateSnapshotSchedule : List (Action 3) :=
  [.doElection 0, .requestVote 0, .requestVoteReply 0, .start 0 [1], .doHeartBeat 0,
    .appendEntries 1, .appendEntriesReply 1, .applierTicker 0, .snapshot 0 1 [5],
    .doHeartBeat 0, .doHeartBeat 0, .leaderSendSnapShot 0, .leaderSendSnapShot 1,
    .installSnapshot 0, .installSnapshot 1, .installSnapshotReply 1, .start 0 [2],
    .doHeartBeat 0, .appendEntries 4, .appendEntriesReply 4, .installSnapshotReply 0]

def lateSnapshotRun : (@clusterSystem plainArchive 3).Run :=
  TransitionSystem.runOf _ lateSnapshotSchedule (by decide +kernel)

example : exists t, t ∈ lateSnapshotRun.trace ∧
    t.action = .installSnapshotReply 0 ∧ StaysLeader t 0 ∧
    (t.before.raft 0).matchIndex 1 = 2 ∧ (t.after.raft 0).matchIndex 1 = 1 := by
  decide +kernel

end RaftCore
end KVRaft
