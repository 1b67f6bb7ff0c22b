import KVRaft.RaftCore.Cluster.Simulation
import KVRaft.RaftCore.Raft.Bookkeeping

/-!
# Progress of replication

The leaders' notes about their peers, and the numbers in flight that may still
change them.
-/

namespace KVRaft
namespace RaftCore

open Foundation LogSystem Cluster Raft

namespace Cluster

variable {n : Nat}

/-- A follower that is short of a request answers with a term of its log; no such
term exceeds what the request covers. -/
def HintsInRange (t : Transition (Cluster n) (Action n)) : Prop :=
  forall call, t.before.deliveredAppend t.action = some call ->
    (t.before.raft call.callee).currentTerm ≤ call.args.term ->
    (t.before.raft call.callee).getLastLogIndex < call.args.prevLogIndex ->
    (t.before.raft call.callee).getLastLogTerm ≤
      call.args.prevLogIndex + call.args.entriesSize

instance (t : Transition (Cluster n) (Action n)) : Decidable (HintsInRange t) :=
  inferInstanceAs (Decidable
    (forall call, call ∈ t.before.deliveredAppend t.action -> _))

end Cluster

variable {n : Nat}

/-- A hint the leader would follow points into what the request covers. -/
def HintFits (call : AppendCall n) : Prop :=
  forall reply, call.Answered reply -> reply.success = false ->
    reply.updateNextIndex ≠ -100 ->
    reply.term = call.args.term ∧ 1 ≤ reply.updateNextIndex ∧
      reply.updateNextIndex ≤ call.args.sent + 1

structure Progress (σ : Cluster n) : Prop where
  leader : forall i, (σ.raft i).status = .leader -> InRange i (σ.raft i)
  hint : forall c, c ∈ σ.appendCalls -> HintFits c
  snapshot : forall c, c ∈ σ.snapshotCalls -> forall args, c.Carries args ->
    0 ≤ args.lastSnapshotIncludeIndex ∧
      args.lastSnapshotIncludeIndex ≤ (σ.raft c.caller).lastSnapshotIncludeIndex

namespace Progress

variable {σ σ' : Cluster n} {v : Fin n} {rf : Raft n}

theorem initial [Archive] : Progress (Cluster.initial n) where
  leader := by
    intro i hl
    rw [initial_raft] at hl
    cases hl
  hint _ hc := absurd hc List.not_mem_nil
  snapshot _ hc := absurd hc List.not_mem_nil

/-- Assembling a step from the node it touches and the calls it changes. -/
theorem update (h : Progress σ) (htouch : Touches σ σ' v rf)
    (hleader : rf.status = .leader -> InRange v rf)
    (hindex : (σ.raft v).lastSnapshotIncludeIndex ≤ rf.lastSnapshotIncludeIndex)
    (hhint : forall c, c ∈ σ'.appendCalls -> c ∈ σ.appendCalls ∨ HintFits c)
    (hsnapshot : forall c, c ∈ σ'.snapshotCalls -> forall args, c.Carries args ->
      (exists d, d ∈ σ.snapshotCalls ∧ d.caller = c.caller ∧ d.Carries args) ∨
      (0 ≤ args.lastSnapshotIncludeIndex ∧
        args.lastSnapshotIncludeIndex ≤ (σ.raft c.caller).lastSnapshotIncludeIndex)) :
    Progress σ' := by
  have hgrow : forall j,
      (σ.raft j).lastSnapshotIncludeIndex ≤ (σ'.raft j).lastSnapshotIncludeIndex := by
    intro j
    rw [htouch j]
    by_cases hj : j = v
    · rw [if_pos hj, hj]
      exact hindex
    · rw [if_neg hj]
  exact
    { leader := by
        intro i hl
        rw [htouch i] at hl ⊢
        by_cases hi : i = v
        · rw [if_pos hi] at hl ⊢
          rw [hi]
          exact hleader hl
        · rw [if_neg hi] at hl ⊢
          exact h.leader i hl
      hint := by
        intro c hc
        rcases hhint c hc with hin | hfits
        · exact h.hint c hin
        · exact hfits
      snapshot := by
        intro c hc args hargs
        have hcaller := hgrow c.caller
        rcases hsnapshot c hc args hargs with ⟨d, hd, hsame, hcarry⟩ | ⟨hlo, hhi⟩
        · rcases h.snapshot d hd args hcarry with ⟨hlo, hhi⟩
          rw [hsame] at hhi
          exact ⟨hlo, hhi.trans hcaller⟩
        · exact ⟨hlo, hhi.trans hcaller⟩ }

/-- Steps that leave the bookkeeping to itself. -/
theorem advance (h : Progress σ) (htouch : Touches σ σ' v rf)
    (hadv : Advances (σ.raft v) rf)
    (hhint : forall c, c ∈ σ'.appendCalls -> c ∈ σ.appendCalls ∨ HintFits c)
    (hsnapshot : forall c, c ∈ σ'.snapshotCalls -> forall args, c.Carries args ->
      (exists d, d ∈ σ.snapshotCalls ∧ d.caller = c.caller ∧ d.Carries args) ∨
      (0 ≤ args.lastSnapshotIncludeIndex ∧
        args.lastSnapshotIncludeIndex ≤ (σ.raft c.caller).lastSnapshotIncludeIndex)) :
    Progress σ' :=
  h.update htouch (fun hl => (h.leader v (hadv.status hl)).advance hadv hl) hadv.snapshot
    hhint hsnapshot

private theorem same_calls {calls : List (SnapshotCall n)} (c : SnapshotCall n)
    (hc : c ∈ calls) (args : InstallSnapshotRequest) (hargs : c.Carries args) :
    (exists d, d ∈ calls ∧ d.caller = c.caller ∧ d.Carries args) ∨
      (0 ≤ args.lastSnapshotIncludeIndex ∧
        args.lastSnapshotIncludeIndex ≤ (σ.raft c.caller).lastSnapshotIncludeIndex) :=
  Or.inl ⟨c, hc, rfl, hargs⟩

private theorem set_calls {calls : List (SnapshotCall n)} {k : Nat}
    {call next : SnapshotCall n} (hk : calls[k]? = some call)
    (hcaller : next.caller = call.caller)
    (hcarry : forall args, next.Carries args -> call.Carries args) (c : SnapshotCall n)
    (hc : c ∈ calls.set k next) (args : InstallSnapshotRequest) (hargs : c.Carries args) :
    (exists d, d ∈ calls ∧ d.caller = c.caller ∧ d.Carries args) ∨
      (0 ≤ args.lastSnapshotIncludeIndex ∧
        args.lastSnapshotIncludeIndex ≤ (σ.raft c.caller).lastSnapshotIncludeIndex) := by
  rcases List.mem_or_eq_of_mem_set hc with hin | rfl
  · exact Or.inl ⟨c, hin, rfl, hargs⟩
  · exact Or.inl ⟨call, List.mem_of_getElem? hk, hcaller.symm, hcarry args hargs⟩

theorem setRaft (h : Progress σ) (hadv : Advances (σ.raft v) rf) :
    Progress (σ.setRaft v rf) :=
  h.advance (touches_setServer σ v _) hadv (fun _ hc => Or.inl hc) same_calls

theorem stop (h : Progress σ) (v : Fin n) (fault : Fault) : Progress (σ.stop v fault) :=
  h.advance (touches_setServer σ v _) (Advances.refl _) (fun _ hc => Or.inl hc) same_calls

/-!
# Single steps
-/

section

variable [Archive] {α : Logs n}

theorem doElection (h : Progress σ) (i : Fin n) : Progress (σ.doElection i) := by
  rw [doElection_eq]
  by_cases hstatus : (σ.raft i).status ≠ .leader
  · rw [if_pos hstatus]
    exact h.advance (touches_setServer σ i _) (Advances.congr nofun rfl rfl rfl rfl)
      (fun _ hc => Or.inl hc) same_calls
  · rw [if_neg hstatus]
    exact h

omit [Archive] in
theorem doHeartBeat (h : Progress σ) (i : Fin n) : Progress (σ.doHeartBeat i) := by
  rw [doHeartBeat_eq]
  by_cases hstatus : (σ.raft i).status = .leader
  · rw [if_pos hstatus]
    refine h.advance (touches_setServer σ i _) (Advances.refl _) ?_ ?_
    · intro c hc
      rcases List.mem_append.mp hc with hin | hin
      · exact Or.inl hin
      · right
        have hphase := (mem_appendCallsOf hin).2.2.1
        rintro reply (hr | hr)
        · rw [hphase] at hr
          cases hr
        · rw [hphase] at hr
          cases hr
    · intro c hc args hargs
      rcases List.mem_append.mp hc with hin | hin
      · exact Or.inl ⟨c, hin, rfl, hargs⟩
      · exact absurd hargs (not_carries_started (mem_snapshotCallsOf hin))
  · rw [if_neg hstatus]
    exact h

omit [Archive] in
theorem applierTicker (h : Progress σ) (href : Refines α σ) (i : Fin n) :
    Progress (σ.resume i (σ.raft i).getApplyLogs fun (rf, _) => σ.setRaft i rf) := by
  rcases (href.node i).getApplyLogs with ⟨msgs, heq, _⟩
  rw [heq]
  exact h.setRaft (Advances.congr id rfl rfl rfl rfl)

theorem snapshotStep (h : Progress σ) (href : Refines α σ) (i : Fin n) (index : Int)
    (data : Bytes) :
    Progress (σ.resume i ((σ.raft i).snapshot index data) fun rf => σ.setRaft i rf) := by
  have hnode := href.node i
  rcases hnode.held with ⟨s, hs, _⟩
  rcases Raft.snapshot_effect hs hnode.commit index data with ⟨rf, heq, heffect⟩
  rw [heq]
  exact h.setRaft (snapshotEffect_advances hs hnode.commit heffect)

theorem requestVote (h : Progress σ) (k : Nat) (call : VoteCall n) :
    Progress (σ.requestVote k call) := by
  unfold Cluster.requestVote resume
  cases houtcome : (σ.raft call.callee).requestVote call.args with
  | error fault => exact h.stop call.callee fault
  | ok result =>
      exact h.advance (touches_setServer σ call.callee _)
        (requestVote_advances houtcome) (fun _ hc => Or.inl hc) same_calls

theorem requestVoteReply (h : Progress σ) (href : Refines α σ) (k : Nat)
    (call : VoteCall n) (reply : RequestVoteReply) :
    Progress (σ.requestVoteReply k call reply) := by
  unfold Cluster.requestVoteReply resume
  have hnode := href.node call.caller
  rcases hnode.held with ⟨s, hs, _⟩
  have hlast : 0 ≤ (σ.raft call.caller).getLastLogIndex := by
    rw [hs.lastIndex]
    omega
  cases houtcome : (σ.servers call.caller).raft.sendRequestVote reply
      ((σ.servers call.caller).votedNum.getD call.counter 0) with
  | error fault =>
      simp only [houtcome]
      exact h.stop call.caller fault
  | ok result =>
      rcases result with ⟨rf, votedNum⟩
      rcases sendRequestVote_inRange (sendRequestVote_effect houtcome)
        (h.leader call.caller) hlast with ⟨hleader, hindex⟩
      simp only [houtcome]
      exact h.update (touches_setServer σ call.caller _) hleader (le_of_eq hindex.symm)
        (fun _ hc => Or.inl hc) same_calls

theorem hintFits_answer (href : Refines α σ) {k : Nat} {call : AppendCall n}
    (hk : σ.appendCalls[k]? = some call) {rf : Raft n} {reply : AppendEntriesReply}
    (hrun : (σ.raft call.callee).appendEntries1 call.args = .ok (rf, reply))
    (hrange : HintsInRange { before := σ, action := .appendEntries k, after := σ' }) :
    HintFits (call.answer reply) := by
  rcases (href.node call.callee).held with ⟨s, hs, _⟩
  rcases href.rounds.request (List.mem_of_getElem? hk) with ⟨M, p, hreq⟩
  have hsent := hreq.sent
  have hle := hreq.le
  intro r hr hno hother
  rw [Call.answered_answer] at hr
  rw [hr] at hno hother ⊢
  change reply.term = call.args.term ∧ 1 ≤ reply.updateNextIndex ∧
    reply.updateNextIndex ≤ call.args.sent + 1
  cases Raft.appendEntries1_effect hrun with
  | stale _ _ hhint => exact absurd hhint hother
  | tooNew hcur hshort _ hterm hhint =>
      have hlast := hrange call hk hcur hshort
      change (σ.raft call.callee).getLastLogTerm ≤ _ at hlast
      have hpos : 0 ≤ (σ.raft call.callee).getLastLogTerm := by
        rw [hs.lastTerm]
        cases hlen : (α.log call.callee).length with
        | zero => exact le_refl _
        | succ m =>
            have := hs.numbered.termAt_pos (k := m) (by omega)
            omega
      rw [hreq.length] at hlast
      rw [hhint, hsent]
      exact ⟨hterm, by omega, by omega⟩
  | mismatch _ hmatch hsearch _ hterm =>
      rw [hreq.prevLogIndex] at hsearch hmatch
      rcases hs.matchLog_inv hmatch with ⟨q, hq, _, _, hiff⟩
      have hbound := hs.conflictHint_inv (le_refl _) hsearch
      have hpos : p ≠ 0 := by
        intro hzero
        have hq0 : q = 0 := by omega
        have hprev := hreq.prevLogTerm
        rw [hzero, termAt_zero] at hprev
        rw [hq0, termAt_zero] at hiff
        exact absurd (hiff.mpr hprev) nofun
      rw [hsent]
      exact ⟨hterm, by omega, by omega⟩
  | accepted _ _ _ _ hyes _ =>
      rw [hyes] at hno
      cases hno

theorem appendEntries (h : Progress σ) (href : Refines α σ) {k : Nat}
    {call : AppendCall n} (hk : σ.appendCalls[k]? = some call)
    (hrange : HintsInRange { before := σ, action := .appendEntries k, after := σ' }) :
    Progress (σ.appendEntries k call) := by
  unfold Cluster.appendEntries resume
  cases houtcome : (σ.raft call.callee).appendEntries1 call.args with
  | error fault => exact h.stop call.callee fault
  | ok result =>
      refine h.advance (touches_setServer σ call.callee _)
        (appendEntries1_advances houtcome) ?_ same_calls
      intro c hc
      rcases List.mem_or_eq_of_mem_set hc with hin | rfl
      · exact Or.inl hin
      · exact Or.inr (hintFits_answer href hk houtcome hrange)

omit [Archive] in
/-- What a leader's own request covers is in its log. -/
theorem sent_le (href : Refines α σ) {call : AppendCall n} (hcall : call ∈ σ.appendCalls)
    (hleader : (σ.raft call.caller).status = .leader)
    (hterm : (σ.raft call.caller).currentTerm = call.args.term) :
    call.args.prevLogIndex + call.args.entriesSize ≤
      (σ.raft call.caller).getLastLogIndex := by
  have hnode := href.node call.caller
  rcases hnode.held with ⟨s, hs, _⟩
  rcases href.rounds.request hcall with ⟨M, p, hreq⟩
  have hlen := hreq.log.length_le
  rw [← hterm, ← (hnode.leads hleader).2.2] at hlen
  rw [hreq.length, hs.lastIndex]
  omega

omit [Archive] in
/-- What a reply may make its leader note. -/
theorem reply_inRange (h : Progress σ) (href : Refines α σ) {call : AppendCall n}
    (hcall : call ∈ σ.appendCalls) {reply : AppendEntriesReply}
    (hphase : call.phase = .replied reply) {rf : Raft n} {appendNums appendNums' : Nat}
    (heffect : AppendReplyEffect (σ.raft call.caller) call.callee call.args reply appendNums
      rf appendNums') :
    (rf.status = .leader -> InRange call.caller rf) ∧
      rf.lastSnapshotIncludeIndex = (σ.raft call.caller).lastSnapshotIncludeIndex := by
  refine sendAppendEntries_inRange heffect (href.rounds.other hcall) (h.leader call.caller)
    ?_ ?_
  · intro hyes hterm hleader
    have hargs := (href.rounds.accepted hcall (Or.inl hphase) hyes).1
    exact sent_le href hcall hleader (hterm.symm.trans hargs)
  · intro hno hother hterm hleader
    rcases h.hint call hcall reply (Or.inl hphase) hno hother with ⟨hargs, hlo, hhi⟩
    have hsent := sent_le href hcall hleader (hterm.symm.trans hargs)
    rcases href.rounds.request hcall with ⟨M, p, hreq⟩
    rw [hreq.sent] at hhi
    rw [hreq.length] at hsent
    exact ⟨hlo, by omega⟩

omit [Archive] in
theorem appendEntriesReply (h : Progress σ) (href : Refines α σ) {k : Nat}
    {call : AppendCall n} {reply : AppendEntriesReply} (hk : σ.appendCalls[k]? = some call)
    (hphase : call.phase = .replied reply) :
    Progress (σ.appendEntriesReply k call reply) := by
  have hcall := List.mem_of_getElem? hk
  rcases appendEntriesReply_cases σ k call reply with
    ⟨fault, heq⟩ | ⟨rf, appendNums, hrun, heq⟩
  · rw [heq]
    exact h.stop call.caller fault
  · rcases h.reply_inRange href hcall hphase (sendAppendEntries_effect hrun) with
      ⟨hleader, hindex⟩
    rw [heq]
    refine h.update (touches_setServer σ call.caller _) hleader (le_of_eq hindex.symm) ?_
      same_calls
    intro c hc
    rcases List.mem_or_eq_of_mem_set hc with hin | rfl
    · exact Or.inl hin
    · right
      intro r hr
      rw [Call.answered_finish] at hr
      rw [hr]
      exact h.hint call hcall reply (Or.inl hphase)

omit [Archive] in
theorem leaderSendSnapShot (h : Progress σ) (href : Refines α σ) (k : Nat)
    (call : SnapshotCall n) : Progress (σ.leaderSendSnapShot k call) := by
  rcases (href.node call.caller).held with ⟨s, hs, _⟩
  have hadv : Advances (σ.raft call.caller) (σ.raft call.caller).leaderSendSnapShot.1 :=
    Advances.congr id rfl rfl rfl rfl
  refine h.advance (touches_setServer σ call.caller _) hadv (fun _ hc => Or.inl hc) ?_
  intro c hc args hargs
  rcases List.mem_or_eq_of_mem_set hc with hin | rfl
  · exact Or.inl ⟨c, hin, rfl, hargs⟩
  · right
    rw [SnapshotCall.eq_of_requested rfl hargs]
    change 0 ≤ (σ.raft call.caller).lastSnapshotIncludeIndex ∧
      (σ.raft call.caller).lastSnapshotIncludeIndex ≤
        (σ.raft call.caller).lastSnapshotIncludeIndex
    rw [hs.index]
    omega

theorem installSnapshot (h : Progress σ) {k : Nat} {call : SnapshotCall n}
    {args : InstallSnapshotRequest} (hk : σ.snapshotCalls[k]? = some call)
    (hphase : call.phase = .requested args) : Progress (σ.installSnapshot k call args) := by
  unfold Cluster.installSnapshot resume
  cases houtcome : (σ.raft call.callee).installSnapshot args with
  | error fault => exact h.stop call.callee fault
  | ok result =>
      rcases result with ⟨rf, reply, msg⟩
      refine h.advance (touches_setServer σ call.callee _)
        (installSnapshot_advances houtcome) (fun _ hc => Or.inl hc)
        (set_calls hk rfl fun _ => SnapshotCall.carries_of_replied hphase)

theorem installSnapshotReply (h : Progress σ) (href : Refines α σ) {k : Nat}
    {call : SnapshotCall n} {args : InstallSnapshotRequest}
    {reply : InstallSnapshotResponse} (hk : σ.snapshotCalls[k]? = some call)
    (hphase : call.phase = .replied args reply) :
    Progress (σ.installSnapshotReply k call args reply) := by
  have hcall := List.mem_of_getElem? hk
  unfold Cluster.installSnapshotReply
  generalize hrun : (σ.raft call.caller).leaderSendSnapShotReply call.callee args reply = rf
  cases Raft.leaderSendSnapShotReply_effect hrun with
  | ignored =>
      exact h.advance (touches_setServer σ call.caller _) (Advances.refl _)
        (fun _ hc => Or.inl hc) (set_calls hk rfl fun _ => SnapshotCall.carries_of_returned)
  | newerTerm _ =>
      exact h.advance (touches_setServer σ call.caller _)
        (Advances.follower rfl rfl rfl (le_refl _)) (fun _ hc => Or.inl hc)
        (set_calls hk rfl fun _ => SnapshotCall.carries_of_returned)
  | noted hleader =>
      rcases (href.node call.caller).held with ⟨s, hs, _⟩
      rcases h.snapshot call hcall args (Or.inr ⟨reply, hphase⟩) with ⟨hlo, hhi⟩
      have hlast : args.lastSnapshotIncludeIndex ≤
          (σ.raft call.caller).getLastLogIndex := by
        have := hs.le
        rw [hs.index] at hhi
        rw [hs.lastIndex]
        omega
      exact h.update (touches_setServer σ call.caller _)
        (fun _ => noted_inRange (h.leader call.caller hleader) call.callee hlo hlast)
        (le_refl _) (fun _ hc => Or.inl hc)
        (set_calls hk rfl fun _ => SnapshotCall.carries_of_returned)

theorem step (h : Progress σ) (href : Refines α σ) {a : Action n}
    (hstep : StepEffect σ a σ')
    (hrange : HintsInRange { before := σ, action := a, after := σ' }) : Progress σ' := by
  cases hstep with
  | @doElection i _ => exact h.doElection i
  | @doHeartBeat i _ => exact h.doHeartBeat i
  | @start i command _ => exact h.setRaft (start_advances _ command)
  | @applierTicker i _ => exact h.applierTicker href i
  | @snapshot i index data _ => exact h.snapshotStep href i index data
  | @requestVote k call _ _ _ => exact h.requestVote k call
  | @requestVoteReply k call reply _ _ _ => exact h.requestVoteReply href k call reply
  | appendEntries hk _ _ => exact h.appendEntries href hk hrange
  | appendEntriesReply hk _ hphase => exact h.appendEntriesReply href hk hphase
  | @leaderSendSnapShot k call _ _ _ => exact h.leaderSendSnapShot href k call
  | installSnapshot hk _ hphase => exact h.installSnapshot hk hphase
  | installSnapshotReply hk _ hphase => exact h.installSnapshotReply href hk hphase

end

end Progress
end RaftCore
end KVRaft
