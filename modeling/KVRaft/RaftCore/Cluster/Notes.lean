import KVRaft.RaftCore.Cluster.Simulation
import KVRaft.RaftCore.Raft.Bookkeeping

/-!
# The notes of a leader

What a leader has noted about its peers is written when it is elected and when replies
to its calls come back, and at no other time.
-/

namespace KVRaft
namespace RaftCore

open Foundation LogSystem Cluster

namespace Raft

variable {n : Nat}

/-- The notes stay, and who leads afterwards has led the same term before. -/
structure KeepsNotes (rf rf' : Raft n) : Prop where
  leads : rf'.status = .leader ->
    rf.status = .leader ∧ rf'.currentTerm = rf.currentTerm
  nextIndex : rf'.nextIndex = rf.nextIndex
  matchIndex : rf'.matchIndex = rf.matchIndex

theorem KeepsNotes.refl (rf : Raft n) : KeepsNotes rf rf where
  leads hl := ⟨hl, rfl⟩
  nextIndex := rfl
  matchIndex := rfl

theorem KeepsNotes.of_not_leader {rf rf' : Raft n} (hstatus : rf'.status ≠ .leader)
    (hnext : rf'.nextIndex = rf.nextIndex) (hmatch : rf'.matchIndex = rf.matchIndex) :
    KeepsNotes rf rf' where
  leads hl := absurd hl hstatus
  nextIndex := hnext
  matchIndex := hmatch

theorem observe_keepsNotes (rf : Raft n) (term : Int) : KeepsNotes rf (rf.observe term) := by
  unfold observe
  by_cases hgt : term > rf.currentTerm
  · rw [if_pos hgt]
    exact .of_not_leader nofun rfl rfl
  · rw [if_neg hgt]
    exact .refl rf

theorem follow_keepsNotes (rf : Raft n) (term : Int) : KeepsNotes rf (rf.follow term) :=
  .of_not_leader nofun (follow_nextIndex rf term) (follow_matchIndex rf term)

variable [Archive]

theorem requestVote_keepsNotes {rf rf' : Raft n} {args : RequestVoteArgs}
    {reply : RequestVoteReply} (h : rf.requestVote args = .ok (rf', reply)) :
    KeepsNotes rf rf' := by
  have hobserve := observe_keepsNotes rf args.term
  cases requestVote_effect h with
  | stale _ _ => exact ⟨fun hl => ⟨hl, rfl⟩, rfl, rfl⟩
  | refused _ _ => exact ⟨hobserve.leads, hobserve.nextIndex, hobserve.matchIndex⟩
  | granted _ _ _ _ _ => exact ⟨hobserve.leads, hobserve.nextIndex, hobserve.matchIndex⟩

theorem appendEntries1_keepsNotes {rf rf' : Raft n} {args : AppendEntriesArgs}
    {reply : AppendEntriesReply} (h : rf.appendEntries1 args = .ok (rf', reply)) :
    KeepsNotes rf rf' := by
  have hfollow := follow_keepsNotes rf args.term
  cases appendEntries1_effect h with
  | stale _ _ _ => exact .refl rf
  | tooNew _ _ _ _ _ => exact ⟨hfollow.leads, hfollow.nextIndex, hfollow.matchIndex⟩
  | mismatch _ _ _ _ _ => exact ⟨hfollow.leads, hfollow.nextIndex, hfollow.matchIndex⟩
  | accepted _ _ hfold _ _ _ =>
      rw [advanceCommit_eq, foldlM_appendEntry_eq hfold]
      exact ⟨hfollow.leads, hfollow.nextIndex, hfollow.matchIndex⟩

theorem installSnapshot_keepsNotes {rf rf' : Raft n} {args : InstallSnapshotRequest}
    {reply : InstallSnapshotResponse} {msg : Option ApplyMsg}
    (h : rf.installSnapshot args = .ok (rf', reply, msg)) : KeepsNotes rf rf' := by
  have hfollow := follow_keepsNotes rf args.term
  cases installSnapshot_effect h with
  | stale _ => exact .refl rf
  | outdated _ _ => exact ⟨hfollow.leads, hfollow.nextIndex, hfollow.matchIndex⟩
  | installed _ _ _ _ => exact ⟨nofun, hfollow.nextIndex, hfollow.matchIndex⟩

theorem start_keepsNotes (rf : Raft n) (command : Bytes) :
    KeepsNotes rf (rf.start command).1 := by
  rcases start_cases rf command with hstart | ⟨_, hstart⟩
  · rw [hstart]
    exact .refl rf
  · rw [hstart]
    exact ⟨fun hl => ⟨hl, rfl⟩, rfl, rfl⟩

theorem snapshot_keepsNotes {rf rf' : Raft n} {index : Int} {data : Bytes}
    (h : rf.snapshot index data = .ok rf') : KeepsNotes rf rf' := by
  rcases snapshot_cases h with rfl | ⟨newLast, kept, _, _, _, _, rfl⟩
  · exact .refl _
  · exact ⟨fun hl => ⟨hl, rfl⟩, rfl, rfl⟩

omit [Archive] in
theorem getApplyLogs_keepsNotes {rf rf' : Raft n} {msgs : List ApplyMsg}
    (h : rf.getApplyLogs = .ok (rf', msgs)) : KeepsNotes rf rf' := by
  rw [(getApplyLogs_eq h).1]
  exact ⟨fun hl => ⟨hl, rfl⟩, rfl, rfl⟩

/-- A leader takes note of a snapshot that has reached a peer. -/
def noteSnapshot (rf : Raft n) (server : Fin n) (index : Int) : Raft n :=
  { rf with
    matchIndex := Function.update rf.matchIndex server index
    nextIndex := Function.update rf.nextIndex server (index + 1) }

/-- The reply to a snapshot counts while its sender leads the term it was sent in. -/
def CountsSnapshot (rf : Raft n) (args : InstallSnapshotRequest)
    (reply : InstallSnapshotResponse) : Prop :=
  rf.status = .leader ∧ rf.currentTerm = args.term ∧ reply.term ≤ rf.currentTerm

theorem leaderSendSnapShotReply_counts {rf : Raft n} {args : InstallSnapshotRequest}
    {reply : InstallSnapshotResponse} (h : rf.CountsSnapshot args reply) (server : Fin n) :
    rf.leaderSendSnapShotReply server args reply =
      rf.noteSnapshot server args.lastSnapshotIncludeIndex := by
  rcases h with ⟨hleader, hterm, hle⟩
  unfold leaderSendSnapShotReply
  rw [if_neg (not_or.mpr ⟨not_not_intro hleader, not_not_intro hterm⟩),
    if_neg (not_lt.mpr hle)]
  rfl

theorem leaderSendSnapShotReply_cases (rf : Raft n) (server : Fin n)
    (args : InstallSnapshotRequest) (reply : InstallSnapshotResponse) :
    KeepsNotes rf (rf.leaderSendSnapShotReply server args reply) ∨
      (rf.CountsSnapshot args reply ∧
        rf.leaderSendSnapShotReply server args reply =
          rf.noteSnapshot server args.lastSnapshotIncludeIndex) := by
  by_cases hcounts : rf.CountsSnapshot args reply
  · exact Or.inr ⟨hcounts, leaderSendSnapShotReply_counts hcounts server⟩
  left
  unfold leaderSendSnapShotReply
  by_cases hgone : rf.status ≠ .leader ∨ rf.currentTerm ≠ args.term
  · rw [if_pos hgone]
    exact .refl rf
  rw [if_neg hgone]
  by_cases hgt : reply.term > rf.currentTerm
  · rw [if_pos hgt]
    exact .of_not_leader nofun rfl rfl
  · rw [not_or, not_not, not_not] at hgone
    exact absurd ⟨hgone.1, hgone.2, not_lt.mp hgt⟩ hcounts

end Raft

/-!
# Steps of a cluster
-/

namespace Cluster

variable {n : Nat} [Archive]

/-- What a step does to the notes of server `i`. -/
inductive NoteStep (σ : Cluster n) (i : Fin n) : Action n -> Raft n -> Prop where
  | kept {a : Action n} {rf : Raft n} : (σ.raft i).KeepsNotes rf -> NoteStep σ i a rf
  | elected {k : Nat} : (σ.raft i).status ≠ .leader ->
      NoteStep σ i (.requestVoteReply k) (σ.raft i).becomeLeader
  | replied {k appendNums : Nat} {call : AppendCall n} {reply : AppendEntriesReply}
      {rf : Raft n} : σ.appendCalls[k]? = some call -> call.caller = i ->
      call.phase = .replied reply ->
      (σ.raft i).sendAppendEntries call.callee call.args reply
        ((σ.appendNums i).getD call.counter 0) = .ok (rf, appendNums) ->
      NoteStep σ i (.appendEntriesReply k) rf
  | noted {k : Nat} {call : SnapshotCall n} {args : InstallSnapshotRequest}
      {reply : InstallSnapshotResponse} : σ.snapshotCalls[k]? = some call ->
      call.caller = i -> call.phase = .replied args reply ->
      (σ.raft i).CountsSnapshot args reply ->
      NoteStep σ i (.installSnapshotReply k)
        ((σ.raft i).noteSnapshot call.callee args.lastSnapshotIncludeIndex)

section

variable {σ σ' : Cluster n} {a : Action n} {v : Fin n} {rf : Raft n}

theorem NoteStep.of_touches (htouch : Touches σ σ' v rf) (h : NoteStep σ v a rf)
    (i : Fin n) : NoteStep σ i a (σ'.raft i) := by
  rw [htouch i]
  by_cases hi : i = v
  · rw [if_pos hi, hi]
    exact h
  · rw [if_neg hi]
    exact .kept (.refl _)

theorem NoteStep.of_setServer {server : Server n} (h : NoteStep σ v a server.raft)
    (i : Fin n) : NoteStep σ i a ((σ.setServer v server).raft i) :=
  h.of_touches (touches_setServer σ v server) i

/-- A handler that faults leaves its node alone. -/
theorem NoteStep.of_resume {β : Type} {outcome : Outcome β} {next : β -> Cluster n}
    {i : Fin n} (h : forall b, outcome = .ok b -> NoteStep σ i a ((next b).raft i)) :
    NoteStep σ i a ((σ.resume v outcome next).raft i) := by
  cases houtcome : outcome with
  | error fault =>
      have hsame : (σ.resume v (.error fault : Outcome β) next).raft i = σ.raft i :=
        raft_stop σ v i fault
      rw [hsame]
      exact .kept (.refl _)
  | ok b => exact h b houtcome

end

theorem StepEffect.noteStep {σ σ' : Cluster n} {a : Action n} (h : StepEffect σ a σ')
    (i : Fin n) : NoteStep σ i a (σ'.raft i) := by
  cases h with
  | @doElection j _ =>
      rw [doElection_eq]
      by_cases hstatus : (σ.raft j).status ≠ .leader
      · rw [if_pos hstatus]
        refine NoteStep.of_touches (touches_setServer σ j _) (.kept ?_) i
        exact .of_not_leader (show Status.candidate ≠ .leader from nofun) rfl rfl
      · rw [if_neg hstatus]
        exact .kept (.refl _)
  | @doHeartBeat j _ =>
      rw [doHeartBeat_eq]
      by_cases hstatus : (σ.raft j).status = .leader
      · rw [if_pos hstatus]
        refine NoteStep.of_touches (touches_setServer σ j _) (.kept ?_) i
        exact .refl _
      · rw [if_neg hstatus]
        exact .kept (.refl _)
  | @start j command _ =>
      exact NoteStep.of_setServer (.kept (Raft.start_keepsNotes _ command)) i
  | @applierTicker j _ =>
      refine NoteStep.of_resume ?_
      rintro ⟨rf, msgs⟩ happly
      exact NoteStep.of_setServer (.kept (Raft.getApplyLogs_keepsNotes happly)) i
  | @snapshot j index data _ =>
      refine NoteStep.of_resume ?_
      intro rf hsnapshot
      exact NoteStep.of_setServer (.kept (Raft.snapshot_keepsNotes hsnapshot)) i
  | @requestVote k call _ _ _ =>
      refine NoteStep.of_resume ?_
      rintro ⟨rf, reply⟩ hvote
      exact NoteStep.of_setServer (.kept (Raft.requestVote_keepsNotes hvote)) i
  | @requestVoteReply k call reply _ _ _ =>
      refine NoteStep.of_resume ?_
      rintro ⟨rf, votedNum⟩ hvote
      refine NoteStep.of_setServer ?_ i
      cases Raft.sendRequestVote_effect hvote with
      | newerTerm _ => exact .kept (.of_not_leader nofun rfl rfl)
      | ignored => exact .kept (.refl _)
      | counted _ _ _ => exact .kept (.refl _)
      | elected _ _ _ hstatus => exact .elected hstatus
  | @appendEntries k call _ _ _ =>
      refine NoteStep.of_resume ?_
      rintro ⟨rf, reply⟩ happend
      exact NoteStep.of_setServer (.kept (Raft.appendEntries1_keepsNotes happend)) i
  | @appendEntriesReply k call reply hk _ hphase =>
      rcases appendEntriesReply_cases σ k call reply with
        ⟨fault, heq⟩ | ⟨rf, appendNums, hreply, heq⟩
      · rw [heq, raft_stop]
        exact .kept (.refl _)
      · rw [heq]
        exact NoteStep.of_setServer (.replied hk rfl hphase hreply) i
  | @leaderSendSnapShot k call _ _ _ =>
      refine NoteStep.of_touches (touches_setServer σ call.caller _) (.kept ?_) i
      exact ⟨fun hl => ⟨hl, rfl⟩, rfl, rfl⟩
  | @installSnapshot k call args _ _ _ =>
      refine NoteStep.of_resume ?_
      rintro ⟨rf, reply, msg⟩ hinstall
      exact NoteStep.of_setServer (.kept (Raft.installSnapshot_keepsNotes hinstall)) i
  | @installSnapshotReply k call args reply hk _ hphase =>
      refine NoteStep.of_setServer ?_ i
      rcases Raft.leaderSendSnapShotReply_cases (σ.raft call.caller) call.callee args reply
        with hkept | ⟨hcounts, heq⟩
      · exact .kept hkept
      · change NoteStep σ call.caller _
          ((σ.raft call.caller).leaderSendSnapShotReply call.callee args reply)
        rw [heq]
        exact .noted hk rfl hphase hcounts

/-!
# Snapshot calls
-/

/-- Where a snapshot call after a step comes from. -/
inductive SnapshotCallStep (σ : Cluster n) (c : SnapshotCall n) : Prop where
  | kept {d : SnapshotCall n} : d ∈ σ.snapshotCalls -> d.caller = c.caller ->
      d.callee = c.callee -> (forall args, c.Carries args -> d.Carries args) ->
      SnapshotCallStep σ c
  | built {d : SnapshotCall n} : d ∈ σ.snapshotCalls -> d.caller = c.caller ->
      d.callee = c.callee ->
      c.phase = .requested (σ.raft c.caller).leaderSendSnapShot.2 ->
      SnapshotCallStep σ c
  | started : c.phase = .started -> c.callee ≠ (σ.raft c.caller).me ->
      SnapshotCallStep σ c

section

variable {σ σ' : Cluster n} {c : SnapshotCall n}

omit [Archive] in
theorem SnapshotCallStep.same (hc : c ∈ σ'.snapshotCalls)
    (hsame : σ'.snapshotCalls = σ.snapshotCalls) : SnapshotCallStep σ c := by
  rw [hsame] at hc
  exact .kept hc rfl rfl fun _ => id

omit [Archive] in
theorem SnapshotCallStep.of_resume {β : Type} {i : Fin n} {outcome : Outcome β}
    {next : β -> Cluster n} (hc : c ∈ (σ.resume i outcome next).snapshotCalls)
    (h : forall b, outcome = .ok b -> c ∈ (next b).snapshotCalls -> SnapshotCallStep σ c) :
    SnapshotCallStep σ c := by
  cases houtcome : outcome with
  | error fault =>
      rw [houtcome] at hc
      exact .same hc rfl
  | ok b =>
      rw [houtcome] at hc
      exact h b houtcome hc

omit [Archive] in
theorem mem_snapshotCallsOf_server {i : Fin n} {messages : List (Raft.Outgoing n)}
    (hc : c ∈ snapshotCallsOf i messages) :
    c.caller = i ∧ c.callee ∈ messages.map Raft.Outgoing.server := by
  rcases List.mem_filterMap.mp hc with ⟨message, hmessage, heq⟩
  cases message with
  | appendEntries server args => cases heq
  | snapShot server =>
      cases heq
      exact ⟨rfl, List.mem_map.mpr ⟨_, hmessage, rfl⟩⟩

theorem StepEffect.snapshotCall {a : Action n} (h : StepEffect σ a σ')
    (hc : c ∈ σ'.snapshotCalls) : SnapshotCallStep σ c := by
  cases h with
  | @doElection j _ =>
      refine .same hc ?_
      rw [doElection_eq]
      split
      · rfl
      · rfl
  | @doHeartBeat j _ =>
      rw [doHeartBeat_eq] at hc
      by_cases hstatus : (σ.raft j).status = .leader
      · rw [if_pos hstatus] at hc
        rcases List.mem_append.mp hc with hin | hin
        · exact .kept hin rfl rfl fun _ => id
        · rcases mem_snapshotCallsOf_server hin with ⟨hcaller, hcallee⟩
          refine .started (mem_snapshotCallsOf hin) ?_
          have hother := (Raft.heartBeats_servers _ _).subset hcallee
          rw [Raft.mem_othersOf] at hother
          rw [hcaller]
          exact hother
      · rw [if_neg hstatus] at hc
        exact .kept hc rfl rfl fun _ => id
  | @start j command _ => exact .same hc rfl
  | @applierTicker j _ => exact .of_resume hc fun _ _ hc => .same hc rfl
  | @snapshot j index data _ => exact .of_resume hc fun _ _ hc => .same hc rfl
  | @requestVote k call _ _ _ => exact .of_resume hc fun _ _ hc => .same hc rfl
  | @requestVoteReply k call reply _ _ _ => exact .of_resume hc fun _ _ hc => .same hc rfl
  | @appendEntries k call _ _ _ => exact .of_resume hc fun _ _ hc => .same hc rfl
  | @appendEntriesReply k call reply _ _ _ => exact .of_resume hc fun _ _ hc => .same hc rfl
  | @leaderSendSnapShot k call hk _ _ =>
      rcases List.mem_or_eq_of_mem_set hc with hin | rfl
      · exact .kept hin rfl rfl fun _ => id
      · exact .built (List.mem_of_getElem? hk) rfl rfl rfl
  | @installSnapshot k call args hk _ hphase =>
      refine .of_resume hc ?_
      rintro ⟨rf, reply, msg⟩ _ hc
      rcases List.mem_or_eq_of_mem_set hc with hin | rfl
      · exact .kept hin rfl rfl fun _ => id
      · exact .kept (List.mem_of_getElem? hk) rfl rfl fun _ =>
          SnapshotCall.carries_of_replied hphase
  | @installSnapshotReply k call args reply hk _ _ =>
      rcases List.mem_or_eq_of_mem_set hc with hin | rfl
      · exact .kept hin rfl rfl fun _ => id
      · exact .kept (List.mem_of_getElem? hk) rfl rfl fun _ =>
          SnapshotCall.carries_of_returned

end

end Cluster
end RaftCore
end KVRaft
