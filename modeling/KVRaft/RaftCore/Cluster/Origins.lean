import KVRaft.RaftCore.Cluster.NodeSteps
import KVRaft.RaftCore.Raft.Entries
import KVRaft.RaftCore.Safety.SameCommand

/-!
# The origin of entries

By itself a cluster only passes entries around: what a server holds or a request
carries was there before.  New entries come from commands alone.  As long as no
server compacts its log, no snapshot is ever sent.
-/

namespace KVRaft
namespace RaftCore

open Foundation

/-- The steps in which Raft runs by itself: all but those the key-value server asks
for. -/
def Action.Internal {n : Nat} : Action n -> Prop
  | .start _ _ => False
  | .applierTicker _ => False
  | .snapshot _ _ _ => False
  | _ => True

instance {n : Nat} : DecidablePred (Action.Internal (n := n)) := fun a =>
  match a with
  | .start _ _ => .isFalse id
  | .applierTicker _ => .isFalse id
  | .snapshot _ _ _ => .isFalse id
  | .doElection _ => .isTrue trivial
  | .doHeartBeat _ => .isTrue trivial
  | .requestVote _ => .isTrue trivial
  | .requestVoteReply _ => .isTrue trivial
  | .appendEntries _ => .isTrue trivial
  | .appendEntriesReply _ => .isTrue trivial
  | .leaderSendSnapShot _ => .isTrue trivial
  | .installSnapshot _ => .isTrue trivial
  | .installSnapshotReply _ => .isTrue trivial

namespace Cluster

variable {n : Nat}

/-- No log has been compacted, and no snapshot is under way. -/
structure Uncompacted (σ : Cluster n) : Prop where
  node : forall i, (σ.raft i).lastSnapshotIncludeIndex = 0
  calls : σ.snapshotCalls = []

/-- Entries have only been passed around, and nothing was applied. -/
structure PassesAround (σ σ' : Cluster n) : Prop where
  present : forall log, σ'.Present log -> σ.Present log
  lastApplied : forall i, (σ'.raft i).lastApplied = (σ.raft i).lastApplied
  snapshot : forall i,
    (σ'.raft i).lastSnapshotIncludeIndex = (σ.raft i).lastSnapshotIncludeIndex
  calls : σ'.snapshotCalls = σ.snapshotCalls

theorem PassesAround.uncompacted {σ σ' : Cluster n} (h : PassesAround σ σ')
    (hnone : Uncompacted σ) : Uncompacted σ' where
  node i := (h.snapshot i).trans (hnone.node i)
  calls := h.calls.trans hnone.calls

theorem passesAround_refl (σ : Cluster n) : PassesAround σ σ where
  present _ h := h
  lastApplied _ := rfl
  snapshot _ := rfl
  calls := rfl

variable {σ σ' : Cluster n} {v : Fin n} {rf : Raft n} {received : List LogEntry}

/-- One node has taken over entries that were present. -/
theorem passesAround_update (htouch : Touches σ σ' v rf)
    (htakes : TakesOver received (σ.raft v) rf)
    (hreceived : forall log, log ∈ received -> σ.Present log)
    (hsent : forall call, call ∈ σ'.appendCalls -> forall log, log ∈ call.args.entries ->
      σ.Present log)
    (hcalls : σ'.snapshotCalls = σ.snapshotCalls) : PassesAround σ σ' where
  present := by
    rintro log (⟨i, hheld⟩ | ⟨call, hcall, hin⟩)
    · rw [htouch i] at hheld
      by_cases hi : i = v
      · rw [if_pos hi] at hheld
        rcases htakes.entries log hheld with hold | hnew
        · exact Or.inl ⟨v, hold⟩
        · exact hreceived log hnew
      · rw [if_neg hi] at hheld
        exact Or.inl ⟨i, hheld⟩
    · exact hsent call hcall log hin
  lastApplied := by
    intro i
    rw [htouch i]
    by_cases hi : i = v
    · rw [if_pos hi, htakes.lastApplied, hi]
    · rw [if_neg hi]
  snapshot := by
    intro i
    rw [htouch i]
    by_cases hi : i = v
    · rw [if_pos hi, htakes.snapshot, hi]
    · rw [if_neg hi]
  calls := hcalls

/-- The same for a step that neither receives entries nor sends any. -/
theorem passesAround_quiet (htouch : Touches σ σ' v rf) (htakes : TakesOver [] (σ.raft v) rf)
    (happends : σ'.appendCalls = σ.appendCalls)
    (hcalls : σ'.snapshotCalls = σ.snapshotCalls) : PassesAround σ σ' := by
  refine passesAround_update htouch htakes nofun ?_ hcalls
  intro call hcall log hin
  rw [happends] at hcall
  exact Or.inr ⟨call, hcall, hin⟩

/-- A handler that faults stops its server, and nothing else happens. -/
theorem passesAround_resume {β : Type} {outcome : Outcome β} {next : β -> Cluster n}
    (h : forall b, outcome = .ok b -> PassesAround σ (next b)) :
    PassesAround σ (σ.resume v outcome next) := by
  cases houtcome : outcome with
  | error fault =>
      exact passesAround_quiet (touches_setServer σ v _) (.of_eq rfl rfl rfl) rfl rfl
  | ok b => exact h b houtcome

/-- The requests are still the same after one call has moved on. -/
theorem present_of_set {calls : List (AppendCall n)} (heq : calls = σ.appendCalls) {k : Nat}
    {call moved : AppendCall n} (hk : σ.appendCalls[k]? = some call)
    (hsame : SameCall call moved) {other : AppendCall n} (hother : other ∈ calls.set k moved)
    {log : LogEntry} (hlog : log ∈ other.args.entries) : σ.Present log := by
  rw [heq] at hother
  rcases mem_set_back hk hsame hother with ⟨before, hbefore, hargs, _⟩
  rw [← hargs.args] at hlog
  exact Or.inr ⟨before, hbefore, hlog⟩

theorem doHeartBeat_passesAround (hnone : Uncompacted σ) (i : Fin n) :
    PassesAround σ (σ.doHeartBeat i) := by
  rw [doHeartBeat_eq]
  by_cases hstatus : (σ.raft i).status = .leader
  · rw [if_pos hstatus]
    have htakes : TakesOver [] (σ.raft i) (σ.raft i) := .of_eq rfl rfl rfl
    refine passesAround_update (touches_setServer σ i _) htakes nofun ?_ ?_
    · intro call hcall log hlog
      rcases List.mem_append.mp hcall with hold | hnew
      · exact Or.inr ⟨call, hold, hlog⟩
      · rcases mem_appendCallsOf hnew with ⟨_, _, _, hmem⟩
        exact Or.inl ⟨i, Raft.heartBeatTo_entries (Raft.mem_heartBeats hmem) hlog⟩
    · have hnew : snapshotCallsOf i
          ((σ.raft i).heartBeats (Raft.othersOf (σ.raft i).me)).1 = [] := by
        rw [List.eq_nil_iff_forall_not_mem]
        intro call hcall
        rcases List.mem_filterMap.mp hcall with ⟨message, hmem, heq⟩
        cases message with
        | appendEntries server args => cases heq
        | snapShot server =>
            exact Raft.heartBeatTo_snapShot (hnone.node i) (Raft.mem_heartBeats hmem)
      rw [hnew, List.append_nil]
  · rw [if_neg hstatus]
    exact passesAround_refl σ

variable [Archive]

theorem StepEffect.passesAround {a : Action n} (h : StepEffect σ a σ') (hnone : Uncompacted σ)
    (hinternal : a.Internal) : PassesAround σ σ' := by
  have hnocall : forall {k : Nat} {call : SnapshotCall n}, σ.snapshotCalls[k]? ≠ some call := by
    intro k call hcall
    rw [hnone.calls] at hcall
    cases hcall
  cases h with
  | @doElection j _ =>
      rw [doElection_eq]
      by_cases hstatus : (σ.raft j).status ≠ .leader
      · rw [if_pos hstatus]
        exact passesAround_quiet (touches_setServer σ j _) (.of_eq rfl rfl rfl) rfl rfl
      · rw [if_neg hstatus]
        exact passesAround_refl σ
  | @doHeartBeat j _ => exact doHeartBeat_passesAround hnone j
  | start _ => cases hinternal
  | applierTicker _ => cases hinternal
  | snapshot _ => cases hinternal
  | @requestVote k call _ _ _ =>
      apply passesAround_resume
      rintro ⟨rf, reply⟩ hvote
      exact passesAround_quiet (touches_setServer σ call.callee _)
        (Raft.requestVote_takesOver hvote) rfl rfl
  | @requestVoteReply k call reply _ _ _ =>
      apply passesAround_resume
      rintro ⟨rf, votedNum⟩ hvote
      exact passesAround_quiet (touches_setServer σ call.caller _)
        (Raft.sendRequestVote_takesOver hvote) rfl rfl
  | @appendEntries k call hk _ _ =>
      apply passesAround_resume
      rintro ⟨rf, reply⟩ happend
      refine passesAround_update (touches_setServer σ call.callee _)
        (Raft.appendEntries1_takesOver happend) ?_ ?_ rfl
      · intro log hlog
        exact Or.inr ⟨call, List.mem_of_getElem? hk, hlog⟩
      · intro other hother log hlog
        exact present_of_set rfl hk (sameCall_answer call reply) hother hlog
  | @appendEntriesReply k call reply hk _ _ =>
      apply passesAround_resume
      rintro ⟨rf, appendNums⟩ hreply
      refine passesAround_update (touches_setServer σ call.caller _)
        (Raft.sendAppendEntries_takesOver hreply) nofun ?_ rfl
      intro other hother log hlog
      exact present_of_set rfl hk (sameCall_finish call reply) hother hlog
  | leaderSendSnapShot hcall _ _ => exact absurd hcall hnocall
  | installSnapshot hcall _ _ => exact absurd hcall hnocall
  | installSnapshotReply hcall _ _ => exact absurd hcall hnocall

/-- A command makes one new entry, at the index that is returned. -/
theorem start_present (i : Fin n) (command : Bytes) {log : LogEntry}
    (hlog : (σ.setRaft i ((σ.raft i).start command).1).Present log) :
    σ.Present log ∨ (log.command = command ∧
      ((σ.raft i).start command).2 = some (log.logIndex, log.logTerm)) := by
  rcases hlog with ⟨j, hheld⟩ | ⟨call, hcall, hin⟩
  · have htouch := touches_setServer σ i
      { σ.servers i with raft := ((σ.raft i).start command).1 } j
    change log ∈ ((σ.setServer i _).raft j).logs at hheld
    rw [htouch] at hheld
    by_cases hj : j = i
    · rw [if_pos hj] at hheld
      rcases Raft.start_cases (σ.raft i) command with hstart | ⟨_, hstart⟩
      · rw [hstart] at hheld
        exact Or.inl (Or.inl ⟨i, hheld⟩)
      · rw [hstart] at hheld ⊢
        rcases List.mem_append.mp hheld with hold | hnew
        · exact Or.inl (Or.inl ⟨i, hold⟩)
        · right
          rw [List.mem_singleton.mp hnew]
          exact ⟨rfl, rfl⟩
    · rw [if_neg hj] at hheld
      exact Or.inl (Or.inl ⟨j, hheld⟩)
  · exact Or.inl (Or.inr ⟨call, hcall, hin⟩)

/-- The applier stops its server, or moves what has been applied. -/
theorem applierTicker_cases {i : Fin n} (h : σ.step (.applierTicker i) = some σ') :
    ((exists fault, σ' = σ.stop i fault) ∧ (σ.raft i).applyMsgs = []) ∨
      exists rf msgs, (σ.raft i).getApplyLogs = .ok (rf, msgs) ∧
        (σ.raft i).applyMsgs = msgs ∧ σ' = σ.setRaft i rf := by
  simp only [step] at h
  by_cases hrunning : σ.Running i
  · rw [if_pos hrunning] at h
    cases h
    rw [Raft.applyMsgs]
    cases hrun : (σ.raft i).getApplyLogs with
    | error fault => exact Or.inl ⟨⟨fault, rfl⟩, rfl⟩
    | ok result => exact Or.inr ⟨result.1, result.2, rfl, rfl, rfl⟩
  · rw [if_neg hrunning] at h
    cases h

omit [Archive] in
theorem present_of_same_logs (htouch : Touches σ σ' v rf) (hlogs : rf.logs = (σ.raft v).logs)
    (happends : σ'.appendCalls = σ.appendCalls) {log : LogEntry} (h : σ'.Present log) :
    σ.Present log := by
  rcases h with ⟨j, hheld⟩ | ⟨call, hcall, hin⟩
  · rw [htouch j] at hheld
    by_cases hj : j = v
    · rw [if_pos hj, hlogs] at hheld
      exact Or.inl ⟨v, hheld⟩
    · rw [if_neg hj] at hheld
      exact Or.inl ⟨j, hheld⟩
  · rw [happends] at hcall
    exact Or.inr ⟨call, hcall, hin⟩

end Cluster
end RaftCore
end KVRaft
