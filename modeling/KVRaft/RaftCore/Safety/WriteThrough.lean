import KVRaft.Foundation.Transition
import KVRaft.RaftCore.Raft.Handler
import KVRaft.RaftCore.Raft.PlainArchive

/-!
# Writing through

One node that is not restarted, its handlers called with any arguments.  Between two
of them the state file, which holds the string of the last save, is that of the node,
unless a reply to an append request has just brought a newer term.
-/

namespace KVRaft
namespace RaftCore

open Foundation

/-- All runs of node `me`, from a first start in an empty directory. -/
def nodeSystem [Archive] {n : Nat} (me : Fin n) :
    TransitionSystem (Raft n) (Handler n) where
  init := Raft.blank me (Persister.create [] [])
  step rf handler := (handler.run rf).toOption

section

variable {n : Nat}

/-- Once a durable field has changed, the file holds what the node would write. -/
def WrittenThrough [Archive] (rf : Raft n) : Prop :=
  rf.durable ≠ Durable.initial -> rf.persister.raftStateFile = rf.persistData

/-- A reply to an append request that takes its sender to a newer term. -/
def NewerTermReply (rf : Raft n) : Handler n -> Prop
  | .sendAppendEntries _ _ reply _ =>
      reply.appState ≠ disconnected ∧ rf.currentTerm < reply.term
  | _ => False

/-- Sent append requests bring no newer term back. -/
def StaysInTerm (t : Transition (Raft n) (Handler n)) : Prop :=
  ¬ NewerTermReply t.before t.action

instance (rf : Raft n) : DecidablePred (NewerTermReply rf)
  | .sendAppendEntries _ _ reply _ =>
      inferInstanceAs
        (Decidable (reply.appState ≠ disconnected ∧ rf.currentTerm < reply.term))
  | .doElection => isFalse id
  | .requestVote _ => isFalse id
  | .sendRequestVote _ _ => isFalse id
  | .appendEntries1 _ => isFalse id
  | .start _ => isFalse id
  | .getApplyLogs => isFalse id
  | .snapshot _ _ => isFalse id
  | .leaderSendSnapShot => isFalse id
  | .leaderSendSnapShotReply _ _ _ => isFalse id
  | .installSnapshot _ => isFalse id

instance : DecidablePred (StaysInTerm (n := n)) := fun t =>
  inferInstanceAs (Decidable (¬ NewerTermReply t.before t.action))

/-!
# What a handler writes
-/

/-- A handler that writes its file last, or changes nothing that is kept in it. -/
inductive WritesLast [Archive] (rf rf' : Raft n) : Prop where
  | written : rf'.persister.raftStateFile = rf'.persistData -> WritesLast rf rf'
  | untouched : rf'.durable = rf.durable ->
      rf'.persister.raftStateFile = rf.persister.raftStateFile -> WritesLast rf rf'

theorem persistData_of_durable [Archive] {rf rf' : Raft n} (h : rf'.durable = rf.durable) :
    rf'.persistData = rf.persistData := by
  have hterm := congrArg Durable.currentTerm h
  have hvote := congrArg Durable.votedFor h
  have hindex := congrArg Durable.lastSnapshotIncludeIndex h
  have hsnapshot := congrArg Durable.lastSnapshotIncludeTerm h
  have hlogs := congrArg Durable.logs h
  simp only [Raft.durable] at hterm hvote hindex hsnapshot hlogs
  simp only [Raft.persistData, hterm, hvote, hindex, hsnapshot, hlogs]

theorem commitSent_untouched [Archive] (rf : Raft n) (args : AppendEntriesArgs) :
    WritesLast rf (rf.commitSent args) := by
  rcases Raft.commitSent_cases rf args with hstate | ⟨_, hstate⟩
  · rw [hstate]
    exact .untouched rfl rfl
  · rw [hstate]
    exact .untouched rfl rfl

variable [Archive]

theorem sendAppendEntries_writesLast {rf rf' : Raft n} {server : Fin n}
    {args : AppendEntriesArgs} {reply : AppendEntriesReply} {appendNums appendNums' : Nat}
    (hnewer : ¬ (reply.appState ≠ disconnected ∧ rf.currentTerm < reply.term))
    (h : rf.sendAppendEntries server args reply appendNums = .ok (rf', appendNums')) :
    WritesLast rf rf' := by
  by_cases hdown : reply.appState = disconnected
  · unfold Raft.sendAppendEntries at h
    rw [if_pos hdown] at h
    cases h
    exact .untouched rfl rfl
  cases Raft.sendAppendEntries_effect h with
  | newerTerm hlt => exact absurd ⟨hdown, hlt⟩ hnewer
  | ignored => exact .untouched rfl rfl
  | hinted _ _ _ _ => exact .untouched rfl rfl
  | counted _ _ _ _ => exact .untouched rfl rfl
  | majority _ _ _ _ _ =>
      cases commitSent_untouched (rf.recordMatch server args) args with
      | written hfile => exact .written hfile
      | untouched hdurable hfile => exact .untouched hdurable hfile

theorem snapshot_writesLast {rf rf' : Raft n} {index : Int} {data : Bytes}
    (h : rf.snapshot index data = .ok rf') : WritesLast rf rf' := by
  rcases Raft.snapshot_cases h with rfl | ⟨newLast, kept, _, _, _, _, rfl⟩
  · exact .untouched rfl rfl
  · exact .written rfl

theorem installSnapshot_writesLast {rf rf' : Raft n} {args : InstallSnapshotRequest}
    {reply : InstallSnapshotResponse} {msg : Option ApplyMsg}
    (h : rf.installSnapshot args = .ok (rf', reply, msg)) : WritesLast rf rf' := by
  have hfollow : WritesLast rf (rf.followSnapshot args.term) := by
    unfold Raft.followSnapshot
    by_cases hgt : args.term > rf.currentTerm
    · rw [if_pos hgt]
      exact .written rfl
    · rw [if_neg hgt]
      exact .untouched rfl rfl
  rcases Raft.installSnapshot_cases h with ⟨_, rfl, _⟩ | ⟨_, ⟨_, rfl, _, _⟩ |
    ⟨logs, _, _, rfl, _, _⟩⟩
  · exact .untouched rfl rfl
  · exact hfollow
  · exact .written rfl

theorem leaderSendSnapShotReply_writesLast (rf : Raft n) (server : Fin n)
    (args : InstallSnapshotRequest) (reply : InstallSnapshotResponse) :
    WritesLast rf (rf.leaderSendSnapShotReply server args reply) := by
  generalize hrun : rf.leaderSendSnapShotReply server args reply = rf'
  cases Raft.leaderSendSnapShotReply_effect hrun with
  | ignored => exact .untouched rfl rfl
  | newerTerm _ => exact .written rfl
  | noted _ => exact .untouched rfl rfl

theorem Handler.run_writesLast {handler : Handler n} {rf rf' : Raft n}
    (hnewer : ¬ NewerTermReply rf handler) (h : handler.run rf = .ok rf') :
    WritesLast rf rf' := by
  cases handler with
  | doElection =>
      cases h
      rcases Raft.doElection_cases rf with hstate | hstate
      · rw [hstate]
        exact .untouched rfl rfl
      · rw [hstate]
        exact .written rfl
  | requestVote args =>
      rcases map_ok h with ⟨⟨rf1, reply⟩, hcall, rfl⟩
      cases Raft.requestVote_effect hcall with
      | stale _ _ => exact .written rfl
      | refused _ _ => exact .written rfl
      | granted _ _ _ _ _ => exact .written rfl
  | sendRequestVote reply votedNum =>
      rcases map_ok h with ⟨⟨rf1, votedNum'⟩, hcall, rfl⟩
      cases Raft.sendRequestVote_effect hcall with
      | newerTerm _ => exact .written rfl
      | ignored => exact .untouched rfl rfl
      | counted _ _ _ => exact .untouched rfl rfl
      | elected _ _ _ _ => exact .written rfl
  | appendEntries1 args =>
      rcases map_ok h with ⟨⟨rf1, reply⟩, hcall, rfl⟩
      cases Raft.appendEntries1_effect hcall with
      | stale _ _ _ => exact .untouched rfl rfl
      | tooNew _ _ _ _ _ => exact .written rfl
      | mismatch _ _ _ _ _ => exact .written rfl
      | accepted _ _ _ _ _ _ => exact .written rfl
  | sendAppendEntries server args reply appendNums =>
      rcases map_ok h with ⟨⟨rf1, appendNums'⟩, hcall, rfl⟩
      exact sendAppendEntries_writesLast hnewer hcall
  | start command =>
      cases h
      rcases Raft.start_cases rf command with hstart | ⟨_, hstart⟩
      · rw [hstart]
        exact .untouched rfl rfl
      · rw [hstart]
        exact .written rfl
  | getApplyLogs =>
      rcases map_ok h with ⟨⟨rf1, msgs⟩, hcall, rfl⟩
      rw [(Raft.getApplyLogs_eq hcall).1]
      exact .untouched rfl rfl
  | snapshot index data => exact snapshot_writesLast h
  | leaderSendSnapShot =>
      cases h
      exact .untouched rfl rfl
  | leaderSendSnapShotReply server args reply =>
      cases h
      exact leaderSendSnapShotReply_writesLast rf server args reply
  | installSnapshot args =>
      rcases map_ok h with ⟨⟨rf1, reply, msg⟩, hcall, rfl⟩
      exact installSnapshot_writesLast hcall

theorem WrittenThrough.step {rf rf' : Raft n} (h : WrittenThrough rf)
    (hwrites : WritesLast rf rf') : WrittenThrough rf' := by
  intro hchanged
  cases hwrites with
  | written hfile => exact hfile
  | untouched hdurable hfile =>
      rw [hdurable] at hchanged
      rw [hfile, h hchanged, persistData_of_durable hdurable]

/-!
# Runs
-/

theorem nodeStep_run {me : Fin n} {rf rf' : Raft n} {handler : Handler n}
    (h : (nodeSystem me).step rf handler = some rf') : handler.run rf = .ok rf' := by
  cases hrun : handler.run rf with
  | error fault =>
      change (handler.run rf).toOption = some rf' at h
      rw [hrun] at h
      cases h
  | ok rf1 =>
      change (handler.run rf).toOption = some rf' at h
      rw [hrun] at h
      cases h
      rfl

theorem writtenThrough {me : Fin n} {tr : List (Transition (Raft n) (Handler n))}
    {rf : Raft n} (h : (nodeSystem me).Trace tr rf)
    (hstays : forall t, t ∈ tr -> StaysInTerm t) : WrittenThrough rf := by
  refine TransitionSystem.Trace.invariant_under (P := fun _ rf => WrittenThrough rf)
    (fun hchanged => absurd (Raft.blank_durable me _) hchanged) ?_ h hstays
  intro tr rf rf' handler _ _ hbefore hstep hlast
  exact hbefore.step (Handler.run_writesLast hlast (nodeStep_run hstep))

/-!
A state file is never ahead of the node, so a newer term that is not written makes a
difference.
-/

structure Behind (rf : Raft n) : Prop where
  term : 0 ≤ rf.currentTerm
  file : rf.persister.raftStateFile = [] ∨
    exists d, Durable.decode rf.persister.raftStateFile = some d ∧
      d.currentTerm ≤ rf.currentTerm

variable [LawfulArchive]

theorem Behind.run {rf rf' : Raft n} {handler : Handler n} (h : Behind rf)
    (hrun : handler.run rf = .ok rf') : Behind rf' := by
  have hdurably := Handler.run_durably hrun
  constructor
  · exact h.term.trans hdurably.keeps.term
  · rcases hdurably.file with hsame | hwritten
    · rw [hsame]
      rcases h.file with hempty | ⟨d, hd, hle⟩
      · exact Or.inl hempty
      · exact Or.inr ⟨d, hd, hle.trans hdurably.keeps.term⟩
    · right
      rw [hwritten]
      exact ⟨rf'.durable, Raft.decode_persistData rf', le_refl _⟩

theorem behind {me : Fin n} {tr : List (Transition (Raft n) (Handler n))} {rf : Raft n}
    (h : (nodeSystem me).Trace tr rf) : Behind rf := by
  refine TransitionSystem.Trace.invariant (P := fun _ rf => Behind rf) ?_ ?_ h
  · exact { term := le_refl 0, file := Or.inl rfl }
  · intro tr rf rf' handler _ ih hstep
    exact ih.run (nodeStep_run hstep)

theorem Behind.not_writtenThrough {rf rf' : Raft n} {handler : Handler n} (h : Behind rf)
    (hnewer : NewerTermReply rf handler) (hrun : handler.run rf = .ok rf') :
    ¬ WrittenThrough rf' := by
  cases handler with
  | sendAppendEntries server args reply appendNums =>
      rcases hnewer with ⟨hup, hlt⟩
      have hstep : rf' = rf.stepDown reply.term := by
        rcases map_ok hrun with ⟨⟨rf1, appendNums'⟩, hcall, rfl⟩
        unfold Raft.sendAppendEntries at hcall
        rw [if_neg hup, if_pos hlt] at hcall
        cases hcall
        rfl
      have hpos := h.term
      have hterm : rf'.currentTerm = reply.term := by
        rw [hstep]
        rfl
      intro hthrough
      have hchanged : rf'.durable ≠ Durable.initial := by
        intro hsame
        have hzero : rf'.currentTerm = 0 := congrArg Durable.currentTerm hsame
        omega
      have hfile := hthrough hchanged
      have hold : rf'.persister.raftStateFile = rf.persister.raftStateFile := by
        rw [hstep]
        rfl
      rw [hold] at hfile
      rcases h.file with hempty | ⟨d, hd, hle⟩
      · rw [hempty] at hfile
        exact absurd hfile.symm (LawfulArchive.textOarchive_ne_nil _)
      · rw [hfile, Raft.decode_persistData] at hd
        cases hd
        change rf'.currentTerm ≤ rf.currentTerm at hle
        omega
  | _ => exact hnewer.elim

/-- Every state of a run is written through exactly when no append reply of the run
brought a newer term. -/
theorem written_through_iff {me : Fin n} (r : (nodeSystem me).Run) :
    (forall rf, r.Visits rf -> WrittenThrough rf) <-> r.Always StaysInTerm := by
  constructor
  · intro hthrough t ht hnewer
    rcases r.valid.before_of_mem ht with ⟨earlier, htrace, _⟩
    have hrun := nodeStep_run (r.valid.step_of_mem ht)
    have hafter : r.Visits t.after := r.visits_after ht
    exact (behind htrace).not_writtenThrough hnewer hrun (hthrough _ hafter)
  · intro hstays rf hrf
    rcases hrf.trace with ⟨earlier, htrace, hsub⟩
    exact writtenThrough htrace fun t ht => hstays t (hsub t ht)

end

/-!
# A reply with a newer term

The leader of term 1 sends a heartbeat and is answered by a server of term 2.
-/

def emptyHeartBeat : AppendEntriesArgs where
  term := 1
  leaderId := 0
  prevLogIndex := 0
  prevLogTerm := 0
  entries := []
  leaderCommit := 0

def electedSchedule : List (Handler 3) :=
  [.doElection, .sendRequestVote { term := 1, voteGranted := true, voteState := normal } 1]

def newerTermRun : (@nodeSystem plainArchive 3 0).Run :=
  TransitionSystem.runOf _
    (electedSchedule ++
      [.sendAppendEntries 1 emptyHeartBeat { term := 2, appState := appNormal } 1])
    (by decide +kernel)

theorem newerTermRun_not_written_through :
    newerTermRun.Visits newerTermRun.state ∧
      ¬ @WrittenThrough 3 plainArchive newerTermRun.state ∧
      newerTermRun.state.currentTerm = 2 ∧
      (@Durable.decode plainArchive newerTermRun.state.persister.raftStateFile).map
        Durable.currentTerm = some 1 := by
  refine ⟨Or.inl rfl, ?_, by decide +kernel, by decide +kernel⟩
  intro h
  have hchanged : newerTermRun.state.durable ≠ Durable.initial := by
    decide +kernel
  have hother : newerTermRun.state.persister.raftStateFile ≠
      @Raft.persistData 3 plainArchive newerTermRun.state := by
    decide +kernel
  exact hother (h hchanged)

def electedRun : (@nodeSystem plainArchive 3 0).Run :=
  TransitionSystem.runOf _ electedSchedule (by decide +kernel)

/-- Up to that reply everything is written through. -/
theorem electedRun_written_through :
    electedRun.state.durable ≠ Durable.initial ∧
      forall rf, electedRun.Visits rf -> @WrittenThrough 3 plainArchive rf := by
  have hstays : forall t, t ∈ electedRun.trace -> StaysInTerm t := by
    decide +kernel
  exact ⟨by decide +kernel,
    (@written_through_iff 3 plainArchive plainArchive_lawful 0 electedRun).mpr hstays⟩

end RaftCore
end KVRaft
