import KVRaft.RaftCore.Raft.Durable

/-!
# The handlers of a node

One call of a handler with whatever arguments its peers, its client and its
key-value server choose.
-/

namespace KVRaft
namespace RaftCore

open Foundation (bind_eq_ok check_eq_ok)

inductive Handler (n : Nat) where
  | doElection
  | requestVote (args : RequestVoteArgs)
  | sendRequestVote (reply : RequestVoteReply) (votedNum : Nat)
  | appendEntries1 (args : AppendEntriesArgs)
  | sendAppendEntries (server : Fin n) (args : AppendEntriesArgs)
      (reply : AppendEntriesReply) (appendNums : Nat)
  | start (command : Bytes)
  | getApplyLogs
  | snapshot (index : Int) (data : Bytes)
  | leaderSendSnapShot
  | leaderSendSnapShotReply (server : Fin n) (args : InstallSnapshotRequest)
      (reply : InstallSnapshotResponse)
  | installSnapshot (args : InstallSnapshotRequest)
  deriving DecidableEq

namespace Handler

variable {n : Nat}

/-- Candidates are numbered from 0. -/
def fromPeer : Handler n -> Bool
  | .requestVote args => 0 ≤ args.candidateId
  | _ => true

def run [Archive] (rf : Raft n) : Handler n -> Outcome (Raft n)
  | .doElection => .ok rf.doElection.1
  | .requestVote args => (rf.requestVote args).map Prod.fst
  | .sendRequestVote reply votedNum => (rf.sendRequestVote reply votedNum).map Prod.fst
  | .appendEntries1 args => (rf.appendEntries1 args).map Prod.fst
  | .sendAppendEntries server args reply appendNums =>
      (rf.sendAppendEntries server args reply appendNums).map Prod.fst
  | .start command => .ok (rf.start command).1
  | .getApplyLogs => rf.getApplyLogs.map Prod.fst
  | .snapshot index data => rf.snapshot index data
  | .leaderSendSnapShot => .ok rf.leaderSendSnapShot.1
  | .leaderSendSnapShotReply server args reply =>
      .ok (rf.leaderSendSnapShotReply server args reply)
  | .installSnapshot args => (rf.installSnapshot args).map Prod.fst

/-- The handlers that move `lastApplied`. -/
def applies : Handler n -> Bool
  | .getApplyLogs => true
  | .snapshot _ _ => true
  | .installSnapshot _ => true
  | _ => false

end Handler

section

variable {n : Nat}

theorem map_ok {α β : Type} {f : α -> β} {x : Outcome α} {b : β}
    (h : x.map f = .ok b) : exists a, x = .ok a ∧ f a = b := by
  cases x with
  | error e => cases h
  | ok a =>
      cases h
      exact ⟨a, rfl, rfl⟩

variable [Archive]

theorem Handler.run_durably {handler : Handler n} {rf rf' : Raft n}
    (h : handler.run rf = .ok rf') : Raft.Durably rf rf' := by
  cases handler with
  | doElection =>
      cases h
      exact Raft.doElection_durably rf
  | requestVote args =>
      rcases map_ok h with ⟨⟨rf1, reply⟩, hcall, rfl⟩
      exact Raft.requestVote_durably hcall
  | sendRequestVote reply votedNum =>
      rcases map_ok h with ⟨⟨rf1, votedNum'⟩, hcall, rfl⟩
      exact Raft.sendRequestVote_durably hcall
  | appendEntries1 args =>
      rcases map_ok h with ⟨⟨rf1, reply⟩, hcall, rfl⟩
      exact Raft.appendEntries1_durably hcall
  | sendAppendEntries server args reply appendNums =>
      rcases map_ok h with ⟨⟨rf1, appendNums'⟩, hcall, rfl⟩
      exact Raft.sendAppendEntries_durably hcall
  | start command =>
      cases h
      exact Raft.start_durably rf command
  | getApplyLogs =>
      rcases map_ok h with ⟨⟨rf1, msgs⟩, hcall, rfl⟩
      exact Raft.getApplyLogs_durably hcall
  | snapshot index data => exact Raft.snapshot_durably h
  | leaderSendSnapShot =>
      cases h
      exact Raft.leaderSendSnapShot_durably rf
  | leaderSendSnapShotReply server args reply =>
      cases h
      exact Raft.leaderSendSnapShotReply_durably rf server args reply
  | installSnapshot args =>
      rcases map_ok h with ⟨⟨rf1, reply, msg⟩, hcall, rfl⟩
      exact Raft.installSnapshot_durably hcall

theorem Handler.run_lastApplied {handler : Handler n} {rf rf' : Raft n}
    (h : handler.run rf = .ok rf') (hnone : handler.applies = false) :
    rf'.lastApplied = rf.lastApplied := by
  cases handler with
  | doElection =>
      cases h
      rcases Raft.doElection_cases rf with hstate | hstate
      · rw [hstate]
      · rw [hstate]
        rfl
  | requestVote args =>
      rcases map_ok h with ⟨⟨rf1, reply⟩, hcall, rfl⟩
      cases Raft.requestVote_effect hcall with
      | stale _ _ => rfl
      | refused _ _ => exact Raft.observe_lastApplied rf args.term
      | granted _ _ _ _ _ => exact Raft.observe_lastApplied rf args.term
  | sendRequestVote reply votedNum =>
      rcases map_ok h with ⟨⟨rf1, votedNum'⟩, hcall, rfl⟩
      cases Raft.sendRequestVote_effect hcall with
      | newerTerm _ => rfl
      | ignored => rfl
      | counted _ _ _ => rfl
      | elected _ _ _ _ => rfl
  | appendEntries1 args =>
      rcases map_ok h with ⟨⟨rf1, reply⟩, hcall, rfl⟩
      have hfollow := Raft.follow_lastApplied rf args.term
      cases Raft.appendEntries1_effect hcall with
      | stale _ _ _ => rfl
      | tooNew _ _ _ _ _ => exact hfollow
      | mismatch _ _ _ _ _ => exact hfollow
      | accepted _ _ hfold _ _ _ =>
          rw [Raft.advanceCommit_eq, Raft.foldlM_appendEntry_eq hfold]
          exact hfollow
  | sendAppendEntries server args reply appendNums =>
      rcases map_ok h with ⟨⟨rf1, appendNums'⟩, hcall, rfl⟩
      cases Raft.sendAppendEntries_effect hcall with
      | newerTerm _ => rfl
      | ignored => rfl
      | hinted _ _ _ _ => rfl
      | counted _ _ _ _ => rfl
      | majority _ _ _ _ _ =>
          rcases Raft.commitSent_cases (rf.recordMatch server args) args with
            hstate | ⟨_, hstate⟩
          · rw [hstate]
            rfl
          · rw [hstate]
            rfl
  | start command =>
      cases h
      rcases Raft.start_cases rf command with hstart | ⟨_, hstart⟩
      · rw [hstart]
      · rw [hstart]
        rfl
  | leaderSendSnapShot =>
      cases h
      rfl
  | leaderSendSnapShotReply server args reply =>
      cases Raft.leaderSendSnapShotReply_effect (Except.ok.inj h) with
      | ignored => rfl
      | newerTerm _ => rfl
      | noted _ => rfl
  | getApplyLogs => cases hnone
  | snapshot index data => cases hnone
  | installSnapshot args => cases hnone

/-!
# The handlers that apply

Commands are handed on one after another from the first one not applied; a
snapshot that is installed or taken jumps ahead.
-/

omit [Archive]

/-- A batch of commands with consecutive indices, from `first` on. -/
def HandsOn (first : Int) : List ApplyMsg -> Prop
  | [] => True
  | msg :: rest =>
      msg.commandValid = true ∧ msg.snapshotValid = false ∧ msg.commandIndex = first ∧
        HandsOn (first + 1) rest

/-- A message is a command or a snapshot, not both. -/
def OneKind (msg : ApplyMsg) : Prop :=
  msg.snapshotValid = !msg.commandValid

theorem HandsOn.oneKind {first : Int} {msgs : List ApplyMsg} (h : HandsOn first msgs)
    {msg : ApplyMsg} (hmem : msg ∈ msgs) : OneKind msg := by
  induction msgs generalizing first with
  | nil => cases hmem
  | cons next rest ih =>
      rcases h with ⟨hcommand, hsnapshot, _, hrest⟩
      rcases List.mem_cons.mp hmem with rfl | hold
      · rw [OneKind, hcommand, hsnapshot]
        rfl
      · exact ih hrest hold

theorem applyLoop_handsOn {steps : Nat} {rf rf' : Raft n} {msgs : List ApplyMsg}
    (h : Raft.applyLoop steps rf = .ok (rf', msgs)) :
    HandsOn (rf.lastApplied + 1) msgs := by
  induction steps generalizing rf rf' msgs with
  | zero =>
      cases h
      trivial
  | succ steps ih =>
      unfold Raft.applyLoop at h
      rcases bind_eq_ok.mp h with ⟨log, _, h⟩
      rcases bind_eq_ok.mp h with ⟨_, _, h⟩
      rcases bind_eq_ok.mp h with ⟨⟨rf1, rest⟩, hloop, h⟩
      cases h
      exact ⟨rfl, rfl, rfl, ih hloop⟩

theorem getApplyLogs_handsOn {rf rf' : Raft n} {msgs : List ApplyMsg}
    (h : rf.getApplyLogs = .ok (rf', msgs)) :
    HandsOn (rf.lastApplied + 1) msgs ∧ rf'.lastApplied = rf.lastApplied + msgs.length := by
  refine ⟨?_, congrArg Raft.lastApplied (Raft.getApplyLogs_eq h).1⟩
  unfold Raft.getApplyLogs at h
  rcases bind_eq_ok.mp h with ⟨_, _, h⟩
  exact applyLoop_handsOn h

theorem applyLoop_logged {steps : Nat} {rf rf' : Raft n} {msgs : List ApplyMsg}
    (h : Raft.applyLoop steps rf = .ok (rf', msgs)) {msg : ApplyMsg} (hmsg : msg ∈ msgs) :
    exists log, rf.logAtIndex msg.commandIndex = .ok log ∧
      log.logIndex = msg.commandIndex ∧ log.command = msg.command := by
  induction steps generalizing rf rf' msgs with
  | zero =>
      cases h
      cases hmsg
  | succ steps ih =>
      unfold Raft.applyLoop at h
      rcases bind_eq_ok.mp h with ⟨log, hlog, h⟩
      rcases bind_eq_ok.mp h with ⟨_, hassert, h⟩
      rcases bind_eq_ok.mp h with ⟨⟨rf1, rest⟩, hloop, h⟩
      cases h
      rcases List.mem_cons.mp hmsg with rfl | hrest
      · exact ⟨log, hlog, check_eq_ok.mp hassert, rfl⟩
      · have hlater := ih hloop hrest
        exact hlater

/-- Each command that is handed on is the one in the log at its index. -/
theorem getApplyLogs_logged {rf rf' : Raft n} {msgs : List ApplyMsg}
    (h : rf.getApplyLogs = .ok (rf', msgs)) {msg : ApplyMsg} (hmsg : msg ∈ msgs) :
    exists log, rf.logAtIndex msg.commandIndex = .ok log ∧
      log.logIndex = msg.commandIndex ∧ log.command = msg.command := by
  unfold Raft.getApplyLogs at h
  rcases bind_eq_ok.mp h with ⟨_, _, h⟩
  exact applyLoop_logged h hmsg

variable [Archive]

theorem installSnapshot_msg {rf rf' : Raft n} {args : InstallSnapshotRequest}
    {reply : InstallSnapshotResponse} {msg : Option ApplyMsg}
    (h : rf.installSnapshot args = .ok (rf', reply, msg)) :
    (msg = none ∧ rf'.lastApplied = rf.lastApplied) ∨
      (msg = some (Raft.snapshotMsg args) ∧
        rf'.lastApplied = max rf.lastApplied args.lastSnapshotIncludeIndex) := by
  have hfollow : (rf.followSnapshot args.term).lastApplied = rf.lastApplied := by
    rw [Raft.followSnapshot_eq]
    exact Raft.follow_lastApplied rf args.term
  rcases Raft.installSnapshot_cases h with ⟨_, rfl, rfl⟩ | ⟨_, ⟨_, rfl, _, rfl⟩ |
    ⟨logs, _, _, rfl, _, rfl⟩⟩
  · exact Or.inl ⟨rfl, rfl⟩
  · exact Or.inl ⟨rfl, hfollow⟩
  · right
    rw [← hfollow]
    exact ⟨rfl, rfl⟩

theorem snapshot_lastApplied {rf rf' : Raft n} {index : Int} {data : Bytes}
    (h : rf.snapshot index data = .ok rf') :
    rf'.lastApplied = rf.lastApplied ∨ rf'.lastApplied = max rf.lastApplied index := by
  rcases Raft.snapshot_cases h with rfl | ⟨newLast, kept, _, _, _, _, rfl⟩
  · exact Or.inl rfl
  · exact Or.inr rfl

end

end RaftCore
end KVRaft
