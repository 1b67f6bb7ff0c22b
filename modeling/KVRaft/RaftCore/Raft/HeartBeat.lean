import KVRaft.RaftCore.Raft.Receiving

/-!
# Sending entries

The leader's side of log replication: taking a command, sending heartbeats and
counting the replies.
-/

namespace KVRaft
namespace RaftCore

open Foundation (bind_eq_ok bind_eq_error check_of check_eq_ok check_eq_error)

namespace Raft

variable {n : Nat}

/-- A thread started by a heartbeat for one peer. -/
inductive Outgoing (n : Nat) where
  | appendEntries (server : Fin n) (args : AppendEntriesArgs)
  | snapShot (server : Fin n)
  deriving DecidableEq, Repr

def getPrevLogInfo (rf : Raft n) (server : Fin n) : Outcome (Int × Int) :=
  if rf.nextIndex server = rf.lastSnapshotIncludeIndex + 1 then
    .ok (rf.lastSnapshotIncludeIndex, rf.lastSnapshotIncludeTerm)
  else do
    let preIndex := rf.nextIndex server - 1
    let log <- rf.logAtIndex preIndex
    return (preIndex, log.logTerm)

def entriesAfter (rf : Raft n) (preLogIndex : Int) : Outcome (List LogEntry) :=
  if preLogIndex ≠ rf.lastSnapshotIncludeIndex then do
    let slot <- rf.getSlicesIndexFromLogIndex preLogIndex
    return rf.logs.drop (slot + 1).toNat
  else
    .ok rf.logs

/-- The body of the heartbeat loop for one peer. -/
def heartBeatTo (rf : Raft n) (i : Fin n) : Outcome (Outgoing n) := do
  myAssert (rf.nextIndex i ≥ 1) .heartBeatNextIndex
  if rf.nextIndex i ≤ rf.lastSnapshotIncludeIndex then
    return .snapShot i
  else
    let (preLogIndex, preLogTerm) <- rf.getPrevLogInfo i
    let entries <- rf.entriesAfter preLogIndex
    let args : AppendEntriesArgs :=
      { term := rf.currentTerm
        leaderId := (rf.me : Nat)
        prevLogIndex := preLogIndex
        prevLogTerm := preLogTerm
        leaderCommit := rf.commitIndex
        entries := entries }
    myAssert (args.prevLogIndex + args.entriesSize = rf.getLastLogIndex) .heartBeatLength
    return .appendEntries i args

/-- The heartbeat loop: threads already started survive a later fault here, as
their messages may have left the process before it exits. -/
def heartBeats (rf : Raft n) : List (Fin n) -> List (Outgoing n) × Option Fault
  | [] => ([], none)
  | i :: rest =>
      match rf.heartBeatTo i with
      | .error fault => ([], some fault)
      | .ok message =>
          let (messages, fault) := heartBeats rf rest
          (message :: messages, fault)

/-- A leader's heartbeat starts threads that share one `appendNums` counter. -/
def doHeartBeat (rf : Raft n) : Option (List (Outgoing n) × Option Fault) :=
  if rf.status = .leader then
    some (rf.heartBeats (othersOf rf.me))
  else
    none

/-- Recording that a peer holds the entries it was sent. -/
def recordMatch (rf : Raft n) (server : Fin n) (args : AppendEntriesArgs) : Raft n :=
  let matched := max (rf.matchIndex server) (args.prevLogIndex + args.entriesSize)
  { rf with
    matchIndex := Function.update rf.matchIndex server matched
    nextIndex := Function.update rf.nextIndex server (matched + 1) }

/-- A majority commits what was sent if it ends in an entry of the current term. -/
def commitSent (rf : Raft n) (args : AppendEntriesArgs) : Raft n :=
  if args.entries.getLast?.map LogEntry.logTerm = some rf.currentTerm then
    { rf with
      commitIndex := max rf.commitIndex (args.prevLogIndex + args.entriesSize) }
  else
    rf

/-- What the sending thread does with a reply; it shares `appendNums` with the
other threads of its heartbeat. -/
def sendAppendEntries (rf : Raft n) (server : Fin n) (args : AppendEntriesArgs)
    (reply : AppendEntriesReply) (appendNums : Nat) : Outcome (Raft n × Nat) :=
  if reply.appState = disconnected then
    .ok (rf, appendNums)
  else if reply.term > rf.currentTerm then
    .ok (rf.stepDown reply.term, appendNums)
  else if reply.term < rf.currentTerm then
    .ok (rf, appendNums)
  else if rf.status ≠ .leader then
    .ok (rf, appendNums)
  else do
    myAssert (reply.term = rf.currentTerm) .appendReplyTerm
    if reply.success = false then
      if reply.updateNextIndex ≠ -100 then
        return ({ rf with
          nextIndex := Function.update rf.nextIndex server reply.updateNextIndex },
          appendNums)
      else
        return (rf, appendNums)
    else
      let rf := rf.recordMatch server args
      let lastLogIndex := rf.getLastLogIndex
      myAssert (rf.nextIndex server ≤ lastLogIndex + 1) .nextIndexOverrun
      if appendNums + 1 ≥ 1 + n / 2 then
        let rf := rf.commitSent args
        myAssert (rf.commitIndex ≤ lastLogIndex) .leaderCommitOverrun
        return (rf, 0)
      else
        return (rf, appendNums + 1)

/-- The index and term given to a command, if the server is the leader. -/
def start [Archive] (rf : Raft n) (command : Bytes) : Raft n × Option (Int × Int) :=
  if rf.status ≠ .leader then
    (rf, none)
  else
    let newLogEntry : LogEntry :=
      { command := command
        logTerm := rf.currentTerm
        logIndex := rf.getNewCommandIndex }
    (({ rf with logs := rf.logs ++ [newLogEntry] } : Raft n).persist,
      some (newLogEntry.logIndex, newLogEntry.logTerm))

/-!
# What the handlers do
-/

theorem commitSent_cases (rf : Raft n) (args : AppendEntriesArgs) :
    rf.commitSent args = rf ∨
      (args.entries.getLast?.map LogEntry.logTerm = some rf.currentTerm ∧
        rf.commitSent args =
          { rf with
            commitIndex :=
              max rf.commitIndex (args.prevLogIndex + args.entriesSize) }) := by
  unfold commitSent
  by_cases hown : args.entries.getLast?.map LogEntry.logTerm = some rf.currentTerm
  · rw [if_pos hown]
    exact Or.inr ⟨hown, rfl⟩
  · rw [if_neg hown]
    exact Or.inl rfl

theorem start_cases [Archive] (rf : Raft n) (command : Bytes) :
    rf.start command = (rf, none) ∨
      (rf.status = .leader ∧
        rf.start command =
          (({ rf with
              logs := rf.logs ++
                [{ command := command
                   logTerm := rf.currentTerm
                   logIndex := rf.getNewCommandIndex }] } : Raft n).persist,
            some (rf.getNewCommandIndex, rf.currentTerm))) := by
  unfold start
  by_cases hstatus : rf.status ≠ .leader
  · rw [if_pos hstatus]
    exact Or.inl rfl
  · rw [if_neg hstatus]
    exact Or.inr ⟨not_not.mp hstatus, rfl⟩

inductive AppendReplyEffect (rf : Raft n) (server : Fin n) (args : AppendEntriesArgs)
    (reply : AppendEntriesReply) (appendNums : Nat) : Raft n -> Nat -> Prop where
  | newerTerm : rf.currentTerm < reply.term ->
      AppendReplyEffect rf server args reply appendNums (rf.stepDown reply.term) appendNums
  | ignored : AppendReplyEffect rf server args reply appendNums rf appendNums
  | hinted : reply.term = rf.currentTerm -> rf.status = .leader ->
      reply.success = false -> reply.updateNextIndex ≠ -100 ->
      AppendReplyEffect rf server args reply appendNums
        { rf with
          nextIndex := Function.update rf.nextIndex server reply.updateNextIndex }
        appendNums
  | counted : reply.term = rf.currentTerm -> rf.status = .leader ->
      reply.success = true -> appendNums + 1 < n / 2 + 1 ->
      AppendReplyEffect rf server args reply appendNums
        (rf.recordMatch server args) (appendNums + 1)
  | majority : reply.term = rf.currentTerm -> rf.status = .leader ->
      reply.success = true -> n / 2 + 1 ≤ appendNums + 1 ->
      ((rf.recordMatch server args).commitSent args).commitIndex ≤ rf.getLastLogIndex ->
      AppendReplyEffect rf server args reply appendNums
        ((rf.recordMatch server args).commitSent args) 0

theorem sendAppendEntries_effect {rf rf' : Raft n} {server : Fin n}
    {args : AppendEntriesArgs} {reply : AppendEntriesReply} {appendNums appendNums' : Nat}
    (h : rf.sendAppendEntries server args reply appendNums = .ok (rf', appendNums')) :
    AppendReplyEffect rf server args reply appendNums rf' appendNums' := by
  unfold sendAppendEntries at h
  by_cases hdown : reply.appState = disconnected
  · rw [if_pos hdown] at h
    cases h
    exact .ignored
  rw [if_neg hdown] at h
  by_cases hgt : reply.term > rf.currentTerm
  · rw [if_pos hgt] at h
    cases h
    exact .newerTerm hgt
  rw [if_neg hgt] at h
  by_cases hlt : reply.term < rf.currentTerm
  · rw [if_pos hlt] at h
    cases h
    exact .ignored
  rw [if_neg hlt] at h
  by_cases hstatus : rf.status ≠ .leader
  · rw [if_pos hstatus] at h
    cases h
    exact .ignored
  rw [if_neg hstatus] at h
  have hleader : rf.status = .leader := not_not.mp hstatus
  rcases bind_eq_ok.mp h with ⟨_, hterm, h⟩
  have hterm := check_eq_ok.mp hterm
  by_cases hno : reply.success = false
  · rw [if_pos hno] at h
    by_cases hhint : reply.updateNextIndex ≠ -100
    · rw [if_pos hhint] at h
      cases h
      exact .hinted hterm hleader hno hhint
    · rw [if_neg hhint] at h
      cases h
      exact .ignored
  rw [if_neg hno] at h
  have hyes : reply.success = true := by simpa using hno
  rcases bind_eq_ok.mp h with ⟨_, _, h⟩
  by_cases hquorum : appendNums + 1 ≥ 1 + n / 2
  · rw [if_pos hquorum] at h
    rcases bind_eq_ok.mp h with ⟨_, hcommit, h⟩
    cases h
    exact .majority hterm hleader hyes (by omega) (check_eq_ok.mp hcommit)
  · rw [if_neg hquorum] at h
    cases h
    exact .counted hterm hleader hyes (by omega)

/-- A leader that is told where to go on only takes this as the next index. -/
theorem sendAppendEntries_hinted {rf : Raft n} {reply : AppendEntriesReply}
    (hup : reply.appState ≠ disconnected) (hleader : rf.status = .leader)
    (hterm : reply.term = rf.currentTerm) (hno : reply.success = false)
    (hhint : reply.updateNextIndex ≠ -100) (server : Fin n) (args : AppendEntriesArgs)
    (appendNums : Nat) :
    rf.sendAppendEntries server args reply appendNums =
      .ok ({ rf with
        nextIndex := Function.update rf.nextIndex server reply.updateNextIndex },
        appendNums) := by
  unfold sendAppendEntries
  rw [if_neg hup, if_neg (not_lt.mpr hterm.le), if_neg (not_lt.mpr hterm.ge),
    if_neg (not_not_intro hleader), myAssert, check_of hterm, if_pos hno, if_pos hhint]
  rfl

/-- An append reply brings a server down only through its index checks. -/
theorem sendAppendEntries_fault {rf : Raft n} {server : Fin n} {args : AppendEntriesArgs}
    {reply : AppendEntriesReply} {appendNums : Nat} {fault : Fault}
    (h : rf.sendAppendEntries server args reply appendNums = .error fault) :
    rf.status = .leader ∧ reply.term = rf.currentTerm ∧ reply.success = true ∧
      (rf.getLastLogIndex + 1 < (rf.recordMatch server args).nextIndex server ∨
        rf.getLastLogIndex < ((rf.recordMatch server args).commitSent args).commitIndex) := by
  unfold sendAppendEntries at h
  by_cases hdown : reply.appState = disconnected
  · rw [if_pos hdown] at h
    cases h
  rw [if_neg hdown] at h
  by_cases hgt : reply.term > rf.currentTerm
  · rw [if_pos hgt] at h
    cases h
  rw [if_neg hgt] at h
  by_cases hlt : reply.term < rf.currentTerm
  · rw [if_pos hlt] at h
    cases h
  rw [if_neg hlt] at h
  by_cases hstatus : rf.status ≠ .leader
  · rw [if_pos hstatus] at h
    cases h
  have hleader : rf.status = .leader := not_not.mp hstatus
  have hterm : reply.term = rf.currentTerm := by omega
  rw [if_neg hstatus, myAssert, check_of hterm] at h
  rcases bind_eq_error.mp h with h | ⟨_, _, h⟩
  · cases h
  by_cases hno : reply.success = false
  · rw [if_pos hno] at h
    by_cases hhint : reply.updateNextIndex ≠ -100
    · rw [if_pos hhint] at h
      cases h
    · rw [if_neg hhint] at h
      cases h
  rw [if_neg hno] at h
  refine ⟨hleader, hterm, by simpa using hno, ?_⟩
  rcases bind_eq_error.mp h with h | ⟨_, _, h⟩
  · exact Or.inl (not_le.mp (check_eq_error.mp h).1)
  by_cases hquorum : appendNums + 1 ≥ 1 + n / 2
  · rw [if_pos hquorum] at h
    rcases bind_eq_error.mp h with h | ⟨_, _, h⟩
    · exact Or.inr (not_le.mp (check_eq_error.mp h).1)
    · cases h
  · rw [if_neg hquorum] at h
    cases h

end Raft
end RaftCore
end KVRaft
