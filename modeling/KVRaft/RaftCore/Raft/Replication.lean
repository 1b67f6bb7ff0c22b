import KVRaft.RaftCore.Raft.Election

/-!
# Accepting entries

The receiving side of log replication.  An entry that conflicts with a local one
replaces that one entry; whatever follows it in the local log stays.
-/

namespace KVRaft
namespace RaftCore

open Foundation (bind_eq_ok check_eq_ok)

namespace Raft

variable {n : Nat}

/-- Whoever hears from a leader of a current term follows it. -/
def follow (rf : Raft n) (term : Int) : Raft n :=
  { rf.observe term with status := .follower }

def matchLog (rf : Raft n) (logIndex logTerm : Int) : Outcome Bool := do
  myAssert (logIndex ≥ rf.lastSnapshotIncludeIndex ∧ logIndex ≤ rf.getLastLogIndex)
    .matchLogRange
  return logTerm == (<- rf.getLogTermFromLogIndex logIndex)

/-- The body of the loop over the received entries. -/
def appendEntry (rf : Raft n) (log : LogEntry) : Outcome (Raft n) :=
  if log.logIndex > rf.getLastLogIndex then
    .ok { rf with logs := rf.logs ++ [log] }
  else do
    let slot <- rf.getSlicesIndexFromLogIndex log.logIndex
    let held <- logAt rf.logs slot
    if held.logTerm = log.logTerm ∧ held.command ≠ log.command then
      throw .commandConflict
    else if held.logTerm ≠ log.logTerm then
      return { rf with logs := rf.logs.set slot.toNat log }
    else
      return rf

/-- The search for the start of the conflicting term: at most `steps` indices,
downwards from `index`. -/
def conflictHint (rf : Raft n) (prevLogIndex : Int) : Nat -> Int -> Outcome Int
  | 0, _ => .ok prevLogIndex
  | steps + 1, index => do
      let here <- rf.getLogTermFromLogIndex index
      let there <- rf.getLogTermFromLogIndex prevLogIndex
      if here ≠ there then
        return index + 1
      else
        conflictHint rf prevLogIndex steps (index - 1)

def advanceCommit (rf : Raft n) (leaderCommit : Int) : Raft n :=
  if leaderCommit > rf.commitIndex then
    { rf with commitIndex := min leaderCommit rf.getLastLogIndex }
  else
    rf

variable [Archive]

/-- The branch taken when the previous entry matches. -/
def acceptEntries (rf : Raft n) (args : AppendEntriesArgs) (reply : AppendEntriesReply) :
    Outcome (Raft n × AppendEntriesReply) := do
  let rf <- args.entries.foldlM appendEntry rf
  myAssert (rf.getLastLogIndex ≥ args.prevLogIndex + args.entriesSize)
    .appendEntriesLength
  let rf := rf.advanceCommit args.leaderCommit
  myAssert (rf.getLastLogIndex ≥ rf.commitIndex) .commitOverrun
  return (rf.persist, { reply with success := true, term := rf.currentTerm })

/-- The branch taken when it does not. -/
def rejectEntries (rf : Raft n) (args : AppendEntriesArgs) (reply : AppendEntriesReply) :
    Outcome (Raft n × AppendEntriesReply) := do
  let steps := (args.prevLogIndex - rf.lastSnapshotIncludeIndex + 1).toNat
  let hint <- rf.conflictHint args.prevLogIndex steps args.prevLogIndex
  return (rf.persist,
    { reply with updateNextIndex := hint, success := false, term := rf.currentTerm })

def appendEntries1 (rf : Raft n) (args : AppendEntriesArgs) :
    Outcome (Raft n × AppendEntriesReply) :=
  let reply : AppendEntriesReply := { appState := appNormal }
  if args.term < rf.currentTerm then
    .ok (rf,
      { reply with success := false, term := rf.currentTerm, updateNextIndex := -100 })
  else do
    myAssert (args.term = (rf.observe args.term).currentTerm) .appendEntriesTerm
    let rf := rf.follow args.term
    if args.prevLogIndex > rf.getLastLogIndex then
      return (rf.persist,
        { reply with
          success := false
          term := rf.currentTerm
          updateNextIndex := rf.getLastLogTerm + 1 })
    else
      -- a previous entry below the snapshot is answered here but not returned on
      let reply :=
        if args.prevLogIndex < rf.lastSnapshotIncludeIndex then
          { reply with
            success := false
            term := rf.currentTerm
            updateNextIndex := rf.lastSnapshotIncludeTerm + 1 }
        else
          reply
      let matched <- rf.matchLog args.prevLogIndex args.prevLogTerm
      if matched then
        rf.acceptEntries args reply
      else
        rf.rejectEntries args reply

/-!
# What the handler does
-/

inductive AppendEntriesEffect (rf : Raft n) (args : AppendEntriesArgs) :
    Raft n -> AppendEntriesReply -> Prop where
  | stale {reply : AppendEntriesReply} : args.term < rf.currentTerm ->
      reply.success = false -> reply.updateNextIndex = -100 ->
      AppendEntriesEffect rf args rf reply
  | tooNew {reply : AppendEntriesReply} : rf.currentTerm ≤ args.term ->
      rf.getLastLogIndex < args.prevLogIndex ->
      reply.success = false -> reply.term = args.term ->
      reply.updateNextIndex = rf.getLastLogTerm + 1 ->
      AppendEntriesEffect rf args (rf.follow args.term).persist reply
  | mismatch {reply : AppendEntriesReply} {steps : Nat} : rf.currentTerm ≤ args.term ->
      rf.matchLog args.prevLogIndex args.prevLogTerm = .ok false ->
      rf.conflictHint args.prevLogIndex steps args.prevLogIndex =
        .ok reply.updateNextIndex ->
      reply.success = false -> reply.term = args.term ->
      AppendEntriesEffect rf args (rf.follow args.term).persist reply
  | accepted {rf' : Raft n} {reply : AppendEntriesReply} : rf.currentTerm ≤ args.term ->
      rf.matchLog args.prevLogIndex args.prevLogTerm = .ok true ->
      args.entries.foldlM appendEntry (rf.follow args.term) = .ok rf' ->
      (rf'.advanceCommit args.leaderCommit).commitIndex ≤ rf'.getLastLogIndex ->
      reply.success = true ->
      reply.term = (rf'.advanceCommit args.leaderCommit).currentTerm ->
      AppendEntriesEffect rf args (rf'.advanceCommit args.leaderCommit).persist reply

section

omit [Archive]

/-- Following changes the status, the term and the vote only. -/
theorem follow_eq (rf : Raft n) (term : Int) :
    rf.follow term =
      { rf with
        status := .follower
        currentTerm := (rf.follow term).currentTerm
        votedFor := (rf.follow term).votedFor } := by
  unfold follow
  rw [observe_eq]

theorem follow_currentTerm {rf : Raft n} {term : Int} (h : rf.currentTerm ≤ term) :
    (rf.follow term).currentTerm = term :=
  observe_currentTerm h

@[simp] theorem follow_logs (rf : Raft n) (term : Int) :
    (rf.follow term).logs = rf.logs :=
  observe_logs rf term

@[simp] theorem follow_commitIndex (rf : Raft n) (term : Int) :
    (rf.follow term).commitIndex = rf.commitIndex :=
  observe_commitIndex rf term

@[simp] theorem follow_lastApplied (rf : Raft n) (term : Int) :
    (rf.follow term).lastApplied = rf.lastApplied :=
  observe_lastApplied rf term

@[simp] theorem follow_nextIndex (rf : Raft n) (term : Int) :
    (rf.follow term).nextIndex = rf.nextIndex :=
  observe_nextIndex rf term

@[simp] theorem follow_matchIndex (rf : Raft n) (term : Int) :
    (rf.follow term).matchIndex = rf.matchIndex :=
  observe_matchIndex rf term

@[simp] theorem follow_lastSnapshotIncludeIndex (rf : Raft n) (term : Int) :
    (rf.follow term).lastSnapshotIncludeIndex = rf.lastSnapshotIncludeIndex :=
  observe_lastSnapshotIncludeIndex rf term

@[simp] theorem follow_lastSnapshotIncludeTerm (rf : Raft n) (term : Int) :
    (rf.follow term).lastSnapshotIncludeTerm = rf.lastSnapshotIncludeTerm :=
  observe_lastSnapshotIncludeTerm rf term

theorem follow_matchLog (rf : Raft n) (term logIndex logTerm : Int) :
    (rf.follow term).matchLog logIndex logTerm = rf.matchLog logIndex logTerm := by
  rw [follow_eq]
  rfl

theorem follow_getLogTermFromLogIndex (rf : Raft n) (term logIndex : Int) :
    (rf.follow term).getLogTermFromLogIndex logIndex =
      rf.getLogTermFromLogIndex logIndex := by
  rw [follow_eq]
  rfl

theorem follow_getLastLogIndexAndTerm (rf : Raft n) (term : Int) :
    (rf.follow term).getLastLogIndexAndTerm = rf.getLastLogIndexAndTerm := by
  rw [follow_eq]
  rfl

theorem follow_conflictHint (rf : Raft n) (term prevLogIndex : Int) (steps : Nat)
    (index : Int) :
    (rf.follow term).conflictHint prevLogIndex steps index =
      rf.conflictHint prevLogIndex steps index := by
  induction steps generalizing index with
  | zero => rfl
  | succ steps ih =>
      simp only [conflictHint, follow_getLogTermFromLogIndex, ih]

theorem advanceCommit_getLastLogIndex (rf : Raft n) (leaderCommit : Int) :
    (rf.advanceCommit leaderCommit).getLastLogIndex = rf.getLastLogIndex := by
  unfold advanceCommit
  by_cases h : leaderCommit > rf.commitIndex
  · rw [if_pos h]
    rfl
  · rw [if_neg h]

/-- Following the leader's commit index changes the commit index only. -/
theorem advanceCommit_eq (rf : Raft n) (leaderCommit : Int) :
    rf.advanceCommit leaderCommit =
      { rf with commitIndex := (rf.advanceCommit leaderCommit).commitIndex } := by
  unfold advanceCommit
  by_cases h : leaderCommit > rf.commitIndex
  · rw [if_pos h]
  · rw [if_neg h]

end

theorem appendEntries1_effect {rf rf' : Raft n} {args : AppendEntriesArgs}
    {reply : AppendEntriesReply} (h : rf.appendEntries1 args = .ok (rf', reply)) :
    AppendEntriesEffect rf args rf' reply := by
  unfold appendEntries1 at h
  by_cases hlt : args.term < rf.currentTerm
  · simp only [if_pos hlt] at h
    cases h
    exact .stale hlt rfl rfl
  simp only [if_neg hlt] at h
  have hle : rf.currentTerm ≤ args.term := by omega
  rcases bind_eq_ok.mp h with ⟨_, _, h⟩
  by_cases hnew : args.prevLogIndex > (rf.follow args.term).getLastLogIndex
  · rw [if_pos hnew] at h
    cases h
    refine .tooNew hle ?_ rfl (follow_currentTerm hle) ?_
    · rw [getLastLogIndex, follow_getLastLogIndexAndTerm] at hnew
      exact hnew
    · show (rf.follow args.term).getLastLogTerm + 1 = _
      rw [getLastLogTerm, follow_getLastLogIndexAndTerm]
      rfl
  rw [if_neg hnew] at h
  rcases bind_eq_ok.mp h with ⟨matched, hmatch, h⟩
  rw [follow_matchLog] at hmatch
  cases matched with
  | true =>
      rcases bind_eq_ok.mp h with ⟨rf1, hfold, h⟩
      rcases bind_eq_ok.mp h with ⟨_, _, h⟩
      rcases bind_eq_ok.mp h with ⟨_, hcommit, h⟩
      cases h
      have hcommit := check_eq_ok.mp hcommit
      rw [advanceCommit_getLastLogIndex] at hcommit
      exact .accepted hle hmatch hfold hcommit rfl rfl
  | false =>
      rcases bind_eq_ok.mp h with ⟨hint, hhint, h⟩
      cases h
      rw [follow_conflictHint] at hhint
      exact .mismatch hle hmatch hhint rfl (follow_currentTerm hle)

end Raft
end RaftCore
end KVRaft
