import Mathlib.Data.Int.Order.Basic
import KVRaft.RaftCore.Raft.HeartBeat

/-!
# Applying and compacting the log

Handing committed entries to the key-value server, cutting the log behind a
snapshot, and sending and installing snapshots.
-/

namespace KVRaft
namespace RaftCore

open Foundation (bind_eq_ok check_eq_ok)

namespace Raft

variable {n : Nat}

/-- The loop of `getApplyLogs`, with the number of its iterations. -/
def applyLoop : Nat -> Raft n -> Outcome (Raft n × List ApplyMsg)
  | 0, rf => .ok (rf, [])
  | steps + 1, rf => do
      let rf := { rf with lastApplied := rf.lastApplied + 1 }
      let log <- rf.logAtIndex rf.lastApplied
      myAssert (log.logIndex = rf.lastApplied) .applyLogIndex
      let applyMsg : ApplyMsg :=
        { commandValid := true
          snapshotValid := false
          command := log.command
          commandIndex := rf.lastApplied }
      let (rf, applyMsgs) <- applyLoop steps rf
      return (rf, applyMsg :: applyMsgs)

def getApplyLogs (rf : Raft n) : Outcome (Raft n × List ApplyMsg) := do
  myAssert (rf.commitIndex ≤ rf.getLastLogIndex) .applyCommitOverrun
  applyLoop (rf.commitIndex - rf.lastApplied).toNat rf

/-- The messages of `getApplyLogs`, none when it faults. -/
def applyMsgs (rf : Raft n) : List ApplyMsg :=
  match rf.getApplyLogs with
  | .ok (_, msgs) => msgs
  | .error _ => []

/-- The entries kept by a local snapshot: `steps` of them, from index `i` on. -/
def trunckedLogs (rf : Raft n) : Nat -> Int -> Outcome (List LogEntry)
  | 0, _ => .ok []
  | steps + 1, i => do
      let log <- rf.logAtIndex i
      let rest <- trunckedLogs rf steps (i + 1)
      return log :: rest

variable [Archive]

def snapshot (rf : Raft n) (index : Int) (data : Bytes) : Outcome (Raft n) :=
  if rf.lastSnapshotIncludeIndex ≥ index ∨ index > rf.commitIndex then
    .ok rf
  else do
    let lastLogIndex := rf.getLastLogIndex
    let newLast <- rf.logAtIndex index
    let kept <- rf.trunckedLogs (lastLogIndex - index).toNat (index + 1)
    let rf : Raft n :=
      { rf with
        lastSnapshotIncludeIndex := index
        lastSnapshotIncludeTerm := newLast.logTerm
        logs := kept
        commitIndex := max rf.commitIndex index
        lastApplied := max rf.lastApplied index }
    let rf := { rf with persister := rf.persister.save rf.persistData data }
    myAssert (rf.logs.length + rf.lastSnapshotIncludeIndex = lastLogIndex) .snapshotLength
    return rf

def condInstallSnapshot (_ : Raft n) (_lastIncludedTerm _lastIncludedIndex : Int)
    (_snapshot : Bytes) : Bool :=
  true

/-- The request is built under the lock, whatever the status is by then. -/
def leaderSendSnapShot (rf : Raft n) : Raft n × InstallSnapshotRequest :=
  let (persister, data) := rf.persister.readSnapshot
  ({ rf with persister := persister },
    { leaderId := (rf.me : Nat)
      term := rf.currentTerm
      lastSnapshotIncludeIndex := rf.lastSnapshotIncludeIndex
      lastSnapshotIncludeTerm := rf.lastSnapshotIncludeTerm
      data := data })

/-- What the same thread does once the reply is there. -/
def leaderSendSnapShotReply (rf : Raft n) (server : Fin n) (args : InstallSnapshotRequest)
    (reply : InstallSnapshotResponse) : Raft n :=
  if rf.status ≠ .leader ∨ rf.currentTerm ≠ args.term then
    rf
  else if reply.term > rf.currentTerm then
    (rf.stepDown reply.term).persist
  else
    { rf with
      matchIndex := Function.update rf.matchIndex server args.lastSnapshotIncludeIndex
      nextIndex := Function.update rf.nextIndex server (args.lastSnapshotIncludeIndex + 1) }

/-- Falling back to Follower for a snapshot; a newer term is persisted. -/
def followSnapshot (rf : Raft n) (term : Int) : Raft n :=
  let rf := if term > rf.currentTerm then (rf.stepDown term).persist else rf
  { rf with status := .follower }

/-- The entries kept when a snapshot up to `index` arrives; their terms are not
looked at. -/
def logsBeyond (rf : Raft n) (index : Int) : Outcome (List LogEntry) :=
  if rf.getLastLogIndex > index then do
    let slot <- rf.getSlicesIndexFromLogIndex index
    return rf.logs.drop (slot + 1).toNat
  else
    .ok []

/-- Taking over the snapshot of a request, files included. -/
def takeSnapshot (rf : Raft n) (args : InstallSnapshotRequest) (logs : List LogEntry) :
    Raft n :=
  let rf : Raft n :=
    { rf with
      logs := logs
      commitIndex := max rf.commitIndex args.lastSnapshotIncludeIndex
      lastApplied := max rf.lastApplied args.lastSnapshotIncludeIndex
      lastSnapshotIncludeIndex := args.lastSnapshotIncludeIndex
      lastSnapshotIncludeTerm := args.lastSnapshotIncludeTerm }
  { rf with persister := rf.persister.save rf.persistData args.data }

def snapshotMsg (args : InstallSnapshotRequest) : ApplyMsg where
  snapshotValid := true
  snapshot := args.data
  snapshotTerm := args.lastSnapshotIncludeTerm
  snapshotIndex := args.lastSnapshotIncludeIndex

/-- The message, if any, is pushed by a thread of its own. -/
def installSnapshot (rf : Raft n) (args : InstallSnapshotRequest) :
    Outcome (Raft n × InstallSnapshotResponse × Option ApplyMsg) :=
  if args.term < rf.currentTerm then
    .ok (rf, { term := rf.currentTerm }, none)
  else
    let rf := rf.followSnapshot args.term
    if args.lastSnapshotIncludeIndex ≤ rf.lastSnapshotIncludeIndex then
      .ok (rf, {}, none)
    else do
      let logs <- rf.logsBeyond args.lastSnapshotIncludeIndex
      let rf := rf.takeSnapshot args logs
      return (rf, { term := rf.currentTerm }, some (snapshotMsg args))

/-!
# What the handlers do
-/

section

omit [Archive]

theorem applyLoop_eq {steps : Nat} {rf rf' : Raft n} {msgs : List ApplyMsg}
    (h : applyLoop steps rf = .ok (rf', msgs)) :
    rf' = { rf with lastApplied := rf.lastApplied + steps } ∧ msgs.length = steps := by
  induction steps generalizing rf msgs with
  | zero =>
      cases h
      refine ⟨?_, rfl⟩
      change rf' = { rf' with lastApplied := rf'.lastApplied + 0 }
      rw [Int.add_zero]
  | succ steps ih =>
      unfold applyLoop at h
      rcases bind_eq_ok.mp h with ⟨log, _, h⟩
      rcases bind_eq_ok.mp h with ⟨_, _, h⟩
      rcases bind_eq_ok.mp h with ⟨⟨rf1, rest⟩, hloop, h⟩
      cases h
      rcases ih hloop with ⟨hstate, hlength⟩
      have happlied : rf.lastApplied + 1 + steps = rf.lastApplied + (steps + 1 : Nat) := by
        push_cast
        omega
      rw [List.length_cons, hlength, hstate, happlied]
      exact ⟨rfl, rfl⟩

/-- Applying moves `lastApplied` by the number of messages and nothing else. -/
theorem getApplyLogs_eq {rf rf' : Raft n} {msgs : List ApplyMsg}
    (h : rf.getApplyLogs = .ok (rf', msgs)) :
    rf' = { rf with lastApplied := rf.lastApplied + msgs.length } ∧
      msgs.length = (rf.commitIndex - rf.lastApplied).toNat := by
  unfold getApplyLogs at h
  rcases bind_eq_ok.mp h with ⟨_, _, h⟩
  rcases applyLoop_eq h with ⟨hstate, hlength⟩
  rw [hlength]
  exact ⟨hstate, rfl⟩

theorem trunckedLogs_length {rf : Raft n} {steps : Nat} {i : Int} {kept : List LogEntry}
    (h : rf.trunckedLogs steps i = .ok kept) : kept.length = steps := by
  induction steps generalizing i kept with
  | zero =>
      cases h
      rfl
  | succ steps ih =>
      unfold trunckedLogs at h
      rcases bind_eq_ok.mp h with ⟨log, _, h⟩
      rcases bind_eq_ok.mp h with ⟨rest, hrest, h⟩
      cases h
      rw [List.length_cons, ih hrest]

/-- The assertion a snapshot makes after its write holds. -/
theorem trunckedLogs_total {rf : Raft n} {index : Int} {newLast : LogEntry}
    {kept : List LogEntry} (hnew : rf.logAtIndex index = .ok newLast)
    (hkept : rf.trunckedLogs (rf.getLastLogIndex - index).toNat (index + 1) = .ok kept) :
    kept.length + index = rf.getLastLogIndex := by
  unfold logAtIndex at hnew
  rcases bind_eq_ok.mp hnew with ⟨slot, hslot, _⟩
  unfold getSlicesIndexFromLogIndex at hslot
  rcases bind_eq_ok.mp hslot with ⟨_, _, hslot⟩
  rcases bind_eq_ok.mp hslot with ⟨_, hlast, _⟩
  have hle := check_eq_ok.mp hlast
  rw [trunckedLogs_length hkept]
  omega

end

/-- The node after a local snapshot. -/
def compactTo (rf : Raft n) (index : Int) (newLast : LogEntry) (kept : List LogEntry)
    (data : Bytes) : Raft n :=
  let rf : Raft n :=
    { rf with
      lastSnapshotIncludeIndex := index
      lastSnapshotIncludeTerm := newLast.logTerm
      logs := kept
      commitIndex := max rf.commitIndex index
      lastApplied := max rf.lastApplied index }
  { rf with persister := rf.persister.save rf.persistData data }

theorem snapshot_cases {rf rf' : Raft n} {index : Int} {data : Bytes}
    (h : rf.snapshot index data = .ok rf') :
    rf' = rf ∨ exists newLast kept,
      rf.lastSnapshotIncludeIndex < index ∧ index ≤ rf.commitIndex ∧
        rf.trunckedLogs (rf.getLastLogIndex - index).toNat (index + 1) = .ok kept ∧
        kept.length + index = rf.getLastLogIndex ∧
        rf' = rf.compactTo index newLast kept data := by
  unfold snapshot at h
  by_cases hold : rf.lastSnapshotIncludeIndex ≥ index ∨ index > rf.commitIndex
  · rw [if_pos hold] at h
    cases h
    exact Or.inl rfl
  rw [if_neg hold] at h
  rw [not_or, not_le, not_lt] at hold
  rcases bind_eq_ok.mp h with ⟨newLast, hnew, h⟩
  rcases bind_eq_ok.mp h with ⟨kept, hkept, h⟩
  rcases bind_eq_ok.mp h with ⟨_, _, h⟩
  cases h
  exact Or.inr ⟨newLast, kept, hold.1, hold.2, hkept, trunckedLogs_total hnew hkept, rfl⟩

inductive SnapshotReplyEffect (rf : Raft n) (server : Fin n) (args : InstallSnapshotRequest)
    (reply : InstallSnapshotResponse) : Raft n -> Prop where
  | ignored : SnapshotReplyEffect rf server args reply rf
  | newerTerm : rf.currentTerm < reply.term ->
      SnapshotReplyEffect rf server args reply (rf.stepDown reply.term).persist
  | noted : rf.status = .leader ->
      SnapshotReplyEffect rf server args reply
        { rf with
          matchIndex := Function.update rf.matchIndex server args.lastSnapshotIncludeIndex
          nextIndex :=
            Function.update rf.nextIndex server (args.lastSnapshotIncludeIndex + 1) }

theorem leaderSendSnapShotReply_effect {rf rf' : Raft n} {server : Fin n}
    {args : InstallSnapshotRequest} {reply : InstallSnapshotResponse}
    (h : rf.leaderSendSnapShotReply server args reply = rf') :
    SnapshotReplyEffect rf server args reply rf' := by
  unfold leaderSendSnapShotReply at h
  by_cases hgone : rf.status ≠ .leader ∨ rf.currentTerm ≠ args.term
  · rw [if_pos hgone] at h
    cases h
    exact .ignored
  rw [if_neg hgone] at h
  rw [not_or, not_not] at hgone
  by_cases hgt : reply.term > rf.currentTerm
  · rw [if_pos hgt] at h
    cases h
    exact .newerTerm hgt
  · rw [if_neg hgt] at h
    cases h
    exact .noted hgone.1

/-- Both ways of following agree but for the files. -/
theorem followSnapshot_eq (rf : Raft n) (term : Int) :
    rf.followSnapshot term =
      { rf.follow term with persister := (rf.followSnapshot term).persister } := by
  unfold followSnapshot follow observe
  by_cases h : term > rf.currentTerm
  · simp only [if_pos h]
    rfl
  · simp only [if_neg h]

theorem followSnapshot_logsBeyond (rf : Raft n) (term index : Int) :
    (rf.followSnapshot term).logsBeyond index = rf.logsBeyond index := by
  rw [followSnapshot_eq, follow_eq]
  rfl

theorem installSnapshot_cases {rf rf' : Raft n} {args : InstallSnapshotRequest}
    {reply : InstallSnapshotResponse} {msg : Option ApplyMsg}
    (h : rf.installSnapshot args = .ok (rf', reply, msg)) :
    (args.term < rf.currentTerm ∧ rf' = rf ∧ msg = none) ∨
      rf.currentTerm ≤ args.term ∧
        ((args.lastSnapshotIncludeIndex ≤ rf.lastSnapshotIncludeIndex ∧
            rf' = rf.followSnapshot args.term ∧ reply = {} ∧ msg = none) ∨
          exists logs, rf.lastSnapshotIncludeIndex < args.lastSnapshotIncludeIndex ∧
            rf.logsBeyond args.lastSnapshotIncludeIndex = .ok logs ∧
            rf' = (rf.followSnapshot args.term).takeSnapshot args logs ∧
            reply = { term := rf'.currentTerm } ∧ msg = some (snapshotMsg args)) := by
  unfold installSnapshot at h
  by_cases hlt : args.term < rf.currentTerm
  · rw [if_pos hlt] at h
    cases h
    exact Or.inl ⟨hlt, rfl, rfl⟩
  rw [if_neg hlt] at h
  right
  refine ⟨not_lt.mp hlt, ?_⟩
  have hindex : (rf.followSnapshot args.term).lastSnapshotIncludeIndex =
      rf.lastSnapshotIncludeIndex := by
    rw [followSnapshot_eq]
    exact follow_lastSnapshotIncludeIndex rf args.term
  simp only [hindex] at h
  by_cases hold : args.lastSnapshotIncludeIndex ≤ rf.lastSnapshotIncludeIndex
  · rw [if_pos hold] at h
    cases h
    exact Or.inl ⟨hold, rfl, rfl, rfl⟩
  rw [if_neg hold] at h
  rcases bind_eq_ok.mp h with ⟨logs, hlogs, h⟩
  cases h
  rw [followSnapshot_logsBeyond] at hlogs
  exact Or.inr ⟨logs, not_le.mp hold, hlogs, rfl, rfl, rfl⟩

end Raft
end RaftCore
end KVRaft
