import KVRaft.Common.Bytes
import KVRaft.Foundation.Checked

/-!
# Messages

The protobuf messages exchanged between servers, the messages handed to the
key-value server, and the ways a server process dies.  Integers of the source
are unbounded here.
-/

namespace KVRaft
namespace RaftCore

structure LogEntry where
  command : Bytes
  logTerm : Int
  logIndex : Int
  deriving DecidableEq, Repr

structure AppendEntriesArgs where
  term : Int
  leaderId : Int
  prevLogIndex : Int
  prevLogTerm : Int
  entries : List LogEntry
  leaderCommit : Int
  deriving DecidableEq, Repr

def AppendEntriesArgs.entriesSize (args : AppendEntriesArgs) : Int :=
  args.entries.length

structure AppendEntriesReply where
  term : Int := 0
  success : Bool := false
  updateNextIndex : Int := 0
  appState : Int := 0
  deriving DecidableEq, Repr

structure RequestVoteArgs where
  term : Int
  candidateId : Int
  lastLogIndex : Int
  lastLogTerm : Int
  deriving DecidableEq, Repr

structure RequestVoteReply where
  term : Int := 0
  voteGranted : Bool := false
  voteState : Int := 0
  deriving DecidableEq, Repr

structure InstallSnapshotRequest where
  leaderId : Int
  term : Int
  lastSnapshotIncludeIndex : Int
  lastSnapshotIncludeTerm : Int
  data : Bytes
  deriving DecidableEq, Repr

structure InstallSnapshotResponse where
  term : Int := 0
  deriving DecidableEq, Repr

/-- The network state a reply reports. -/
def disconnected : Int := 0
def appNormal : Int := 1

/-- The vote state a reply reports. -/
def voted : Int := 1
def expire : Int := 2
def normal : Int := 3

structure ApplyMsg where
  commandValid : Bool := false
  command : Bytes := []
  commandIndex : Int := -1
  snapshotValid : Bool := false
  snapshot : Bytes := []
  snapshotTerm : Int := -1
  snapshotIndex : Int := -1
  deriving DecidableEq, Repr

/-!
# Faults

A failed assertion exits the process, and so does an exception nobody catches.
There is one constructor for each assertion of the source; a vector access out
of range is a fault of its own.
-/

inductive Fault where
  | voteReplyTerm
  | leaderTwice
  | requestVoteTerm
  | heartBeatNextIndex
  | heartBeatLength
  | appendReplyTerm
  | nextIndexOverrun
  | leaderCommitOverrun
  | appendEntriesTerm
  | commandConflict
  | appendEntriesLength
  | commitOverrun
  | matchLogRange
  | applyCommitOverrun
  | applyLogIndex
  | termOfCompacted
  | termBeyondLast
  | sliceOfCompacted
  | sliceBeyondLast
  | snapshotLength
  | subscript
  | archiveException
  deriving DecidableEq, Repr

abbrev Outcome (α : Type) := Except Fault α

def myAssert (condition : Prop) [Decidable condition] (fault : Fault) : Outcome Unit :=
  Foundation.check condition fault

/-- Subscripting a vector of log entries. -/
def logAt (logs : List LogEntry) (slot : Int) : Outcome LogEntry :=
  if 0 ≤ slot then
    match logs[slot.toNat]? with
    | some log => .ok log
    | none => .error .subscript
  else
    .error .subscript

theorem logAt_natCast {logs : List LogEntry} {k : Nat} {log : LogEntry} :
    logAt logs (k : Int) = .ok log <-> logs[k]? = some log := by
  cases h : logs[k]? with
  | none => simp [logAt, h]
  | some e => simp [logAt, h]

end RaftCore
end KVRaft
