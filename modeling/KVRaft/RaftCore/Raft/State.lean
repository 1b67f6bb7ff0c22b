import Mathlib.Data.List.FinRange
import Mathlib.Data.Fin.Basic
import KVRaft.Foundation.Narrowing
import KVRaft.RaftCore.Persister

/-!
# The state of a Raft node

The fields of the `Raft` class that its handlers read, with the peers given by
their number `n`.  Timers are left out: a timeout may happen at any moment.
Serialisation is a parameter, since protobuf and Boost are not part of the
repository.
-/

namespace KVRaft
namespace RaftCore

structure BoostPersistRaftNode where
  currentTerm : Int
  votedFor : Int
  lastSnapshotIncludeIndex : Int
  lastSnapshotIncludeTerm : Int
  logs : List Bytes
  deriving DecidableEq, Repr

/-- Serialisation of log entries and of the persisted state.  Reading a state
archive throws when the text is not an archive. -/
class Archive where
  serializeAsString : LogEntry -> Bytes
  parseFromString : Bytes -> LogEntry
  textOarchive : BoostPersistRaftNode -> Bytes
  textIarchive : Bytes -> Option BoostPersistRaftNode

/-- The laws of the two serialisers: reading takes back what was written, and an
archive always has a header. -/
class LawfulArchive [Archive] : Prop where
  textIarchive_textOarchive : forall node : BoostPersistRaftNode,
    Archive.textIarchive (Archive.textOarchive node) = some node
  textOarchive_ne_nil : forall node : BoostPersistRaftNode, Archive.textOarchive node ≠ []
  parseFromString_serializeAsString : forall log : LogEntry,
    Archive.parseFromString (Archive.serializeAsString log) = log

inductive Status where
  | follower
  | candidate
  | leader
  deriving DecidableEq, Repr

structure Raft (n : Nat) where
  me : Fin n
  persister : Persister
  currentTerm : Int
  votedFor : Int
  logs : List LogEntry
  commitIndex : Int
  lastApplied : Int
  nextIndex : Fin n -> Int
  matchIndex : Fin n -> Int
  status : Status
  lastSnapshotIncludeIndex : Int
  lastSnapshotIncludeTerm : Int

namespace Raft

variable {n : Nat} [Archive]

/-!
# Persistence
-/

def persistData (rf : Raft n) : Bytes :=
  Archive.textOarchive
    { currentTerm := rf.currentTerm
      votedFor := rf.votedFor
      lastSnapshotIncludeIndex := rf.lastSnapshotIncludeIndex
      lastSnapshotIncludeTerm := rf.lastSnapshotIncludeTerm
      logs := rf.logs.map Archive.serializeAsString }

def persist (rf : Raft n) : Raft n :=
  { rf with persister := rf.persister.saveRaftState rf.persistData }

def readPersist (rf : Raft n) (data : Bytes) : Outcome (Raft n) :=
  if data.isEmpty then
    .ok rf
  else
    match Archive.textIarchive data with
    | none => .error .archiveException
    | some node =>
        .ok
          { rf with
            currentTerm := node.currentTerm
            votedFor := node.votedFor
            lastSnapshotIncludeIndex := node.lastSnapshotIncludeIndex
            lastSnapshotIncludeTerm := node.lastSnapshotIncludeTerm
            logs := node.logs.map Archive.parseFromString }

/-- The size is counted in 64 bits and returned as an `int`. -/
def getRaftStateSize (rf : Raft n) : Int :=
  Foundation.toInt32 rf.persister.raftStateSize

/-- The node before `init` reads what was persisted. -/
def blank (me : Fin n) (persister : Persister) : Raft n where
  me := me
  persister := persister
  currentTerm := 0
  votedFor := -1
  logs := []
  commitIndex := 0
  lastApplied := 0
  nextIndex := fun _ => 0
  matchIndex := fun _ => 0
  status := .follower
  lastSnapshotIncludeIndex := 0
  lastSnapshotIncludeTerm := 0

def init (me : Fin n) (persister : Persister) : Outcome (Raft n) := do
  let rf <- (blank me persister).readPersist persister.readRaftState
  if rf.lastSnapshotIncludeIndex > 0 then
    return { rf with lastApplied := rf.lastSnapshotIncludeIndex }
  return rf

/-!
Persisting writes files only.
-/

@[simp] theorem persist_commitIndex (rf : Raft n) :
    rf.persist.commitIndex = rf.commitIndex := rfl
@[simp] theorem persist_status (rf : Raft n) : rf.persist.status = rf.status := rfl

/-- A new persister has nothing to read, whatever the files held before. -/
theorem init_create (me : Fin n) (raftStateFile snapshotFile : Bytes) :
    init me (Persister.create raftStateFile snapshotFile) =
      .ok (blank me (Persister.create raftStateFile snapshotFile)) :=
  rfl

end Raft
end RaftCore
end KVRaft
