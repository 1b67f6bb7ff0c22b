import Mathlib.Data.List.AList
import KVRaft.Common.Op
import KVRaft.SkipList.Chain
import KVRaft.RaftCore.Raft.Snapshotting

/-!
# The key-value server

What a server does with the messages of its Raft node and with its snapshots.
The mutex is held for each function that changes the state.
-/

namespace KVRaft

/-- The last request executed for each client. -/
abbrev RequestTable := AList fun _ : Bytes => Int

structure KvServer where
  maxRaftState : Int
  lastSnapShotRaftLogIndex : Int
  skipList : SkipList Bytes Bytes
  lastRequestId : RequestTable
  waitApplyCh : AList fun _ : Int => List Op

/-- The two fields of a server that are serialised. -/
structure KvSnapshot where
  serializedKVData : Bytes
  lastRequestId : RequestTable

/-- Text archives of servers, of their maps and of their operations. -/
class KvArchive extends OpArchive, DumpArchive Bytes Bytes where
  textOarchiveServer : KvSnapshot -> Bytes
  textIarchiveServer : Bytes -> Option KvSnapshot

class LawfulKvArchive [KvArchive] : Prop
    extends LawfulOpArchive, LawfulDumpArchive Bytes Bytes where
  textIarchive_textOarchiveServer : forall snapshot : KvSnapshot,
    KvArchive.textIarchiveServer (KvArchive.textOarchiveServer snapshot) = some snapshot
  textOarchiveServer_ne_nil : forall snapshot : KvSnapshot,
    KvArchive.textOarchiveServer snapshot ≠ []

namespace KvServer

open RaftCore

/-- A server that found no snapshot when it started. -/
def create (maxRaftState : Int) : KvServer where
  maxRaftState := maxRaftState
  lastSnapShotRaftLogIndex := 0
  skipList := SkipList.empty
  lastRequestId := ∅
  waitApplyCh := ∅

/-!
# Executing operations
-/

def executeGetOpOnKVDB (kv : KvServer) (op : Op) : KvServer × Bytes × Bool :=
  let found := kv.skipList.searchElement op.key
  ({ kv with lastRequestId := kv.lastRequestId.insert op.clientId op.requestId },
    found.getD [], found.isSome)

def executePutOpOnKVDB (kv : KvServer) (op : Op) : KvServer :=
  { kv with
    skipList := kv.skipList.insertSetElement op.key op.value
    lastRequestId := kv.lastRequestId.insert op.clientId op.requestId }

def executeAppendOpOnKVDB (kv : KvServer) (op : Op) : KvServer :=
  { kv with
    skipList :=
      match kv.skipList.searchElement op.key with
      | some oldValue => kv.skipList.insertSetElement op.key (oldValue ++ op.value)
      | none => kv.skipList.insertSetElement op.key op.value
    lastRequestId := kv.lastRequestId.insert op.clientId op.requestId }

def ifRequestDuplicate (kv : KvServer) (clientId : Bytes) (requestId : Int) : Bool :=
  match kv.lastRequestId.lookup clientId with
  | none => false
  | some last => requestId ≤ last

/-- A committed operation that is no duplicate is executed; a Get is not. -/
def execute (kv : KvServer) (op : Op) : KvServer :=
  match op.operation with
  | .get => kv
  | .put => kv.executePutOpOnKVDB op
  | .append => kv.executeAppendOpOnKVDB op

def executeUnless (kv : KvServer) (op : Op) (duplicate : Bool) : KvServer :=
  if duplicate then kv else kv.execute op

/-- A handler makes the channel it will wait on, unless there is one. -/
def openWaitChan (kv : KvServer) (raftIndex : Int) : KvServer :=
  match kv.waitApplyCh.lookup raftIndex with
  | none => { kv with waitApplyCh := kv.waitApplyCh.insert raftIndex [] }
  | some _ => kv

def closeWaitChan (kv : KvServer) (raftIndex : Int) : KvServer :=
  { kv with waitApplyCh := kv.waitApplyCh.erase raftIndex }

/-- The handler waiting for an index, if there is one, gets the operation. -/
def sendMessageToWaitChan (kv : KvServer) (op : Op) (raftIndex : Int) : KvServer :=
  match kv.waitApplyCh.lookup raftIndex with
  | none => kv
  | some chan =>
      { kv with waitApplyCh := kv.waitApplyCh.insert raftIndex (chan ++ [op]) }

/-!
# Snapshots
-/

variable [KvArchive]

def getSnapshotData (kv : KvServer) : Bytes :=
  KvArchive.textOarchiveServer
    { serializedKVData := kv.skipList.dumpFile
      lastRequestId := kv.lastRequestId }

def makeSnapShot (kv : KvServer) : Bytes :=
  kv.getSnapshotData

/-- The table is replaced; the map is loaded into the one that is there. -/
def parseFromString (kv : KvServer) (str : Bytes) : Option KvServer := do
  let archive <- KvArchive.textIarchiveServer str
  let skipList <- kv.skipList.loadFile archive.serializedKVData
  return { kv with skipList := skipList, lastRequestId := archive.lastRequestId }

def readSnapShotToInstall (kv : KvServer) (snapshot : Bytes) : Option KvServer :=
  if snapshot.isEmpty then
    some kv
  else
    kv.parseFromString snapshot

def getSnapShotFromRaft {n : Nat} (kv : KvServer) (rf : Raft n) (message : ApplyMsg) :
    Option KvServer :=
  if rf.condInstallSnapshot message.snapshotTerm message.snapshotIndex message.snapshot then
    (kv.readSnapShotToInstall message.snapshot).map fun kv =>
      { kv with lastSnapShotRaftLogIndex := message.snapshotIndex }
  else
    some kv

/-- The limit in hundredths of a byte, a product of two `int`s. -/
def hundredths (kv : KvServer) (proportion : Int) : Int :=
  Foundation.toInt32 (kv.maxRaftState * proportion)

/-- The snapshot handed to Raft, if its state has outgrown the limit. -/
def ifNeedToSendSnapShotCommand (kv : KvServer) (raftStateSize raftIndex proportion : Int) :
    Option (Int × Bytes) :=
  if raftStateSize * 100 > kv.hundredths proportion then
    some (raftIndex, kv.makeSnapShot)
  else
    none

/-!
# Messages of the Raft node
-/

/-- The new state and the snapshot to hand to Raft.  An operation that cannot be
read throws, also below the snapshot. -/
def getCommandFromRaft (kv : KvServer) (raftStateSize : Int) (message : ApplyMsg) :
    Option (KvServer × Option (Int × Bytes)) := do
  let op <- OpArchive.parseFromString message.command
  if message.commandIndex ≤ kv.lastSnapShotRaftLogIndex then
    return (kv, none)
  let kv := kv.executeUnless op (kv.ifRequestDuplicate op.clientId op.requestId)
  let call :=
    if kv.maxRaftState ≠ -1 then
      kv.ifNeedToSendSnapShotCommand raftStateSize message.commandIndex 10
    else
      none
  return (kv.sendMessageToWaitChan op message.commandIndex, call)

/-- One turn of the loop. -/
def readRaftApplyCommandLoop {n : Nat} (kv : KvServer) (rf : Raft n) (message : ApplyMsg) :
    Option (KvServer × Option (Int × Bytes)) := do
  let (kv, call) <-
    if message.commandValid then
      kv.getCommandFromRaft rf.getRaftStateSize message
    else
      some (kv, none)
  let kv <-
    if message.snapshotValid then
      kv.getSnapShotFromRaft rf message
    else
      some kv
  return (kv, call)

theorem ifNeedToSendSnapShotCommand_index {kv : KvServer}
    {raftStateSize raftIndex proportion index : Int} {data : Bytes}
    (h : kv.ifNeedToSendSnapShotCommand raftStateSize raftIndex proportion =
      some (index, data)) : index = raftIndex := by
  unfold ifNeedToSendSnapShotCommand at h
  by_cases hlarge : raftStateSize * 100 > kv.hundredths proportion
  · rw [if_pos hlarge] at h
    cases h
    rfl
  · rw [if_neg hlarge] at h
    cases h

/-!
# What stays
-/

section

omit [KvArchive]

/-- A command changes the map and the table only. -/
theorem executeUnless_eq (kv : KvServer) (op : Op) (duplicate : Bool) :
    kv.executeUnless op duplicate =
      { kv with
        skipList := (kv.executeUnless op duplicate).skipList
        lastRequestId := (kv.executeUnless op duplicate).lastRequestId } := by
  unfold executeUnless execute
  cases duplicate with
  | true => rfl
  | false =>
      cases op.operation with
      | get => rfl
      | put => rfl
      | append => rfl

theorem executeUnless_lastSnapShot (kv : KvServer) (op : Op) (duplicate : Bool) :
    (kv.executeUnless op duplicate).lastSnapShotRaftLogIndex =
      kv.lastSnapShotRaftLogIndex := by
  rw [executeUnless_eq]

theorem executeUnless_maxRaftState (kv : KvServer) (op : Op) (duplicate : Bool) :
    (kv.executeUnless op duplicate).maxRaftState = kv.maxRaftState := by
  rw [executeUnless_eq]

theorem executeUnless_waitApplyCh (kv : KvServer) (op : Op) (duplicate : Bool) :
    (kv.executeUnless op duplicate).waitApplyCh = kv.waitApplyCh := by
  rw [executeUnless_eq]

theorem ifRequestDuplicate_eq_true {kv : KvServer} {clientId : Bytes} {requestId : Int} :
    kv.ifRequestDuplicate clientId requestId = true <->
      exists last, kv.lastRequestId.lookup clientId = some last ∧ requestId ≤ last := by
  unfold KvServer.ifRequestDuplicate
  cases kv.lastRequestId.lookup clientId with
  | none => simp
  | some last => simp

theorem execute_lastRequestId {kv : KvServer} {op : Op} (h : op.Writes) :
    (kv.execute op).lastRequestId = kv.lastRequestId.insert op.clientId op.requestId := by
  unfold execute
  cases hop : op.operation with
  | get => exact absurd hop h
  | put => rfl
  | append => rfl

theorem execute_of_not_writes {kv : KvServer} {op : Op} (h : ¬ op.Writes) :
    kv.execute op = kv := by
  unfold execute
  cases hop : op.operation with
  | get => rfl
  | put =>
      rw [Op.Writes, hop] at h
      exact absurd nofun h
  | append =>
      rw [Op.Writes, hop] at h
      exact absurd nofun h

theorem openWaitChan_eq (kv : KvServer) (raftIndex : Int) :
    kv.openWaitChan raftIndex =
      { kv with waitApplyCh := (kv.openWaitChan raftIndex).waitApplyCh } := by
  unfold openWaitChan
  cases kv.waitApplyCh.lookup raftIndex with
  | none => rfl
  | some chan => rfl

theorem sendMessageToWaitChan_eq (kv : KvServer) (op : Op) (raftIndex : Int) :
    kv.sendMessageToWaitChan op raftIndex =
      { kv with waitApplyCh := (kv.sendMessageToWaitChan op raftIndex).waitApplyCh } := by
  unfold sendMessageToWaitChan
  cases kv.waitApplyCh.lookup raftIndex with
  | none => rfl
  | some chan => rfl

end

end KvServer
end KVRaft
