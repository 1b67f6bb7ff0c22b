import KVRaft.Foundation.FieldKinds
import KVRaft.RaftCore.Messages
import KVRaft.Rpc.Messages

/-!
# The messages of the two protocols

The messages that the servers exchange, and those between a clerk and a server, by their
fields.
-/

namespace KVRaft

open Foundation Wire

/-!
# Between the servers
-/

namespace RaftCore

def LogEntry.descriptor : Descriptor LogEntry where
  init := { command := [], logTerm := 0, logIndex := 0 }
  fields := [
    { number := 1, kind := bytesScalar.kind
      value := LogEntry.command
      set := fun v m => { m with command := v } },
    { number := 2, kind := int32Scalar.kind
      value := LogEntry.logTerm
      set := fun v m => { m with logTerm := v } },
    { number := 3, kind := int32Scalar.kind
      value := LogEntry.logIndex
      set := fun v m => { m with logIndex := v } }]
  numbered := by simp
  independent := by simp [Field.Independent]
  init_default := by simp
  ext := by
    rintro ⟨_, _, _⟩ ⟨_, _, _⟩ h
    simpa using h

def AppendEntriesArgs.descriptor : Descriptor AppendEntriesArgs where
  init := {
    term := 0
    leaderId := 0
    prevLogIndex := 0
    prevLogTerm := 0
    entries := []
    leaderCommit := 0 }
  fields := [
    { number := 1, kind := int32Scalar.kind
      value := AppendEntriesArgs.term
      set := fun v m => { m with term := v } },
    { number := 2, kind := int32Scalar.kind
      value := AppendEntriesArgs.leaderId
      set := fun v m => { m with leaderId := v } },
    { number := 3, kind := int32Scalar.kind
      value := AppendEntriesArgs.prevLogIndex
      set := fun v m => { m with prevLogIndex := v } },
    { number := 4, kind := int32Scalar.kind
      value := AppendEntriesArgs.prevLogTerm
      set := fun v m => { m with prevLogTerm := v } },
    { number := 5, kind := LogEntry.descriptor.repeatedKind
      value := AppendEntriesArgs.entries
      set := fun v m => { m with entries := v } },
    { number := 6, kind := int32Scalar.kind
      value := AppendEntriesArgs.leaderCommit
      set := fun v m => { m with leaderCommit := v } }]
  numbered := by simp
  independent := by simp [Field.Independent]
  init_default := by simp
  ext := by
    rintro ⟨_, _, _, _, _, _⟩ ⟨_, _, _, _, _, _⟩ h
    simpa using h

def AppendEntriesReply.descriptor : Descriptor AppendEntriesReply where
  init := {}
  fields := [
    { number := 1, kind := int32Scalar.kind
      value := AppendEntriesReply.term
      set := fun v m => { m with term := v } },
    { number := 2, kind := boolScalar.kind
      value := AppendEntriesReply.success
      set := fun v m => { m with success := v } },
    { number := 3, kind := int32Scalar.kind
      value := AppendEntriesReply.updateNextIndex
      set := fun v m => { m with updateNextIndex := v } },
    { number := 4, kind := int32Scalar.kind
      value := AppendEntriesReply.appState
      set := fun v m => { m with appState := v } }]
  numbered := by simp
  independent := by simp [Field.Independent]
  init_default := by simp
  ext := by
    rintro ⟨_, _, _, _⟩ ⟨_, _, _, _⟩ h
    simpa using h

def RequestVoteArgs.descriptor : Descriptor RequestVoteArgs where
  init := { term := 0, candidateId := 0, lastLogIndex := 0, lastLogTerm := 0 }
  fields := [
    { number := 1, kind := int32Scalar.kind
      value := RequestVoteArgs.term
      set := fun v m => { m with term := v } },
    { number := 2, kind := int32Scalar.kind
      value := RequestVoteArgs.candidateId
      set := fun v m => { m with candidateId := v } },
    { number := 3, kind := int32Scalar.kind
      value := RequestVoteArgs.lastLogIndex
      set := fun v m => { m with lastLogIndex := v } },
    { number := 4, kind := int32Scalar.kind
      value := RequestVoteArgs.lastLogTerm
      set := fun v m => { m with lastLogTerm := v } }]
  numbered := by simp
  independent := by simp [Field.Independent]
  init_default := by simp
  ext := by
    rintro ⟨_, _, _, _⟩ ⟨_, _, _, _⟩ h
    simpa using h

def RequestVoteReply.descriptor : Descriptor RequestVoteReply where
  init := {}
  fields := [
    { number := 1, kind := int32Scalar.kind
      value := RequestVoteReply.term
      set := fun v m => { m with term := v } },
    { number := 2, kind := boolScalar.kind
      value := RequestVoteReply.voteGranted
      set := fun v m => { m with voteGranted := v } },
    { number := 3, kind := int32Scalar.kind
      value := RequestVoteReply.voteState
      set := fun v m => { m with voteState := v } }]
  numbered := by simp
  independent := by simp [Field.Independent]
  init_default := by simp
  ext := by
    rintro ⟨_, _, _⟩ ⟨_, _, _⟩ h
    simpa using h

def InstallSnapshotRequest.descriptor : Descriptor InstallSnapshotRequest where
  init := {
    leaderId := 0
    term := 0
    lastSnapshotIncludeIndex := 0
    lastSnapshotIncludeTerm := 0
    data := [] }
  fields := [
    { number := 1, kind := int32Scalar.kind
      value := InstallSnapshotRequest.leaderId
      set := fun v m => { m with leaderId := v } },
    { number := 2, kind := int32Scalar.kind
      value := InstallSnapshotRequest.term
      set := fun v m => { m with term := v } },
    { number := 3, kind := int32Scalar.kind
      value := InstallSnapshotRequest.lastSnapshotIncludeIndex
      set := fun v m => { m with lastSnapshotIncludeIndex := v } },
    { number := 4, kind := int32Scalar.kind
      value := InstallSnapshotRequest.lastSnapshotIncludeTerm
      set := fun v m => { m with lastSnapshotIncludeTerm := v } },
    { number := 5, kind := bytesScalar.kind
      value := InstallSnapshotRequest.data
      set := fun v m => { m with data := v } }]
  numbered := by simp
  independent := by simp [Field.Independent]
  init_default := by simp
  ext := by
    rintro ⟨_, _, _, _, _⟩ ⟨_, _, _, _, _⟩ h
    simpa using h

def InstallSnapshotResponse.descriptor : Descriptor InstallSnapshotResponse where
  init := {}
  fields := [
    { number := 1, kind := int32Scalar.kind
      value := InstallSnapshotResponse.term
      set := fun v m => { m with term := v } }]
  numbered := by simp
  independent := by simp [Field.Independent]
  init_default := by simp
  ext := by
    rintro ⟨_⟩ ⟨_⟩ h
    simpa using h

end RaftCore

/-!
# Between a clerk and a server
-/

namespace Rpc

structure GetArgs where
  key : Bytes := []
  clientId : Bytes := []
  requestId : Int := 0
  deriving DecidableEq, Repr

structure PutAppendArgs where
  key : Bytes := []
  value : Bytes := []
  op : Bytes := []
  clientId : Bytes := []
  requestId : Int := 0
  deriving DecidableEq, Repr

structure PutAppendReply where
  err : Bytes := []
  deriving DecidableEq, Repr

def GetArgs.descriptor : Descriptor GetArgs where
  init := {}
  fields := [
    { number := 1, kind := bytesScalar.kind
      value := GetArgs.key
      set := fun v m => { m with key := v } },
    { number := 2, kind := bytesScalar.kind
      value := GetArgs.clientId
      set := fun v m => { m with clientId := v } },
    { number := 3, kind := int32Scalar.kind
      value := GetArgs.requestId
      set := fun v m => { m with requestId := v } }]
  numbered := by simp
  independent := by simp [Field.Independent]
  init_default := by simp
  ext := by
    rintro ⟨_, _, _⟩ ⟨_, _, _⟩ h
    simpa using h

def PutAppendArgs.descriptor : Descriptor PutAppendArgs where
  init := {}
  fields := [
    { number := 1, kind := bytesScalar.kind
      value := PutAppendArgs.key
      set := fun v m => { m with key := v } },
    { number := 2, kind := bytesScalar.kind
      value := PutAppendArgs.value
      set := fun v m => { m with value := v } },
    { number := 3, kind := bytesScalar.kind
      value := PutAppendArgs.op
      set := fun v m => { m with op := v } },
    { number := 4, kind := bytesScalar.kind
      value := PutAppendArgs.clientId
      set := fun v m => { m with clientId := v } },
    { number := 5, kind := int32Scalar.kind
      value := PutAppendArgs.requestId
      set := fun v m => { m with requestId := v } }]
  numbered := by simp
  independent := by simp [Field.Independent]
  init_default := by simp
  ext := by
    rintro ⟨_, _, _, _, _⟩ ⟨_, _, _, _, _⟩ h
    simpa using h

def PutAppendReply.descriptor : Descriptor PutAppendReply where
  init := {}
  fields := [
    { number := 1, kind := bytesScalar.kind
      value := PutAppendReply.err
      set := fun v m => { m with err := v } }]
  numbered := by simp
  independent := by simp [Field.Independent]
  init_default := by simp
  ext := by
    rintro ⟨_⟩ ⟨_⟩ h
    simpa using h

end Rpc
end KVRaft
