import KVRaft.RaftCore.Messages

/-!
# Persister

Two files, each bound to an output stream that is open between calls.  Bytes
written to a stream count as having reached its file.  Opening an output stream
truncates its file, also where the source means to reopen it for appending.
-/

namespace KVRaft
namespace RaftCore

structure Persister where
  raftStateFile : Bytes
  snapshotFile : Bytes
  raftStateSize : Nat
  deriving DecidableEq, Repr

/-- What is left of a file once an output stream has opened it. -/
def openForOutput (_ : Bytes) : Bytes :=
  []

/-- Reading a whole file as one word. -/
def readFile (file : Bytes) : Bytes :=
  extractWord file

namespace Persister

/-- The constructor, over the files it finds in its directory. -/
def create (raftStateFile snapshotFile : Bytes) : Persister where
  raftStateFile := openForOutput (openForOutput raftStateFile)
  snapshotFile := openForOutput (openForOutput snapshotFile)
  raftStateSize := 0

def clearRaftState (p : Persister) : Persister :=
  { p with
    raftStateSize := 0
    raftStateFile := openForOutput p.raftStateFile }

def clearSnapshot (p : Persister) : Persister :=
  { p with snapshotFile := openForOutput p.snapshotFile }

def clearRaftStateAndSnapshot (p : Persister) : Persister :=
  p.clearRaftState.clearSnapshot

def save (p : Persister) (raftstate snapshot : Bytes) : Persister :=
  let p := p.clearRaftStateAndSnapshot
  { p with
    raftStateFile := p.raftStateFile ++ raftstate
    snapshotFile := p.snapshotFile ++ snapshot }

def saveRaftState (p : Persister) (data : Bytes) : Persister :=
  let p := p.clearRaftState
  { p with
    raftStateFile := p.raftStateFile ++ data
    raftStateSize := p.raftStateSize + data.length }

def readRaftState (p : Persister) : Bytes :=
  readFile p.raftStateFile

/-- Reading the snapshot closes the output stream and opens it again. -/
def readSnapshot (p : Persister) : Persister × Bytes :=
  ({ p with snapshotFile := openForOutput p.snapshotFile }, readFile p.snapshotFile)

end Persister
end RaftCore
end KVRaft
