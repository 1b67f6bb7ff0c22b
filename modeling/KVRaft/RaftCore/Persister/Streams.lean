import KVRaft.Foundation.BufferedFile
import KVRaft.RaftCore.Persister

/-!
# The streams of the persister

The same two files with their output streams.  A save closes, opens and writes
the streams in turn, and the process can be killed between any two of these
steps.  The streams are open between calls, and opening them does not fail.
-/

namespace KVRaft
namespace RaftCore

open Foundation

structure PersisterStreams where
  raftState : BufferedFile UInt8
  snapshot : BufferedFile UInt8
  raftStateSize : Nat
  deriving DecidableEq, Repr

inductive StreamStep where
  | resetSize
  | closeRaftState
  | openRaftState
  | writeRaftState (raftstate : Bytes) (through : Nat)
  | closeSnapshot
  | openSnapshot
  | writeSnapshot (snapshot : Bytes) (through : Nat)
  | addSize (size : Nat)
  deriving DecidableEq, Repr

namespace PersisterStreams

/-- The constructor has truncated both files. -/
def create : PersisterStreams where
  raftState := BufferedFile.empty
  snapshot := BufferedFile.empty
  raftStateSize := 0

def step (p : PersisterStreams) : StreamStep -> PersisterStreams
  | .resetSize => { p with raftStateSize := 0 }
  | .closeRaftState => { p with raftState := p.raftState.close }
  | .openRaftState => { p with raftState := p.raftState.openTruncated }
  | .writeRaftState raftstate through =>
      { p with raftState := p.raftState.write raftstate through }
  | .closeSnapshot => { p with snapshot := p.snapshot.close }
  | .openSnapshot => { p with snapshot := p.snapshot.openTruncated }
  | .writeSnapshot snapshot through =>
      { p with snapshot := p.snapshot.write snapshot through }
  | .addSize size => { p with raftStateSize := p.raftStateSize + size }

def run (p : PersisterStreams) (steps : List StreamStep) : PersisterStreams :=
  steps.foldl step p

def clearRaftState : List StreamStep :=
  [.resetSize, .closeRaftState, .openRaftState]

def clearSnapshot : List StreamStep :=
  [.closeSnapshot, .openSnapshot]

def clearRaftStateAndSnapshot : List StreamStep :=
  clearRaftState ++ clearSnapshot

def save (raftstate snapshot : Bytes) (raftThrough snapshotThrough : Nat) :
    List StreamStep :=
  clearRaftStateAndSnapshot ++
    [.writeRaftState raftstate raftThrough, .writeSnapshot snapshot snapshotThrough]

def saveRaftState (data : Bytes) (through : Nat) : List StreamStep :=
  clearRaftState ++ [.writeRaftState data through, .addSize data.length]

/-- Closing before the file is read, and opening again, which also truncates. -/
def readSnapshot (p : PersisterStreams) : PersisterStreams × Bytes :=
  let p := p.step .closeSnapshot
  (p.step .openSnapshot, readFile p.snapshot.file)

/-- The two files a killed process leaves. -/
def onDisk (p : PersisterStreams) : Bytes × Bytes :=
  (p.raftState.file, p.snapshot.file)

@[simp] theorem run_nil (p : PersisterStreams) : p.run [] = p :=
  rfl

@[simp] theorem run_cons (p : PersisterStreams) (s : StreamStep) (rest : List StreamStep) :
    p.run (s :: rest) = (p.step s).run rest :=
  rfl

/-!
# Once everything has reached the files

Counting what is written as having reached its file gives the persister of the
node.
-/

def settle (p : PersisterStreams) : Persister where
  raftStateFile := p.raftState.contents
  snapshotFile := p.snapshot.contents
  raftStateSize := p.raftStateSize

theorem settle_create (raftStateFile snapshotFile : Bytes) :
    create.settle = Persister.create raftStateFile snapshotFile :=
  rfl

theorem settle_save (p : PersisterStreams) (raftstate snapshot : Bytes)
    (raftThrough snapshotThrough : Nat) :
    (p.run (save raftstate snapshot raftThrough snapshotThrough)).settle =
      p.settle.save raftstate snapshot := by
  simp [step, save, clearRaftStateAndSnapshot, clearRaftState, clearSnapshot, settle,
    Persister.save, Persister.clearRaftStateAndSnapshot, Persister.clearRaftState,
    Persister.clearSnapshot, openForOutput]

theorem settle_saveRaftState (p : PersisterStreams) (data : Bytes) (through : Nat) :
    (p.run (saveRaftState data through)).settle = p.settle.saveRaftState data := by
  simp [step, saveRaftState, clearRaftState, settle, Persister.saveRaftState,
    Persister.clearRaftState, openForOutput]

theorem settle_readSnapshot (p : PersisterStreams) :
    (p.readSnapshot.1.settle, p.readSnapshot.2) = p.settle.readSnapshot := by
  rfl

end PersisterStreams
end RaftCore
end KVRaft
