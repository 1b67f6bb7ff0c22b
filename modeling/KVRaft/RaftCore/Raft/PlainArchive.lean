import KVRaft.Common.PlainText
import KVRaft.RaftCore.Raft.State

/-!
# An archive for concrete runs
-/

namespace KVRaft
namespace RaftCore

open PlainText

def putNode (node : BoostPersistRaftNode) : Bytes :=
  putInt node.currentTerm ++ (putInt node.votedFor ++
    (putInt node.lastSnapshotIncludeIndex ++ (putInt node.lastSnapshotIncludeTerm ++
      putList putBytes node.logs)))

def getNode (data : Bytes) : Option BoostPersistRaftNode := do
  let (currentTerm, data) <- getInt data
  let (votedFor, data) <- getInt data
  let (lastSnapshotIncludeIndex, data) <- getInt data
  let (lastSnapshotIncludeTerm, data) <- getInt data
  let (logs, _) <- getList getBytes data
  return { currentTerm, votedFor, lastSnapshotIncludeIndex, lastSnapshotIncludeTerm, logs }

def putEntry (log : LogEntry) : Bytes :=
  putBytes log.command ++ (putInt log.logTerm ++ putInt log.logIndex)

def getEntry (data : Bytes) : Option LogEntry := do
  let (command, data) <- getBytes data
  let (logTerm, data) <- getInt data
  let (logIndex, _) <- getInt data
  return { command, logTerm, logIndex }

@[reducible] def plainArchive : Archive where
  serializeAsString := putEntry
  parseFromString data := (getEntry data).getD { command := [], logTerm := 0, logIndex := 0 }
  textOarchive := putNode
  textIarchive := getNode

/-!
Numerals name the servers of small clusters.
-/

instance neZeroTwo : @NeZero Nat Zero.ofOfNat0 2 := ⟨Nat.succ_ne_zero _⟩
instance neZeroThree : @NeZero Nat Zero.ofOfNat0 3 := ⟨Nat.succ_ne_zero _⟩
instance neZeroFive : @NeZero Nat Zero.ofOfNat0 5 := ⟨Nat.succ_ne_zero _⟩

theorem getNode_putNode (node : BoostPersistRaftNode) : getNode (putNode node) = some node := by
  have hlogs := getList_putList putBytes getBytes getBytes_putBytes node.logs []
  rw [List.append_nil] at hlogs
  simp only [putNode, getNode, getInt_putInt, hlogs, bind, Option.bind, pure]

theorem getEntry_putEntry (log : LogEntry) : getEntry (putEntry log) = some log := by
  have hindex := getInt_putInt log.logIndex []
  rw [List.append_nil] at hindex
  simp only [putEntry, getEntry, getBytes_putBytes, getInt_putInt, hindex, bind,
    Option.bind, pure]

theorem plainArchive_lawful : @LawfulArchive plainArchive :=
  @LawfulArchive.mk plainArchive getNode_putNode
    (fun node => List.append_ne_nil_of_left_ne_nil (putInt_ne_nil node.currentTerm) _)
    (fun log => congrArg (fun read => Option.getD read _) (getEntry_putEntry log))

end RaftCore
end KVRaft
