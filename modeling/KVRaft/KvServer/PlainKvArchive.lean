import KVRaft.Common.PlainText
import KVRaft.KvServer.State
import KVRaft.RaftCore.Raft.PlainArchive

/-!
# An archive of the key-value server for concrete runs
-/

namespace KVRaft
namespace KvServer

open PlainText

def putOperation : Operation -> Bytes
  | .get => [0]
  | .put => [1]
  | .append => [2]

def getOperation : Bytes -> Option (Operation × Bytes)
  | [] => none
  | c :: rest =>
      if c = 0 then
        some (.get, rest)
      else if c = 1 then
        some (.put, rest)
      else
        some (.append, rest)

def putOp (op : Op) : Bytes :=
  putOperation op.operation ++ (putBytes op.key ++ (putBytes op.value ++
    (putBytes op.clientId ++ putInt op.requestId)))

def getOp (data : Bytes) : Option Op := do
  let (operation, data) <- getOperation data
  let (key, data) <- getBytes data
  let (value, data) <- getBytes data
  let (clientId, data) <- getBytes data
  let (requestId, _) <- getInt data
  return { operation, key, value, clientId, requestId }

def putDump (dumper : SkipListDump Bytes Bytes) : Bytes :=
  putList putBytes dumper.keyDumpVt ++ putList putBytes dumper.valDumpVt

def getDump (data : Bytes) : Option (SkipListDump Bytes Bytes) := do
  let (keyDumpVt, data) <- getList getBytes data
  let (valDumpVt, _) <- getList getBytes data
  return { keyDumpVt, valDumpVt }

def putRequest (request : Sigma fun _ : Bytes => Int) : Bytes :=
  putBytes request.1 ++ putInt request.2

def getRequest (data : Bytes) : Option ((Sigma fun _ : Bytes => Int) × Bytes) := do
  let (clientId, data) <- getBytes data
  let (requestId, data) <- getInt data
  return (⟨clientId, requestId⟩, data)

def putSnapshot (snapshot : KvSnapshot) : Bytes :=
  putBytes snapshot.serializedKVData ++ putList putRequest snapshot.lastRequestId.entries

def getSnapshot (data : Bytes) : Option KvSnapshot := do
  let (serializedKVData, data) <- getBytes data
  let (entries, _) <- getList getRequest data
  return { serializedKVData, lastRequestId := entries.toAList }

@[reducible] def plainKvArchive : KvArchive where
  asString := putOp
  parseFromString := getOp
  textOarchive := putDump
  textIarchive := getDump
  textOarchiveServer := putSnapshot
  textIarchiveServer := getSnapshot

theorem getOperation_putOperation (operation : Operation) (rest : Bytes) :
    getOperation (putOperation operation ++ rest) = some (operation, rest) := by
  cases operation with
  | get => rfl
  | put => rfl
  | append => rfl

theorem getOp_putOp (op : Op) : getOp (putOp op) = some op := by
  have hlast := getInt_putInt op.requestId []
  rw [List.append_nil] at hlast
  simp only [putOp, getOp, getOperation_putOperation, getBytes_putBytes, hlast, bind,
    Option.bind, pure]

theorem getDump_putDump (dumper : SkipListDump Bytes Bytes) :
    getDump (putDump dumper) = some dumper := by
  have hkeys := getList_putList putBytes getBytes getBytes_putBytes dumper.keyDumpVt
    (putList putBytes dumper.valDumpVt)
  have hvals := getList_putList putBytes getBytes getBytes_putBytes dumper.valDumpVt []
  rw [List.append_nil] at hvals
  simp only [putDump, getDump, hkeys, hvals, bind, Option.bind, pure]

theorem getRequest_putRequest (request : Sigma fun _ : Bytes => Int) (rest : Bytes) :
    getRequest (putRequest request ++ rest) = some (request, rest) := by
  simp only [putRequest, getRequest, List.append_assoc, getBytes_putBytes, getInt_putInt,
    bind, Option.bind, pure]

/-- A list without repeated keys is the table it stands for. -/
theorem toAList_entries (table : RequestTable) : table.entries.toAList = table := by
  cases table with
  | mk entries nodupKeys =>
      induction entries with
      | nil => rfl
      | cons request rest ih =>
          rw [AList.toAList_cons, ih nodupKeys.of_cons]
          exact (AList.mk_cons_eq_insert request rest nodupKeys).symm

theorem getSnapshot_putSnapshot (snapshot : KvSnapshot) :
    getSnapshot (putSnapshot snapshot) = some snapshot := by
  have htable := getList_putList putRequest getRequest getRequest_putRequest
    snapshot.lastRequestId.entries []
  rw [List.append_nil] at htable
  simp only [putSnapshot, getSnapshot, getBytes_putBytes, htable, toAList_entries, bind,
    Option.bind, pure]

theorem plainKvArchive_lawful : @LawfulKvArchive plainKvArchive :=
  let _ := plainKvArchive
  { parseFromString_asString := getOp_putOp
    textIarchive_textOarchive := getDump_putDump
    textOarchive_ne_nil := fun dumper =>
      List.append_ne_nil_of_left_ne_nil (putList_ne_nil putBytes dumper.keyDumpVt) _
    textIarchive_textOarchiveServer := getSnapshot_putSnapshot
    textOarchiveServer_ne_nil := fun snapshot =>
      List.append_ne_nil_of_left_ne_nil (putBytes_ne_nil snapshot.serializedKVData) _ }

end KvServer
end KVRaft
