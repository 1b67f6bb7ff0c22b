import KVRaft.KvServer.PlainKvArchive
import KVRaft.RaftClerk.Execution

/-!
# Repeated commands

A server fed with committed commands applies the first of each request and passes
over the repetitions, as long as no number that a Get came with is used again for a
change.
-/

namespace KVRaft
namespace RaftClerk

open Foundation KvServer RaftCore

/-- Commands by client and number of the request. -/
def commands : Numbering Op Bytes Int where
  session := Op.clientId
  number := Op.requestId

/-- The map after all operations of a list, one after the other. -/
def executeAll (ops : List Op) : SkipList Bytes Bytes :=
  ops.foldl written SkipList.empty

theorem executeAll_concat (ops : List Op) (op : Op) :
    executeAll (ops ++ [op]) = written (executeAll ops) op := by
  rw [executeAll, List.foldl_append]
  rfl

theorem written_of_not_writes {op : Op} (h : ¬ op.Writes) (map : SkipList Bytes Bytes) :
    written map op = map := by
  rw [Op.Writes, not_not] at h
  rw [written, h]

/-- For each client, first occurrences of its request ids come in increasing order. -/
def FirstsInOrder (ops : List Op) : Prop :=
  EachFits commands.RisesAfter ops

/-- Where a change has the number of an earlier command, a change of its client with no
lower number came before it. -/
def NumbersKept (ops : List Op) : Prop :=
  EachFits (commands.RecordedBefore Op.Writes) ops

/-!
# Feeding
-/

section

variable [KvArchive]

def applyMsg (op : Op) (raftIndex : Int) : ApplyMsg where
  commandValid := true
  command := OpArchive.asString op
  commandIndex := raftIndex

/-- Handing up the commands from an index on, with the size of the Raft state at each of
them.  The snapshots that are triggered go to Raft and leave the server alone. -/
def feed (raftStateSize : Int -> Int) : Int -> List Op -> KvServer -> Option KvServer
  | _, [], kv => some kv
  | raftIndex, op :: ops, kv => do
      let (kv, _) <- kv.getCommandFromRaft (raftStateSize raftIndex) (applyMsg op raftIndex)
      feed raftStateSize (raftIndex + 1) ops kv

/-- From an empty state, the commands make the map that their first occurrences make. -/
def AppliedOnce (maxRaftState : Int) (raftStateSize : Int -> Int) (ops : List Op) : Prop :=
  exists kv, feed raftStateSize 1 ops (KvServer.create maxRaftState) = some kv ∧
    kv.skipList = executeAll (commands.firsts ops)

/-- What a server has made of the commands so far. -/
structure Applied (kv : KvServer) (ops : List Op) : Prop where
  base : kv.lastSnapShotRaftLogIndex = 0
  map : kv.skipList = executeAll (commands.firsts ops)
  backed : commands.Backed (lastRequest kv) (ops.filter fun op => op.Writes)
  complete : commands.Complete Op.Writes (lastRequest kv) ops

omit [KvArchive] in
theorem applied_create (maxRaftState : Int) : Applied (KvServer.create maxRaftState) [] where
  base := rfl
  map := rfl
  backed := by
    intro c last h
    cases h
  complete := by
    intro a ha
    cases ha

omit [KvArchive] in
theorem covers_command {kv : KvServer} {op : Op} :
    commands.Covers (lastRequest kv) op <->
      kv.ifRequestDuplicate op.clientId op.requestId = true := by
  rw [ifRequestDuplicate_eq_true]
  rfl

omit [KvArchive] in
/-- A command that is passed over, being no change or a repeated one. -/
theorem Applied.skip {kv : KvServer} {ops : List Op} (h : Applied kv ops) {op : Op}
    (hskip : op.Writes -> commands.Covers (lastRequest kv) op ∧
      exists a, a ∈ ops ∧ commands.Same a op) : Applied kv (ops ++ [op]) where
  base := h.base
  map := by
    by_cases hrepeated : exists a, a ∈ ops ∧ commands.Same a op
    · rw [Numbering.firsts_concat_repeated hrepeated]
      exact h.map
    · have hread : ¬ op.Writes := fun hwrites => hrepeated (hskip hwrites).2
      rw [Numbering.firsts_concat_new hrepeated, executeAll_concat,
        written_of_not_writes hread]
      exact h.map
  backed := by
    rw [List.filter_append]
    intro c last hlast
    rcases h.backed c last hlast with ⟨a, ha, hfound⟩
    exact ⟨a, List.mem_append_left _ ha, hfound⟩
  complete := h.complete.concat fun hwrites => (hskip hwrites).1

omit [KvArchive] in
/-- A new change is executed and its number noted. -/
theorem Applied.change {kv : KvServer} {ops : List Op} (h : Applied kv ops) {op : Op}
    (hwrites : op.Writes) (hnot : ¬ commands.Covers (lastRequest kv) op)
    (hnew : ¬ exists a, a ∈ ops ∧ commands.Same a op) :
    Applied (kv.execute op) (ops ++ [op]) := by
  have hrecords : commands.Records op (lastRequest kv) (lastRequest (kv.execute op)) := by
    constructor
    · rw [lastRequest, execute_lastRequestId hwrites]
      exact AList.lookup_insert _
    · intro c hc
      rw [lastRequest, lastRequest, execute_lastRequestId hwrites]
      exact AList.lookup_insert_ne hc
  have hraise : forall last, lastRequest kv op.clientId = some last -> last ≤ op.requestId := by
    intro last hlast
    by_contra hlt
    exact hnot ⟨last, hlast, (not_le.mp hlt).le⟩
  constructor
  · have hbase := executeUnless_lastSnapShot kv op false
    exact hbase.trans h.base
  · rw [Numbering.firsts_concat_new hnew, executeAll_concat, execute_skipList, h.map]
  · rw [List.filter_append, List.filter_singleton, decide_eq_true hwrites]
    apply (h.backed.concat op).record _ hrecords
    exact List.mem_append_right _ (List.mem_singleton_self op)
  · exact (h.complete.record hrecords hraise).concat fun _ => hrecords.covers

omit [KvArchive] in
theorem Applied.executeUnless {kv : KvServer} {ops : List Op} (h : Applied kv ops) {op : Op}
    (hrises : commands.RisesAfter ops op)
    (hkept : commands.RecordedBefore Op.Writes ops op) :
    Applied (kv.executeUnless op (kv.ifRequestDuplicate op.clientId op.requestId))
      (ops ++ [op]) := by
  by_cases hwrites : op.Writes
  · have hrepeated := h.backed.covers_iff_repeated h.complete hwrites hrises hkept
    by_cases hcovers : commands.Covers (lastRequest kv) op
    · rw [covers_command.mp hcovers]
      exact h.skip fun _ => ⟨hcovers, hrepeated.mp hcovers⟩
    · rw [Bool.eq_false_iff.mpr (fun hduplicate => hcovers (covers_command.mpr hduplicate))]
      exact h.change hwrites hcovers fun hsame => hcovers (hrepeated.mpr hsame)
  · rcases executeUnless_cases kv op
        (kv.ifRequestDuplicate op.clientId op.requestId) with ⟨_, hrun⟩ | ⟨hboth, _⟩
    · rw [hrun]
      exact h.skip fun hyes => absurd hyes hwrites
    · exact absurd hboth.2 hwrites

theorem getCommandFromRaft_applyMsg [LawfulOpArchive] (kv : KvServer) (op : Op)
    {raftIndex : Int} (h : kv.lastSnapShotRaftLogIndex < raftIndex) (raftStateSize : Int) :
    exists call, kv.getCommandFromRaft raftStateSize (applyMsg op raftIndex) =
      some ((kv.executeUnless op
        (kv.ifRequestDuplicate op.clientId op.requestId)).sendMessageToWaitChan op raftIndex,
        call) := by
  unfold KvServer.getCommandFromRaft applyMsg
  rw [LawfulOpArchive.parseFromString_asString]
  simp only [Option.bind_eq_bind, Option.bind_some, if_neg (not_le.mpr h)]
  exact ⟨_, rfl⟩

theorem Applied.feed [LawfulOpArchive] {kv : KvServer} {earlier : List Op}
    (h : Applied kv earlier) (raftStateSize : Int -> Int) {raftIndex : Int}
    (hindex : 0 < raftIndex) (ops : List Op) (horder : FirstsInOrder (earlier ++ ops))
    (hkept : NumbersKept (earlier ++ ops)) :
    exists kv', RaftClerk.feed raftStateSize raftIndex ops kv = some kv' ∧
      Applied kv' (earlier ++ ops) := by
  induction ops generalizing kv earlier raftIndex with
  | nil =>
      rw [List.append_nil]
      exact ⟨kv, rfl, h⟩
  | cons op ops ih =>
      have hnext := h.executeUnless (horder earlier op ops rfl) (hkept earlier op ops rfl)
      have hbeyond : kv.lastSnapShotRaftLogIndex < raftIndex := by
        rw [h.base]
        exact hindex
      rcases getCommandFromRaft_applyMsg kv op hbeyond (raftStateSize raftIndex) with
        ⟨call, hrun⟩
      rw [List.append_cons] at horder hkept ⊢
      have hsent : Applied ((kv.executeUnless op
          (kv.ifRequestDuplicate op.clientId op.requestId)).sendMessageToWaitChan op
            raftIndex) (earlier ++ [op]) := by
        rw [sendMessageToWaitChan_eq]
        exact ⟨hnext.base, hnext.map, hnext.backed, hnext.complete⟩
      rcases ih hsent (Int.lt_add_one_of_le hindex.le) horder hkept with
        ⟨kv', hrest, hkv'⟩
      refine ⟨kv', ?_, hkv'⟩
      rw [RaftClerk.feed, hrun]
      exact hrest

/-- Whatever snapshots are triggered, every request is applied once. -/
theorem repeats_applied_once [LawfulOpArchive] (maxRaftState : Int)
    (raftStateSize : Int -> Int) (ops : List Op) (horder : FirstsInOrder ops)
    (hkept : NumbersKept ops) : AppliedOnce maxRaftState raftStateSize ops := by
  rcases (applied_create maxRaftState).feed raftStateSize Int.one_pos ops horder hkept with
    ⟨kv, hrun, hkv⟩
  exact ⟨kv, hrun, hkv.map⟩

end

/-- An append that is repeated behind a later request and a request of another client, with
a Raft state that triggers a snapshot at every command. -/
def repeatedOps : List Op :=
  [⟨.append, [107], [118], [1], 1⟩, ⟨.get, [107], [], [1], 2⟩, ⟨.put, [108], [119], [2], 1⟩,
    ⟨.append, [107], [118], [1], 1⟩]

theorem repeatedOps_applied_once :
    @AppliedOnce KvServer.plainKvArchive 1000 (fun _ => 500) repeatedOps :=
  @repeats_applied_once KvServer.plainKvArchive
    KvServer.plainKvArchive_lawful.toLawfulOpArchive 1000 (fun _ => 500) repeatedOps
    ((((EachFits.nil.concat (by unfold Numbering.RisesAfter; decide)).concat
      (by unfold Numbering.RisesAfter; decide)).concat
      (by unfold Numbering.RisesAfter; decide)).concat
      (by unfold Numbering.RisesAfter; decide))
    ((((EachFits.nil.concat (by unfold Numbering.RecordedBefore; decide)).concat
      (by unfold Numbering.RecordedBefore; decide)).concat
      (by unfold Numbering.RecordedBefore; decide)).concat
      (by unfold Numbering.RecordedBefore; decide))

/-- A client that uses the number of a Get again for a Put.  The Get leaves no trace in the
table, so the Put is executed. -/
def reusedOps : List Op :=
  [⟨.get, [107], [], [1], 1⟩, ⟨.put, [107], [118], [1], 1⟩]

theorem reusedOps_not_applied_once :
    FirstsInOrder reusedOps ∧
      ¬ @AppliedOnce KvServer.plainKvArchive 1000 (fun _ => 0) reusedOps := by
  constructor
  · exact (EachFits.nil.concat (by unfold Numbering.RisesAfter; decide)).concat
      (by unfold Numbering.RisesAfter; decide)
  · rintro ⟨kv, hrun, hmap⟩
    have hfed : (@feed KvServer.plainKvArchive (fun _ => 0) 1 reusedOps
        (KvServer.create 1000)).map (fun kv => kv.skipList.chain) = some [([107], [118])] := by
      decide +kernel
    have honce : (executeAll (commands.firsts reusedOps)).chain = [] := by
      decide +kernel
    rw [hrun, Option.map_some, hmap, honce] at hfed
    cases hfed

end RaftClerk
end KVRaft
