import KVRaft.KvServer.PlainKvArchive
import KVRaft.RaftCore.Safety.SnapshotReading

/-!
# The size that triggers snapshots

The persister counts the bytes of its raft state by hand, and only one of the two
ways to save counts them.  The server gets the counter as an `int` and compares it with
its limit, which it computes in `int`s.
-/

namespace KVRaft
namespace RaftCore

open Foundation (IsInt32 isInt32_toInt32 toInt32_eq_self_iff toInt32_of_isInt32)

namespace PersisterOp

/-- The last raft state saved, given the one before. -/
def savedRaftState (last : Bytes) : PersisterOp -> Bytes
  | .save raftstate _ => raftstate
  | .saveRaftState data => data
  | _ => last

def writesRaftState : PersisterOp -> Bool
  | .save _ _ => true
  | .saveRaftState _ => true
  | _ => false

end PersisterOp

def lastRaftState (ops : List PersisterOp) : Bytes :=
  ops.foldl PersisterOp.savedRaftState []

/-- The operation that wrote the raft state file last. -/
def lastWriter (ops : List PersisterOp) : Option PersisterOp :=
  (ops.filter PersisterOp.writesRaftState).getLast?

@[simp] theorem lastRaftState_snoc (ops : List PersisterOp) (op : PersisterOp) :
    lastRaftState (ops ++ [op]) = op.savedRaftState (lastRaftState ops) := by
  rw [lastRaftState, List.foldl_append]
  rfl

theorem lastWriter_snoc (ops : List PersisterOp) {op : PersisterOp}
    (h : op.writesRaftState = true) : lastWriter (ops ++ [op]) = some op := by
  rw [lastWriter, List.filter_append, List.filter_singleton, h]
  simp

theorem lastWriter_snoc_of_not (ops : List PersisterOp) {op : PersisterOp}
    (h : op.writesRaftState = false) : lastWriter (ops ++ [op]) = lastWriter ops := by
  rw [lastWriter, List.filter_append, List.filter_singleton, h]
  simp [lastWriter]

/-- The counter is the length of the raft state, unless that was written by `Save`. -/
theorem afterOps_raftStateSize (ops : List PersisterOp) :
    match lastWriter ops with
    | some (.save raftstate _) =>
        (afterOps ops).raftStateSize = 0 ∧ lastRaftState ops = raftstate
    | _ => (afterOps ops).raftStateSize = (lastRaftState ops).length := by
  induction ops using List.reverseRecOn with
  | nil => rfl
  | append_singleton ops op ih =>
      cases op with
      | save raftstate snapshot =>
          rw [lastWriter_snoc ops rfl, afterOps_snoc, lastRaftState_snoc]
          exact ⟨rfl, rfl⟩
      | saveRaftState data =>
          rw [lastWriter_snoc ops rfl, afterOps_snoc, lastRaftState_snoc]
          exact Nat.zero_add data.length
      | readRaftState =>
          rw [lastWriter_snoc_of_not ops rfl, afterOps_snoc, lastRaftState_snoc]
          exact ih
      | readSnapshot =>
          rw [lastWriter_snoc_of_not ops rfl, afterOps_snoc, lastRaftState_snoc]
          exact ih
      | raftStateSize =>
          rw [lastWriter_snoc_of_not ops rfl, afterOps_snoc, lastRaftState_snoc]
          exact ih

/-- The counter is right unless a raft state was written last by `Save`. -/
theorem raftStateSize_eq_iff (ops : List PersisterOp) :
    (afterOps ops).raftStateSize = (lastRaftState ops).length <->
      forall raftstate snapshot, lastWriter ops = some (.save raftstate snapshot) ->
        raftstate = [] := by
  have hsize := afterOps_raftStateSize ops
  constructor
  · intro hcounted raftstate snapshot hlast
    rw [hlast] at hsize
    rw [hsize.1, hsize.2] at hcounted
    exact List.length_eq_zero_iff.mp hcounted.symm
  · intro h
    cases hlast : lastWriter ops with
    | none =>
        rw [hlast] at hsize
        exact hsize
    | some op =>
        rw [hlast] at hsize
        cases op with
        | save raftstate snapshot =>
            rw [hsize.1, hsize.2, h raftstate snapshot hlast]
            rfl
        | saveRaftState data => exact hsize
        | readRaftState => exact hsize
        | readSnapshot => exact hsize
        | raftStateSize => exact hsize

section

variable [KvArchive]

/-- The counter is the length of the last raft state.  The server gets this length from
its node and compares it with its limit. -/
structure SizeTells (ops : List PersisterOp) (maxRaftState proportion : Int) : Prop where
  size : (afterOps ops).raftStateSize = (lastRaftState ops).length
  returned : forall {n : Nat} (rf : Raft n), rf.persister = afterOps ops ->
    rf.getRaftStateSize = (lastRaftState ops).length
  limit : forall kv : KvServer, kv.maxRaftState = maxRaftState ->
    kv.hundredths proportion = maxRaftState * proportion
  compared : forall {n : Nat} (rf : Raft n) (kv : KvServer) (raftIndex : Int),
    rf.persister = afterOps ops -> kv.maxRaftState = maxRaftState ->
      kv.ifNeedToSendSnapShotCommand rf.getRaftStateSize raftIndex proportion =
        if ((lastRaftState ops).length : Int) * 100 > maxRaftState * proportion then
          some (raftIndex, kv.makeSnapShot)
        else
          none

variable {ops : List PersisterOp} {maxRaftState proportion : Int}

theorem SizeTells.of_isInt32 (hsize : (afterOps ops).raftStateSize = (lastRaftState ops).length)
    (hlength : IsInt32 (lastRaftState ops).length)
    (hproduct : IsInt32 (maxRaftState * proportion)) :
    SizeTells ops maxRaftState proportion := by
  have hreturned : forall {n : Nat} (rf : Raft n), rf.persister = afterOps ops ->
      rf.getRaftStateSize = (lastRaftState ops).length := by
    intro n rf hrf
    rw [Raft.getRaftStateSize, hrf, hsize]
    exact toInt32_of_isInt32 hlength
  have hlimit : forall kv : KvServer, kv.maxRaftState = maxRaftState ->
      kv.hundredths proportion = maxRaftState * proportion := by
    intro kv hkv
    rw [KvServer.hundredths, hkv]
    exact toInt32_of_isInt32 hproduct
  refine ⟨hsize, hreturned, hlimit, ?_⟩
  intro n rf kv raftIndex hrf hkv
  rw [KvServer.ifNeedToSendSnapShotCommand, hreturned rf hrf, hlimit kv hkv]

theorem SizeTells.length_isInt32 (h : SizeTells ops maxRaftState proportion) :
    IsInt32 (lastRaftState ops).length := by
  have hreturned := h.returned (Raft.blank (0 : Fin 1) (afterOps ops)) rfl
  rw [← hreturned]
  exact isInt32_toInt32 _

theorem SizeTells.product_isInt32 (h : SizeTells ops maxRaftState proportion) :
    IsInt32 (maxRaftState * proportion) := by
  have hlimit := h.limit (KvServer.create maxRaftState) rfl
  exact toInt32_eq_self_iff.mp hlimit

/-- The size is right unless a raft state was written last by `Save`, and it is compared
with the limit as long as the size and the product are `int`s. -/
theorem size_tells_iff (ops : List PersisterOp) (maxRaftState proportion : Int) :
    SizeTells ops maxRaftState proportion <->
      (forall raftstate snapshot, lastWriter ops = some (.save raftstate snapshot) ->
        raftstate = []) ∧
      IsInt32 (lastRaftState ops).length ∧ IsInt32 (maxRaftState * proportion) := by
  constructor
  · intro h
    exact ⟨(raftStateSize_eq_iff ops).mp h.size, h.length_isInt32, h.product_isInt32⟩
  · rintro ⟨hlast, hlength, hproduct⟩
    exact SizeTells.of_isInt32 ((raftStateSize_eq_iff ops).mpr hlast) hlength hproduct

end

/-- After `Save` the counter stays at zero. -/
theorem save_not_counted :
    ¬ @SizeTells KvServer.plainKvArchive [.save [97] []] 500 10 ∧
      (afterOps [.save [97] []]).raftStateSize = 0 ∧
      lastRaftState [.save [97] []] = [97] := by
  refine ⟨?_, rfl, rfl⟩
  rintro ⟨hsize, _, _, _⟩
  exact absurd hsize (by decide)

end RaftCore
end KVRaft
