import KVRaft.Common.Bytes

/-!
# Operations

The command a key-value server hands to Raft: one operation of one client.
-/

namespace KVRaft

/-- The operations a clerk sends. -/
inductive Operation where
  | get
  | put
  | append
  deriving DecidableEq, Repr

structure Op where
  operation : Operation
  key : Bytes
  value : Bytes
  clientId : Bytes
  requestId : Int
  deriving DecidableEq, Repr

/-- Text archives of operations.  Reading throws when the text is not an archive. -/
class OpArchive where
  asString : Op -> Bytes
  parseFromString : Bytes -> Option Op

class LawfulOpArchive [OpArchive] : Prop where
  parseFromString_asString : forall op : Op,
    OpArchive.parseFromString (OpArchive.asString op) = some op

namespace Op

/-- Operations that change the map. -/
def Writes (op : Op) : Prop :=
  op.operation ≠ .get

instance : DecidablePred Writes := fun op =>
  inferInstanceAs (Decidable (op.operation ≠ .get))

end Op
end KVRaft
