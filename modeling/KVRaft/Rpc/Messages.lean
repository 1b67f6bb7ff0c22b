import KVRaft.Rpc.RpcHeader

/-!
# Response messages

What the channel relies on in the serialisation of a response, and the reply to a
`Get` as one that has it.
-/

namespace KVRaft
namespace Rpc

open Foundation Wire

/-- The serialisation of one type of message.  A message is read back, and no shorter part
of what was written reads as the same message. -/
structure Codec (μ : Type) where
  serializeToString : μ -> Option Bytes
  parseFromArray : Bytes -> Option μ
  parse_serialize : forall {m : μ} {bytes : Bytes}, serializeToString m = some bytes ->
    parseFromArray bytes = some m
  parse_part : forall {m : μ} {bytes part : Bytes}, serializeToString m = some bytes ->
    part.IsPrefix bytes -> parseFromArray part = some m -> part = bytes

structure GetReply where
  err : Bytes := []
  value : Bytes := []
  deriving DecidableEq, Repr

namespace GetReply

def descriptor : Descriptor GetReply where
  init := {}
  fields := [
    { number := 1, kind := bytesScalar.kind
      value := GetReply.err
      set := fun v m => { m with err := v } },
    { number := 2, kind := bytesScalar.kind
      value := GetReply.value
      set := fun v m => { m with value := v } }]
  numbered := by simp
  independent := by simp [Wire.Field.Independent]
  init_default := by simp
  ext := by
    rintro ⟨_, _⟩ ⟨_, _⟩ h
    simpa using h

theorem fits (reply : GetReply) : descriptor.Fits reply := by
  simp [Descriptor.Fits, descriptor]

def codec : Codec GetReply where
  serializeToString := descriptor.serializeToString
  parseFromArray := descriptor.parseFromArray
  parse_serialize h := Descriptor.parse_serialize (fits _) h
  parse_part h hpart hparse := Descriptor.parse_part (fits _) h hpart hparse

end GetReply
end Rpc
end KVRaft
