import KVRaft.Common.Bytes
import KVRaft.Foundation.FieldKinds

/-!
# The header of a request

The name of the service, the name of the method and the size of the arguments.
-/

namespace KVRaft
namespace Rpc

open Foundation Wire

/-- The largest `int`. -/
def intMax : Nat := 2 ^ 31 - 1

structure RpcHeader where
  serviceName : Bytes := []
  methodName : Bytes := []
  argsSize : Nat := 0
  deriving DecidableEq, Repr

namespace RpcHeader

def descriptor : Descriptor RpcHeader where
  init := {}
  fields := [
    { number := 1, kind := bytesScalar.kind
      value := RpcHeader.serviceName
      set := fun v m => { m with serviceName := v } },
    { number := 2, kind := bytesScalar.kind
      value := RpcHeader.methodName
      set := fun v m => { m with methodName := v } },
    { number := 3, kind := uint32Scalar.kind
      value := RpcHeader.argsSize
      set := fun v m => { m with argsSize := v } }]
  numbered := by simp
  independent := by simp [Wire.Field.Independent]
  init_default := by simp
  ext := by
    rintro ⟨_, _, _⟩ ⟨_, _, _⟩ h
    simpa using h

def internalSerialize (header : RpcHeader) : Bytes :=
  descriptor.internalSerialize header

def serializeToString (header : RpcHeader) : Option Bytes :=
  descriptor.serializeToString header

def parseFromString (bytes : Bytes) : Option RpcHeader :=
  descriptor.parseFromArray bytes

theorem fits_iff (header : RpcHeader) :
    descriptor.Fits header <-> header.argsSize < 2 ^ 32 := by
  simp [Descriptor.Fits, descriptor]

theorem economical : forall f, f ∈ descriptor.fields -> f.kind.Economical := by
  simp [descriptor, bytesScalar_economical.kind, uint32Scalar_economical.kind]

theorem serializeToString_eq_some {header : RpcHeader} {bytes : Bytes} :
    header.serializeToString = some bytes <->
      header.internalSerialize.length ≤ intMax ∧ bytes = header.internalSerialize := by
  rw [serializeToString, Descriptor.serializeToString_eq_some]
  exact and_congr_left fun _ => Nat.lt_iff_le_pred (Nat.two_pow_pos 31)

/-- A header whose size fits is read back, default fields included. -/
theorem parse_serialize {header : RpcHeader} {bytes : Bytes} (hsize : header.argsSize < 2 ^ 32)
    (h : header.serializeToString = some bytes) : parseFromString bytes = some header :=
  Descriptor.parse_serialize ((fits_iff header).mpr hsize) h

/-- There is no shorter way to write a header than the one that is used. -/
theorem parseFromString_length {bytes : Bytes} {header : RpcHeader}
    (h : parseFromString bytes = some header) :
    header.internalSerialize.length ≤ bytes.length :=
  Descriptor.internalSerialize_le economical h

end RpcHeader
end Rpc
end KVRaft
