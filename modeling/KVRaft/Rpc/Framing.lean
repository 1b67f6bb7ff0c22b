import KVRaft.Rpc.RpcHeader

/-!
# Framing of requests

`CallMethod` writes the size of the header, the header and the arguments.
`OnMessage` reads them from whatever the buffer of the connection holds.
-/

namespace KVRaft
namespace Rpc

open Foundation Wire

/-- A request; the arguments are the serialised message. -/
structure Call where
  serviceName : Bytes
  methodName : Bytes
  args : Bytes
  deriving DecidableEq, Repr

namespace Call

def rpcHeader (call : Call) : RpcHeader where
  serviceName := call.serviceName
  methodName := call.methodName
  argsSize := call.args.length % 2 ^ 32

def frameOf (rpcHeaderStr args : Bytes) : Bytes :=
  varint (rpcHeaderStr.length % 2 ^ 32) ++ rpcHeaderStr ++ args

/-- What `CallMethod` sends.  If a message is too large to be serialised the controller is
marked as failed instead. -/
def encode (call : Call) : Option Bytes :=
  if call.args.length > intMax then
    none
  else
    match call.rpcHeader.serializeToString with
    | none => none
    | some rpcHeaderStr => some (frameOf rpcHeaderStr call.args)

end Call

/-!
# Reading a buffer
-/

/-- The conversion of a `size_t` to an `int`. -/
def toInt (n : Nat) : Int :=
  toInt32 n

/-- The bytes that an `ArrayInputStream` over the buffer gives; its size is an `int`. -/
def arrayInput (buf : Bytes) : Bytes :=
  buf.take (toInt buf.length).toNat

/-- Where there is no number the value is that of -1, and a stream that ends inside of one
is used up. -/
def readVarint32 (input : Bytes) : Nat × Bytes :=
  match getVarint 10 input with
  | some (n, rest) => (n % 2 ^ 32, rest)
  | none => (2 ^ 32 - 1, if 10 ≤ input.length then input else [])

/-- The string, the bytes behind it, and whether it was there as a whole; otherwise the
string is what was left.  The size is taken as an `int`. -/
def readString (size : Nat) (input : Bytes) : Bytes × Bytes × Bool :=
  if 2 ^ 31 ≤ size then
    ([], input, false)
  else if size ≤ input.length then
    (input.take size, input.drop size, true)
  else
    (input, [], false)

/-- The arguments behind a header. -/
def readArgs (rest : Bytes) (rpcHeader : RpcHeader) : Option Call :=
  let args := readString rpcHeader.argsSize rest
  if args.2.2 then
    some {
      serviceName := rpcHeader.serviceName
      methodName := rpcHeader.methodName
      args := args.1 }
  else
    none

/-- What `OnMessage` takes the whole buffer for.  Whether the size and the header were there
as a whole it does not look at. -/
def decode (recvBuf : Bytes) : Option Call :=
  let headerSize := readVarint32 (arrayInput recvBuf)
  let rpcHeaderStr := readString headerSize.1 headerSize.2
  (RpcHeader.parseFromString rpcHeaderStr.1).bind (readArgs rpcHeaderStr.2.1)

/-!
# Frames
-/

theorem arrayInput_of_lt {buf : Bytes} (h : buf.length < 2 ^ 31) : arrayInput buf = buf := by
  have hint : toInt buf.length = buf.length :=
    toInt32_of_isInt32 ⟨by omega, by omega⟩
  rw [arrayInput, hint, Int.toNat_natCast, List.take_length]

theorem readString_append {payload : Bytes} (h : payload.length < 2 ^ 31) (rest : Bytes) :
    readString payload.length (payload ++ rest) = (payload, rest, true) := by
  unfold readString
  rw [if_neg (by omega), if_pos (by simp), List.take_left, List.drop_left]

theorem readVarint32_varint {n : Nat} (h : n < 2 ^ 32) (rest : Bytes) :
    readVarint32 (varint n ++ rest) = (n, rest) := by
  unfold readVarint32
  rw [getVarint_varint (by omega) (by omega)]
  dsimp only
  rw [Nat.mod_eq_of_lt h]

namespace Call

variable {call : Call} {frame : Bytes}

/-- What is sent is a frame in which everything fits its length. -/
theorem encode_eq_some : call.encode = some frame <->
    call.args.length ≤ intMax ∧ call.rpcHeader.internalSerialize.length ≤ intMax ∧
      frame = frameOf call.rpcHeader.internalSerialize call.args := by
  unfold encode
  by_cases hargs : call.args.length > intMax
  · rw [if_pos hargs]
    exact iff_of_false nofun fun h => absurd h.1 (Nat.not_le.mpr hargs)
  rw [if_neg hargs]
  cases hheader : call.rpcHeader.serializeToString with
  | none =>
      refine iff_of_false nofun fun h => ?_
      rw [RpcHeader.serializeToString_eq_some.mpr ⟨h.2.1, rfl⟩] at hheader
      cases hheader
  | some rpcHeaderStr =>
      rcases RpcHeader.serializeToString_eq_some.mp hheader with ⟨hsmall, rfl⟩
      constructor
      · intro h
        cases h
        exact ⟨Nat.not_lt.mp hargs, hsmall, rfl⟩
      · rintro ⟨_, _, rfl⟩
        rfl

end Call

theorem decode_eq {buf rest rpcHeaderStr left : Bytes} {size : Nat} {whole : Bool}
    (hsize : readVarint32 (arrayInput buf) = (size, rest))
    (hheader : readString size rest = (rpcHeaderStr, left, whole)) :
    decode buf = (RpcHeader.parseFromString rpcHeaderStr).bind (readArgs left) := by
  unfold decode
  simp only [hsize, hheader]

theorem readArgs_eq {rest args left : Bytes} {rpcHeader : RpcHeader}
    (h : readString rpcHeader.argsSize rest = (args, left, true)) :
    readArgs rest rpcHeader = some {
      serviceName := rpcHeader.serviceName
      methodName := rpcHeader.methodName
      args := args } := by
  unfold readArgs
  simp only [h, if_true]

/-- A frame in a buffer of less than 2 GiB is decoded, whatever comes behind it. -/
theorem decode_encode {call : Call} {frame : Bytes} (hframe : call.encode = some frame)
    (rest : Bytes) (hsize : (frame ++ rest).length < 2 ^ 31) :
    decode (frame ++ rest) = some call := by
  rcases Call.encode_eq_some.mp hframe with ⟨hargs, hheader, rfl⟩
  unfold intMax at hargs hheader
  have hargsSize : call.rpcHeader.argsSize = call.args.length := by
    rw [Call.rpcHeader, Nat.mod_eq_of_lt (by omega)]
  have hmod : call.rpcHeader.internalSerialize.length % 2 ^ 32 =
      call.rpcHeader.internalSerialize.length := Nat.mod_eq_of_lt (by omega)
  have hparse := @RpcHeader.parse_serialize call.rpcHeader _ (by omega)
    (RpcHeader.serializeToString_eq_some.mpr ⟨hheader, rfl⟩)
  have hvarint : readVarint32 (arrayInput
      (Call.frameOf call.rpcHeader.internalSerialize call.args ++ rest)) =
        (call.rpcHeader.internalSerialize.length,
          call.rpcHeader.internalSerialize ++ (call.args ++ rest)) := by
    rw [arrayInput_of_lt hsize, Call.frameOf, hmod, List.append_assoc, List.append_assoc]
    exact readVarint32_varint (by omega) _
  have hread : readString call.rpcHeader.argsSize (call.args ++ rest) =
      (call.args, rest, true) := by
    rw [hargsSize]
    exact readString_append (by omega) rest
  rw [decode_eq hvarint (readString_append (by omega) (call.args ++ rest)), hparse,
    Option.bind_some, readArgs_eq hread]
  rfl

/-- A service without a method name or arguments. -/
def bareCall : Call where
  serviceName := [107, 118]
  methodName := []
  args := []

theorem bareCall_decoded : bareCall.encode = some [4, 10, 2, 107, 118] ∧
    decode ([4, 10, 2, 107, 118] ++ [9]) = some bareCall :=
  ⟨by decide, @decode_encode bareCall _ (by decide) [9] (by decide)⟩

/-!
# Frames beyond 2 GiB

The size of such a buffer is negative as an `int`, so nothing of it is read.
-/

theorem decode_of_wrapped {buf : Bytes} (hlow : 2 ^ 31 ≤ buf.length)
    (hhigh : buf.length < 2 ^ 32) :
    decode buf = some { serviceName := [], methodName := [], args := [] } := by
  have hint : (toInt buf.length).toNat = 0 := by
    have hmod := Int.bmod_def (buf.length : Int) (2 ^ 32)
    have hsmall : (buf.length : Int) % ((2 ^ 32 : Nat) : Int) = buf.length :=
      Int.emod_eq_of_lt (by omega) (by omega)
    rw [hsmall, if_neg (by omega)] at hmod
    unfold toInt toInt32
    omega
  have hnothing : arrayInput buf = [] := by
    rw [arrayInput, hint, List.take_zero]
  have hsize : readVarint32 (arrayInput buf) = (2 ^ 32 - 1, []) := by
    rw [hnothing]
    rfl
  rw [decode_eq hsize (show readString (2 ^ 32 - 1) [] = ([], [], false) by decide)]
  rfl

/-- The arguments are as long as a message can be. -/
def largeCall : Call where
  serviceName := [1]
  methodName := [2]
  args := List.replicate intMax 0

theorem largeCall_not_decoded : largeCall.args.length < 2 ^ 31 ∧
    exists frame, largeCall.encode = some frame ∧
      decode (frame ++ []) ≠ some largeCall := by
  have hargs : largeCall.args.length = intMax := List.length_replicate
  have hheader : largeCall.rpcHeader.internalSerialize.length = 12 := by
    rw [Call.rpcHeader, hargs]
    decide
  refine ⟨by rw [hargs]; decide, _, Call.encode_eq_some.mpr ⟨Nat.le_of_eq hargs, ?_, rfl⟩, ?_⟩
  · rw [hheader]
    decide
  have hlength :
      (Call.frameOf largeCall.rpcHeader.internalSerialize largeCall.args ++ []).length =
        2 ^ 31 + 12 := by
    rw [List.append_nil, Call.frameOf, List.length_append, List.length_append, hheader, hargs]
    decide
  rw [decode_of_wrapped (by rw [hlength]; decide) (by rw [hlength]; decide)]
  intro heq
  cases heq

end Rpc
end KVRaft
