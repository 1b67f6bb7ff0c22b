import KVRaft.Rpc.Framing

/-!
# Chunks of a connection

Every arrival of bytes takes the whole buffer for one request.
-/

namespace KVRaft
namespace Rpc

open Foundation Wire

/-- The registered services and what their methods accept. -/
structure RpcProvider where
  hasService : Bytes -> Bool
  hasMethod : Bytes -> Bytes -> Bool
  parsesRequest : Bytes -> Bytes -> Bytes -> Bool

/-- A connection at the provider's side, with the calls that were made for it. -/
structure Connection where
  buffer : Bytes := []
  calls : List Call := []

namespace RpcProvider

/-- The service and the method are looked up and the request is parsed. -/
def dispatch (provider : RpcProvider) (call : Call) : Option Call :=
  if provider.hasService call.serviceName = false then
    none
  else if provider.hasMethod call.serviceName call.methodName = false then
    none
  else if provider.parsesRequest call.serviceName call.methodName call.args = false then
    none
  else
    some call

/-- The call that `OnMessage` makes, if it gets that far. -/
def onMessage (provider : RpcProvider) (recvBuf : Bytes) : Option Call :=
  (decode recvBuf).bind provider.dispatch

/-- A chunk is added to the buffer, and `OnMessage` retrieves all of it. -/
def arrive (provider : RpcProvider) (conn : Connection) (chunk : Bytes) : Connection where
  buffer := []
  calls := conn.calls ++ (provider.onMessage (conn.buffer ++ chunk)).toList

def receive (provider : RpcProvider) (chunks : List Bytes) : Connection :=
  chunks.foldl provider.arrive {}

/-- The provider accepts a request if it is read as it was sent. -/
def Accepts (provider : RpcProvider) (call : Call) : Prop :=
  provider.hasService call.serviceName = true ∧
    provider.hasMethod call.serviceName call.methodName = true ∧
    provider.parsesRequest call.serviceName call.methodName call.args = true

instance (provider : RpcProvider) (call : Call) : Decidable (provider.Accepts call) :=
  inferInstanceAs (Decidable (_ ∧ _))

variable {provider : RpcProvider} {call : Call} {buf : Bytes}

theorem dispatch_eq_some {call' : Call} :
    provider.dispatch call' = some call <-> call' = call ∧ provider.Accepts call := by
  unfold dispatch Accepts
  constructor
  · intro h
    split at h
    · cases h
    split at h
    · cases h
    split at h
    · cases h
    · cases h
      rename_i hservice hmethod hparses
      exact ⟨rfl, Bool.not_eq_false _ ▸ hservice, Bool.not_eq_false _ ▸ hmethod,
        Bool.not_eq_false _ ▸ hparses⟩
  · rintro ⟨heq, hservice, hmethod, hparses⟩
    cases heq
    rw [if_neg (by rw [hservice]; decide), if_neg (by rw [hmethod]; decide),
      if_neg (by rw [hparses]; decide)]

theorem onMessage_eq_some : provider.onMessage buf = some call <->
    decode buf = some call ∧ provider.Accepts call := by
  unfold onMessage
  rw [Option.bind_eq_some_iff]
  constructor
  · rintro ⟨call', hdecode, hdispatch⟩
    rcases dispatch_eq_some.mp hdispatch with ⟨rfl, haccepts⟩
    exact ⟨hdecode, haccepts⟩
  · rintro ⟨hdecode, haccepts⟩
    exact ⟨call, hdecode, dispatch_eq_some.mpr ⟨rfl, haccepts⟩⟩

/-- The buffer is always empty between two chunks. -/
theorem foldl_arrive (conn : Connection) (hbuffer : conn.buffer = []) (chunks : List Bytes) :
    (chunks.foldl provider.arrive conn).calls =
      conn.calls ++ chunks.filterMap provider.onMessage := by
  induction chunks generalizing conn with
  | nil => exact (List.append_nil _).symm
  | cons chunk rest ih =>
      rw [List.foldl_cons, ih _ rfl]
      cases hcall : provider.onMessage chunk with
      | none =>
          rw [List.filterMap_cons_none hcall, arrive, hbuffer, List.nil_append, hcall]
          simp
      | some call =>
          rw [List.filterMap_cons_some hcall, arrive, hbuffer, List.nil_append, hcall]
          simp

theorem receive_calls (provider : RpcProvider) (chunks : List Bytes) :
    (provider.receive chunks).calls = chunks.filterMap provider.onMessage :=
  foldl_arrive {} rfl chunks

end RpcProvider

/-!
# The shortest buffer for a call
-/

def Call.frame (call : Call) : Bytes :=
  Call.frameOf call.rpcHeader.internalSerialize call.args

theorem readString_length (size : Nat) (input : Bytes) :
    (readString size input).1.length + (readString size input).2.1.length ≤ input.length ∧
      (readString size input).1.length ≤ size := by
  unfold readString
  split
  · exact ⟨Nat.le_of_eq (Nat.zero_add _), Nat.zero_le _⟩
  split
  · rw [List.length_take, List.length_drop]
    omega
  · rename_i hshort
    exact ⟨Nat.le_refl _, Nat.le_of_not_le hshort⟩

theorem readString_success {size : Nat} {input : Bytes}
    (h : (readString size input).2.2 = true) :
    (readString size input).1.length = size ∧ size < 2 ^ 31 := by
  unfold readString at h ⊢
  split at h
  · cases h
  split at h
  · rename_i hint hwhole
    rw [if_neg hint, if_pos hwhole, List.length_take]
    omega
  · cases h

/-- A call has the header that was read and arguments of the size in it. -/
theorem readArgs_cases {rest : Bytes} {rpcHeader : RpcHeader} {call : Call}
    (h : readArgs rest rpcHeader = some call) :
    call.rpcHeader = rpcHeader ∧ call.args.length = rpcHeader.argsSize ∧
      call.args.length ≤ rest.length := by
  unfold readArgs at h
  dsimp only at h
  split at h
  · rename_i hsuccess
    rcases readString_success hsuccess with ⟨hlength, hsize⟩
    have hrest := (readString_length rpcHeader.argsSize rest).1
    cases h
    refine ⟨?_, hlength, Nat.le_trans (Nat.le_add_right _ _) hrest⟩
    rw [Call.rpcHeader, hlength, Nat.mod_eq_of_lt (by omega)]
  · cases h

/-- The number that was read and what is left, if there was a number. -/
theorem readVarint32_length (input : Bytes) :
    (varint (readVarint32 input).1).length + (readVarint32 input).2.length ≤ input.length ∨
      (readVarint32 input).1 = 2 ^ 32 - 1 := by
  unfold readVarint32
  cases hread : getVarint 10 input with
  | none => exact Or.inr rfl
  | some result =>
      left
      dsimp only
      have hpaid := @getVarint_length 10 10 _ _ _ hread
      have hmono := putVarint_mono 10 (Nat.mod_le result.1 (2 ^ 32))
      unfold varint
      omega

theorem arrayInput_length (buf : Bytes) :
    (arrayInput buf).length ≤ buf.length ∧ (arrayInput buf).length < 2 ^ 31 := by
  have hint := (isInt32_toInt32 buf.length).2
  unfold arrayInput toInt
  rw [List.length_take]
  omega

theorem decode_cost {buf : Bytes} {call : Call} (h : decode buf = some call) :
    call.frame.length ≤ max 1 (arrayInput buf).length := by
  unfold decode at h
  dsimp only at h
  rcases Option.bind_eq_some_iff.mp h with ⟨rpcHeader, hparse, hargs⟩
  have hvarint := readVarint32_length (arrayInput buf)
  generalize readVarint32 (arrayInput buf) = headerSize at hparse hargs hvarint
  rcases readArgs_cases hargs with ⟨rfl, hsame, hrest⟩
  have hheader := RpcHeader.parseFromString_length hparse
  have hstring := readString_length headerSize.1 headerSize.2
  rw [Call.frame, Call.frameOf, List.length_append, List.length_append]
  rcases hvarint with hpaid | hnone
  · have hle : call.rpcHeader.internalSerialize.length ≤ headerSize.1 :=
      Nat.le_trans hheader hstring.2
    have hmono := varint_mono (Nat.le_trans (Nat.mod_le _ (2 ^ 32)) hle)
    clear hsame
    omega
  · -- no size means no header, and then no arguments
    have hempty : readString headerSize.1 headerSize.2 = ([], headerSize.2, false) := by
      rw [hnone, readString, if_pos (by decide)]
    rw [hempty] at hparse hheader
    have hdefault : call.rpcHeader = {} := (Option.some.inj hparse).symm
    rw [hdefault] at hsame ⊢
    rw [hsame]
    exact Nat.le_max_left _ _

/-- No buffer for a call is shorter than its frame, and a buffer of 2 GiB is longer. -/
theorem frame_length {buf : Bytes} {call : Call} (h : decode buf = some call)
    (hbuf : buf ≠ []) :
    call.frame.length ≤ buf.length ∧
      (2 ^ 31 ≤ buf.length -> call.frame.length < buf.length) := by
  have hcost := decode_cost h
  have harray := arrayInput_length buf
  have hpos := List.length_pos_iff.mpr hbuf
  omega

/-!
# Chunks and frames
-/

section Exact

variable {α β : Type} {f : List β -> Option α} {enc : α -> List β}

/-- If every chunk pays for what is made of it, and nothing is left over, then every chunk
is used and pays exactly. -/
theorem filterMap_exact {chunks : List (List β)}
    (hne : forall chunk, chunk ∈ chunks -> chunk ≠ [])
    (hcost : forall chunk a, chunk ∈ chunks -> f chunk = some a ->
      (enc a).length ≤ chunk.length) :
    ((chunks.filterMap f).map enc).flatten.length ≤ chunks.flatten.length ∧
      (chunks.flatten.length = ((chunks.filterMap f).map enc).flatten.length ->
        forall chunk, chunk ∈ chunks ->
          exists a, f chunk = some a ∧ (enc a).length = chunk.length) := by
  induction chunks with
  | nil => exact ⟨Nat.le_refl _, fun _ => nofun⟩
  | cons chunk rest ih =>
      have hrest := ih (fun other h => hne other (List.mem_cons_of_mem _ h))
        (fun other a h => hcost other a (List.mem_cons_of_mem _ h))
      have hpos := List.length_pos_iff.mpr (hne chunk List.mem_cons_self)
      cases hchunk : f chunk with
      | none =>
          rw [List.filterMap_cons_none hchunk, List.flatten_cons, List.length_append]
          exact ⟨by omega, fun heq => absurd heq (by omega)⟩
      | some a =>
          have hpaid := hcost chunk a List.mem_cons_self hchunk
          rw [List.filterMap_cons_some hchunk, List.map_cons, List.flatten_cons,
            List.flatten_cons, List.length_append, List.length_append]
          refine ⟨by omega, fun heq other hother => ?_⟩
          rcases List.mem_cons.mp hother with rfl | hother
          · exact ⟨a, hchunk, by omega⟩
          · exact hrest.2 (by omega) other hother

theorem map_length_filterMap {chunks : List (List β)}
    (h : forall chunk, chunk ∈ chunks -> exists a, f chunk = some a ∧
      (enc a).length = chunk.length) :
    chunks.map List.length = ((chunks.filterMap f).map enc).map List.length := by
  induction chunks with
  | nil => rfl
  | cons chunk rest ih =>
      rcases h chunk List.mem_cons_self with ⟨a, ha, hlength⟩
      rw [List.filterMap_cons_some ha, List.map_cons, List.map_cons, List.map_cons, hlength,
        ih fun other hother => h other (List.mem_cons_of_mem chunk hother)]

theorem filterMap_map {g : α -> List β} {as : List α}
    (h : forall a, a ∈ as -> f (g a) = some a) : (as.map g).filterMap f = as := by
  induction as with
  | nil => rfl
  | cons a rest ih =>
      rw [List.map_cons, List.filterMap_cons_some (h a List.mem_cons_self),
        ih fun other hother => h other (List.mem_cons_of_mem a hother)]

end Exact

namespace RpcProvider

variable {provider : RpcProvider}

/-- The calls are the requests exactly if every chunk is one frame. -/
theorem receive_eq_iff {requests : List Call}
    (hsent : forall call, call ∈ requests -> call.encode = some call.frame)
    (haccepts : forall call, call ∈ requests -> provider.Accepts call) {chunks : List Bytes}
    (hne : forall chunk, chunk ∈ chunks -> chunk ≠ [])
    (hstream : chunks.flatten = (requests.map Call.frame).flatten) :
    (provider.receive chunks).calls = requests <->
      chunks = requests.map Call.frame ∧
        forall chunk, chunk ∈ chunks -> chunk.length < 2 ^ 31 := by
  rw [receive_calls]
  constructor
  · intro hcalls
    have hcost : forall chunk call, chunk ∈ chunks -> provider.onMessage chunk = some call ->
        call.frame.length ≤ chunk.length := fun chunk call hmem hcall =>
      (frame_length (onMessage_eq_some.mp hcall).1 (hne chunk hmem)).1
    have hexact := (filterMap_exact hne hcost).2
    rw [hcalls] at hexact
    have hused := hexact (congrArg List.length hstream)
    have hlengths := map_length_filterMap hused
    rw [hcalls] at hlengths
    refine ⟨List.eq_iff_flatten_eq.mpr ⟨hstream, hlengths⟩, ?_⟩
    intro chunk hmem
    by_contra hlarge
    rcases hused chunk hmem with ⟨call, hcall, hlength⟩
    have hshort := (frame_length (onMessage_eq_some.mp hcall).1 (hne chunk hmem)).2
      (Nat.le_of_not_lt hlarge)
    omega
  · rintro ⟨rfl, hsmall⟩
    refine filterMap_map ?_
    intro call hmem
    refine onMessage_eq_some.mpr ⟨?_, haccepts call hmem⟩
    have hframe := hsmall call.frame (List.mem_map_of_mem hmem)
    have hdecode := decode_encode (hsent call hmem) []
    rw [List.append_nil] at hdecode
    exact hdecode hframe

end RpcProvider

/-!
# Two requests in one chunk
-/

def getCall : Call where
  serviceName := [107, 118]
  methodName := [103]
  args := [1]

def putCall : Call where
  serviceName := [107, 118]
  methodName := [112]
  args := [2, 3]

/-- A provider of both methods that accepts all arguments. -/
def kvProvider : RpcProvider where
  hasService := fun service => service = [107, 118]
  hasMethod := fun _ method => method = [103] ∨ method = [112]
  parsesRequest := fun _ _ _ => true

theorem joinedFrames_not_received :
    ¬ forall (provider : RpcProvider) (requests : List Call) (chunks : List Bytes),
      (forall call, call ∈ requests -> call.encode = some call.frame) ->
        (forall call, call ∈ requests -> provider.Accepts call) ->
          (forall chunk, chunk ∈ chunks -> chunk ≠ []) ->
            chunks.flatten = (requests.map Call.frame).flatten ->
              (provider.receive chunks).calls = requests := by
  intro hall
  have hjoined := hall kvProvider [getCall, putCall] [getCall.frame ++ putCall.frame]
    (by decide) (by decide) (by decide) (by decide)
  exact absurd hjoined (by decide)

theorem separateFrames_received :
    (kvProvider.receive [getCall.frame, putCall.frame]).calls = [getCall, putCall] :=
  (@RpcProvider.receive_eq_iff kvProvider [getCall, putCall] (by decide) (by decide)
    [getCall.frame, putCall.frame] (by decide) (by decide)).mpr ⟨by decide, by decide⟩

end Rpc
end KVRaft
