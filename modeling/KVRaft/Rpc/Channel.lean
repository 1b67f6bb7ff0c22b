import KVRaft.Foundation.Transition
import KVRaft.Rpc.Messages

/-!
# Calls on a channel

A channel is used for one call after another.  What the provider sends on a connection
is one stream of bytes; each byte is given here with the number of the call whose
response it belongs to.
-/

namespace KVRaft
namespace Rpc

open Foundation Wire

structure MprpcChannel where
  /-- `m_clientFd` is not -1 -/
  connected : Bool
  /-- the provider has closed the connection -/
  closed : Bool := false
  /-- what `recv` has yet to return on the connection -/
  stream : List (Nat × UInt8) := []
  /-- the number of calls so far -/
  calls : Nat := 0
  deriving DecidableEq, Repr

/-- A call, and what happens around it. -/
structure CallInput (M μ : Type) where
  method : M
  /-- the connection that is made if there is none -/
  connects : Bool := true
  /-- the request and the header can be serialised -/
  serialized : Bool := true
  /-- for each `send` that returns -1, whether the connection is made again -/
  reconnects : List Bool := []
  /-- the response that the provider has for this request -/
  reply : Option μ
  /-- what `recv` returns, unless it is -1 -/
  received : Option Nat
  deriving DecidableEq, Repr

inductive Outcome (μ : Type) where
  | failed
  | parsed (response : μ) (bytes : List (Nat × UInt8))
  deriving DecidableEq, Repr

namespace MprpcChannel

variable {M μ : Type}

def disconnect (ch : MprpcChannel) : MprpcChannel :=
  { ch with connected := false, closed := false, stream := [] }

def newConnect (ch : MprpcChannel) (success : Bool) : MprpcChannel :=
  { ch with connected := success, closed := false, stream := [] }

def ensureConnected (ch : MprpcChannel) (success : Bool) : MprpcChannel :=
  if ch.connected then ch else ch.newConnect success

/-- The loop around `send`; how much the last `send` has sent is not looked at. -/
def send (ch : MprpcChannel) : List Bool -> MprpcChannel
  | [] => ch
  | success :: rest => if success then send (ch.newConnect true) rest else ch.newConnect false

/-- All that comes before the response.  The call has failed if there is no connection
then, or if something could not be serialised. -/
def request (ch : MprpcChannel) (call : CallInput M μ) : MprpcChannel × Bool :=
  let ch := ch.ensureConnected call.connects
  if ch.connected = false then
    (ch, false)
  else if call.serialized = false then
    (ch, false)
  else
    let ch := ch.send call.reconnects
    (ch, ch.connected)

def responseBytes (codec : Codec μ) (own : Nat) (reply : Option μ) : List (Nat × UInt8) :=
  match reply.bind codec.serializeToString with
  | none => []
  | some bytes => bytes.map fun b => (own, b)

/-- `SendRpcResponse` writes the serialised response and nothing else. -/
def sendRpcResponse (ch : MprpcChannel) (codec : Codec μ) (own : Nat) (reply : Option μ) :
    MprpcChannel :=
  if ch.closed then ch else { ch with stream := ch.stream ++ responseBytes codec own reply }

/-- One `recv` into a buffer of 1024 bytes; it returns 0 once the provider has closed the
connection. -/
def recv (ch : MprpcChannel) (received : Option Nat) :
    Option (MprpcChannel × Option (List (Nat × UInt8))) :=
  match received with
  | none => some (ch.disconnect, none)
  | some 0 => some ({ ch with closed := true, stream := [] }, some [])
  | some (k + 1) =>
      if k + 1 ≤ 1024 ∧ k + 1 ≤ ch.stream.length then
        some ({ ch with stream := ch.stream.drop (k + 1) }, some (ch.stream.take (k + 1)))
      else
        none

def parse (codec : Codec μ) (bytes : List (Nat × UInt8)) : Outcome μ :=
  match codec.parseFromArray (bytes.map Prod.snd) with
  | none => .failed
  | some response => .parsed response bytes

/-- The channel after call `own`. -/
def count (ch : MprpcChannel) (own : Nat) : MprpcChannel :=
  { ch with calls := own + 1 }

def callMethod (codec : M -> Codec μ) (ch : MprpcChannel) (call : CallInput M μ) :
    Option (MprpcChannel × Outcome μ) :=
  let requested := ch.request call
  if requested.2 = false then
    some (requested.1.count ch.calls, .failed)
  else
    match (requested.1.sendRpcResponse (codec call.method) ch.calls call.reply).recv
        call.received with
    | none => none
    | some (ch', none) => some (ch'.count ch.calls, .failed)
    | some (ch', some bytes) => some (ch'.count ch.calls, parse (codec call.method) bytes)

def channelSystem (codec : M -> Codec μ) (connectNow : Bool) :
    TransitionSystem MprpcChannel (CallInput M μ) where
  init := { connected := connectNow }
  step := fun ch call => (callMethod codec ch call).map Prod.fst

/-- A call that does not fail has the response that the provider serialised for it, and has
parsed no byte of another one. -/
def Complete (codec : Codec μ) (own : Nat) (reply : Option μ) : Outcome μ -> Prop
  | .failed => True
  | .parsed response bytes => reply = some response ∧
      (codec.serializeToString response).isSome ∧ forall b, b ∈ bytes -> b.1 = own

/-- The bytes that a `recv` returns do not parse, or they are the response to this call:
nothing was left over before it and it has come as a whole. -/
def WholeReply (codec : M -> Codec μ) (ch : MprpcChannel) (call : CallInput M μ) : Prop :=
  (ch.request call).2 = true -> forall ch' bytes,
    ((ch.request call).1.sendRpcResponse (codec call.method) ch.calls call.reply).recv
        call.received = some (ch', some bytes) ->
      (codec call.method).parseFromArray (bytes.map Prod.snd) = none ∨
        exists response serialized, call.reply = some response ∧
          (codec call.method).serializeToString response = some serialized ∧
          bytes = serialized.map fun b => (ch.calls, b)

/-!
# What is left over

Bytes of an earlier response have the number of an earlier call.
-/

def Earlier (ch : MprpcChannel) (own : Nat) : Prop :=
  forall b, b ∈ ch.stream -> b.1 < own

variable {codec : M -> Codec μ} {ch ch' : MprpcChannel} {call : CallInput M μ} {own : Nat}

theorem earlier_newConnect (ch : MprpcChannel) (success : Bool) (own : Nat) :
    Earlier (ch.newConnect success) own :=
  nofun

theorem Earlier.send (h : Earlier ch own) (reconnects : List Bool) :
    Earlier (ch.send reconnects) own := by
  induction reconnects generalizing ch with
  | nil => exact h
  | cons success rest ih =>
      rw [MprpcChannel.send]
      cases success with
      | true => exact ih (earlier_newConnect ch true own)
      | false => exact earlier_newConnect ch false own

theorem Earlier.request (h : Earlier ch own) (call : CallInput M μ) :
    Earlier (ch.request call).1 own := by
  have hconnected : Earlier (ch.ensureConnected call.connects) own := by
    unfold ensureConnected
    split
    · exact h
    · exact earlier_newConnect ch call.connects own
  unfold MprpcChannel.request
  dsimp only
  split
  · exact hconnected
  split
  · exact hconnected
  · exact hconnected.send call.reconnects

theorem responseBytes_own {codec : Codec μ} {reply : Option μ} {b : Nat × UInt8}
    (h : b ∈ responseBytes codec own reply) : b.1 = own := by
  unfold responseBytes at h
  split at h
  · cases h
  · rcases List.mem_map.mp h with ⟨_, _, rfl⟩
    rfl

theorem Earlier.sendRpcResponse (h : Earlier ch own) (codec : Codec μ) (reply : Option μ) :
    Earlier (ch.sendRpcResponse codec own reply) (own + 1) := by
  have hlater : Earlier ch (own + 1) := fun b hb => Nat.lt_succ_of_lt (h b hb)
  unfold MprpcChannel.sendRpcResponse
  split
  · exact hlater
  · intro b hb
    rcases List.mem_append.mp hb with hold | hnew
    · exact hlater b hold
    · rw [responseBytes_own hnew]
      exact Nat.lt_succ_self own

theorem recv_sublist {received : Option Nat} {bytes : Option (List (Nat × UInt8))}
    (h : ch.recv received = some (ch', bytes)) : ch'.stream.Sublist ch.stream := by
  unfold recv at h
  split at h
  · cases h
    exact List.nil_sublist _
  · cases h
    exact List.nil_sublist _
  · split at h
    · cases h
      exact List.drop_sublist _ _
    · cases h

/-- Everything that a call can come to. -/
inductive CallCase (codec : M -> Codec μ) (ch : MprpcChannel) (call : CallInput M μ) :
    MprpcChannel -> Outcome μ -> Prop where
  | unsent : (ch.request call).2 = false ->
      CallCase codec ch call ((ch.request call).1.count ch.calls) .failed
  | unreceived (ch' : MprpcChannel) : (ch.request call).2 = true ->
      ((ch.request call).1.sendRpcResponse (codec call.method) ch.calls call.reply).recv
        call.received = some (ch', none) ->
      CallCase codec ch call (ch'.count ch.calls) .failed
  | received (ch' : MprpcChannel) (bytes : List (Nat × UInt8)) : (ch.request call).2 = true ->
      ((ch.request call).1.sendRpcResponse (codec call.method) ch.calls call.reply).recv
        call.received = some (ch', some bytes) ->
      CallCase codec ch call (ch'.count ch.calls) (parse (codec call.method) bytes)

theorem callMethod_cases {outcome : Outcome μ}
    (h : callMethod codec ch call = some (ch', outcome)) :
    CallCase codec ch call ch' outcome := by
  unfold callMethod at h
  dsimp only at h
  split at h
  · rename_i hrequest
    cases h
    exact .unsent hrequest
  · rename_i hrequest
    have hready : (ch.request call).2 = true := Bool.not_eq_false _ ▸ hrequest
    split at h
    · cases h
    · rename_i after hrecv
      cases h
      exact .unreceived after hready hrecv
    · rename_i after bytes hrecv
      cases h
      exact .received after bytes hready hrecv

theorem callMethod_earlier {outcome : Outcome μ} (hearlier : Earlier ch ch.calls)
    (h : callMethod codec ch call = some (ch', outcome)) : Earlier ch' ch'.calls := by
  have hrequest := hearlier.request call
  have hanswered := hrequest.sendRpcResponse (codec call.method) call.reply
  cases callMethod_cases h with
  | unsent _ => exact fun b hb => Nat.lt_succ_of_lt (hrequest b hb)
  | unreceived after _ hrecv =>
      exact fun b hb => hanswered b ((recv_sublist hrecv).subset hb)
  | received after bytes _ hrecv =>
      exact fun b hb => hanswered b ((recv_sublist hrecv).subset hb)

/-!
# One call
-/

/-- What `recv` returns is the start of the stream. -/
theorem recv_isPrefix {received : Option Nat} {bytes : List (Nat × UInt8)}
    (h : ch.recv received = some (ch', some bytes)) : bytes.IsPrefix ch.stream := by
  unfold recv at h
  split at h
  · cases h
  · cases h
    exact List.nil_prefix
  · split at h
    · cases h
      exact List.take_prefix _ _
    · cases h

/-- Without bytes of earlier responses, what is returned is the start of this one. -/
theorem isPrefix_response {leftover response bytes : List (Nat × UInt8)}
    (hleftover : forall b, b ∈ leftover -> b.1 < own)
    (hbytes : bytes.IsPrefix (leftover ++ response)) (hown : forall b, b ∈ bytes -> b.1 = own) :
    bytes.IsPrefix response := by
  cases leftover with
  | nil => exact hbytes
  | cons first rest =>
      cases bytes with
      | nil => exact List.nil_prefix
      | cons b bytes =>
          rw [List.cons_append, List.cons_prefix_cons] at hbytes
          have hearlier := hleftover first List.mem_cons_self
          rw [← hbytes.1, hown b List.mem_cons_self] at hearlier
          exact absurd hearlier (Nat.lt_irrefl own)

theorem eq_map_of_own {bytes : List (Nat × UInt8)} (h : forall b, b ∈ bytes -> b.1 = own) :
    bytes = (bytes.map Prod.snd).map fun b => (own, b) := by
  induction bytes with
  | nil => rfl
  | cons first rest ih =>
      have hfirst : first = (own, first.2) := Prod.ext (h first List.mem_cons_self) rfl
      rw [List.map_cons, List.map_cons, ← hfirst,
        ← ih fun b hb => h b (List.mem_cons_of_mem first hb)]

theorem responseBytes_of {codec : Codec μ} {response : μ} {serialized : Bytes}
    (h : codec.serializeToString response = some serialized) (own : Nat) :
    responseBytes codec own (some response) = serialized.map fun b => (own, b) := by
  unfold responseBytes
  rw [Option.bind_some, h]

theorem map_snd_map (own : Nat) (bytes : Bytes) :
    (bytes.map fun b => (own, b)).map Prod.snd = bytes := by
  rw [List.map_map]
  exact List.map_id bytes

/-- Bytes of the own response only, which parse as the response, are all of it. -/
theorem whole_of_parsed {codec : Codec μ} {response : μ} {bytes : List (Nat × UInt8)}
    (hearlier : Earlier ch own)
    (hbytes : bytes.IsPrefix (ch.sendRpcResponse codec own (some response)).stream)
    (hparse : codec.parseFromArray (bytes.map Prod.snd) = some response)
    (hsome : (codec.serializeToString response).isSome)
    (hown : forall b, b ∈ bytes -> b.1 = own) :
    exists serialized, codec.serializeToString response = some serialized ∧
      bytes = serialized.map fun b => (own, b) := by
  rcases Option.isSome_iff_exists.mp hsome with ⟨serialized, hserialized⟩
  have hbegin : bytes.IsPrefix (serialized.map fun b => (own, b)) := by
    rw [← responseBytes_of hserialized]
    refine isPrefix_response hearlier (hbytes.trans ?_) hown
    unfold sendRpcResponse
    split
    · exact List.prefix_append _ _
    · exact List.prefix_rfl
  have hpart : (bytes.map Prod.snd).IsPrefix serialized := by
    have hmap := hbegin.map Prod.snd
    rw [map_snd_map] at hmap
    exact hmap
  refine ⟨serialized, hserialized, ?_⟩
  rw [← codec.parse_part hserialized hpart hparse]
  exact eq_map_of_own hown

/-- A call is as it should be exactly if its response came whole or did not parse. -/
theorem complete_iff_wholeReply (hearlier : Earlier ch ch.calls) {outcome : Outcome μ}
    (h : callMethod codec ch call = some (ch', outcome)) :
    Complete (codec call.method) ch.calls call.reply outcome <-> WholeReply codec ch call := by
  have hrequest := hearlier.request call
  cases callMethod_cases h with
  | unsent hunsent =>
      refine iff_of_true trivial fun hready => ?_
      rw [hunsent] at hready
      cases hready
  | unreceived after hready hrecv =>
      refine iff_of_true trivial fun _ ch' bytes hbytes => ?_
      rw [hrecv] at hbytes
      cases hbytes
  | received after bytes hready hrecv =>
      unfold parse
      cases hparse : (codec call.method).parseFromArray (bytes.map Prod.snd) with
      | none =>
          refine iff_of_true trivial fun _ ch' bytes' hbytes => Or.inl ?_
          rw [hrecv] at hbytes
          cases hbytes
          exact hparse
      | some response =>
          constructor
          · rintro ⟨hreply, hsome, hown⟩ _ ch' bytes' hbytes
            rw [hrecv] at hbytes
            cases hbytes
            rw [hreply] at hrecv
            rcases whole_of_parsed hrequest (recv_isPrefix hrecv) hparse hsome hown with
              ⟨serialized, hserialized, heq⟩
            exact Or.inr ⟨response, serialized, hreply, hserialized, heq⟩
          · intro hwhole
            rcases hwhole hready after bytes hrecv with
              hnone | ⟨reply, serialized, hreply, hserialized, rfl⟩
            · rw [hparse] at hnone
              cases hnone
            · rw [map_snd_map, (codec call.method).parse_serialize hserialized] at hparse
              cases hparse
              refine ⟨hreply, Option.isSome_of_eq_some hserialized, ?_⟩
              intro b hb
              rcases List.mem_map.mp hb with ⟨_, _, rfl⟩
              rfl

/-!
# Runs
-/

variable {connectNow : Bool}

theorem trace_earlier {tr : List (Transition MprpcChannel (CallInput M μ))}
    (h : (channelSystem codec connectNow).Trace tr ch) : Earlier ch ch.calls := by
  refine TransitionSystem.Trace.invariant (M := channelSystem codec connectNow)
    (P := fun _ ch => Earlier ch ch.calls) nofun ?_ h
  intro tr ch ch' call _ hearlier hstep
  rcases Option.map_eq_some_iff.mp hstep with ⟨⟨after, outcome⟩, hcall, rfl⟩
  exact callMethod_earlier hearlier hcall

/-- All calls of a run are as they should be exactly if every response that was parsed had
come whole and alone. -/
theorem complete_iff (r : (channelSystem codec connectNow).Run) :
    (r.Always fun t => forall ch' outcome,
      callMethod codec t.before t.action = some (ch', outcome) ->
        Complete (codec t.action.method) t.before.calls t.action.reply outcome) <->
      r.Always fun t => WholeReply codec t.before t.action := by
  have hstep : forall t, t ∈ r.trace -> Earlier t.before t.before.calls ∧
      exists outcome, callMethod codec t.before t.action = some (t.after, outcome) := by
    intro t ht
    rcases r.valid.before_of_mem ht with ⟨earlier, hbefore, _⟩
    rcases Option.map_eq_some_iff.mp (r.valid.step_of_mem ht) with
      ⟨⟨after, outcome⟩, hcall, hafter⟩
    cases hafter
    exact ⟨trace_earlier hbefore, outcome, hcall⟩
  constructor
  · intro hall t ht
    rcases hstep t ht with ⟨hearlier, outcome, hcall⟩
    exact (complete_iff_wholeReply hearlier hcall).mp (hall t ht _ _ hcall)
  · intro hall t ht ch' outcome hcall
    exact (complete_iff_wholeReply (hstep t ht).1 hcall).mpr (hall t ht)

/-!
# Part of a response

The first four bytes of a reply read as a reply without a value.
-/

def okReply : GetReply where
  err := [79, 75]
  value := [7]

def getInput (received : Nat) : CallInput Unit GetReply where
  method := ()
  reply := some okReply
  received := some received

def partialRun : (channelSystem (fun _ : Unit => GetReply.codec) true).Run :=
  TransitionSystem.runOf _ [getInput 4] (by decide +kernel)

/-- What is left over is the value. -/
def partialStep : Transition MprpcChannel (CallInput Unit GetReply) where
  before := { connected := true }
  action := getInput 4
  after := {
    connected := true
    stream := [(0, 18), (0, 1), (0, 7)]
    calls := 1 }

theorem partialRun_not_complete :
    ¬ partialRun.Always fun t => forall ch' outcome,
      callMethod (fun _ => GetReply.codec) t.before t.action = some (ch', outcome) ->
        Complete GetReply.codec t.before.calls t.action.reply outcome := by
  intro hall
  have hmem : partialStep ∈ partialRun.trace := List.mem_singleton_self _
  have hcomplete := hall partialStep hmem partialStep.after
    (.parsed { err := [79, 75] } [(0, 10), (0, 2), (0, 79), (0, 75)]) (by decide +kernel)
  exact absurd hcomplete.1 (by decide)

def wholeRun : (channelSystem (fun _ : Unit => GetReply.codec) true).Run :=
  TransitionSystem.runOf _ [getInput 7, getInput 7] (by decide +kernel)

theorem wholeRun_complete :
    wholeRun.Always fun t => forall ch' outcome,
      callMethod (fun _ => GetReply.codec) t.before t.action = some (ch', outcome) ->
        Complete GetReply.codec t.before.calls t.action.reply outcome := by
  refine (complete_iff wholeRun).mpr ?_
  have hwhole : forall t, t ∈ wholeRun.trace -> t.action.reply = some okReply ∧
      (((t.before.request t.action).1.sendRpcResponse GetReply.codec t.before.calls
        t.action.reply).recv t.action.received).map Prod.snd =
          some (some ([10, 2, 79, 75, 18, 1, 7].map fun b => (t.before.calls, b))) := by
    decide +kernel
  intro t ht _ ch' bytes hrecv
  rcases hwhole t ht with ⟨hreply, hbytes⟩
  rw [hrecv] at hbytes
  cases hbytes
  have hserialized : GetReply.codec.serializeToString okReply =
      some [10, 2, 79, 75, 18, 1, 7] := by decide
  exact Or.inr ⟨okReply, _, hreply, hserialized, rfl⟩

end MprpcChannel
end Rpc
end KVRaft
