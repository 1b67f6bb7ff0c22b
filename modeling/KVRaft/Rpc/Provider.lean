import KVRaft.Rpc.Channel
import KVRaft.Rpc.Chunking
import KVRaft.Rpc.ProtocolMessages

/-!
# Remote calls

A provider finds the method that a frame asks for among the services it was told of.  A
call gives the method its own request, and the caller what the method has answered.
-/

namespace KVRaft
namespace Rpc

open Foundation Wire RaftCore

/-- The values of the fields are kept with the message. -/
abbrev Wellformed {μ : Type} (d : Descriptor μ) : Type :=
  { m : μ // d.Fits m }

def codec {μ : Type} (d : Descriptor μ) : Codec (Wellformed d) where
  serializeToString m := d.serializeToString m.1
  parseFromArray bytes :=
    (d.parseFromArray bytes).pmap Subtype.mk fun _ h => Descriptor.fits_parse h
  parse_serialize := by
    intro m bytes h
    rw [Option.pmap_eq_some_iff]
    exact ⟨m.1, m.2, Descriptor.parse_serialize m.2 h, rfl⟩
  parse_part := by
    intro m bytes part h hpart hparse
    rcases Option.pmap_eq_some_iff.mp hparse with ⟨m, hfits, hread, rfl⟩
    exact Descriptor.parse_part hfits h hpart hread

/-!
# Methods and services
-/

inductive Method where
  | appendEntries
  | installSnapshot
  | requestVote
  | putAppend
  | get
  deriving DecidableEq, Repr

namespace Method

def name : Method -> Bytes
  | appendEntries => [65, 112, 112, 101, 110, 100, 69, 110, 116, 114, 105, 101, 115]
  | installSnapshot => [73, 110, 115, 116, 97, 108, 108, 83, 110, 97, 112, 115, 104, 111, 116]
  | requestVote => [82, 101, 113, 117, 101, 115, 116, 86, 111, 116, 101]
  | putAppend => [80, 117, 116, 65, 112, 112, 101, 110, 100]
  | get => [71, 101, 116]

def Args : Method -> Type
  | appendEntries => Wellformed AppendEntriesArgs.descriptor
  | installSnapshot => Wellformed InstallSnapshotRequest.descriptor
  | requestVote => Wellformed RequestVoteArgs.descriptor
  | putAppend => Wellformed PutAppendArgs.descriptor
  | get => Wellformed GetArgs.descriptor

def Reply : Method -> Type
  | appendEntries => Wellformed AppendEntriesReply.descriptor
  | installSnapshot => Wellformed InstallSnapshotResponse.descriptor
  | requestVote => Wellformed RequestVoteReply.descriptor
  | putAppend => Wellformed PutAppendReply.descriptor
  | get => Wellformed GetReply.descriptor

/-- `GetRequestPrototype` -/
def request : (method : Method) -> Codec method.Args
  | appendEntries => codec AppendEntriesArgs.descriptor
  | installSnapshot => codec InstallSnapshotRequest.descriptor
  | requestVote => codec RequestVoteArgs.descriptor
  | putAppend => codec PutAppendArgs.descriptor
  | get => codec GetArgs.descriptor

/-- `GetResponsePrototype` -/
def response : (method : Method) -> Codec method.Reply
  | appendEntries => codec AppendEntriesReply.descriptor
  | installSnapshot => codec InstallSnapshotResponse.descriptor
  | requestVote => codec RequestVoteReply.descriptor
  | putAppend => codec PutAppendReply.descriptor
  | get => codec GetReply.descriptor

end Method

structure ServiceDescriptor where
  name : Bytes
  methods : List Method
  deriving DecidableEq, Repr

def raftRpc : ServiceDescriptor where
  name := [114, 97, 102, 116, 82, 112, 99]
  methods := [.appendEntries, .installSnapshot, .requestVote]

def kvServerRpc : ServiceDescriptor where
  name := [107, 118, 83, 101, 114, 118, 101, 114, 82, 112, 99]
  methods := [.putAppend, .get]

def Method.service : Method -> ServiceDescriptor
  | appendEntries => raftRpc
  | installSnapshot => raftRpc
  | requestVote => raftRpc
  | putAppend => kvServerRpc
  | get => kvServerRpc

/-!
# The services of a provider
-/

/-- `unordered_map::insert`: an entry that is there stays. -/
def insertNew {β : Type} (entries : List (Bytes × β)) (key : Bytes) (value : β) :
    List (Bytes × β) :=
  if (entries.lookup key).isSome then entries else entries ++ [(key, value)]

structure ServiceInfo (σ : Type) where
  service : σ
  methodMap : List (Bytes × Method)

/-- `m_serviceMap` -/
structure ServiceMap (σ : Type) where
  entries : List (Bytes × ServiceInfo σ) := []

/-- A method of a service, and the request it is called with. -/
structure Invocation (σ : Type) where
  service : σ
  method : Method
  request : method.Args

/-- A response together with the method it is a response of. -/
abbrev AnyReply : Type :=
  (method : Method) × method.Reply

namespace ServiceMap

variable {σ : Type}

def serviceInfo (service : σ) (desc : ServiceDescriptor) : ServiceInfo σ where
  service := service
  methodMap := desc.methods.foldl (fun methodMap m => insertNew methodMap m.name m) []

def notifyService (serviceMap : ServiceMap σ) (service : σ) (desc : ServiceDescriptor) :
    ServiceMap σ where
  entries := insertNew serviceMap.entries desc.name (serviceInfo service desc)

/-- The map after a number of services were published. -/
def published (services : List (σ × ServiceDescriptor)) : ServiceMap σ :=
  services.foldl (fun serviceMap s => serviceMap.notifyService s.1 s.2) {}

/-- What `OnMessage` calls for a buffer, unless it gives up on the way. -/
def onMessage (serviceMap : ServiceMap σ) (recvBuf : Bytes) : Option (Invocation σ) :=
  (decode recvBuf).bind fun call =>
    match serviceMap.entries.lookup call.serviceName with
    | none => none
    | some info =>
        match info.methodMap.lookup call.methodName with
        | none => none
        | some method => (method.request.parseFromArray call.args).map fun request =>
            { service := info.service, method := method, request := request }

/-- What the called method has answered. -/
def answer (serviceMap : ServiceMap σ) (handle : σ -> (m : Method) -> m.Args -> m.Reply)
    (recvBuf : Bytes) : Option AnyReply :=
  (serviceMap.onMessage recvBuf).map fun i => ⟨i.method, handle i.service i.method i.request⟩

end ServiceMap

/-- The bytes that `CallMethod` sends for a request. -/
def Method.sent (method : Method) (request : method.Args) : Option Bytes :=
  (method.request.serializeToString request).bind fun args =>
    Call.encode {
      serviceName := method.service.name
      methodName := method.name
      args := args }

/-!
# Looking up a service
-/

theorem lookup_insertNew {β : Type} (entries : List (Bytes × β)) (key key' : Bytes) (value : β) :
    (insertNew entries key value).lookup key' =
      (entries.lookup key').or (if key' = key then some value else none) := by
  unfold insertNew
  split
  · rename_i hsome
    split
    · rename_i heq
      rw [heq]
      cases h : entries.lookup key with
      | none =>
          rw [h] at hsome
          cases hsome
      | some v => rfl
    · rw [Option.or_none]
  · rw [List.lookup_append]
    congr 1
    rw [List.lookup_cons, List.lookup_nil]
    by_cases heq : key' = key
    · rw [if_pos heq, heq, beq_self_eq_true]
    · rw [if_neg heq, beq_eq_false_iff_ne.mpr heq]

namespace ServiceMap

variable {σ : Type} {services : List (σ × ServiceDescriptor)} {service : σ} {method : Method}

theorem lookup_foldl (serviceMap : ServiceMap σ) (name : Bytes) :
    (services.foldl (fun serviceMap s => serviceMap.notifyService s.1 s.2)
        serviceMap).entries.lookup name =
      (serviceMap.entries.lookup name).or
        ((services.find? fun s => s.2.name = name).map fun s => serviceInfo s.1 s.2) := by
  induction services generalizing serviceMap with
  | nil => exact Option.or_none.symm
  | cons s services ih =>
      rw [List.foldl_cons, ih, notifyService, lookup_insertNew, Option.or_assoc, List.find?_cons]
      congr 1
      by_cases hname : s.2.name = name
      · rw [if_pos hname.symm, decide_eq_true hname]
        rfl
      · rw [if_neg fun h => hname h.symm, decide_eq_false hname]
        rfl

/-- A name leads to the service that was published with it first. -/
theorem lookup_published (name : Bytes) :
    (published services).entries.lookup name =
      (services.find? fun s => s.2.name = name).map fun s => serviceInfo s.1 s.2 :=
  lookup_foldl {} name

theorem lookup_methodMap (service : σ) (method : Method) :
    (serviceInfo service method.service).methodMap.lookup method.name = some method := by
  cases method with
  | appendEntries => rfl
  | installSnapshot => rfl
  | requestVote => rfl
  | putAppend => rfl
  | get => rfl

/-- A method is called with the request that was sent for it. -/
theorem onMessage_sent
    (hfirst : (services.find? fun s => s.2.name = method.service.name) =
      some (service, method.service))
    {request : method.Args} {frame : Bytes} (hsent : method.sent request = some frame)
    (rest : Bytes) (hsize : (frame ++ rest).length < 2 ^ 31) :
    (published services).onMessage (frame ++ rest) =
      some { service := service, method := method, request := request } := by
  rcases Option.bind_eq_some_iff.mp hsent with ⟨args, hargs, hframe⟩
  rw [onMessage, decode_encode hframe rest hsize, Option.bind_some]
  dsimp only
  rw [lookup_published, hfirst, Option.map_some]
  dsimp only
  rw [lookup_methodMap]
  dsimp only
  rw [method.request.parse_serialize hargs, Option.map_some]
  rfl

/-- Nothing else is called: the method and the service are those that the frame names, and
the request is what its arguments parse as. -/
theorem onMessage_cases {recvBuf : Bytes} {i : Invocation σ}
    (h : (published services).onMessage recvBuf = some i) :
    exists call desc, decode recvBuf = some call ∧
      (services.find? fun s => s.2.name = call.serviceName) = some (i.service, desc) ∧
      (serviceInfo i.service desc).methodMap.lookup call.methodName = some i.method ∧
      i.method.request.parseFromArray call.args = some i.request := by
  rcases Option.bind_eq_some_iff.mp h with ⟨call, hcall, h⟩
  rw [lookup_published] at h
  cases hfind : services.find? fun s => s.2.name = call.serviceName with
  | none =>
      rw [hfind] at h
      cases h
  | some s =>
      rw [hfind, Option.map_some] at h
      dsimp only at h
      cases hmethod : (serviceInfo s.1 s.2).methodMap.lookup call.methodName with
      | none =>
          rw [hmethod] at h
          cases h
      | some method =>
          rw [hmethod] at h
          rcases Option.map_eq_some_iff.mp h with ⟨request, hparse, rfl⟩
          exact ⟨call, s.2, hcall, hfind, hmethod, hparse⟩

/-- What is looked up and parsed before a method is called. -/
def toProvider (serviceMap : ServiceMap σ) : RpcProvider where
  hasService name := (serviceMap.entries.lookup name).isSome
  hasMethod name methodName :=
    ((serviceMap.entries.lookup name).bind fun info => info.methodMap.lookup methodName).isSome
  parsesRequest name methodName args :=
    ((serviceMap.entries.lookup name).bind fun info => info.methodMap.lookup methodName).any
      fun method => (method.request.parseFromArray args).isSome

/-- A method is called exactly for the calls that the provider accepts. -/
theorem onMessage_isSome (serviceMap : ServiceMap σ) (recvBuf : Bytes) :
    (serviceMap.onMessage recvBuf).isSome <->
      exists call, serviceMap.toProvider.onMessage recvBuf = some call := by
  rw [onMessage]
  cases hdecode : decode recvBuf with
  | none =>
      refine iff_of_false Bool.noConfusion ?_
      rintro ⟨call, h⟩
      rw [RpcProvider.onMessage_eq_some, hdecode] at h
      cases h.1
  | some call =>
      have haccepts : (exists call', serviceMap.toProvider.onMessage recvBuf = some call') <->
          serviceMap.toProvider.Accepts call := by
        constructor
        · rintro ⟨call', h⟩
          rcases RpcProvider.onMessage_eq_some.mp h with ⟨hcall, haccepts⟩
          rw [hdecode] at hcall
          cases hcall
          exact haccepts
        · intro h
          exact ⟨call, RpcProvider.onMessage_eq_some.mpr ⟨hdecode, h⟩⟩
      rw [haccepts, Option.bind_some, RpcProvider.Accepts, toProvider]
      dsimp only
      cases serviceMap.entries.lookup call.serviceName with
      | none => simp
      | some info =>
          simp only [Option.bind_some]
          cases info.methodMap.lookup call.methodName with
          | none => simp
          | some method => simp

end ServiceMap

/-!
# Calls on a channel
-/

/-- The responses of a method among those of all methods. -/
def Method.codec (method : Method) : Codec AnyReply where
  serializeToString r :=
    if h : r.1 = method then method.response.serializeToString (h ▸ r.2) else none
  parseFromArray bytes := (method.response.parseFromArray bytes).map (Sigma.mk method)
  parse_serialize := by
    rintro ⟨m, r⟩ bytes h
    by_cases hm : m = method
    · subst hm
      rw [dif_pos rfl] at h
      rw [m.response.parse_serialize h, Option.map_some]
    · rw [dif_neg hm] at h
      cases h
  parse_part := by
    rintro ⟨m, r⟩ bytes part h hpart hparse
    rcases Option.map_eq_some_iff.mp hparse with ⟨r', hread, heq⟩
    cases heq
    rw [dif_pos rfl] at h
    exact method.response.parse_part h hpart hread

theorem Method.serialize_codec {method : Method} (r : method.Reply) :
    method.codec.serializeToString ⟨method, r⟩ = method.response.serializeToString r :=
  dif_pos rfl

namespace MprpcChannel

variable {M μ : Type} {codec : M -> Codec μ} {ch : MprpcChannel} {call : CallInput M μ}

/-- The connection is open, nothing is left on it, and `recv` returns the response of `size`
bytes as a whole. -/
structure Undisturbed (ch : MprpcChannel) (call : CallInput M μ) (size : Nat) : Prop where
  connected : ch.connected = true
  notClosed : ch.closed = false
  stream : ch.stream = []
  serialized : call.serialized = true
  sent : call.reconnects = []
  received : call.received = some size
  pos : 0 < size
  fits : size ≤ 1024

/-- An undisturbed call returns the response. -/
theorem callMethod_undisturbed {response : μ} {bytes : Bytes}
    (h : Undisturbed ch call bytes.length) (hreply : call.reply = some response)
    (hserialize : (codec call.method).serializeToString response = some bytes) :
    callMethod codec ch call = some ({ ch with calls := ch.calls + 1 },
      .parsed response (bytes.map fun b => (ch.calls, b))) := by
  have hconnected : ch.ensureConnected call.connects = ch := if_pos h.connected
  have hrequest : ch.request call = (ch, true) := by
    rw [request, hconnected]
    dsimp only
    rw [if_neg (by rw [h.connected]; exact Bool.noConfusion),
      if_neg (by rw [h.serialized]; exact Bool.noConfusion), h.sent, send, h.connected]
  have hanswered : ch.sendRpcResponse (codec call.method) ch.calls call.reply =
      { ch with stream := bytes.map fun b => (ch.calls, b) } := by
    rw [sendRpcResponse, if_neg (by rw [h.notClosed]; exact Bool.noConfusion), h.stream, hreply,
      responseBytes_of hserialize, List.nil_append]
  have hrecv : recv { ch with stream := bytes.map fun b => (ch.calls, b) } call.received =
      some (ch, some (bytes.map fun b => (ch.calls, b))) := by
    rcases Nat.exists_eq_succ_of_ne_zero (Nat.ne_of_gt h.pos) with ⟨k, hk⟩
    have hfits := h.fits
    have hall : (bytes.map fun b => (ch.calls, b)).length = k + 1 := by
      rw [List.length_map, hk]
    rw [h.received, hk, recv, if_pos ⟨by omega, Nat.le_of_eq hall.symm⟩]
    dsimp only
    rw [← hall, List.drop_length, List.take_length, ← h.stream]
  rw [callMethod, hrequest]
  dsimp only
  rw [if_neg Bool.noConfusion, hanswered, hrecv]
  dsimp only
  rw [parse, map_snd_map, (codec call.method).parse_serialize hserialize]
  rfl

end MprpcChannel

section Remote

variable {σ : Type} {services : List (σ × ServiceDescriptor)} {service : σ} {method : Method}
  {connectNow : Bool}

/-- A request that arrives whole is given to its method as it was sent.  The caller gets the
answer of that method and no other: it does if nothing disturbs the call, and if the
response came whole it gets it or the call fails. -/
theorem remote_call
    (hfirst : (services.find? fun s => s.2.name = method.service.name) =
      some (service, method.service))
    (handle : σ -> (m : Method) -> m.Args -> m.Reply)
    (r : (MprpcChannel.channelSystem Method.codec connectNow).Run) {request : method.Args}
    {frame : Bytes} (hsent : method.sent request = some frame) (rest : Bytes)
    (hsize : (frame ++ rest).length < 2 ^ 31) (call : CallInput Method AnyReply)
    (hmethod : call.method = method)
    (hreply : call.reply =
      (ServiceMap.published services).answer handle (frame ++ rest)) :
    (ServiceMap.published services).onMessage (frame ++ rest) =
        some { service := service, method := method, request := request } ∧
      (forall bytes, method.response.serializeToString (handle service method request) =
          some bytes -> MprpcChannel.Undisturbed r.state call bytes.length ->
        MprpcChannel.callMethod Method.codec r.state call =
          some ({ r.state with calls := r.state.calls + 1 },
            .parsed ⟨method, handle service method request⟩
              (bytes.map fun b => (r.state.calls, b)))) ∧
      forall ch' outcome, MprpcChannel.callMethod Method.codec r.state call =
          some (ch', outcome) -> MprpcChannel.WholeReply Method.codec r.state call ->
        outcome = .failed ∨
          exists bytes, outcome = .parsed ⟨method, handle service method request⟩ bytes ∧
            forall b, b ∈ bytes -> b.1 = r.state.calls := by
  have hdispatched := ServiceMap.onMessage_sent hfirst hsent rest hsize
  rw [ServiceMap.answer, hdispatched, Option.map_some] at hreply
  refine ⟨hdispatched, ?_, ?_⟩
  · intro bytes hserialize hundisturbed
    refine MprpcChannel.callMethod_undisturbed hundisturbed hreply ?_
    rw [hmethod, Method.serialize_codec]
    exact hserialize
  · intro ch' outcome hcall hwhole
    have hcomplete :=
      (MprpcChannel.complete_iff_wholeReply (MprpcChannel.trace_earlier r.valid) hcall).mpr hwhole
    cases outcome with
    | failed => exact Or.inl rfl
    | parsed response bytes =>
        rcases hcomplete with ⟨hresponse, _, hown⟩
        rw [hreply] at hresponse
        cases hresponse
        exact Or.inr ⟨bytes, rfl, hown⟩

end Remote

/-!
# The services of a server
-/

inductive Endpoint where
  | kvServer
  | raftNode
  deriving DecidableEq, Repr

/-- What the constructor of `KvServer` publishes. -/
def kvServerServices : List (Endpoint × ServiceDescriptor) :=
  [(.kvServer, kvServerRpc), (.raftNode, raftRpc)]

/-- Two entries, and an index that is not in the log. -/
def twoEntries : Method.appendEntries.Args :=
  ⟨{  term := 3
      leaderId := 1
      prevLogIndex := -1
      prevLogTerm := 2
      entries := [
        { command := [120], logTerm := 3, logIndex := 300 },
        { command := [], logTerm := 3, logIndex := 301 }]
      leaderCommit := 0 }, by
    simp [Descriptor.Fits, AppendEntriesArgs.descriptor, LogEntry.descriptor, IsInt32]⟩

def mismatch : AppendEntriesReply where
  term := 3
  success := false
  updateNextIndex := -100
  appState := appNormal

def mismatchReply : (method : Method) -> method.Reply
  | .appendEntries => ⟨mismatch, by
      simp [Descriptor.Fits, AppendEntriesReply.descriptor, mismatch, appNormal, IsInt32]⟩
  | .installSnapshot => ⟨_, InstallSnapshotResponse.descriptor.fits_init⟩
  | .requestVote => ⟨_, RequestVoteReply.descriptor.fits_init⟩
  | .putAppend => ⟨_, PutAppendReply.descriptor.fits_init⟩
  | .get => ⟨_, GetReply.descriptor.fits_init⟩

/-- The frame in which they are sent. -/
def twoEntriesFrame : Bytes :=
  [26, 10, 7, 114, 97, 102, 116, 82, 112, 99, 18, 13, 65, 112, 112, 101, 110, 100, 69, 110, 116,
    114, 105, 101, 115, 24, 34, 8, 3, 16, 1, 24, 255, 255, 255, 255, 255, 255, 255, 255, 255, 1,
    32, 2, 42, 8, 10, 1, 120, 16, 3, 24, 172, 2, 42, 5, 16, 3, 24, 173, 2]

def firstCall : CallInput Method AnyReply where
  method := .appendEntries
  reply := (ServiceMap.published kvServerServices).answer (fun _ m _ => mismatchReply m)
    twoEntriesFrame
  received := some 15

theorem twoEntries_call :
    (ServiceMap.published kvServerServices).onMessage twoEntriesFrame =
        some { service := .raftNode, method := .appendEntries, request := twoEntries } ∧
      MprpcChannel.callMethod Method.codec { connected := true } firstCall =
        some ({ connected := true, calls := 1 },
          .parsed ⟨.appendEntries, mismatchReply .appendEntries⟩
            ([8, 3, 24, 156, 255, 255, 255, 255, 255, 255, 255, 255, 1, 32, 1].map
              fun b => (0, b))) := by
  have hsent : Method.appendEntries.sent twoEntries = some twoEntriesFrame := by decide +kernel
  have hcall := @remote_call Endpoint kvServerServices .raftNode .appendEntries true rfl
    (fun _ m _ => mismatchReply m) (TransitionSystem.runOf _ [] rfl) twoEntries twoEntriesFrame hsent []
    (by decide) firstCall rfl rfl
  refine ⟨hcall.1, hcall.2.1 _ (by decide +kernel) ?_⟩
  constructor <;> decide

end Rpc
end KVRaft
