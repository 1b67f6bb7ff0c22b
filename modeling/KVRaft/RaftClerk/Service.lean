import KVRaft.Foundation.Lists
import KVRaft.Foundation.Transition
import KVRaft.RaftClerk.Clerk

/-!
# Clerks and servers

Clerks of any number of processes call the handlers of the servers.  What Raft
does is one committed order: an operation proposed at an index may be committed
there, and every server consumes what was committed from the first index on.
-/

namespace KVRaft
namespace RaftClerk

open Foundation KvServer

/-- An operation handed to Raft, with the call of a clerk it was made for. -/
structure Entry where
  call : Nat
  op : Op
  deriving DecidableEq, Repr

/-- Where the loop of a server stands between its critical sections. -/
inductive LoopPhase where
  | pop
  | checked (entry : Entry) (duplicate : Bool)
  | executed (op : Op)
  deriving DecidableEq, Repr

/-- A server, and the history of its loop: what it has gone past, with the verdict
that it was a duplicate. -/
structure Server where
  kv : KvServer
  loop : LoopPhase
  history : List (Entry × Bool)

namespace Server

def initial : Server where
  kv := KvServer.create (-1)
  loop := .pop
  history := []

/-- The index of the last command the loop has gone past. -/
def applied (server : Server) : Nat :=
  server.history.length

/-- The loop looks its next operation up in the table, executes it unless it was
there, and passes it to the handler that waits. -/
def getCommandFromRaft (server : Server) (committed : List Entry) : Option Server :=
  match server.loop with
  | .pop =>
      match committed[server.applied]? with
      | none => none
      | some entry =>
          some
            { server with
              loop := .checked entry
                (server.kv.ifRequestDuplicate entry.op.clientId entry.op.requestId) }
  | .checked entry duplicate =>
      some
        { kv := server.kv.executeUnless entry.op duplicate
          loop := .executed entry.op
          history := server.history ++ [(entry, duplicate)] }
  | .executed op =>
      some
        { server with
          kv := server.kv.sendMessageToWaitChan op server.applied
          loop := .pop }

/-- The three turns of the loop. -/
inductive LoopEffect (server : Server) (committed : List Entry) : Server -> Prop where
  | popped {entry : Entry} : server.loop = .pop ->
      committed[server.applied]? = some entry ->
      LoopEffect server committed
        { server with
          loop := .checked entry
            (server.kv.ifRequestDuplicate entry.op.clientId entry.op.requestId) }
  | executed {entry : Entry} {duplicate : Bool} : server.loop = .checked entry duplicate ->
      LoopEffect server committed
        { kv := server.kv.executeUnless entry.op duplicate
          loop := .executed entry.op
          history := server.history ++ [(entry, duplicate)] }
  | sent {op : Op} : server.loop = .executed op ->
      LoopEffect server committed
        { server with
          kv := server.kv.sendMessageToWaitChan op server.applied
          loop := .pop }

theorem getCommandFromRaft_effect {server server' : Server} {committed : List Entry}
    (h : server.getCommandFromRaft committed = some server') :
    server.LoopEffect committed server' := by
  unfold getCommandFromRaft at h
  cases hphase : server.loop with
  | pop =>
      simp only [hphase] at h
      cases hnext : committed[server.applied]? with
      | none =>
          rw [hnext] at h
          cases h
      | some entry =>
          rw [hnext] at h
          cases h
          exact .popped hphase hnext
  | checked entry duplicate =>
      simp only [hphase] at h
      cases h
      exact .executed hphase
  | executed op =>
      simp only [hphase] at h
      cases h
      exact .sent hphase

theorem history_getCommandFromRaft {server server' : Server} {committed : List Entry}
    (h : server.getCommandFromRaft committed = some server') :
    server.history <+: server'.history := by
  cases getCommandFromRaft_effect h with
  | popped _ _ => exact List.prefix_rfl
  | executed _ => exact List.prefix_append _ _
  | sent _ => exact List.prefix_rfl

end Server

/-- With nothing in between, three turns of the loop are one call for a command; no
snapshots are made or installed here. -/
theorem Server.getCommandFromRaft_steps [KvArchive] [LawfulKvArchive] {server : Server}
    {committed : List Entry} {entry : Entry} (hpop : server.loop = .pop)
    (hnext : committed[server.applied]? = some entry)
    (hlimit : server.kv.maxRaftState = -1) (hsnapshot : server.kv.lastSnapShotRaftLogIndex = 0)
    (raftStateSize : Int) {message : RaftCore.ApplyMsg}
    (hcommand : message.command = OpArchive.asString entry.op)
    (hindex : message.commandIndex = (server.applied : Int) + 1) :
    exists checked executed sent, server.getCommandFromRaft committed = some checked ∧
      checked.getCommandFromRaft committed = some executed ∧
      executed.getCommandFromRaft committed = some sent ∧
      sent.loop = .pop ∧ sent.applied = server.applied + 1 ∧
      server.kv.getCommandFromRaft raftStateSize message = some (sent.kv, none) := by
  have hnew : ¬ (server.applied : Int) + 1 ≤ server.kv.lastSnapShotRaftLogIndex := by
    rw [hsnapshot]
    exact not_le.mpr (Int.lt_add_one_of_le (Int.natCast_nonneg _))
  let duplicate := server.kv.ifRequestDuplicate entry.op.clientId entry.op.requestId
  let executed : Server :=
    { kv := server.kv.executeUnless entry.op duplicate
      loop := .executed entry.op
      history := server.history ++ [(entry, duplicate)] }
  have hlength : executed.applied = server.applied + 1 := by
    rw [Server.applied, List.length_append, List.length_singleton, Server.applied]
  have hkeep : (server.kv.executeUnless entry.op duplicate).maxRaftState = -1 := by
    rw [executeUnless_maxRaftState, hlimit]
  refine ⟨{ server with loop := .checked entry duplicate }, executed,
    { executed with
      kv := executed.kv.sendMessageToWaitChan entry.op executed.applied
      loop := .pop }, ?_, rfl, rfl, rfl, hlength, ?_⟩
  · rw [Server.getCommandFromRaft, hpop]
    simp only [hnext]
    rfl
  · unfold KvServer.getCommandFromRaft
    rw [hcommand, LawfulOpArchive.parseFromString_asString, hindex, hlength]
    simp only [Option.bind_eq_bind, Option.bind_some, if_neg hnew]
    rw [if_neg (not_not.mpr hkeep)]
    rfl

/-- A call of a handler. -/
structure Attempt (n : Nat) where
  entry : Entry
  server : Fin n
  phase : Phase
  deriving DecidableEq

/-- A clerk, and the number of the handler call its loop waits for. -/
structure Client (n : Nat) where
  clerk : Clerk n
  attempt : Option Nat
  deriving DecidableEq

/-- `calls` and `returned` are the history of the clerks: the operations begun, in
order, and the values returned. -/
structure Service (n : Nat) where
  clients : List (Client n)
  calls : List Op
  attempts : List (Attempt n)
  proposals : List (Entry × Int)
  committed : List Entry
  server : Fin n -> Server
  returned : List (Nat × Bytes)

inductive Action (n : Nat) where
  | newClerk (drawn : Nat)
  | invoke (client : Nat) (request : Request)
  | handle (attempt : Nat) (a : HandlerAction)
  | commit (proposal : Nat)
  | getCommandFromRaft (server : Fin n)
  | fail (client : Nat)
  | receive (client : Nat)
  deriving DecidableEq

namespace Service

variable {n : Nat}

/-- The entry of a call that has begun. -/
def Issued (σ : Service n) (entry : Entry) : Prop :=
  σ.calls[entry.call]? = some entry.op

/-- The clerk calls a handler and waits for the reply. -/
def send (σ : Service n) (client : Nat) (clerk : Clerk n) (entry : Entry)
    (server : Fin n) : Service n :=
  { σ with
    clients := σ.clients.set client { clerk := clerk, attempt := some σ.attempts.length }
    attempts := σ.attempts ++ [{ entry := entry, server := server, phase := .sent }] }

def invoke (σ : Service n) (client : Nat) (clerk : Clerk n) (request : Request) :
    Service n :=
  { σ with calls := σ.calls ++ [clerk.nextRequest.args request] }.send client
    clerk.nextRequest
    { call := σ.calls.length, op := clerk.nextRequest.args request } clerk.recentLeaderId

def finish (σ : Service n) (client : Nat) (clerk : Clerk n) (call : Nat)
    (recentLeaderId : Fin n) (value : Bytes) : Service n :=
  { σ with
    clients := σ.clients.set client
      { clerk := { clerk with recentLeaderId := recentLeaderId }, attempt := none }
    returned := σ.returned ++ [(call, value)] }

/-- The clerk goes on with a reply, or without one when the call has failed. -/
def turn (σ : Service n) (client : Nat) (clerk : Clerk n) (attempt : Attempt n)
    (reply : Option Reply) : Service n :=
  match clerk.turn attempt.entry.op attempt.server reply with
  | .next server => σ.send client clerk attempt.entry server
  | .done recentLeaderId value =>
      σ.finish client clerk attempt.entry.call recentLeaderId value

/-- The handler call a clerk waits for. -/
def current (σ : Service n) (client : Nat) : Option (Clerk n × Attempt n) := do
  let x <- σ.clients[client]?
  let a <- x.attempt
  let attempt <- σ.attempts[a]?
  return (x.clerk, attempt)

def proposed (entry : Entry) : HandlerAction -> List (Entry × Int)
  | .start (some raftIndex) => [(entry, raftIndex)]
  | _ => []

/-- A handler has taken a step. -/
def handled (σ : Service n) (a : Nat) (attempt : Attempt n) (action : HandlerAction)
    (kv : KvServer) (phase : Phase) : Service n :=
  { σ with
    attempts := σ.attempts.set a { attempt with phase := phase }
    proposals := σ.proposals ++ proposed attempt.entry action
    server := Function.update σ.server attempt.server
      { σ.server attempt.server with kv := kv } }

def step [NeZero n] (rand : Nat -> Nat) (σ : Service n) : Action n -> Option (Service n)
  | .newClerk drawn =>
      some
        { σ with
          clients := σ.clients ++ [{ clerk := Clerk.create rand drawn, attempt := none }] }
  | .invoke client request =>
      match σ.clients[client]? with
      | some { clerk := clerk, attempt := none } => some (σ.invoke client clerk request)
      | _ => none
  | .handle a action =>
      match σ.attempts[a]? with
      | none => none
      | some attempt =>
          match (σ.server attempt.server).kv.handle attempt.entry.op attempt.phase action with
          | none => none
          | some (kv, phase) => some (σ.handled a attempt action kv phase)
  | .commit proposal =>
      match σ.proposals[proposal]? with
      | none => none
      | some (entry, raftIndex) =>
          if raftIndex = σ.committed.length + 1 then
            some { σ with committed := σ.committed ++ [entry] }
          else
            none
  | .getCommandFromRaft i =>
      match (σ.server i).getCommandFromRaft σ.committed with
      | none => none
      | some server => some { σ with server := Function.update σ.server i server }
  | .fail client =>
      match σ.current client with
      | none => none
      | some (clerk, attempt) => some (σ.turn client clerk attempt none)
  | .receive client =>
      match σ.current client with
      | none => none
      | some (clerk, attempt) =>
          match attempt.phase with
          | .replied _ reply => some (σ.turn client clerk attempt (some reply))
          | _ => none

end Service

/-- All runs of clerks and `n` servers; `rand` is the sequence every process draws
its random numbers from. -/
def serviceSystem (n : Nat) [NeZero n] (rand : Nat -> Nat) :
    TransitionSystem (Service n) (Action n) where
  init :=
    { clients := []
      calls := []
      attempts := []
      proposals := []
      committed := []
      server := fun _ => Server.initial
      returned := [] }
  step := Service.step rand

/-!
# What a step does
-/

namespace Service

variable {n : Nat}

theorem current_eq_some {σ : Service n} {client : Nat} {clerk : Clerk n}
    {attempt : Attempt n} (h : σ.current client = some (clerk, attempt)) :
    exists a, σ.clients[client]? = some { clerk := clerk, attempt := some a } ∧
      σ.attempts[a]? = some attempt := by
  rcases Option.bind_eq_some_iff.mp h with ⟨⟨clerk', waits⟩, hclient, h⟩
  rcases Option.bind_eq_some_iff.mp h with ⟨a, rfl, h⟩
  rcases Option.bind_eq_some_iff.mp h with ⟨attempt', hattempt, h⟩
  cases h
  exact ⟨a, hclient, hattempt⟩

variable [NeZero n] {rand : Nat -> Nat}

inductive StepEffect (rand : Nat -> Nat) (σ : Service n) : Action n -> Service n -> Prop where
  | created {drawn : Nat} :
      StepEffect rand σ (.newClerk drawn)
        { σ with
          clients := σ.clients ++ [{ clerk := Clerk.create rand drawn, attempt := none }] }
  | invoked {client : Nat} {clerk : Clerk n} {request : Request} :
      σ.clients[client]? = some { clerk := clerk, attempt := none } ->
      StepEffect rand σ (.invoke client request) (σ.invoke client clerk request)
  | handled {a : Nat} {attempt : Attempt n} {action : HandlerAction} {kv : KvServer}
      {phase : Phase} : σ.attempts[a]? = some attempt ->
      (σ.server attempt.server).kv.handle attempt.entry.op attempt.phase action =
        some (kv, phase) ->
      StepEffect rand σ (.handle a action) (σ.handled a attempt action kv phase)
  | committed {proposal : Nat} {entry : Entry} {raftIndex : Int} :
      (entry, raftIndex) ∈ σ.proposals ->
      StepEffect rand σ (.commit proposal) { σ with committed := σ.committed ++ [entry] }
  | consumed {i : Fin n} {server : Server} :
      (σ.server i).getCommandFromRaft σ.committed = some server ->
      StepEffect rand σ (.getCommandFromRaft i)
        { σ with server := Function.update σ.server i server }
  | resent {action : Action n} {client : Nat} {clerk : Clerk n} {attempt : Attempt n}
      {server : Fin n} : σ.current client = some (clerk, attempt) ->
      StepEffect rand σ action (σ.send client clerk attempt.entry server)
  | returned {action : Action n} {client : Nat} {clerk : Clerk n} {attempt : Attempt n}
      {raftIndex : Int} {reply : Reply} {recentLeaderId : Fin n} {value : Bytes} :
      σ.current client = some (clerk, attempt) ->
      attempt.phase = .replied raftIndex reply -> reply.err ≠ .errWrongLeader ->
      StepEffect rand σ action
        (σ.finish client clerk attempt.entry.call recentLeaderId value)

theorem turn_effect {σ : Service n} {action : Action n} {client : Nat} {clerk : Clerk n}
    {attempt : Attempt n} {reply : Option Reply}
    (hcurrent : σ.current client = some (clerk, attempt))
    (hreply : forall r, reply = some r -> exists i, attempt.phase = .replied i r) :
    StepEffect rand σ action (σ.turn client clerk attempt reply) := by
  unfold turn
  cases hturn : clerk.turn attempt.entry.op attempt.server reply with
  | next server => exact .resent hcurrent
  | done recentLeaderId value =>
      rcases Clerk.turn_done hturn with ⟨r, hr, herr⟩
      rcases hreply r hr with ⟨i, hphase⟩
      exact .returned hcurrent hphase herr

theorem step_effect {σ σ' : Service n} {a : Action n} (h : σ.step rand a = some σ') :
    StepEffect rand σ a σ' := by
  cases a with
  | newClerk drawn =>
      cases h
      exact .created
  | invoke client request =>
      simp only [step] at h
      cases hclient : σ.clients[client]? with
      | none =>
          rw [hclient] at h
          cases h
      | some x =>
          rcases x with ⟨clerk, waits⟩
          rw [hclient] at h
          cases waits with
          | some a => cases h
          | none =>
              cases h
              exact .invoked hclient
  | handle a action =>
      simp only [step] at h
      cases hattempt : σ.attempts[a]? with
      | none =>
          rw [hattempt] at h
          cases h
      | some attempt =>
          simp only [hattempt] at h
          cases hrun : (σ.server attempt.server).kv.handle attempt.entry.op attempt.phase
              action with
          | none =>
              rw [hrun] at h
              cases h
          | some result =>
              rw [hrun] at h
              cases h
              exact .handled hattempt hrun
  | commit proposal =>
      simp only [step] at h
      cases hproposal : σ.proposals[proposal]? with
      | none =>
          rw [hproposal] at h
          cases h
      | some p =>
          rcases p with ⟨entry, raftIndex⟩
          simp only [hproposal] at h
          by_cases hnext : raftIndex = σ.committed.length + 1
          · rw [if_pos hnext] at h
            cases h
            exact .committed (List.mem_of_getElem? hproposal)
          · rw [if_neg hnext] at h
            cases h
  | getCommandFromRaft i =>
      simp only [step] at h
      cases hrun : (σ.server i).getCommandFromRaft σ.committed with
      | none =>
          rw [hrun] at h
          cases h
      | some server =>
          rw [hrun] at h
          cases h
          exact .consumed hrun
  | fail client =>
      simp only [step] at h
      cases hcurrent : σ.current client with
      | none =>
          rw [hcurrent] at h
          cases h
      | some result =>
          rw [hcurrent] at h
          cases h
          exact turn_effect hcurrent (by intro r hr; cases hr)
  | receive client =>
      simp only [step] at h
      cases hcurrent : σ.current client with
      | none =>
          rw [hcurrent] at h
          cases h
      | some result =>
          rcases result with ⟨clerk, attempt⟩
          simp only [hcurrent] at h
          cases hphase : attempt.phase with
          | replied raftIndex reply =>
              simp only [hphase] at h
              cases h
              refine turn_effect hcurrent ?_
              intro r hr
              cases hr
              exact ⟨raftIndex, hphase⟩
          | _ =>
              simp only [hphase] at h
              cases h

end Service
end RaftClerk
end KVRaft
