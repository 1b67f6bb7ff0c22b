import Mathlib.Algebra.GroupWithZero.Nat
import KVRaft.Foundation.Decimal
import KVRaft.KvServer.Handlers

/-!
# Clerks

A clerk is created with an id made of random numbers, numbers its requests, and
sends each of them to one server after the other until one answers.
-/

namespace KVRaft
namespace RaftClerk

open Foundation KvServer

structure Clerk (n : Nat) where
  clientId : Bytes
  requestId : Int
  recentLeaderId : Fin n
  deriving DecidableEq

/-- What a program asks of its clerk. -/
inductive Request where
  | get (key : Bytes)
  | put (key value : Bytes)
  | append (key value : Bytes)
  deriving DecidableEq, Repr

/-- The next iteration of a clerk's loop, or the end of it. -/
inductive Turn (n : Nat) where
  | next (server : Fin n)
  | done (recentLeaderId : Fin n) (value : Bytes)

namespace Clerk

/-- Four calls of `rand`, in a process that has made some calls before.  All
processes draw from one sequence, since none seeds it. -/
def uuid (rand : Nat -> Nat) (drawn : Nat) : Bytes :=
  Decimal.digits (rand drawn) ++ Decimal.digits (rand (drawn + 1)) ++
    Decimal.digits (rand (drawn + 2)) ++ Decimal.digits (rand (drawn + 3))

variable {n : Nat}

def create [NeZero n] (rand : Nat -> Nat) (drawn : Nat) : Clerk n where
  clientId := uuid rand drawn
  requestId := 0
  recentLeaderId := ⟨0, Nat.pos_of_neZero n⟩

def nextRequest (clerk : Clerk n) : Clerk n :=
  { clerk with requestId := clerk.requestId + 1 }

/-- The arguments of a request; the server wraps them up as an operation. -/
def args (clerk : Clerk n) : Request -> Op
  | .get key =>
      { operation := .get
        key := key
        value := []
        clientId := clerk.clientId
        requestId := clerk.requestId }
  | .put key value =>
      { operation := .put
        key := key
        value := value
        clientId := clerk.clientId
        requestId := clerk.requestId }
  | .append key value =>
      { operation := .append
        key := key
        value := value
        clientId := clerk.clientId
        requestId := clerk.requestId }

def nextServer (server : Fin n) : Fin n :=
  ⟨(server.val + 1) % n, Nat.mod_lt _ server.pos⟩

/-- The body of the loop in `Get`; there is no reply if the call failed. -/
def get (clerk : Clerk n) (server : Fin n) : Option Reply -> Turn n
  | none => .next (nextServer server)
  | some reply =>
      match reply.err with
      | .errWrongLeader => .next (nextServer server)
      | .errNoKey => .done clerk.recentLeaderId []
      | .ok => .done server reply.value

/-- The body of the loop in `PutAppend`. -/
def putAppend (server : Fin n) : Option Reply -> Turn n
  | none => .next (nextServer server)
  | some reply =>
      match reply.err with
      | .errWrongLeader => .next (nextServer server)
      | .errNoKey => .next server
      | .ok => .done server []

def turn (clerk : Clerk n) (op : Op) (server : Fin n) (reply : Option Reply) : Turn n :=
  if op.operation = .get then clerk.get server reply else putAppend server reply

theorem args_clientId (clerk : Clerk n) (request : Request) :
    (clerk.args request).clientId = clerk.clientId := by
  cases request with
  | get key => rfl
  | put key value => rfl
  | append key value => rfl

theorem args_requestId (clerk : Clerk n) (request : Request) :
    (clerk.args request).requestId = clerk.requestId := by
  cases request with
  | get key => rfl
  | put key value => rfl
  | append key value => rfl

/-- A clerk returns only after a reply that does not send it to another server. -/
theorem turn_done {clerk : Clerk n} {op : Op} {server recent : Fin n}
    {reply : Option Reply} {value : Bytes}
    (h : clerk.turn op server reply = .done recent value) :
    exists r, reply = some r ∧ r.err ≠ .errWrongLeader := by
  unfold turn at h
  cases reply with
  | none =>
      by_cases hget : op.operation = .get
      · rw [if_pos hget] at h
        cases h
      · rw [if_neg hget] at h
        cases h
  | some r =>
      refine ⟨r, rfl, ?_⟩
      intro hwrong
      by_cases hget : op.operation = .get
      · simp only [if_pos hget, get, hwrong] at h
        cases h
      · simp only [if_neg hget, putAppend, hwrong] at h
        cases h

end Clerk
end RaftClerk
end KVRaft
