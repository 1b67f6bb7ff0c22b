import KVRaft.Foundation.Transition
import KVRaft.KvServer.Handlers
import KVRaft.RaftCore.Raft.Proceeding

/-!
# The calls of a server and its Raft node

One server process that is not restarted: any number of Get and PutAppend calls, the
loop with any message, and the handlers of the node with any arguments, except that
the entries of an append request follow on one another, as every leader sends them.
-/

namespace KVRaft
namespace KvServer

open Foundation RaftCore

/-- A call of Get or PutAppend and how far its handler has come. -/
structure ClientCall where
  op : Op
  phase : Phase
  deriving DecidableEq

structure CallNode (n : Nat) where
  raft : Raft n
  kv : KvServer
  calls : List ClientCall

inductive CallAction (n : Nat) where
  | node (handler : Handler n)
  | request (op : Op)
  | start (a : Nat)
  | handle (a : Nat) (action : HandlerAction)
  | readRaftApplyCommandLoop (message : ApplyMsg)
  deriving DecidableEq

/-- The call a step belongs to. -/
def CallAction.caller {n : Nat} : CallAction n -> Option Nat
  | .start a => some a
  | .handle a _ => some a
  | _ => none

namespace CallNode

variable {n : Nat} [Archive] [KvArchive]

/-- What `Raft::Start` returns for the operation of a call. -/
def started (σ : CallNode n) (op : Op) : Raft n × Option (Int × Int) :=
  σ.raft.start (OpArchive.asString op)

/-- The handler of call `a` takes a step, over the node as the step leaves it. -/
def take (σ : CallNode n) (a : Nat) (call : ClientCall) (rf : Raft n)
    (action : HandlerAction) : Option (CallNode n) :=
  (σ.kv.handle call.op call.phase action).map fun (kv, phase) =>
    { raft := rf, kv := kv, calls := σ.calls.set a { call with phase := phase } }

def step (σ : CallNode n) : CallAction n -> Option (CallNode n)
  | .node handler =>
      if handler.FollowsOn then
        match handler.run σ.raft with
        | .ok rf => some { σ with raft := rf }
        | .error _ => none
      else
        none
  | .request op => some { σ with calls := σ.calls ++ [{ op := op, phase := .sent }] }
  | .start a =>
      match σ.calls[a]? with
      | none => none
      | some call =>
          let (rf, started) := σ.started call.op
          σ.take a call rf (.start (started.map Prod.fst))
  | .handle _ (.start _) => none
  | .handle a action =>
      match σ.calls[a]? with
      | none => none
      | some call => σ.take a call σ.raft action
  | .readRaftApplyCommandLoop message =>
      (σ.kv.readRaftApplyCommandLoop σ.raft message).map fun (kv, _) => { σ with kv := kv }

end CallNode

/-- All runs of server `me`, from a first start in an empty directory. -/
def callSystem [Archive] [KvArchive] {n : Nat} (me : Fin n) (maxRaftState : Int) :
    TransitionSystem (CallNode n) (CallAction n) where
  init :=
    { raft := Raft.blank me (Persister.create [] [])
      kv := create maxRaftState
      calls := [] }
  step := CallNode.step

/-- The index that a `Start` in a step returns with `isLeader` set. -/
def startIndex {n : Nat} [Archive] [KvArchive]
    (t : Transition (CallNode n) (CallAction n)) : Option Int :=
  match t.action with
  | .node (.start command) => (t.before.raft.start command).2.map Prod.fst
  | .start a =>
      (t.before.calls[a]?).bind fun call =>
        (t.before.started call.op).2.map Prod.fst
  | _ => none

/-!
# What a step does
-/

namespace CallNode

variable {n : Nat} [Archive] [KvArchive]

inductive StepEffect (σ : CallNode n) : CallAction n -> CallNode n -> Prop where
  | node {handler : Handler n} {rf : Raft n} : handler.FollowsOn ->
      handler.run σ.raft = .ok rf ->
      StepEffect σ (.node handler) { σ with raft := rf }
  | request (op : Op) :
      StepEffect σ (.request op)
        { σ with calls := σ.calls ++ [{ op := op, phase := .sent }] }
  | start {a : Nat} {call : ClientCall} {kv : KvServer} {phase : Phase} :
      σ.calls[a]? = some call ->
      HandlerEffect σ.kv call.op call.phase
        (.start ((σ.started call.op).2.map Prod.fst)) kv phase ->
      StepEffect σ (.start a)
        { raft := (σ.started call.op).1
          kv := kv
          calls := σ.calls.set a { call with phase := phase } }
  | handle {a : Nat} {call : ClientCall} {action : HandlerAction} {kv : KvServer}
      {phase : Phase} : (forall raftIndex, action ≠ .start raftIndex) ->
      σ.calls[a]? = some call ->
      HandlerEffect σ.kv call.op call.phase action kv phase ->
      StepEffect σ (.handle a action)
        { σ with kv := kv, calls := σ.calls.set a { call with phase := phase } }
  | consumed {message : ApplyMsg} {kv : KvServer} {called : Option (Int × Bytes)} :
      σ.kv.readRaftApplyCommandLoop σ.raft message = some (kv, called) ->
      StepEffect σ (.readRaftApplyCommandLoop message) { σ with kv := kv }

omit [Archive] [KvArchive] in
theorem take_effect {σ σ' : CallNode n} {a : Nat} {call : ClientCall} {rf : Raft n}
    {action : HandlerAction} (h : σ.take a call rf action = some σ') :
    exists kv phase, HandlerEffect σ.kv call.op call.phase action kv phase ∧
      σ' = { raft := rf, kv := kv, calls := σ.calls.set a { call with phase := phase } } := by
  rcases Option.map_eq_some_iff.mp h with ⟨⟨kv, phase⟩, hhandle, rfl⟩
  exact ⟨kv, phase, handle_effect hhandle, rfl⟩

theorem step_effect {σ σ' : CallNode n} {a : CallAction n} (h : σ.step a = some σ') :
    StepEffect σ a σ' := by
  cases a with
  | node handler =>
      simp only [step] at h
      by_cases hfollows : handler.FollowsOn
      · rw [if_pos hfollows] at h
        cases hrun : handler.run σ.raft with
        | error fault =>
            rw [hrun] at h
            cases h
        | ok rf =>
            rw [hrun] at h
            cases h
            exact .node hfollows hrun
      · rw [if_neg hfollows] at h
        cases h
  | request op =>
      cases h
      exact .request op
  | start a =>
      simp only [step] at h
      cases hcall : σ.calls[a]? with
      | none =>
          rw [hcall] at h
          cases h
      | some call =>
          rw [hcall] at h
          rcases take_effect h with ⟨kv, phase, heffect, rfl⟩
          exact .start hcall heffect
  | handle a action =>
      have hstart : forall raftIndex, action ≠ .start raftIndex := by
        rintro raftIndex rfl
        cases h
      have htake : (match σ.calls[a]? with
          | none => none
          | some call => σ.take a call σ.raft action) = some σ' := by
        cases action with
        | start raftIndex => cases h
        | openWaitChan => exact h
        | timeOutPop => exact h
        | timeOut isLeader => exact h
        | executeGetOpOnKVDB => exact h
        | closeWaitChan => exact h
      cases hcall : σ.calls[a]? with
      | none =>
          rw [hcall] at htake
          cases htake
      | some call =>
          rw [hcall] at htake
          rcases take_effect htake with ⟨kv, phase, heffect, rfl⟩
          exact .handle hstart hcall heffect
  | readRaftApplyCommandLoop message =>
      rcases Option.map_eq_some_iff.mp h with ⟨⟨kv, called⟩, hread, rfl⟩
      exact .consumed hread

/-- Every step takes the node forward; a `Start` gives out the index after the last. -/
theorem StepEffect.proceeds {σ σ' : CallNode n} {a : CallAction n}
    (h : StepEffect σ a σ') (hindexed : Indexed σ.raft) : Proceeds σ.raft σ'.raft := by
  cases h with
  | node hfollows hrun => exact Handler.run_proceeds hindexed hfollows hrun
  | request op => exact .refl hindexed
  | start hcall heffect => exact Raft.start_proceeds hindexed _
  | handle hstart hcall heffect => exact .refl hindexed
  | consumed hread => exact .refl hindexed

theorem StepEffect.startIndex {σ σ' : CallNode n} {a : CallAction n}
    (h : StepEffect σ a σ') {index : Int}
    (hindex : startIndex { before := σ, action := a, after := σ' } = some index) :
    index = σ.raft.getLastLogIndex + 1 ∧ σ'.raft.getLastLogIndex = index := by
  cases h with
  | @node handler rf hfollows hrun =>
      cases handler with
      | start command =>
          cases hrun
          rcases Option.map_eq_some_iff.mp hindex with ⟨⟨i, term⟩, hstarted, rfl⟩
          exact Raft.start_index hstarted
      | _ => cases hindex
  | request op => cases hindex
  | start hcall heffect =>
      simp only [KvServer.startIndex, hcall] at hindex
      rcases Option.map_eq_some_iff.mp hindex with ⟨⟨i, term⟩, hstarted, rfl⟩
      exact Raft.start_index hstarted
  | handle hstart hcall heffect => cases hindex
  | consumed hread => cases hindex

end CallNode
end KvServer
end KVRaft
