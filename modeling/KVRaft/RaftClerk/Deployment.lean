import KVRaft.RaftClerk.ExactlyOnce
import KVRaft.RaftCore.Cluster.Origins

/-!
# The whole system

Clerks, key-value servers, and the Raft nodes these servers run on.  A handler hands
its operation to the node of its own server, and the loop of a server consumes what
the applier of that node has pushed.  No snapshots are taken.
-/

namespace KVRaft
namespace RaftClerk

open Foundation KvServer
open RaftCore (Archive ApplyMsg Cluster)

/-- `applyChan` lists all that the applier of a server has pushed so far; the loop of
the server may be any way behind. -/
structure Deployment (n : Nat) where
  clients : List (Client n)
  calls : List Op
  attempts : List (Attempt n)
  proposals : List (Entry × Int)
  server : Fin n -> Server
  returned : List (Nat × Bytes)
  cluster : Cluster n
  applyChan : Fin n -> List ApplyMsg

inductive DeploymentAction (n : Nat) where
  | clerk (a : Action n)
  | start (attempt : Nat)
  | raft (a : RaftCore.Action n)
  | applierTicker (i : Fin n)
  | getCommandFromRaft (i : Fin n)
  deriving DecidableEq

namespace DeploymentAction

variable {n : Nat}

def ofClerks : DeploymentAction n -> Option (Action n)
  | .clerk a => some a
  | _ => none

def ofRaft : DeploymentAction n -> Option (RaftCore.Action n)
  | .raft a => some a
  | _ => none

end DeploymentAction

/-- The call a committed operation was handed to Raft for. -/
def callOf (proposals : List (Entry × Int)) (op : Op) (commandIndex : Int) : Nat :=
  match proposals.find? fun p => p.2 = commandIndex ∧ p.1.op = op with
  | some p => p.1.call
  | none => 0

/-- The operations of messages, up to one that is no archive: there the loop ends. -/
def entriesOf [OpArchive] (proposals : List (Entry × Int)) : List ApplyMsg -> List Entry
  | [] => []
  | message :: rest =>
      match OpArchive.parseFromString message.command with
      | none => []
      | some op =>
          { call := callOf proposals op message.commandIndex, op := op } ::
            entriesOf proposals rest

namespace Deployment

variable {n : Nat}

/-- What the clerks see of it, with an order of committed operations. -/
def service (δ : Deployment n) (committed : List Entry) : Service n where
  clients := δ.clients
  calls := δ.calls
  attempts := δ.attempts
  proposals := δ.proposals
  committed := committed
  server := δ.server
  returned := δ.returned

def withService (δ : Deployment n) (σ : Service n) : Deployment n :=
  { δ with
    clients := σ.clients
    calls := σ.calls
    attempts := σ.attempts
    proposals := σ.proposals
    server := σ.server
    returned := σ.returned }

/-- The clerks run by themselves, a handler as long as its server does.  Operations are
handed to Raft, and consumed, in steps of their own. -/
def Runs (δ : Deployment n) : Action n -> Prop
  | .newClerk _ => True
  | .invoke _ _ => True
  | .fail _ => True
  | .receive _ => True
  | .handle _ (.start _) => False
  | .handle a _ => forall attempt, attempt ∈ δ.attempts[a]? -> δ.cluster.Running attempt.server
  | .commit _ => False
  | .getCommandFromRaft _ => False

instance (δ : Deployment n) : DecidablePred δ.Runs := fun a =>
  match a with
  | .newClerk _ => .isTrue trivial
  | .invoke _ _ => .isTrue trivial
  | .fail _ => .isTrue trivial
  | .receive _ => .isTrue trivial
  | .handle _ (.start _) => .isFalse id
  | .handle a .openWaitChan => inferInstanceAs (Decidable
      (forall attempt, attempt ∈ δ.attempts[a]? -> δ.cluster.Running attempt.server))
  | .handle a .timeOutPop => inferInstanceAs (Decidable
      (forall attempt, attempt ∈ δ.attempts[a]? -> δ.cluster.Running attempt.server))
  | .handle a (.timeOut _) => inferInstanceAs (Decidable
      (forall attempt, attempt ∈ δ.attempts[a]? -> δ.cluster.Running attempt.server))
  | .handle a .executeGetOpOnKVDB => inferInstanceAs (Decidable
      (forall attempt, attempt ∈ δ.attempts[a]? -> δ.cluster.Running attempt.server))
  | .handle a .closeWaitChan => inferInstanceAs (Decidable
      (forall attempt, attempt ∈ δ.attempts[a]? -> δ.cluster.Running attempt.server))
  | .commit _ => .isFalse id
  | .getCommandFromRaft _ => .isFalse id

variable [Archive] [OpArchive]

/-- The operation goes to the node of the handler's server, which says whether it leads
and at which index the operation stands. -/
def start [NeZero n] (rand : Nat -> Nat) (δ : Deployment n) (a : Nat) (attempt : Attempt n) :
    Option (Deployment n) :=
  let (rf, result) :=
    (δ.cluster.raft attempt.server).start (OpArchive.asString attempt.entry.op)
  match (δ.service []).step rand (.handle a (.start (result.map Prod.fst))) with
  | none => none
  | some σ => some { δ.withService σ with cluster := δ.cluster.setRaft attempt.server rf }

def step [NeZero n] (rand : Nat -> Nat) (δ : Deployment n) :
    DeploymentAction n -> Option (Deployment n)
  | .clerk a =>
      if δ.Runs a then ((δ.service []).step rand a).map δ.withService else none
  | .start a =>
      match δ.attempts[a]? with
      | none => none
      | some attempt =>
          if δ.cluster.Running attempt.server then δ.start rand a attempt else none
  | .raft a =>
      if a.Internal then
        (δ.cluster.step a).map fun cluster => { δ with cluster := cluster }
      else
        none
  | .applierTicker i =>
      match δ.cluster.step (.applierTicker i) with
      | none => none
      | some cluster =>
          some
            { δ with
              cluster := cluster
              applyChan := Function.update δ.applyChan i
                (δ.applyChan i ++ (δ.cluster.raft i).applyMsgs) }
  | .getCommandFromRaft i =>
      if δ.cluster.Running i then
        match (δ.server i).getCommandFromRaft (entriesOf δ.proposals (δ.applyChan i)) with
        | none => none
        | some server => some { δ with server := Function.update δ.server i server }
      else
        none

end Deployment

/-- All runs of clerks and `n` servers with their nodes. -/
def deploymentSystem [Archive] [OpArchive] (n : Nat) [NeZero n] (rand : Nat -> Nat) :
    TransitionSystem (Deployment n) (DeploymentAction n) where
  init :=
    { clients := []
      calls := []
      attempts := []
      proposals := []
      server := fun _ => Server.initial
      returned := []
      cluster := Cluster.initial n
      applyChan := fun _ => [] }
  step := Deployment.step rand

namespace Deployment

variable {n : Nat} [Archive] [OpArchive]

/-- What a step does to the clerks, the servers and the nodes. -/
inductive StepEffect [NeZero n] (rand : Nat -> Nat) (δ : Deployment n) :
    DeploymentAction n -> Deployment n -> Prop where
  | clerk {a : Action n} {σ : Service n} : δ.Runs a ->
      (δ.service []).step rand a = some σ ->
      StepEffect rand δ (.clerk a) (δ.withService σ)
  | started {a : Nat} {attempt : Attempt n} {σ : Service n} : δ.attempts[a]? = some attempt ->
      δ.cluster.Running attempt.server ->
      (δ.service []).step rand (.handle a (.start
        (((δ.cluster.raft attempt.server).start
          (OpArchive.asString attempt.entry.op)).2.map Prod.fst))) = some σ ->
      StepEffect rand δ (.start a)
        { δ.withService σ with
          cluster := δ.cluster.setRaft attempt.server
            ((δ.cluster.raft attempt.server).start
              (OpArchive.asString attempt.entry.op)).1 }
  | raft {a : RaftCore.Action n} {cluster : Cluster n} : a.Internal ->
      δ.cluster.step a = some cluster ->
      StepEffect rand δ (.raft a) { δ with cluster := cluster }
  | pushed {i : Fin n} {cluster : Cluster n} :
      δ.cluster.step (.applierTicker i) = some cluster ->
      StepEffect rand δ (.applierTicker i)
        { δ with
          cluster := cluster
          applyChan := Function.update δ.applyChan i
            (δ.applyChan i ++ (δ.cluster.raft i).applyMsgs) }
  | consumed {i : Fin n} {server : Server} :
      (δ.server i).getCommandFromRaft (entriesOf δ.proposals (δ.applyChan i)) = some server ->
      StepEffect rand δ (.getCommandFromRaft i)
        { δ with server := Function.update δ.server i server }

theorem step_effect [NeZero n] {rand : Nat -> Nat} {δ δ' : Deployment n}
    {a : DeploymentAction n} (h : δ.step rand a = some δ') : StepEffect rand δ a δ' := by
  cases a with
  | clerk a =>
      simp only [step] at h
      by_cases hruns : δ.Runs a
      · rw [if_pos hruns] at h
        rcases Option.map_eq_some_iff.mp h with ⟨σ, hσ, rfl⟩
        exact .clerk hruns hσ
      · rw [if_neg hruns] at h
        cases h
  | start a =>
      simp only [step] at h
      cases hattempt : δ.attempts[a]? with
      | none =>
          rw [hattempt] at h
          cases h
      | some attempt =>
          simp only [hattempt] at h
          by_cases hrunning : δ.cluster.Running attempt.server
          · rw [if_pos hrunning] at h
            simp only [start] at h
            split at h
            · cases h
            · rename_i σ hσ
              cases h
              exact .started hattempt hrunning hσ
          · rw [if_neg hrunning] at h
            cases h
  | raft a =>
      simp only [step] at h
      by_cases hinternal : a.Internal
      · rw [if_pos hinternal] at h
        rcases Option.map_eq_some_iff.mp h with ⟨cluster, hcluster, rfl⟩
        exact .raft hinternal hcluster
      · rw [if_neg hinternal] at h
        cases h
  | applierTicker i =>
      simp only [step] at h
      cases hcluster : δ.cluster.step (.applierTicker i) with
      | none =>
          rw [hcluster] at h
          cases h
      | some cluster =>
          rw [hcluster] at h
          cases h
          exact .pushed hcluster
  | getCommandFromRaft i =>
      simp only [step] at h
      by_cases hrunning : δ.cluster.Running i
      · rw [if_pos hrunning] at h
        split at h
        · cases h
        · rename_i server hserver
          cases h
          exact .consumed hserver
      · rw [if_neg hrunning] at h
        cases h

end Deployment
end RaftClerk
end KVRaft
