import Mathlib.Logic.Function.Basic
import KVRaft.Foundation.Transition
import KVRaft.RaftCore.Raft.FullLog
import KVRaft.RaftCore.Cluster.Calls

/-!
# The cluster

Servers started with empty files and never restarted, and the calls between
them.  Timeouts, commands, deliveries and returns happen in any order; a handler
runs under its server's lock, so it is one step.  A fault stops the server for
good.
-/

namespace KVRaft
namespace RaftCore

open Foundation

/-- A server process: its node and the counters its threads share. -/
structure Server (n : Nat) where
  raft : Raft n
  stopped : Option Fault
  votedNum : List Nat
  appendNums : List Nat

abbrev VoteCall (n : Nat) := Call n RequestVoteArgs RequestVoteReply

abbrev AppendCall (n : Nat) := Call n AppendEntriesArgs AppendEntriesReply

/-- The request of a snapshot call is built by the thread once it runs. -/
inductive SnapshotPhase where
  | started
  | requested (args : InstallSnapshotRequest)
  | replied (args : InstallSnapshotRequest) (reply : InstallSnapshotResponse)
  | returned
  deriving DecidableEq, Repr

structure SnapshotCall (n : Nat) where
  caller : Fin n
  callee : Fin n
  phase : SnapshotPhase
  deriving DecidableEq, Repr

/-- The request a snapshot call has under way. -/
def SnapshotCall.request {n : Nat} (call : SnapshotCall n) :
    Option InstallSnapshotRequest :=
  match call.phase with
  | .requested args => some args
  | _ => none

structure Cluster (n : Nat) where
  servers : Fin n -> Server n
  voteCalls : List (VoteCall n)
  appendCalls : List (AppendCall n)
  snapshotCalls : List (SnapshotCall n)

inductive Action (n : Nat) where
  | doElection (i : Fin n)
  | doHeartBeat (i : Fin n)
  | start (i : Fin n) (command : Bytes)
  | applierTicker (i : Fin n)
  | snapshot (i : Fin n) (index : Int) (data : Bytes)
  | requestVote (k : Nat)
  | requestVoteReply (k : Nat)
  | appendEntries (k : Nat)
  | appendEntriesReply (k : Nat)
  | leaderSendSnapShot (k : Nat)
  | installSnapshot (k : Nat)
  | installSnapshotReply (k : Nat)
  deriving DecidableEq, Repr

namespace Cluster

variable {n : Nat}

abbrev raft (σ : Cluster n) (i : Fin n) : Raft n :=
  (σ.servers i).raft

def Running (σ : Cluster n) (i : Fin n) : Prop :=
  (σ.servers i).stopped = none

instance (σ : Cluster n) (i : Fin n) : Decidable (σ.Running i) :=
  inferInstanceAs (Decidable ((σ.servers i).stopped = none))

def setServer (σ : Cluster n) (i : Fin n) (server : Server n) : Cluster n :=
  { σ with servers := Function.update σ.servers i server }

def setRaft (σ : Cluster n) (i : Fin n) (rf : Raft n) : Cluster n :=
  σ.setServer i { σ.servers i with raft := rf }

def stop (σ : Cluster n) (i : Fin n) (fault : Fault) : Cluster n :=
  σ.setServer i { σ.servers i with stopped := some fault }

/-- Carry on with what a handler of server `i` returned, or stop the server. -/
def resume {α : Type} (σ : Cluster n) (i : Fin n) (outcome : Outcome α)
    (next : α -> Cluster n) : Cluster n :=
  match outcome with
  | .ok a => next a
  | .error fault => σ.stop i fault

def voteCallsOf (caller : Fin n) (counter : Nat)
    (requests : List (Fin n × RequestVoteArgs)) : List (VoteCall n) :=
  requests.map fun request =>
    { caller := caller
      callee := request.1
      args := request.2
      counter := counter
      phase := .requested }

def appendCallsOf (caller : Fin n) (counter : Nat) (messages : List (Raft.Outgoing n)) :
    List (AppendCall n) :=
  messages.filterMap fun
    | .appendEntries server args =>
        some
          { caller := caller
            callee := server
            args := args
            counter := counter
            phase := .requested }
    | .snapShot _ => none

def snapshotCallsOf (caller : Fin n) (messages : List (Raft.Outgoing n)) :
    List (SnapshotCall n) :=
  messages.filterMap fun
    | .appendEntries _ _ => none
    | .snapShot server => some { caller := caller, callee := server, phase := .started }

variable [Archive]

def doElection (σ : Cluster n) (i : Fin n) : Cluster n :=
  let server := σ.servers i
  match server.raft.doElection with
  | (_, none) => σ
  | (rf, some requests) =>
      { σ.setServer i { server with raft := rf, votedNum := server.votedNum ++ [1] } with
        voteCalls := σ.voteCalls ++ voteCallsOf i server.votedNum.length requests }

def doHeartBeat (σ : Cluster n) (i : Fin n) : Cluster n :=
  let server := σ.servers i
  match server.raft.doHeartBeat with
  | none => σ
  | some (messages, fault) =>
      { σ.setServer i
          { server with stopped := fault, appendNums := server.appendNums ++ [1] } with
        appendCalls := σ.appendCalls ++ appendCallsOf i server.appendNums.length messages
        snapshotCalls := σ.snapshotCalls ++ snapshotCallsOf i messages }

def requestVote (σ : Cluster n) (k : Nat) (call : VoteCall n) : Cluster n :=
  σ.resume call.callee ((σ.raft call.callee).requestVote call.args) fun (rf, reply) =>
    { σ.setRaft call.callee rf with
      voteCalls := σ.voteCalls.set k (call.answer reply) }

def requestVoteReply (σ : Cluster n) (k : Nat) (call : VoteCall n)
    (reply : RequestVoteReply) : Cluster n :=
  let server := σ.servers call.caller
  let votedNum := server.votedNum.getD call.counter 0
  σ.resume call.caller (server.raft.sendRequestVote reply votedNum) fun (rf, votedNum) =>
    { σ.setServer call.caller
        { server with raft := rf, votedNum := server.votedNum.set call.counter votedNum } with
      voteCalls := σ.voteCalls.set k (call.finish reply) }

def appendEntries (σ : Cluster n) (k : Nat) (call : AppendCall n) : Cluster n :=
  σ.resume call.callee ((σ.raft call.callee).appendEntries1 call.args) fun (rf, reply) =>
    { σ.setRaft call.callee rf with
      appendCalls := σ.appendCalls.set k (call.answer reply) }

def appendEntriesReply (σ : Cluster n) (k : Nat) (call : AppendCall n)
    (reply : AppendEntriesReply) : Cluster n :=
  let server := σ.servers call.caller
  let appendNums := server.appendNums.getD call.counter 0
  σ.resume call.caller
    (server.raft.sendAppendEntries call.callee call.args reply appendNums)
    fun (rf, appendNums) =>
      { σ.setServer call.caller
          { server with
            raft := rf
            appendNums := server.appendNums.set call.counter appendNums } with
        appendCalls := σ.appendCalls.set k (call.finish reply) }

def leaderSendSnapShot (σ : Cluster n) (k : Nat) (call : SnapshotCall n) : Cluster n :=
  let (rf, args) := (σ.raft call.caller).leaderSendSnapShot
  { σ.setRaft call.caller rf with
    snapshotCalls := σ.snapshotCalls.set k { call with phase := .requested args } }

def installSnapshot (σ : Cluster n) (k : Nat) (call : SnapshotCall n)
    (args : InstallSnapshotRequest) : Cluster n :=
  σ.resume call.callee ((σ.raft call.callee).installSnapshot args)
    fun (rf, reply, _) =>
      { σ.setRaft call.callee rf with
        snapshotCalls := σ.snapshotCalls.set k { call with phase := .replied args reply } }

def installSnapshotReply (σ : Cluster n) (k : Nat) (call : SnapshotCall n)
    (args : InstallSnapshotRequest) (reply : InstallSnapshotResponse) : Cluster n :=
  let rf := (σ.raft call.caller).leaderSendSnapShotReply call.callee args reply
  { σ.setRaft call.caller rf with
    snapshotCalls := σ.snapshotCalls.set k { call with phase := .returned } }

def step (σ : Cluster n) : Action n -> Option (Cluster n)
  | .doElection i => if σ.Running i then some (σ.doElection i) else none
  | .doHeartBeat i => if σ.Running i then some (σ.doHeartBeat i) else none
  | .start i command =>
      if σ.Running i then some (σ.setRaft i ((σ.raft i).start command).1) else none
  | .applierTicker i =>
      if σ.Running i then
        some (σ.resume i (σ.raft i).getApplyLogs fun (rf, _) => σ.setRaft i rf)
      else
        none
  | .snapshot i index data =>
      if σ.Running i then
        some (σ.resume i ((σ.raft i).snapshot index data) fun rf => σ.setRaft i rf)
      else
        none
  | .requestVote k =>
      match σ.voteCalls[k]? with
      | none => none
      | some call =>
          if σ.Running call.callee ∧ call.phase = .requested then
            some (σ.requestVote k call)
          else
            none
  | .requestVoteReply k =>
      match σ.voteCalls[k]? with
      | none => none
      | some call =>
          match call.phase with
          | .replied reply =>
              if σ.Running call.caller then
                some (σ.requestVoteReply k call reply)
              else
                none
          | _ => none
  | .appendEntries k =>
      match σ.appendCalls[k]? with
      | none => none
      | some call =>
          if σ.Running call.callee ∧ call.phase = .requested then
            some (σ.appendEntries k call)
          else
            none
  | .appendEntriesReply k =>
      match σ.appendCalls[k]? with
      | none => none
      | some call =>
          match call.phase with
          | .replied reply =>
              if σ.Running call.caller then
                some (σ.appendEntriesReply k call reply)
              else
                none
          | _ => none
  | .leaderSendSnapShot k =>
      match σ.snapshotCalls[k]? with
      | none => none
      | some call =>
          if σ.Running call.caller ∧ call.phase = .started then
            some (σ.leaderSendSnapShot k call)
          else
            none
  | .installSnapshot k =>
      match σ.snapshotCalls[k]? with
      | none => none
      | some call =>
          match call.phase with
          | .requested args =>
              if σ.Running call.callee then
                some (σ.installSnapshot k call args)
              else
                none
          | _ => none
  | .installSnapshotReply k =>
      match σ.snapshotCalls[k]? with
      | none => none
      | some call =>
          match call.phase with
          | .replied args reply =>
              if σ.Running call.caller then
                some (σ.installSnapshotReply k call args reply)
              else
                none
          | _ => none

/-- A server process that has just run `Raft::init` over empty files. -/
def startServer (i : Fin n) : Server n :=
  match Raft.init i (Persister.create [] []) with
  | .ok rf => { raft := rf, stopped := none, votedNum := [], appendNums := [] }
  | .error fault =>
      { raft := Raft.blank i (Persister.create [] [])
        stopped := some fault
        votedNum := []
        appendNums := [] }

def initial (n : Nat) : Cluster n where
  servers := startServer
  voteCalls := []
  appendCalls := []
  snapshotCalls := []

theorem startServer_eq (i : Fin n) :
    startServer i =
      { raft := Raft.blank i (Persister.create [] [])
        stopped := none
        votedNum := []
        appendNums := [] } := by
  rw [startServer, Raft.init_create]

end Cluster

/-- All runs of a cluster of `n` servers. -/
def clusterSystem [Archive] (n : Nat) : TransitionSystem (Cluster n) (Action n) where
  init := Cluster.initial n
  step := Cluster.step

/-!
# What a step does
-/

namespace Cluster

variable {n : Nat}

@[simp] theorem setServer_servers (σ : Cluster n) (i j : Fin n) (server : Server n) :
    (σ.setServer i server).servers j = if j = i then server else σ.servers j :=
  Function.update_apply _ _ _ _

variable [Archive]

/-- Everything a step may do, with the guards it has passed. -/
inductive StepEffect (σ : Cluster n) : Action n -> Cluster n -> Prop where
  | doElection {i : Fin n} : σ.Running i ->
      StepEffect σ (.doElection i) (σ.doElection i)
  | doHeartBeat {i : Fin n} : σ.Running i ->
      StepEffect σ (.doHeartBeat i) (σ.doHeartBeat i)
  | start {i : Fin n} {command : Bytes} : σ.Running i ->
      StepEffect σ (.start i command) (σ.setRaft i ((σ.raft i).start command).1)
  | applierTicker {i : Fin n} : σ.Running i ->
      StepEffect σ (.applierTicker i)
        (σ.resume i (σ.raft i).getApplyLogs fun (rf, _) => σ.setRaft i rf)
  | snapshot {i : Fin n} {index : Int} {data : Bytes} : σ.Running i ->
      StepEffect σ (.snapshot i index data)
        (σ.resume i ((σ.raft i).snapshot index data) fun rf => σ.setRaft i rf)
  | requestVote {k : Nat} {call : VoteCall n} : σ.voteCalls[k]? = some call ->
      σ.Running call.callee -> call.phase = .requested ->
      StepEffect σ (.requestVote k) (σ.requestVote k call)
  | requestVoteReply {k : Nat} {call : VoteCall n} {reply : RequestVoteReply} :
      σ.voteCalls[k]? = some call -> σ.Running call.caller ->
      call.phase = .replied reply ->
      StepEffect σ (.requestVoteReply k) (σ.requestVoteReply k call reply)
  | appendEntries {k : Nat} {call : AppendCall n} : σ.appendCalls[k]? = some call ->
      σ.Running call.callee -> call.phase = .requested ->
      StepEffect σ (.appendEntries k) (σ.appendEntries k call)
  | appendEntriesReply {k : Nat} {call : AppendCall n} {reply : AppendEntriesReply} :
      σ.appendCalls[k]? = some call -> σ.Running call.caller ->
      call.phase = .replied reply ->
      StepEffect σ (.appendEntriesReply k) (σ.appendEntriesReply k call reply)
  | leaderSendSnapShot {k : Nat} {call : SnapshotCall n} :
      σ.snapshotCalls[k]? = some call -> σ.Running call.caller ->
      call.phase = .started ->
      StepEffect σ (.leaderSendSnapShot k) (σ.leaderSendSnapShot k call)
  | installSnapshot {k : Nat} {call : SnapshotCall n} {args : InstallSnapshotRequest} :
      σ.snapshotCalls[k]? = some call -> σ.Running call.callee ->
      call.phase = .requested args ->
      StepEffect σ (.installSnapshot k) (σ.installSnapshot k call args)
  | installSnapshotReply {k : Nat} {call : SnapshotCall n} {args : InstallSnapshotRequest}
      {reply : InstallSnapshotResponse} : σ.snapshotCalls[k]? = some call ->
      σ.Running call.caller -> call.phase = .replied args reply ->
      StepEffect σ (.installSnapshotReply k) (σ.installSnapshotReply k call args reply)

omit [Archive] in
private theorem some_of_guard {α : Type} {p : Prop} [Decidable p] {a b : α}
    (h : (if p then some a else none) = some b) : p ∧ b = a := by
  by_cases hp : p
  · rw [if_pos hp] at h
    exact ⟨hp, (Option.some.inj h).symm⟩
  · rw [if_neg hp] at h
    cases h

theorem step_effect {σ σ' : Cluster n} {a : Action n} (h : σ.step a = some σ') :
    StepEffect σ a σ' := by
  cases a with
  | doElection i =>
      rcases some_of_guard h with ⟨hrun, rfl⟩
      exact .doElection hrun
  | doHeartBeat i =>
      rcases some_of_guard h with ⟨hrun, rfl⟩
      exact .doHeartBeat hrun
  | start i command =>
      rcases some_of_guard h with ⟨hrun, rfl⟩
      exact .start hrun
  | applierTicker i =>
      rcases some_of_guard h with ⟨hrun, rfl⟩
      exact .applierTicker hrun
  | snapshot i index data =>
      rcases some_of_guard h with ⟨hrun, rfl⟩
      exact .snapshot hrun
  | requestVote k =>
      simp only [step] at h
      cases hk : σ.voteCalls[k]? with
      | none =>
          rw [hk] at h
          cases h
      | some call =>
          rw [hk] at h
          rcases some_of_guard h with ⟨⟨hrun, hphase⟩, rfl⟩
          exact .requestVote hk hrun hphase
  | requestVoteReply k =>
      simp only [step] at h
      cases hk : σ.voteCalls[k]? with
      | none =>
          rw [hk] at h
          cases h
      | some call =>
          simp only [hk] at h
          cases hphase : call.phase with
          | replied reply =>
              rw [hphase] at h
              rcases some_of_guard h with ⟨hrun, rfl⟩
              exact .requestVoteReply hk hrun hphase
          | requested =>
              rw [hphase] at h
              cases h
          | returned reply =>
              rw [hphase] at h
              cases h
  | appendEntries k =>
      simp only [step] at h
      cases hk : σ.appendCalls[k]? with
      | none =>
          rw [hk] at h
          cases h
      | some call =>
          rw [hk] at h
          rcases some_of_guard h with ⟨⟨hrun, hphase⟩, rfl⟩
          exact .appendEntries hk hrun hphase
  | appendEntriesReply k =>
      simp only [step] at h
      cases hk : σ.appendCalls[k]? with
      | none =>
          rw [hk] at h
          cases h
      | some call =>
          simp only [hk] at h
          cases hphase : call.phase with
          | replied reply =>
              rw [hphase] at h
              rcases some_of_guard h with ⟨hrun, rfl⟩
              exact .appendEntriesReply hk hrun hphase
          | requested =>
              rw [hphase] at h
              cases h
          | returned reply =>
              rw [hphase] at h
              cases h
  | leaderSendSnapShot k =>
      simp only [step] at h
      cases hk : σ.snapshotCalls[k]? with
      | none =>
          rw [hk] at h
          cases h
      | some call =>
          rw [hk] at h
          rcases some_of_guard h with ⟨⟨hrun, hphase⟩, rfl⟩
          exact .leaderSendSnapShot hk hrun hphase
  | installSnapshot k =>
      simp only [step] at h
      cases hk : σ.snapshotCalls[k]? with
      | none =>
          rw [hk] at h
          cases h
      | some call =>
          simp only [hk] at h
          cases hphase : call.phase with
          | requested args =>
              rw [hphase] at h
              rcases some_of_guard h with ⟨hrun, rfl⟩
              exact .installSnapshot hk hrun hphase
          | started =>
              rw [hphase] at h
              cases h
          | replied args reply =>
              rw [hphase] at h
              cases h
          | returned =>
              rw [hphase] at h
              cases h
  | installSnapshotReply k =>
      simp only [step] at h
      cases hk : σ.snapshotCalls[k]? with
      | none =>
          rw [hk] at h
          cases h
      | some call =>
          simp only [hk] at h
          cases hphase : call.phase with
          | replied args reply =>
              rw [hphase] at h
              rcases some_of_guard h with ⟨hrun, rfl⟩
              exact .installSnapshotReply hk hrun hphase
          | started =>
              rw [hphase] at h
              cases h
          | requested args =>
              rw [hphase] at h
              cases h
          | returned =>
              rw [hphase] at h
              cases h

end Cluster
end RaftCore
end KVRaft
