import KVRaft.Foundation.Coverage
import KVRaft.Foundation.Transition
import KVRaft.KvServer.State
import KVRaft.RaftCore.Raft.Handler

/-!
# From Raft to the key-value server

One server process: its Raft node with handlers called in any order, the applier
that collects under the lock and pushes after it, a detached thread for every
snapshot that was installed, and the loop that consumes the channel.
-/

namespace KVRaft
namespace KvServer

open Foundation RaftCore

inductive KvAction (n : Nat) where
  | handle (handler : Handler n)
  | installSnapshot (args : InstallSnapshotRequest)
  | getApplyLogs
  | push
  | pushMsgToKvServer (thread : Nat)
  | readRaftApplyCommandLoop
  | snapshot
  | executeGetOpOnKVDB (op : Op)
  | openWaitChan (raftIndex : Int)
  | closeWaitChan (raftIndex : Int)
  deriving DecidableEq

/-- A process and what is on its way inside it: the messages the applier has
collected, those held by detached threads, those in the channel, and a snapshot
the loop is about to hand to Raft.  `consumed` is the history of the channel. -/
structure KvNode (n : Nat) where
  raft : Raft n
  kv : KvServer
  applyMsgs : List ApplyMsg
  detached : List ApplyMsg
  applyChan : List ApplyMsg
  snapshotCall : Option (Int × Bytes)
  consumed : List ApplyMsg

namespace KvNode

variable {n : Nat}

/-- Everything pushed to the channel so far. -/
def pushed (σ : KvNode n) : List ApplyMsg :=
  σ.consumed ++ σ.applyChan

/-- A detached thread is started for a message. -/
def detach (σ : KvNode n) (rf : Raft n) : Option ApplyMsg -> KvNode n
  | none => { σ with raft := rf }
  | some msg => { σ with raft := rf, detached := σ.detached ++ [msg] }

variable [Archive] [KvArchive]

def step (σ : KvNode n) : KvAction n -> Option (KvNode n)
  | .handle handler =>
      if handler.applies then
        none
      else
        match handler.run σ.raft with
        | .ok rf => some { σ with raft := rf }
        | .error _ => none
  | .installSnapshot args =>
      match σ.raft.installSnapshot args with
      | .ok (rf, _, msg) => some (σ.detach rf msg)
      | .error _ => none
  | .getApplyLogs =>
      if σ.applyMsgs = [] then
        match σ.raft.getApplyLogs with
        | .ok (rf, msgs) => some { σ with raft := rf, applyMsgs := msgs }
        | .error _ => none
      else
        none
  | .push =>
      match σ.applyMsgs with
      | [] => none
      | msg :: rest =>
          some { σ with applyMsgs := rest, applyChan := σ.applyChan ++ [msg] }
  | .pushMsgToKvServer thread =>
      match σ.detached[thread]? with
      | none => none
      | some msg =>
          some
            { σ with
              detached := σ.detached.eraseIdx thread
              applyChan := σ.applyChan ++ [msg] }
  | .readRaftApplyCommandLoop =>
      match σ.snapshotCall, σ.applyChan with
      | none, msg :: rest =>
          match σ.kv.readRaftApplyCommandLoop σ.raft msg with
          | some (kv, call) =>
              some
                { σ with
                  kv := kv
                  applyChan := rest
                  snapshotCall := call
                  consumed := σ.consumed ++ [msg] }
          | none => none
      | _, _ => none
  | .snapshot =>
      match σ.snapshotCall with
      | none => none
      | some (index, data) =>
          match σ.raft.snapshot index data with
          | .ok rf => some { σ with raft := rf, snapshotCall := none }
          | .error _ => none
  | .executeGetOpOnKVDB op => some { σ with kv := (σ.kv.executeGetOpOnKVDB op).1 }
  | .openWaitChan raftIndex =>
      some { σ with kv := σ.kv.openWaitChan raftIndex }
  | .closeWaitChan raftIndex =>
      some { σ with kv := σ.kv.closeWaitChan raftIndex }

end KvNode

/-- All runs of server `me`, from a first start in an empty directory. -/
def kvSystem [Archive] [KvArchive] {n : Nat} (me : Fin n) (maxRaftState : Int) :
    TransitionSystem (KvNode n) (KvAction n) where
  init :=
    { raft := Raft.blank me (Persister.create [] [])
      kv := create maxRaftState
      applyMsgs := []
      detached := []
      applyChan := []
      snapshotCall := none
      consumed := [] }
  step := KvNode.step

/-!
# What a step does
-/

namespace KvNode

variable {n : Nat} [Archive] [KvArchive]

/-- Everything a step may do to the messages under way. -/
inductive StepEffect (σ : KvNode n) : KvAction n -> KvNode n -> Prop where
  | handle {handler : Handler n} {rf : Raft n} : rf.lastApplied = σ.raft.lastApplied ->
      StepEffect σ (.handle handler) { σ with raft := rf }
  | installed {args : InstallSnapshotRequest} {rf : Raft n} :
      rf.lastApplied = max σ.raft.lastApplied args.lastSnapshotIncludeIndex ->
      StepEffect σ (.installSnapshot args) (σ.detach rf (some (Raft.snapshotMsg args)))
  | refused {args : InstallSnapshotRequest} {rf : Raft n} :
      rf.lastApplied = σ.raft.lastApplied ->
      StepEffect σ (.installSnapshot args) (σ.detach rf none)
  | collected {rf : Raft n} {msgs : List ApplyMsg} : σ.applyMsgs = [] ->
      HandsOn (σ.raft.lastApplied + 1) msgs ->
      rf.lastApplied = σ.raft.lastApplied + msgs.length ->
      StepEffect σ .getApplyLogs { σ with raft := rf, applyMsgs := msgs }
  | pushedNext {msg : ApplyMsg} {rest : List ApplyMsg} : σ.applyMsgs = msg :: rest ->
      StepEffect σ .push { σ with applyMsgs := rest, applyChan := σ.applyChan ++ [msg] }
  | pushedDetached {thread : Nat} {msg : ApplyMsg} : σ.detached[thread]? = some msg ->
      StepEffect σ (.pushMsgToKvServer thread)
        { σ with
          detached := σ.detached.eraseIdx thread
          applyChan := σ.applyChan ++ [msg] }
  | consumedNext {msg : ApplyMsg} {rest : List ApplyMsg} {kv : KvServer}
      {call : Option (Int × Bytes)} : σ.snapshotCall = none -> σ.applyChan = msg :: rest ->
      σ.kv.readRaftApplyCommandLoop σ.raft msg = some (kv, call) ->
      StepEffect σ .readRaftApplyCommandLoop
        { σ with
          kv := kv
          applyChan := rest
          snapshotCall := call
          consumed := σ.consumed ++ [msg] }
  | compacted {rf : Raft n} {index : Int} {data : Bytes} :
      σ.snapshotCall = some (index, data) ->
      (rf.lastApplied = σ.raft.lastApplied ∨
        rf.lastApplied = max σ.raft.lastApplied index) ->
      StepEffect σ .snapshot { σ with raft := rf, snapshotCall := none }
  | served {a : KvAction n} {kv : KvServer} : a ≠ .readRaftApplyCommandLoop ->
      kv.lastSnapShotRaftLogIndex = σ.kv.lastSnapShotRaftLogIndex ->
      StepEffect σ a { σ with kv := kv }

theorem step_effect {σ σ' : KvNode n} {a : KvAction n} (h : σ.step a = some σ') :
    StepEffect σ a σ' := by
  cases a with
  | handle handler =>
      simp only [step] at h
      by_cases happlies : handler.applies
      · rw [if_pos happlies] at h
        cases h
      rw [if_neg happlies] at h
      cases hrun : handler.run σ.raft with
      | error fault =>
          rw [hrun] at h
          cases h
      | ok rf =>
          rw [hrun] at h
          cases h
          exact .handle (Handler.run_lastApplied hrun (by simpa using happlies))
  | installSnapshot args =>
      simp only [step] at h
      cases hrun : σ.raft.installSnapshot args with
      | error fault =>
          rw [hrun] at h
          cases h
      | ok result =>
          rcases result with ⟨rf, reply, msg⟩
          rw [hrun] at h
          cases h
          rcases installSnapshot_msg hrun with ⟨rfl, hsame⟩ | ⟨rfl, hmax⟩
          · exact .refused hsame
          · exact .installed hmax
  | getApplyLogs =>
      simp only [step] at h
      by_cases hempty : σ.applyMsgs = []
      · rw [if_pos hempty] at h
        cases hrun : σ.raft.getApplyLogs with
        | error fault =>
            rw [hrun] at h
            cases h
        | ok result =>
            rcases result with ⟨rf, msgs⟩
            rw [hrun] at h
            cases h
            rcases getApplyLogs_handsOn hrun with ⟨hhands, happlied⟩
            exact .collected hempty hhands happlied
      · rw [if_neg hempty] at h
        cases h
  | push =>
      simp only [step] at h
      cases hmsgs : σ.applyMsgs with
      | nil =>
          rw [hmsgs] at h
          cases h
      | cons msg rest =>
          rw [hmsgs] at h
          cases h
          exact .pushedNext hmsgs
  | pushMsgToKvServer thread =>
      simp only [step] at h
      cases hthread : σ.detached[thread]? with
      | none =>
          rw [hthread] at h
          cases h
      | some msg =>
          rw [hthread] at h
          cases h
          exact .pushedDetached hthread
  | readRaftApplyCommandLoop =>
      simp only [step] at h
      cases hcall : σ.snapshotCall with
      | some call =>
          simp only [hcall] at h
          cases h
      | none =>
          cases hchan : σ.applyChan with
          | nil =>
              simp only [hcall, hchan] at h
              cases h
          | cons msg rest =>
              simp only [hcall, hchan] at h
              cases hread : σ.kv.readRaftApplyCommandLoop σ.raft msg with
              | none =>
                  rw [hread] at h
                  cases h
              | some result =>
                  rcases result with ⟨kv, call⟩
                  rw [hread] at h
                  cases h
                  exact .consumedNext hcall hchan hread
  | snapshot =>
      simp only [step] at h
      cases hcall : σ.snapshotCall with
      | none =>
          rw [hcall] at h
          cases h
      | some call =>
          rcases call with ⟨index, data⟩
          simp only [hcall] at h
          cases hrun : σ.raft.snapshot index data with
          | error fault =>
              rw [hrun] at h
              cases h
          | ok rf =>
              rw [hrun] at h
              cases h
              exact .compacted hcall (snapshot_lastApplied hrun)
  | executeGetOpOnKVDB op =>
      cases h
      exact .served (by intro hloop; cases hloop) rfl
  | openWaitChan raftIndex =>
      cases h
      exact .served (by intro hloop; cases hloop) (by rw [openWaitChan_eq])
  | closeWaitChan raftIndex =>
      cases h
      exact .served (by intro hloop; cases hloop) rfl

end KvNode

/-!
# The loop
-/

section

variable {n : Nat}

/-- The message a transition takes from the channel. -/
def received (t : Transition (KvNode n) (KvAction n)) : Option ApplyMsg :=
  if t.action = .readRaftApplyCommandLoop then t.before.applyChan.head? else none

theorem mem_applyChan_of_received {t : Transition (KvNode n) (KvAction n)} {msg : ApplyMsg}
    (h : msg ∈ received t) : msg ∈ t.before.applyChan := by
  unfold received at h
  by_cases haction : t.action = .readRaftApplyCommandLoop
  · rw [if_pos haction] at h
    exact List.mem_of_head? h
  · rw [if_neg haction] at h
    cases h

variable [KvArchive]

theorem loop_command {kv kv' : KvServer} {rf : Raft n} {msg : ApplyMsg}
    {call : Option (Int × Bytes)} (hcommand : msg.commandValid = true)
    (hsnapshot : msg.snapshotValid = false)
    (h : kv.readRaftApplyCommandLoop rf msg = some (kv', call)) :
    kv.getCommandFromRaft rf.getRaftStateSize msg = some (kv', call) := by
  unfold readRaftApplyCommandLoop at h
  rw [if_pos hcommand, hsnapshot] at h
  rcases Option.bind_eq_some_iff.mp h with ⟨⟨kv1, call1⟩, hget, h⟩
  cases h
  exact hget

theorem loop_snapshot {kv kv' : KvServer} {rf : Raft n} {msg : ApplyMsg}
    {call : Option (Int × Bytes)} (hcommand : msg.commandValid = false)
    (hsnapshot : msg.snapshotValid = true)
    (h : kv.readRaftApplyCommandLoop rf msg = some (kv', call)) :
    kv.getSnapShotFromRaft rf msg = some kv' ∧ call = none := by
  unfold readRaftApplyCommandLoop at h
  simp only [hcommand, hsnapshot, if_true, if_neg Bool.false_ne_true] at h
  rcases Option.bind_eq_some_iff.mp h with ⟨_, hfirst, h⟩
  cases hfirst
  rcases Option.bind_eq_some_iff.mp h with ⟨kv1, hget, h⟩
  cases h
  exact ⟨hget, rfl⟩

variable [Archive]

/-- What the loop has made of a message it took. -/
theorem received_step {t : Transition (KvNode n) (KvAction n)}
    (hstep : t.before.step t.action = some t.after) {msg : ApplyMsg}
    (hmsg : msg ∈ received t) :
    exists call, t.before.kv.readRaftApplyCommandLoop t.before.raft msg =
      some (t.after.kv, call) := by
  by_cases haction : t.action = .readRaftApplyCommandLoop
  · rw [received, if_pos haction] at hmsg
    have heffect := KvNode.step_effect hstep
    rw [haction] at heffect
    generalize t.after = σ' at heffect ⊢
    cases heffect with
    | consumedNext _ hchan hread =>
        rw [hchan] at hmsg
        cases hmsg
        exact ⟨_, hread⟩
    | served hother _ => exact absurd rfl hother
  · rw [received, if_neg haction] at hmsg
    cases hmsg

/-!
# Kinds of messages

Every message on its way is a command or a snapshot, not both.
-/

structure OfOneKind (σ : KvNode n) : Prop where
  applyMsgs : forall msg, msg ∈ σ.applyMsgs -> OneKind msg
  detached : forall msg, msg ∈ σ.detached -> OneKind msg
  applyChan : forall msg, msg ∈ σ.applyChan -> OneKind msg

omit [Archive] in
theorem OfOneKind.step {σ σ' : KvNode n} {a : KvAction n} (h : OfOneKind σ)
    (heffect : KvNode.StepEffect σ a σ') : OfOneKind σ' := by
  cases heffect with
  | handle _ => exact ⟨h.applyMsgs, h.detached, h.applyChan⟩
  | installed _ =>
      refine ⟨h.applyMsgs, ?_, h.applyChan⟩
      intro msg hmem
      rcases List.mem_append.mp hmem with hold | hnew
      · exact h.detached msg hold
      · rw [List.mem_singleton.mp hnew]
        exact rfl
  | refused _ => exact ⟨h.applyMsgs, h.detached, h.applyChan⟩
  | collected _ hhands _ =>
      exact ⟨fun msg hmem => hhands.oneKind hmem, h.detached, h.applyChan⟩
  | pushedNext hmsgs =>
      refine ⟨?_, h.detached, ?_⟩
      · intro msg hmem
        apply h.applyMsgs
        rw [hmsgs]
        exact List.mem_cons_of_mem _ hmem
      · intro msg hmem
        rcases List.mem_append.mp hmem with hold | hnew
        · exact h.applyChan msg hold
        · rw [List.mem_singleton.mp hnew]
          apply h.applyMsgs
          rw [hmsgs]
          exact List.mem_cons_self
  | pushedDetached hthread =>
      refine ⟨h.applyMsgs, ?_, ?_⟩
      · intro msg hmem
        exact h.detached msg (List.mem_of_mem_eraseIdx hmem)
      · intro msg hmem
        rcases List.mem_append.mp hmem with hold | hnew
        · exact h.applyChan msg hold
        · rw [List.mem_singleton.mp hnew]
          exact h.detached _ (List.mem_of_getElem? hthread)
  | consumedNext _ hchan _ =>
      refine ⟨h.applyMsgs, h.detached, ?_⟩
      intro msg hmem
      apply h.applyChan
      rw [hchan]
      exact List.mem_cons_of_mem _ hmem
  | compacted _ _ => exact ⟨h.applyMsgs, h.detached, h.applyChan⟩
  | served _ _ => exact ⟨h.applyMsgs, h.detached, h.applyChan⟩

theorem ofOneKind {me : Fin n} {maxRaftState : Int}
    {tr : List (Transition (KvNode n) (KvAction n))} {σ : KvNode n}
    (h : (kvSystem me maxRaftState).Trace tr σ) : OfOneKind σ := by
  refine TransitionSystem.Trace.invariant (P := fun _ σ => OfOneKind σ) ?_ ?_ h
  · constructor
    · intro msg hmem
      cases hmem
    · intro msg hmem
      cases hmem
    · intro msg hmem
      cases hmem
  · intro tr σ σ' a _ ih hstep
    exact ih.step (KvNode.step_effect hstep)

end

end KvServer
end KVRaft
