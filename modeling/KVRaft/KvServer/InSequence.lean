import KVRaft.KvServer.GapFree

/-!
# Commands are handed up in sequence

The applier of one server process, which collects under the lock and pushes after it,
among the other handlers of the node and snapshots of the log by whoever is handed its
commands.
-/

namespace KVRaft
namespace KvServer

open Foundation RaftCore
open Foundation.Delivery (reached InSequence)

/-- The node, what the applier has collected and not pushed yet, and what it has pushed.
`made` lists the messages in the order in which they were made under the lock, commands
by a collection and snapshots by an `InstallSnapshot` that was accepted. -/
structure Applier (n : Nat) where
  raft : Raft n
  applyMsgs : List ApplyMsg
  pushed : List ApplyMsg
  made : List ApplyMsg

inductive ApplierAction (n : Nat) where
  | handle (handler : Handler n)
  | installSnapshot (args : InstallSnapshotRequest)
  | snapshot (index : Int) (data : Bytes)
  | getApplyLogs
  | push
  deriving DecidableEq

namespace Applier

variable {n : Nat} [Archive]

def step (σ : Applier n) : ApplierAction n -> Option (Applier n)
  | .handle handler =>
      if handler.applies then
        none
      else
        match handler.run σ.raft with
        | .ok rf => some { σ with raft := rf }
        | .error _ => none
  | .installSnapshot args =>
      match σ.raft.installSnapshot args with
      | .ok (rf, _, msg) => some { σ with raft := rf, made := σ.made ++ msg.toList }
      | .error _ => none
  | .snapshot index data =>
      match σ.raft.snapshot index data with
      | .ok rf => some { σ with raft := rf }
      | .error _ => none
  | .getApplyLogs =>
      if σ.applyMsgs = [] then
        match σ.raft.getApplyLogs with
        | .ok (rf, msgs) =>
            some { σ with raft := rf, applyMsgs := msgs, made := σ.made ++ msgs }
        | .error _ => none
      else
        none
  | .push =>
      match σ.applyMsgs with
      | [] => none
      | msg :: rest => some { σ with applyMsgs := rest, pushed := σ.pushed ++ [msg] }

end Applier

/-- All runs of server `me`, from its start to its end. -/
def applierSystem [Archive] {n : Nat} (me : Fin n) :
    TransitionSystem (Applier n) (ApplierAction n) where
  init :=
    { raft := Raft.blank me (Persister.create [] [])
      applyMsgs := []
      pushed := []
      made := [] }
  step := Applier.step

section

variable {n : Nat}

/-- A command pushed or a snapshot given to a thread to push goes up to the index or
beyond it. -/
def HandedUp (σ : Applier n) (index : Int) : Prop :=
  (exists msg, msg ∈ σ.pushed ∧ index ≤ msg.commandIndex) ∨
    exists msg, msg ∈ σ.made ∧ msg.commandValid = false ∧ index ≤ msg.snapshotIndex

instance (σ : Applier n) (index : Int) : Decidable (HandedUp σ index) :=
  inferInstanceAs (Decidable
    ((exists msg, msg ∈ σ.pushed ∧ index ≤ msg.commandIndex) ∨
      exists msg, msg ∈ σ.made ∧ msg.commandValid = false ∧ index ≤ msg.snapshotIndex))

/-- The log is cut only at an index that was handed up. -/
def CutsHandedUp (t : Transition (Applier n) (ApplierAction n)) : Prop :=
  match t.action with
  | .snapshot index _ => HandedUp t.before index
  | _ => True

instance (t : Transition (Applier n) (ApplierAction n)) : Decidable (CutsHandedUp t) :=
  match t with
  | ⟨before, .snapshot index _, _⟩ => inferInstanceAs (Decidable (HandedUp before index))
  | ⟨_, .handle _, _⟩ => isTrue trivial
  | ⟨_, .installSnapshot _, _⟩ => isTrue trivial
  | ⟨_, .getApplyLogs, _⟩ => isTrue trivial
  | ⟨_, .push, _⟩ => isTrue trivial

/-- The messages pushed are the commands made, in their order.  Their indices rise, by
one where no snapshot was accepted in between, and beyond every snapshot that was.  Each
was collected when its command was in the log at its index. -/
structure PushedInSequence [Archive] {me : Fin n} (r : (applierSystem me).Run) : Prop where
  order : r.state.pushed <+: r.state.made.filter fun msg => msg.commandValid
  rising : (r.state.pushed.map ApplyMsg.commandIndex).Pairwise fun i j => i < j
  next : forall earlier msg between msg' later,
    r.state.made = earlier ++ msg :: (between ++ msg' :: later) ->
    msg.commandValid = true -> msg'.commandValid = true ->
    (forall held, held ∈ between -> held.commandValid = false) ->
    (between = [] -> msg'.commandIndex = msg.commandIndex + 1) ∧
      forall held, held ∈ between -> held.snapshotIndex < msg'.commandIndex
  logged : forall msg, msg ∈ r.state.pushed -> exists t, t ∈ r.trace ∧
    t.action = .getApplyLogs ∧ msg ∈ t.after.applyMsgs ∧
    exists log, t.before.raft.logAtIndex msg.commandIndex = .ok log ∧
      log.logIndex = msg.commandIndex ∧ log.command = msg.command

/-- Everything a step may do to the messages. -/
inductive Applier.StepEffect (σ : Applier n) : ApplierAction n -> Applier n -> Prop where
  | handled {handler : Handler n} {rf : Raft n} : rf.lastApplied = σ.raft.lastApplied ->
      StepEffect σ (.handle handler) { σ with raft := rf }
  | installed {args : InstallSnapshotRequest} {rf : Raft n} :
      rf.lastApplied = max σ.raft.lastApplied args.lastSnapshotIncludeIndex ->
      StepEffect σ (.installSnapshot args)
        { σ with raft := rf, made := σ.made ++ [Raft.snapshotMsg args] }
  | refused {args : InstallSnapshotRequest} {rf : Raft n} :
      rf.lastApplied = σ.raft.lastApplied ->
      StepEffect σ (.installSnapshot args) { σ with raft := rf, made := σ.made ++ [] }
  | cut {index : Int} {data : Bytes} {rf : Raft n} :
      (rf.lastApplied = σ.raft.lastApplied ∨
        rf.lastApplied = max σ.raft.lastApplied index) ->
      StepEffect σ (.snapshot index data) { σ with raft := rf }
  | collected {rf : Raft n} {msgs : List ApplyMsg} : σ.applyMsgs = [] ->
      σ.raft.getApplyLogs = .ok (rf, msgs) ->
      StepEffect σ .getApplyLogs
        { σ with raft := rf, applyMsgs := msgs, made := σ.made ++ msgs }
  | pushedNext {msg : ApplyMsg} {rest : List ApplyMsg} : σ.applyMsgs = msg :: rest ->
      StepEffect σ .push { σ with applyMsgs := rest, pushed := σ.pushed ++ [msg] }

/-!
# What was made
-/

/-- A collection goes on where everything before it ends. -/
theorem inSequence_of_handsOn {made msgs : List ApplyMsg}
    (h : HandsOn (reached 0 (made.map deliveryOf) + 1) msgs)
    (hmade : InSequence 0 (made.map deliveryOf)) :
    InSequence 0 ((made ++ msgs).map deliveryOf) ∧
      reached 0 ((made ++ msgs).map deliveryOf) =
        reached 0 (made.map deliveryOf) + msgs.length := by
  induction msgs generalizing made with
  | nil =>
      rw [List.append_nil]
      exact ⟨hmade, (Int.add_zero _).symm⟩
  | cons msg rest ih =>
      rcases h with ⟨hcommand, _, hindex, hrest⟩
      have hnext : (made ++ [msg]).map deliveryOf = made.map deliveryOf ++
          [.command (reached 0 (made.map deliveryOf) + 1)] := by
        rw [List.map_append, List.map_singleton, deliveryOf_command hcommand, hindex]
      have hreached : reached 0 ((made ++ [msg]).map deliveryOf) =
          reached 0 (made.map deliveryOf) + 1 := by
        rw [hnext, Delivery.reached_command]
      have hmade' : InSequence 0 ((made ++ [msg]).map deliveryOf) := by
        rw [hnext]
        exact hmade.command
      rw [← hreached] at hrest
      rcases ih hrest hmade' with ⟨hsequence, hlast⟩
      rw [List.append_cons]
      refine ⟨hsequence, ?_⟩
      rw [hlast, hreached, List.length_cons]
      push_cast
      omega

theorem commands_of_handsOn {first : Int} {msgs : List ApplyMsg} (h : HandsOn first msgs) :
    (msgs.filter fun msg => msg.commandValid) = msgs := by
  induction msgs generalizing first with
  | nil => rfl
  | cons msg rest ih =>
      rcases h with ⟨hcommand, _, _, hrest⟩
      rw [List.filter_cons_of_pos hcommand, ih hrest]

/-- What was made is in sequence up to the last index applied, and the applier pushes
the commands among it. -/
structure Sequenced (σ : Applier n) : Prop where
  made : InSequence 0 (σ.made.map deliveryOf)
  applied : σ.raft.lastApplied = reached 0 (σ.made.map deliveryOf)
  pushed : σ.pushed ++ σ.applyMsgs = σ.made.filter fun msg => msg.commandValid

/-- Whatever was handed up is applied. -/
theorem Sequenced.handedUp {σ : Applier n} (h : Sequenced σ) {index : Int}
    (hup : HandedUp σ index) : index ≤ σ.raft.lastApplied := by
  have hreached : forall msg, msg ∈ σ.made ->
      (deliveryOf msg).index ≤ reached 0 (σ.made.map deliveryOf) := by
    intro msg hmem
    exact Delivery.index_le_reached (List.mem_map_of_mem hmem)
  rw [h.applied]
  rcases hup with ⟨msg, hmsg, hindex⟩ | ⟨msg, hmsg, hvalid, hindex⟩
  · have hmade : msg ∈ σ.made.filter fun msg => msg.commandValid := by
      rw [← h.pushed]
      exact List.mem_append_left _ hmsg
    rcases List.mem_filter.mp hmade with ⟨hmem, hvalid⟩
    have hle := hreached msg hmem
    rw [deliveryOf_command hvalid] at hle
    exact hindex.trans hle
  · have hle := hreached msg hmsg
    rw [deliveryOf_snapshot hvalid] at hle
    exact hindex.trans hle

theorem Sequenced.step {σ σ' : Applier n} {a : ApplierAction n} (h : Sequenced σ)
    (hstep : Applier.StepEffect σ a σ')
    (hcut : CutsHandedUp { before := σ, action := a, after := σ' }) : Sequenced σ' := by
  cases hstep with
  | handled hsame => exact { h with applied := hsame.trans h.applied }
  | @installed args rf hmax =>
      have hsnapshot : (σ.made ++ [Raft.snapshotMsg args]).map deliveryOf =
          σ.made.map deliveryOf ++ [.snapshot args.lastSnapshotIncludeIndex] := by
        rw [List.map_append]
        rfl
      constructor
      · rw [hsnapshot]
        exact h.made.snapshot _
      · rw [hsnapshot, Delivery.reached_concat, ← h.applied]
        exact hmax
      · rw [List.filter_append]
        exact h.pushed.trans (List.append_nil _).symm
  | refused hsame =>
      rw [List.append_nil]
      exact { h with applied := hsame.trans h.applied }
  | @cut index data rf happlied =>
      have hle : index ≤ σ.raft.lastApplied := h.handedUp hcut
      rcases happlied with hsame | hmax
      · exact { h with applied := hsame.trans h.applied }
      · rw [max_eq_left hle] at hmax
        exact { h with applied := hmax.trans h.applied }
  | @collected rf msgs hempty hrun =>
      rcases getApplyLogs_handsOn hrun with ⟨hhands, hlast⟩
      rw [h.applied] at hhands hlast
      rcases inSequence_of_handsOn hhands h.made with ⟨hsequence, hreached⟩
      constructor
      · exact hsequence
      · exact hlast.trans hreached.symm
      · have hbefore := h.pushed
        rw [hempty, List.append_nil] at hbefore
        rw [List.filter_append, commands_of_handsOn hhands, ← hbefore]
  | @pushedNext msg rest hmsgs =>
      refine { h with pushed := ?_ }
      rw [← h.pushed, hmsgs, List.append_assoc]
      rfl

/-!
# Runs
-/

variable [Archive]

theorem Applier.step_effect {σ σ' : Applier n} {a : ApplierAction n}
    (h : σ.step a = some σ') : StepEffect σ a σ' := by
  cases a with
  | handle handler =>
      simp only [step] at h
      by_cases happlies : handler.applies
      · rw [if_pos happlies] at h
        cases h
      rw [if_neg happlies] at h
      cases hrun : handler.run σ.raft with
      | error fault =>
          rw [hrun] at h
          cases h
      | ok rf =>
          rw [hrun] at h
          cases h
          exact .handled (Handler.run_lastApplied hrun (by simpa using happlies))
  | installSnapshot args =>
      simp only [step] at h
      cases hrun : σ.raft.installSnapshot args with
      | error fault =>
          rw [hrun] at h
          cases h
      | ok result =>
          rcases result with ⟨rf, reply, msg⟩
          rw [hrun] at h
          cases h
          rcases installSnapshot_msg hrun with ⟨rfl, hsame⟩ | ⟨rfl, hmax⟩
          · exact .refused hsame
          · exact .installed hmax
  | snapshot index data =>
      simp only [step] at h
      cases hrun : σ.raft.snapshot index data with
      | error fault =>
          rw [hrun] at h
          cases h
      | ok rf =>
          rw [hrun] at h
          cases h
          exact .cut (snapshot_lastApplied hrun)
  | getApplyLogs =>
      simp only [step] at h
      by_cases hempty : σ.applyMsgs = []
      · rw [if_pos hempty] at h
        cases hrun : σ.raft.getApplyLogs with
        | error fault =>
            rw [hrun] at h
            cases h
        | ok result =>
            rcases result with ⟨rf, msgs⟩
            rw [hrun] at h
            cases h
            exact .collected hempty hrun
      · rw [if_neg hempty] at h
        cases h
  | push =>
      simp only [step] at h
      cases hmsgs : σ.applyMsgs with
      | nil =>
          rw [hmsgs] at h
          cases h
      | cons msg rest =>
          rw [hmsgs] at h
          cases h
          exact .pushedNext hmsgs

theorem sequenced {me : Fin n} {tr : List (Transition (Applier n) (ApplierAction n))}
    {σ : Applier n} (h : (applierSystem me).Trace tr σ)
    (hcuts : forall t, t ∈ tr -> CutsHandedUp t) : Sequenced σ := by
  refine TransitionSystem.Trace.invariant_under (P := fun _ σ => Sequenced σ) ?_ ?_ h hcuts
  · exact { made := InSequence.nil 0, applied := rfl, pushed := rfl }
  · intro tr σ σ' a _ _ ih hstep hlast
    exact ih.step (Applier.step_effect hstep) hlast

/-- Every message of the applier was collected from the log. -/
theorem collected_of_trace {me : Fin n}
    {tr : List (Transition (Applier n) (ApplierAction n))} {σ : Applier n}
    (h : (applierSystem me).Trace tr σ) {msg : ApplyMsg}
    (hmsg : msg ∈ σ.pushed ++ σ.applyMsgs) :
    exists t, t ∈ tr ∧ t.action = .getApplyLogs ∧ msg ∈ t.after.applyMsgs ∧
      exists log, t.before.raft.logAtIndex msg.commandIndex = .ok log ∧
        log.logIndex = msg.commandIndex ∧ log.command = msg.command := by
  induction h with
  | nil => cases hmsg
  | @snoc tr σ σ' a _ hstep ih =>
      have hearlier : msg ∈ σ.pushed ++ σ.applyMsgs ->
          exists t, t ∈ tr ++ [⟨σ, a, σ'⟩] ∧ t.action = .getApplyLogs ∧
            msg ∈ t.after.applyMsgs ∧
            exists log, t.before.raft.logAtIndex msg.commandIndex = .ok log ∧
              log.logIndex = msg.commandIndex ∧ log.command = msg.command := by
        intro hold
        rcases ih hold with ⟨t, ht, hcollected⟩
        exact ⟨t, List.mem_append_left _ ht, hcollected⟩
      cases Applier.step_effect hstep with
      | handled _ => exact hearlier hmsg
      | installed _ => exact hearlier hmsg
      | refused _ => exact hearlier hmsg
      | cut _ => exact hearlier hmsg
      | collected hempty hrun =>
          rcases List.mem_append.mp hmsg with hold | hnew
          · exact hearlier (List.mem_append_left _ hold)
          · exact ⟨_, List.mem_append_right tr (List.mem_singleton_self _), rfl, hnew,
              getApplyLogs_logged hrun hnew⟩
      | pushedNext hmsgs =>
          apply hearlier
          rw [hmsgs, List.append_cons]
          exact hmsg

/-- A server that cuts its log only where it was handed up pushes its commands once and
in sequence. -/
theorem pushed_in_sequence {me : Fin n} (r : (applierSystem me).Run)
    (hcuts : r.Always CutsHandedUp) : PushedInSequence r := by
  have h := sequenced r.valid hcuts
  have hfront : r.state.pushed <+: r.state.made.filter fun msg => msg.commandValid := by
    rw [← h.pushed]
    exact List.prefix_append _ _
  constructor
  · exact hfront
  · apply List.pairwise_map.mpr
    have hmade := List.pairwise_map.mp h.made.pairwise
    have hsub := hfront.sublist.trans List.filter_sublist
    apply (hmade.sublist hsub).imp_of_mem
    intro msg msg' hmsg hmsg' hlt
    have hvalid := (List.mem_filter.mp (hfront.subset hmsg)).2
    have hvalid' := (List.mem_filter.mp (hfront.subset hmsg')).2
    have hindex := hlt _ (deliveryOf_command hvalid')
    rw [deliveryOf_command hvalid] at hindex
    exact hindex
  · intro earlier msg between msg' later hsplit hvalid hvalid' hheld
    have hdeliveries : r.state.made.map deliveryOf = earlier.map deliveryOf ++
        .command msg.commandIndex :: (between.map deliveryOf ++
          .command msg'.commandIndex :: later.map deliveryOf) := by
      rw [hsplit, List.map_append, List.map_cons, List.map_append, List.map_cons,
        deliveryOf_command hvalid, deliveryOf_command hvalid']
    rcases h.made.next hdeliveries with ⟨hnone, hbelow⟩
    constructor
    · rintro rfl
      exact hnone rfl
    · intro held hmem
      have hlt := hbelow _ (List.mem_map_of_mem (f := deliveryOf) hmem)
      rw [deliveryOf_snapshot (hheld held hmem)] at hlt
      exact hlt
  · intro msg hmsg
    exact collected_of_trace r.valid (List.mem_append_left _ hmsg)

end

/-!
# A server that is cut and caught up

Server 1 of three applies a command and cuts its log behind it.  While the next command
is collected but not pushed, a snapshot up to index 4 arrives; then an entry after it.
-/

def cutAndCaughtUp : List (ApplierAction 3) :=
  [.handle (.appendEntries1
      { term := 1
        leaderId := 0
        prevLogIndex := 0
        prevLogTerm := 0
        entries := [⟨[1], 1, 1⟩, ⟨[2], 1, 2⟩]
        leaderCommit := 1 }),
    .getApplyLogs, .push, .snapshot 1 [115],
    .handle (.appendEntries1
      { term := 1
        leaderId := 0
        prevLogIndex := 2
        prevLogTerm := 1
        entries := []
        leaderCommit := 2 }),
    .getApplyLogs,
    .installSnapshot
      { leaderId := 0
        term := 1
        lastSnapshotIncludeIndex := 4
        lastSnapshotIncludeTerm := 1
        data := [116] },
    .push,
    .handle (.appendEntries1
      { term := 1
        leaderId := 0
        prevLogIndex := 4
        prevLogTerm := 1
        entries := [⟨[5], 1, 5⟩]
        leaderCommit := 5 }),
    .getApplyLogs, .push]

def cutAndCaughtUpRun : (@applierSystem plainArchive 3 1).Run :=
  TransitionSystem.runOf _ cutAndCaughtUp (by decide +kernel)

theorem cutAndCaughtUpRun_pushed_in_sequence :
    cutAndCaughtUpRun.state.pushed.map ApplyMsg.commandIndex = [1, 2, 5] ∧
      @PushedInSequence 3 plainArchive 1 cutAndCaughtUpRun := by
  have hcuts : forall t, t ∈ cutAndCaughtUpRun.trace -> CutsHandedUp t := by
    decide +kernel
  exact ⟨by decide +kernel, @pushed_in_sequence 3 plainArchive 1 cutAndCaughtUpRun hcuts⟩

end KvServer
end KVRaft
