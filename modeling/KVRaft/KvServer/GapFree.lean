import KVRaft.KvServer.Delivery
import KVRaft.KvServer.PlainKvArchive

/-!
# Commands reach the key-value server without gaps

Nothing is missing below an executed command, as long as the applier pushes no
command while a thread still holds a snapshot the command comes after.
-/

namespace KVRaft
namespace KvServer

open Foundation RaftCore KvNode
open Foundation.Delivery (Covers GapFree)

variable {n : Nat}

/-!
# What is executed
-/

/-- A command is executed unless the last snapshot covers it. -/
def Executes (t : Transition (KvNode n) (KvAction n)) (k : Int) : Prop :=
  exists msg, msg ∈ received t ∧ msg.commandValid = true ∧ msg.commandIndex = k ∧
    t.before.kv.lastSnapShotRaftLogIndex < k

def InstallsOver (t : Transition (KvNode n) (KvAction n)) (j : Int) : Prop :=
  exists msg, msg ∈ received t ∧ msg.snapshotValid = true ∧ j ≤ msg.snapshotIndex

instance (t : Transition (KvNode n) (KvAction n)) (k : Int) : Decidable (Executes t k) :=
  inferInstanceAs (Decidable
    (exists msg, msg ∈ received t ∧ msg.commandValid = true ∧ msg.commandIndex = k ∧
      t.before.kv.lastSnapShotRaftLogIndex < k))

instance (t : Transition (KvNode n) (KvAction n)) (j : Int) :
    Decidable (InstallsOver t j) :=
  inferInstanceAs (Decidable
    (exists msg, msg ∈ received t ∧ msg.snapshotValid = true ∧ j ≤ msg.snapshotIndex))

def Accounted (tr : List (Transition (KvNode n) (KvAction n))) (j : Int) : Prop :=
  exists t, t ∈ tr ∧ (Executes t j ∨ InstallsOver t j)

/-- Below an executed command everything was executed or covered before. -/
def ExecutesGapFree (tr : List (Transition (KvNode n) (KvAction n))) : Prop :=
  forall earlier t later, tr = earlier ++ t :: later -> forall k, Executes t k ->
    forall j, 1 ≤ j -> j < k -> Accounted earlier j

def deliveryOf (msg : ApplyMsg) : Delivery Int :=
  if msg.commandValid then .command msg.commandIndex else .snapshot msg.snapshotIndex

def KvNode.deliveries (σ : KvNode n) : List (Delivery Int) :=
  σ.pushed.map deliveryOf

/-- The applier pushes no command while a detached thread holds a snapshot below
it that reaches beyond everything pushed so far. -/
def PushesInOrder (t : Transition (KvNode n) (KvAction n)) : Prop :=
  t.action = .push -> forall msg, msg ∈ t.before.applyMsgs.head? ->
    forall held, held ∈ t.before.detached -> held.snapshotIndex < msg.commandIndex ->
      exists d, d ∈ t.before.deliveries ∧ held.snapshotIndex ≤ d.index

instance : DecidablePred (PushesInOrder (n := n)) := fun t =>
  inferInstanceAs (Decidable
    (t.action = .push -> forall msg, msg ∈ t.before.applyMsgs.head? ->
      forall held, held ∈ t.before.detached -> held.snapshotIndex < msg.commandIndex ->
        exists d, d ∈ t.before.deliveries ∧ held.snapshotIndex ≤ d.index))

/-!
# Messages under way
-/

/-- The applier's batch goes on from `first`; whatever it leaves out is pushed or
held by a thread, below it by one whose snapshot is below it too. -/
structure Batch (first : Int) (σ : KvNode n) : Prop where
  handsOn : HandsOn first σ.applyMsgs
  le : first + σ.applyMsgs.length ≤ σ.raft.lastApplied + 1
  below : forall j, 1 ≤ j -> j < first -> Covers σ.deliveries j ∨
    exists held, held ∈ σ.detached ∧ j ≤ held.snapshotIndex ∧ held.snapshotIndex < first
  above : forall j, first + σ.applyMsgs.length ≤ j -> j ≤ σ.raft.lastApplied ->
    Covers σ.deliveries j ∨ exists held, held ∈ σ.detached ∧ j ≤ held.snapshotIndex

structure Underway (σ : KvNode n) : Prop where
  batch : exists first, Batch first σ
  detached : forall msg, msg ∈ σ.detached -> msg.commandValid = false ∧
    msg.snapshotValid = true ∧ msg.snapshotIndex ≤ σ.raft.lastApplied
  channel : forall msg, msg ∈ σ.applyChan -> msg.snapshotValid = !msg.commandValid ∧
    (deliveryOf msg).index ≤ σ.raft.lastApplied
  call : forall index data, σ.snapshotCall = some (index, data) ->
    index ≤ σ.raft.lastApplied
  gapFree : GapFree 1 σ.deliveries

theorem deliveryOf_command {msg : ApplyMsg} (h : msg.commandValid = true) :
    deliveryOf msg = .command msg.commandIndex :=
  if_pos h

theorem deliveryOf_snapshot {msg : ApplyMsg} (h : msg.commandValid = false) :
    deliveryOf msg = .snapshot msg.snapshotIndex := by
  rw [deliveryOf, h]
  rfl

theorem Batch.congr {first : Int} {σ σ' : KvNode n} (h : Batch first σ)
    (hmsgs : σ'.applyMsgs = σ.applyMsgs)
    (happlied : σ'.raft.lastApplied = σ.raft.lastApplied)
    (hcovers : forall j, Covers σ.deliveries j -> Covers σ'.deliveries j)
    (hheld : forall held, held ∈ σ.detached -> held ∈ σ'.detached ∨
      forall j, j ≤ held.snapshotIndex -> Covers σ'.deliveries j) : Batch first σ' where
  handsOn := by
    rw [hmsgs]
    exact h.handsOn
  le := by
    rw [hmsgs, happlied]
    exact h.le
  below := by
    intro j hlo hhi
    rcases h.below j hlo hhi with hold | ⟨held, hmem, hj, hfirst⟩
    · exact Or.inl (hcovers j hold)
    · rcases hheld held hmem with hstill | hnow
      · exact Or.inr ⟨held, hstill, hj, hfirst⟩
      · exact Or.inl (hnow j hj)
  above := by
    rw [hmsgs, happlied]
    intro j hlo hhi
    rcases h.above j hlo hhi with hold | ⟨held, hmem, hj⟩
    · exact Or.inl (hcovers j hold)
    · rcases hheld held hmem with hstill | hnow
      · exact Or.inr ⟨held, hstill, hj⟩
      · exact Or.inl (hnow j hj)

theorem Batch.unchanged {first : Int} {σ σ' : KvNode n} (h : Batch first σ)
    (hmsgs : σ'.applyMsgs = σ.applyMsgs)
    (happlied : σ'.raft.lastApplied = σ.raft.lastApplied)
    (hdeliveries : σ'.deliveries = σ.deliveries) (hdetached : σ'.detached = σ.detached) :
    Batch first σ' := by
  apply h.congr hmsgs happlied
  · intro j hj
    rw [hdeliveries]
    exact hj
  · intro held hmem
    rw [hdetached]
    exact Or.inl hmem

/-- A snapshot that is installed accounts for what it jumps over. -/
theorem Batch.install {first : Int} {σ : KvNode n} (h : Batch first σ) {rf : Raft n}
    {args : InstallSnapshotRequest}
    (hmax : rf.lastApplied = max σ.raft.lastApplied args.lastSnapshotIncludeIndex) :
    Batch first (σ.detach rf (some (Raft.snapshotMsg args))) where
  handsOn := h.handsOn
  le := by
    have hle := h.le
    change first + σ.applyMsgs.length ≤ rf.lastApplied + 1
    omega
  below := by
    intro j hlo hhi
    rcases h.below j hlo hhi with hold | ⟨held, hmem, hj, hfirst⟩
    · exact Or.inl hold
    · exact Or.inr ⟨held, List.mem_append_left _ hmem, hj, hfirst⟩
  above := by
    intro j hlo hhi
    change j ≤ rf.lastApplied at hhi
    by_cases hold : j ≤ σ.raft.lastApplied
    · rcases h.above j hlo hold with hcovers | ⟨held, hmem, hj⟩
      · exact Or.inl hcovers
      · exact Or.inr ⟨held, List.mem_append_left _ hmem, hj⟩
    · right
      refine ⟨Raft.snapshotMsg args,
        List.mem_append_right _ (List.mem_singleton_self _), ?_⟩
      change j ≤ args.lastSnapshotIncludeIndex
      omega

/-- A new batch goes on from the first index not applied. -/
theorem Batch.collect {first : Int} {σ : KvNode n} (h : Batch first σ)
    (hempty : σ.applyMsgs = [])
    (hdetached : forall held, held ∈ σ.detached ->
      held.snapshotIndex ≤ σ.raft.lastApplied)
    {rf : Raft n} {msgs : List ApplyMsg} (hhands : HandsOn (σ.raft.lastApplied + 1) msgs)
    (happlied : rf.lastApplied = σ.raft.lastApplied + msgs.length) :
    Batch (σ.raft.lastApplied + 1) { σ with raft := rf, applyMsgs := msgs } where
  handsOn := hhands
  le := by
    change σ.raft.lastApplied + 1 + msgs.length ≤ rf.lastApplied + 1
    omega
  below := by
    intro j hlo hhi
    by_cases hfirst : j < first
    · rcases h.below j hlo hfirst with hcovers | ⟨held, hmem, hj, _⟩
      · exact Or.inl hcovers
      · exact Or.inr ⟨held, hmem, hj, Int.lt_add_one_of_le (hdetached held hmem)⟩
    · have hbeyond : first + σ.applyMsgs.length ≤ j := by
        rw [hempty, List.length_nil]
        omega
      rcases h.above j hbeyond (by omega) with hcovers | ⟨held, hmem, hj⟩
      · exact Or.inl hcovers
      · exact Or.inr ⟨held, hmem, hj, Int.lt_add_one_of_le (hdetached held hmem)⟩
  above := by
    intro j hlo hhi
    change σ.raft.lastApplied + 1 + msgs.length ≤ j at hlo
    change j ≤ rf.lastApplied at hhi
    omega

theorem deliveries_push (σ : KvNode n) (msgs : List ApplyMsg) (msg : ApplyMsg) :
    ({ σ with applyMsgs := msgs, applyChan := σ.applyChan ++ [msg] } : KvNode n).deliveries =
      σ.deliveries ++ [deliveryOf msg] := by
  simp only [KvNode.deliveries, KvNode.pushed, List.map_append, List.map_cons, List.map_nil,
    List.append_assoc]

theorem deliveries_pushDetached (σ : KvNode n) (detached : List ApplyMsg) (msg : ApplyMsg) :
    ({ σ with detached := detached, applyChan := σ.applyChan ++ [msg] } :
      KvNode n).deliveries = σ.deliveries ++ [deliveryOf msg] := by
  simp only [KvNode.deliveries, KvNode.pushed, List.map_append, List.map_cons, List.map_nil,
    List.append_assoc]

/-- The applier pushes the next command of its batch. -/
theorem Batch.push {first : Int} {σ : KvNode n} (h : Batch first σ) {msg : ApplyMsg}
    {rest : List ApplyMsg} (hmsgs : σ.applyMsgs = msg :: rest) :
    Batch (first + 1) { σ with applyMsgs := rest, applyChan := σ.applyChan ++ [msg] } := by
  have hhands := h.handsOn
  have hlength : (σ.applyMsgs.length : Int) = rest.length + 1 := by
    rw [hmsgs, List.length_cons]
    rfl
  rw [hmsgs] at hhands
  rcases hhands with ⟨hcommand, _, hindex, hrest⟩
  have hmono : forall j, Covers σ.deliveries j -> Covers
      ({ σ with applyMsgs := rest, applyChan := σ.applyChan ++ [msg] } :
        KvNode n).deliveries j := by
    intro j hj
    rw [deliveries_push]
    exact hj.append_left _
  constructor
  · exact hrest
  · have hle := h.le
    change first + 1 + (rest.length : Int) ≤ σ.raft.lastApplied + 1
    omega
  · intro j hlo hhi
    by_cases hj : j < first
    · rcases h.below j hlo hj with hcovers | ⟨held, hmem, hheld, hfirst⟩
      · exact Or.inl (hmono j hcovers)
      · exact Or.inr ⟨held, hmem, hheld, by omega⟩
    · left
      rw [deliveries_push, deliveryOf_command hcommand, hindex,
        show j = first by omega]
      exact Delivery.covers_command first
  · intro j hlo hhi
    change first + 1 + (rest.length : Int) ≤ j at hlo
    rcases h.above j (by omega) hhi with hcovers | ⟨held, hmem, hj⟩
    · exact Or.inl (hmono j hcovers)
    · exact Or.inr ⟨held, hmem, hj⟩

/-- In order, everything below the next command is accounted for when it is pushed. -/
theorem Batch.covers {first : Int} {σ : KvNode n} (h : Batch first σ)
    (hgap : GapFree 1 σ.deliveries)
    (horder : forall held, held ∈ σ.detached -> held.snapshotIndex < first ->
      exists d, d ∈ σ.deliveries ∧ held.snapshotIndex ≤ d.index)
    {j : Int} (hlo : 1 ≤ j) (hhi : j < first) : Covers σ.deliveries j := by
  rcases h.below j hlo hhi with hcovers | ⟨held, hmem, hj, hfirst⟩
  · exact hcovers
  · rcases horder held hmem hfirst with ⟨d, hd, hle⟩
    exact hgap.covers hd hlo (hj.trans hle)

/-!
# One step
-/

/-!
What was handed out stays within what is applied, which never becomes less.
-/

section

variable {σ : KvNode n} {applied : Int} {msg : ApplyMsg}

theorem Underway.detached_le (h : Underway σ) (hle : σ.raft.lastApplied ≤ applied)
    (hmsg : msg ∈ σ.detached) : msg.commandValid = false ∧ msg.snapshotValid = true ∧
      msg.snapshotIndex ≤ applied := by
  rcases h.detached msg hmsg with ⟨hcommand, hsnapshot, hindex⟩
  exact ⟨hcommand, hsnapshot, hindex.trans hle⟩

theorem Underway.channel_le (h : Underway σ) (hle : σ.raft.lastApplied ≤ applied)
    (hmsg : msg ∈ σ.applyChan) :
    msg.snapshotValid = !msg.commandValid ∧ (deliveryOf msg).index ≤ applied := by
  rcases h.channel msg hmsg with ⟨hvalid, hindex⟩
  exact ⟨hvalid, hindex.trans hle⟩

theorem Underway.call_le (h : Underway σ) (hle : σ.raft.lastApplied ≤ applied) {index : Int}
    {data : Bytes} (hcall : σ.snapshotCall = some (index, data)) : index ≤ applied :=
  (h.call index data hcall).trans hle

end

/-- A step of the node that leaves the messages alone. -/
theorem Underway.setRaft {σ : KvNode n} (h : Underway σ) {rf : Raft n}
    (happlied : rf.lastApplied = σ.raft.lastApplied) : Underway { σ with raft := rf } where
  batch := by
    rcases h.batch with ⟨first, hbatch⟩
    exact ⟨first, hbatch.unchanged rfl happlied rfl rfl⟩
  detached _ hmsg := h.detached_le happlied.ge hmsg
  channel _ hmsg := h.channel_le happlied.ge hmsg
  call _ _ hcall := h.call_le happlied.ge hcall
  gapFree := h.gapFree

theorem Underway.setKv {σ : KvNode n} (h : Underway σ) (kv : KvServer) :
    Underway { σ with kv := kv } where
  batch := by
    rcases h.batch with ⟨first, hbatch⟩
    exact ⟨first, hbatch.unchanged rfl rfl rfl rfl⟩
  detached := h.detached
  channel := h.channel
  call := h.call
  gapFree := h.gapFree

/-- The loop takes snapshots at indices that were applied. -/
theorem Underway.compact {σ : KvNode n} (h : Underway σ) {index : Int} {data : Bytes}
    (hcall : σ.snapshotCall = some (index, data)) {rf : Raft n}
    (happlied : rf.lastApplied = σ.raft.lastApplied ∨
      rf.lastApplied = max σ.raft.lastApplied index) :
    Underway { σ with raft := rf, snapshotCall := none } := by
  have hle := h.call index data hcall
  have hset := h.setRaft (show rf.lastApplied = σ.raft.lastApplied by omega)
  rcases hset.batch with ⟨first, hbatch⟩
  constructor
  · exact ⟨first, hbatch.unchanged rfl rfl rfl rfl⟩
  · exact hset.detached
  · exact hset.channel
  · intro other data hnone
    cases hnone
  · exact hset.gapFree

theorem Underway.install {σ : KvNode n} (h : Underway σ) {rf : Raft n}
    {args : InstallSnapshotRequest}
    (hmax : rf.lastApplied = max σ.raft.lastApplied args.lastSnapshotIncludeIndex) :
    Underway (σ.detach rf (some (Raft.snapshotMsg args))) where
  batch := by
    rcases h.batch with ⟨first, hbatch⟩
    exact ⟨first, hbatch.install hmax⟩
  detached := by
    intro msg hmsg
    change _ ∧ _ ∧ msg.snapshotIndex ≤ rf.lastApplied
    rcases List.mem_append.mp hmsg with hold | hnew
    · exact h.detached_le (by omega) hold
    · rw [List.mem_singleton.mp hnew]
      refine ⟨rfl, rfl, ?_⟩
      change args.lastSnapshotIncludeIndex ≤ rf.lastApplied
      omega
  channel _ hmsg := h.channel_le (show σ.raft.lastApplied ≤ rf.lastApplied by omega) hmsg
  call _ _ hcall := h.call_le (show σ.raft.lastApplied ≤ rf.lastApplied by omega) hcall
  gapFree := h.gapFree

theorem Underway.collect {σ : KvNode n} (h : Underway σ) (hempty : σ.applyMsgs = [])
    {rf : Raft n} {msgs : List ApplyMsg} (hhands : HandsOn (σ.raft.lastApplied + 1) msgs)
    (happlied : rf.lastApplied = σ.raft.lastApplied + msgs.length) :
    Underway { σ with raft := rf, applyMsgs := msgs } where
  batch := by
    rcases h.batch with ⟨first, hbatch⟩
    exact ⟨_, hbatch.collect hempty (fun held hmem => (h.detached held hmem).2.2) hhands
      happlied⟩
  detached _ hmsg := h.detached_le (show σ.raft.lastApplied ≤ rf.lastApplied by omega) hmsg
  channel _ hmsg := h.channel_le (show σ.raft.lastApplied ≤ rf.lastApplied by omega) hmsg
  call _ _ hcall := h.call_le (show σ.raft.lastApplied ≤ rf.lastApplied by omega) hcall
  gapFree := h.gapFree

theorem Underway.push {σ : KvNode n} (h : Underway σ) {msg : ApplyMsg}
    {rest : List ApplyMsg} (hmsgs : σ.applyMsgs = msg :: rest)
    (horder : forall held, held ∈ σ.detached -> held.snapshotIndex < msg.commandIndex ->
      exists d, d ∈ σ.deliveries ∧ held.snapshotIndex ≤ d.index) :
    Underway { σ with applyMsgs := rest, applyChan := σ.applyChan ++ [msg] } := by
  rcases h.batch with ⟨first, hbatch⟩
  have hhands := hbatch.handsOn
  have hle := hbatch.le
  rw [hmsgs] at hhands hle
  rcases hhands with ⟨hcommand, hsnapshot, hindex, _⟩
  rw [List.length_cons] at hle
  push_cast at hle
  rw [hindex] at horder
  constructor
  · exact ⟨first + 1, hbatch.push hmsgs⟩
  · exact h.detached
  · intro other hmem
    rcases List.mem_append.mp hmem with hold | hnew
    · exact h.channel other hold
    · rw [List.mem_singleton.mp hnew, deliveryOf_command hcommand, hcommand, hsnapshot]
      refine ⟨rfl, ?_⟩
      change msg.commandIndex ≤ σ.raft.lastApplied
      omega
  · exact h.call
  · rw [deliveries_push]
    apply h.gapFree.concat
    intro k hk j hlo hhi
    rw [deliveryOf_command hcommand, hindex] at hk
    cases hk
    exact hbatch.covers h.gapFree horder hlo hhi

theorem Underway.pushDetached {σ : KvNode n} (h : Underway σ) {thread : Nat}
    {msg : ApplyMsg} (hthread : σ.detached[thread]? = some msg) :
    Underway
      { σ with
        detached := σ.detached.eraseIdx thread
        applyChan := σ.applyChan ++ [msg] } := by
  rcases h.batch with ⟨first, hbatch⟩
  rcases h.detached msg (List.mem_of_getElem? hthread) with ⟨hcommand, hsnapshot, hle⟩
  constructor
  · refine ⟨first, hbatch.congr rfl rfl ?_ ?_⟩
    · intro j hj
      rw [deliveries_pushDetached]
      exact hj.append_left _
    · intro held hmem
      by_cases hsame : held = msg
      · right
        intro j hj
        rw [deliveries_pushDetached, deliveryOf_snapshot hcommand, ← hsame]
        exact Delivery.covers_snapshot hj
      · left
        rcases List.mem_iff_getElem?.mp hmem with ⟨k, hk⟩
        apply List.mem_eraseIdx_iff_getElem?.mpr
        refine ⟨k, ?_, hk⟩
        intro hthreads
        rw [hthreads, hthread] at hk
        exact hsame (Option.some.inj hk).symm
  · intro other hmem
    exact h.detached other (List.mem_of_mem_eraseIdx hmem)
  · intro other hmem
    rcases List.mem_append.mp hmem with hold | hnew
    · exact h.channel other hold
    · rw [List.mem_singleton.mp hnew, deliveryOf_snapshot hcommand, hcommand, hsnapshot]
      exact ⟨rfl, hle⟩
  · exact h.call
  · rw [deliveries_pushDetached]
    apply h.gapFree.concat
    intro k hk
    rw [deliveryOf_snapshot hcommand] at hk
    cases hk

/-!
# The loop
-/

section

variable [KvArchive]

theorem getCommandFromRaft_lastSnapShot {kv kv' : KvServer} {size : Int} {msg : ApplyMsg}
    {call : Option (Int × Bytes)} (h : kv.getCommandFromRaft size msg = some (kv', call)) :
    kv'.lastSnapShotRaftLogIndex = kv.lastSnapShotRaftLogIndex ∧
      forall index data, call = some (index, data) -> index = msg.commandIndex := by
  unfold getCommandFromRaft at h
  rcases Option.bind_eq_some_iff.mp h with ⟨op, _, h⟩
  by_cases hold : msg.commandIndex ≤ kv.lastSnapShotRaftLogIndex
  · rw [if_pos hold] at h
    cases h
    exact ⟨rfl, by intro index data hcall; cases hcall⟩
  rw [if_neg hold] at h
  cases h
  constructor
  · rw [sendMessageToWaitChan_eq]
    exact executeUnless_lastSnapShot kv op _
  · intro index data hcall
    by_cases hlimited : (kv.executeUnless op
        (kv.ifRequestDuplicate op.clientId op.requestId)).maxRaftState ≠ -1
    · rw [if_pos hlimited] at hcall
      exact ifNeedToSendSnapShotCommand_index hcall
    · rw [if_neg hlimited] at hcall
      cases hcall

theorem getSnapShotFromRaft_lastSnapShot {kv kv' : KvServer} {rf : Raft n} {msg : ApplyMsg}
    (h : kv.getSnapShotFromRaft rf msg = some kv') :
    kv'.lastSnapShotRaftLogIndex = msg.snapshotIndex := by
  have hcond : rf.condInstallSnapshot msg.snapshotTerm msg.snapshotIndex msg.snapshot =
      true := rfl
  unfold getSnapShotFromRaft at h
  rw [if_pos hcond] at h
  rcases Option.map_eq_some_iff.mp h with ⟨kv1, _, rfl⟩
  rfl

theorem Underway.consume {σ : KvNode n} (h : Underway σ) {msg : ApplyMsg}
    {rest : List ApplyMsg} (hchan : σ.applyChan = msg :: rest) {kv : KvServer}
    {call : Option (Int × Bytes)}
    (hread : σ.kv.readRaftApplyCommandLoop σ.raft msg = some (kv, call)) :
    Underway
      { σ with
        kv := kv
        applyChan := rest
        snapshotCall := call
        consumed := σ.consumed ++ [msg] } := by
  rcases h.batch with ⟨first, hbatch⟩
  have hmem : msg ∈ σ.applyChan := by
    rw [hchan]
    exact List.mem_cons_self
  rcases h.channel msg hmem with ⟨hvalid, hle⟩
  have hpushed : σ.consumed ++ [msg] ++ rest = σ.consumed ++ σ.applyChan := by
    rw [hchan, List.append_assoc]
    rfl
  have hdeliveries : (σ.consumed ++ [msg] ++ rest).map deliveryOf = σ.deliveries :=
    congrArg (List.map deliveryOf) hpushed
  constructor
  · exact ⟨first, hbatch.unchanged rfl rfl hdeliveries rfl⟩
  · exact h.detached
  · intro other hother
    apply h.channel
    rw [hchan]
    exact List.mem_cons_of_mem msg hother
  · intro index data hcall
    change call = some (index, data) at hcall
    change index ≤ σ.raft.lastApplied
    cases hcommand : msg.commandValid with
    | true =>
        rw [hcommand] at hvalid
        rw [deliveryOf_command hcommand] at hle
        have hget := loop_command hcommand hvalid hread
        rw [(getCommandFromRaft_lastSnapShot hget).2 index data hcall]
        exact hle
    | false =>
        rw [hcommand] at hvalid
        rw [(loop_snapshot hcommand hvalid hread).2] at hcall
        cases hcall
  · change GapFree 1 ((σ.consumed ++ [msg] ++ rest).map deliveryOf)
    rw [hdeliveries]
    exact h.gapFree

variable [Archive]

theorem Underway.initial (me : Fin n) (maxRaftState : Int) :
    Underway (kvSystem me maxRaftState).init where
  batch := by
    refine ⟨1, trivial, le_refl _, ?_, ?_⟩
    · intro j hlo hhi
      exact absurd hlo (not_le.mpr hhi)
    · intro j hlo hhi
      change j ≤ 0 at hhi
      change 1 + 0 ≤ j at hlo
      omega
  detached := by
    intro msg hmsg
    cases hmsg
  channel := by
    intro msg hmsg
    cases hmsg
  call := by
    intro index data hcall
    cases hcall
  gapFree := GapFree.nil 1

omit [Archive] in
theorem Underway.step {σ σ' : KvNode n} {a : KvAction n} (h : Underway σ)
    (heffect : StepEffect σ a σ')
    (horder : PushesInOrder { before := σ, action := a, after := σ' }) : Underway σ' := by
  cases heffect with
  | handle happlied => exact h.setRaft happlied
  | installed hmax => exact h.install hmax
  | refused happlied => exact h.setRaft happlied
  | collected hempty hhands happlied => exact h.collect hempty hhands happlied
  | pushedNext hmsgs =>
      apply h.push hmsgs
      intro held hmem hlt
      refine horder rfl _ ?_ held hmem hlt
      rw [hmsgs]
      exact rfl
  | pushedDetached hthread => exact h.pushDetached hthread
  | consumedNext _ hchan hread => exact h.consume hchan hread
  | compacted hcall happlied => exact h.compact hcall happlied
  | served _ _ => exact h.setKv _

/-!
# What the loop has been told
-/

omit [Archive] [KvArchive] in
theorem Accounted.append_left {tr : List (Transition (KvNode n) (KvAction n))} {j : Int}
    (h : Accounted tr j) (tr' : List (Transition (KvNode n) (KvAction n))) :
    Accounted (tr ++ tr') j := by
  rcases h with ⟨t, ht, hold⟩
  exact ⟨t, List.mem_append_left _ ht, hold⟩

omit [Archive] [KvArchive] in
theorem ExecutesGapFree.concat {tr : List (Transition (KvNode n) (KvAction n))}
    {t : Transition (KvNode n) (KvAction n)} (h : ExecutesGapFree tr)
    (hnew : forall k, Executes t k -> forall j, 1 ≤ j -> j < k -> Accounted tr j) :
    ExecutesGapFree (tr ++ [t]) := by
  intro earlier u later hsplit
  rcases split_concat hsplit with ⟨rfl, rfl⟩ | ⟨rest, _, hold⟩
  · exact hnew
  · exact h earlier u rest hold

/-- What was consumed, and what the last snapshot covers, is accounted for. -/
structure Told (tr : List (Transition (KvNode n) (KvAction n))) (σ : KvNode n) : Prop where
  consumed : forall j, 1 ≤ j -> Covers (σ.consumed.map deliveryOf) j -> Accounted tr j
  snapshot : forall j, 1 ≤ j -> j ≤ σ.kv.lastSnapShotRaftLogIndex -> Accounted tr j
  gapFree : ExecutesGapFree tr

theorem Told.initial (me : Fin n) (maxRaftState : Int) :
    Told [] (kvSystem me maxRaftState).init where
  consumed := by
    intro j _ hcovers
    rcases hcovers with hmem | ⟨s, hmem, _⟩
    · cases hmem
    · cases hmem
  snapshot := by
    intro j hlo hhi
    change j ≤ 0 at hhi
    omega
  gapFree := by
    intro earlier t later hsplit
    cases earlier with
    | nil => cases hsplit
    | cons u rest => cases hsplit

omit [Archive] [KvArchive] in
/-- Every other step leaves that as it is. -/
theorem Told.other {tr : List (Transition (KvNode n) (KvAction n))} {σ σ' : KvNode n}
    (h : Told tr σ) {a : KvAction n} (ha : a ≠ .readRaftApplyCommandLoop)
    (hconsumed : σ'.consumed = σ.consumed)
    (hsnapshot : σ'.kv.lastSnapShotRaftLogIndex = σ.kv.lastSnapShotRaftLogIndex) :
    Told (tr ++ [{ before := σ, action := a, after := σ' }]) σ' where
  consumed := by
    rw [hconsumed]
    intro j hlo hcovers
    exact (h.consumed j hlo hcovers).append_left _
  snapshot := by
    rw [hsnapshot]
    intro j hlo hhi
    exact (h.snapshot j hlo hhi).append_left _
  gapFree := by
    apply h.gapFree.concat
    rintro k ⟨msg, hmsg, _⟩
    rw [received, if_neg ha] at hmsg
    cases hmsg

omit [Archive] in
theorem Told.consume {tr : List (Transition (KvNode n) (KvAction n))} {σ σ' : KvNode n}
    (h : Told tr σ) (hunder : Underway σ) {msg : ApplyMsg} {rest : List ApplyMsg}
    (hchan : σ.applyChan = msg :: rest) {call : Option (Int × Bytes)}
    (hread : σ.kv.readRaftApplyCommandLoop σ.raft msg = some (σ'.kv, call))
    (hconsumed : σ'.consumed = σ.consumed ++ [msg]) :
    Told (tr ++ [{ before := σ, action := .readRaftApplyCommandLoop, after := σ' }]) σ' := by
  have hmem : msg ∈ σ.applyChan := by
    rw [hchan]
    exact List.mem_cons_self
  have hvalid := (hunder.channel msg hmem).1
  have hreceived : received
      { before := σ, action := .readRaftApplyCommandLoop, after := σ' } = some msg := by
    rw [received, if_pos rfl, hchan]
    rfl
  have hdeliveries : σ.deliveries =
      σ.consumed.map deliveryOf ++ deliveryOf msg :: rest.map deliveryOf := by
    rw [KvNode.deliveries, KvNode.pushed, hchan, List.map_append, List.map_cons]
  have hcovers : forall j, Covers (σ'.consumed.map deliveryOf) j ->
      Covers (σ.consumed.map deliveryOf) j ∨ Covers [deliveryOf msg] j := by
    intro j hj
    rw [hconsumed, List.map_append, List.map_singleton] at hj
    rcases hj with hcommand | ⟨s, hsnapshot, hle⟩
    · rcases List.mem_append.mp hcommand with hold | hnew
      · exact Or.inl (Or.inl hold)
      · exact Or.inr (Or.inl hnew)
    · rcases List.mem_append.mp hsnapshot with hold | hnew
      · exact Or.inl (Or.inr ⟨s, hold, hle⟩)
      · exact Or.inr (Or.inr ⟨s, hnew, hle⟩)
  cases hcommand : msg.commandValid with
  | true =>
      rw [hcommand] at hvalid
      have hlast := (getCommandFromRaft_lastSnapShot
        (loop_command hcommand hvalid hread)).1
      constructor
      · intro j hlo hj
        rcases hcovers j hj with hold | hnew
        · exact (h.consumed j hlo hold).append_left _
        rw [deliveryOf_command hcommand] at hnew
        rcases hnew with hmsg | ⟨s, hmsg, _⟩
        · cases List.mem_singleton.mp hmsg
          by_cases hskip : msg.commandIndex ≤ σ.kv.lastSnapShotRaftLogIndex
          · exact (h.snapshot _ hlo hskip).append_left _
          · exact ⟨_, List.mem_append_right tr (List.mem_singleton_self _),
              Or.inl ⟨msg, hreceived, hcommand, rfl, not_le.mp hskip⟩⟩
        · cases List.mem_singleton.mp hmsg
      · rw [hlast]
        intro j hlo hhi
        exact (h.snapshot j hlo hhi).append_left _
      · apply h.gapFree.concat
        rintro k ⟨other, hother, _, hk, _⟩ j hlo hhi
        rw [hreceived] at hother
        cases hother
        rw [deliveryOf_command hcommand, hk] at hdeliveries
        exact h.consumed j hlo (hunder.gapFree _ k _ hdeliveries j hlo hhi)
  | false =>
      rw [hcommand] at hvalid
      have hlast := getSnapShotFromRaft_lastSnapShot
        (loop_snapshot hcommand hvalid hread).1
      have hinstalls : forall j, j ≤ msg.snapshotIndex -> Accounted
          (tr ++ [{ before := σ, action := .readRaftApplyCommandLoop, after := σ' }]) j := by
        intro j hj
        exact ⟨_, List.mem_append_right tr (List.mem_singleton_self _),
          Or.inr ⟨msg, hreceived, hvalid, hj⟩⟩
      constructor
      · intro j hlo hj
        rcases hcovers j hj with hold | hnew
        · exact (h.consumed j hlo hold).append_left _
        rw [deliveryOf_snapshot hcommand] at hnew
        rcases hnew with hmsg | ⟨s, hmsg, hle⟩
        · cases List.mem_singleton.mp hmsg
        · cases List.mem_singleton.mp hmsg
          exact hinstalls j hle
      · rw [hlast]
        intro j _ hhi
        exact hinstalls j hhi
      · apply h.gapFree.concat
        rintro k ⟨other, hother, hvalid', _⟩
        rw [hreceived] at hother
        cases hother
        rw [hcommand] at hvalid'
        cases hvalid'

omit [Archive] in
theorem Told.step {tr : List (Transition (KvNode n) (KvAction n))} {σ σ' : KvNode n}
    {a : KvAction n} (h : Told tr σ) (hunder : Underway σ) (heffect : StepEffect σ a σ') :
    Told (tr ++ [{ before := σ, action := a, after := σ' }]) σ' := by
  cases heffect with
  | handle _ => exact h.other (by intro ha; cases ha) rfl rfl
  | installed _ => exact h.other (by intro ha; cases ha) rfl rfl
  | refused _ => exact h.other (by intro ha; cases ha) rfl rfl
  | collected _ _ _ => exact h.other (by intro ha; cases ha) rfl rfl
  | pushedNext _ => exact h.other (by intro ha; cases ha) rfl rfl
  | pushedDetached _ => exact h.other (by intro ha; cases ha) rfl rfl
  | consumedNext _ hchan hread => exact h.consume hunder hchan hread rfl
  | compacted _ _ => exact h.other (by intro ha; cases ha) rfl rfl
  | served ha hlast => exact h.other ha rfl hlast

/-!
# The result
-/

theorem underway_told {me : Fin n} {maxRaftState : Int}
    {tr : List (Transition (KvNode n) (KvAction n))} {σ : KvNode n}
    (h : (kvSystem me maxRaftState).Trace tr σ)
    (horder : forall t, t ∈ tr -> PushesInOrder t) : Underway σ ∧ Told tr σ := by
  refine TransitionSystem.Trace.invariant_under (P := fun tr σ => Underway σ ∧ Told tr σ)
    ⟨Underway.initial me maxRaftState, Told.initial me maxRaftState⟩ ?_ h horder
  rintro tr σ σ' a _ _ ⟨hunder, htold⟩ hstep hnow
  have heffect := step_effect hstep
  exact ⟨hunder.step heffect hnow, htold.step hunder heffect⟩

theorem gap_free_delivery {me : Fin n} {maxRaftState : Int}
    (r : (kvSystem me maxRaftState).Run) (horder : r.Always PushesInOrder) :
    ExecutesGapFree r.trace :=
  (underway_told r.valid horder).2.gapFree

end

/-!
# A command that overtakes a snapshot

The node of a follower takes over a snapshot up to entry 2 and learns that entry 3
is committed.  The applier pushes entry 3 before the detached thread pushes the
snapshot.
-/

def putRequestOf (requestId : Int) : Op where
  operation := .put
  key := [120]
  value := [requestId.toNat.toUInt8]
  clientId := [65]
  requestId := requestId

def entryOf (index : Int) : LogEntry where
  command := putOp (putRequestOf index)
  logTerm := 1
  logIndex := index

def appendOf (prevLogIndex prevLogTerm : Int) (entries : List LogEntry) (commit : Int) :
    KvAction 3 :=
  .handle (.appendEntries1
    { term := 1
      leaderId := 1
      prevLogIndex := prevLogIndex
      prevLogTerm := prevLogTerm
      entries := entries
      leaderCommit := commit })

def installOf (index : Int) (data : Bytes) : KvAction 3 :=
  .installSnapshot
    { leaderId := 1
      term := 1
      lastSnapshotIncludeIndex := index
      lastSnapshotIncludeTerm := 1
      data := data }

/-- The server that made the snapshot had executed the first two entries. -/
def snapshotOfTwo : Bytes :=
  @makeSnapShot plainKvArchive
    (((create (-1)).execute (putRequestOf 1)).execute (putRequestOf 2))

def overtakingSchedule : List (KvAction 3) :=
  [appendOf 0 0 [entryOf 1, entryOf 2, entryOf 3] 0, installOf 2 snapshotOfTwo,
    appendOf 3 1 [] 3, .getApplyLogs, .push, .readRaftApplyCommandLoop]

def overtakingRun : (@kvSystem plainArchive plainKvArchive 3 0 (-1)).Run :=
  TransitionSystem.runOf _ overtakingSchedule (by decide +kernel)

theorem overtakingRun_leaves_gap : ¬ ExecutesGapFree overtakingRun.trace := by
  intro h
  obtain ⟨hne, hexecutes⟩ : exists hne : overtakingRun.trace ≠ [],
      Executes (overtakingRun.trace.getLast hne) 3 :=
    ⟨by decide +kernel, by decide +kernel⟩
  have hmissing : forall t, t ∈ overtakingRun.trace.dropLast ->
      ¬ (Executes t 1 ∨ InstallsOver t 1) := by
    decide +kernel
  rcases h _ _ [] (List.dropLast_concat_getLast hne).symm 3 hexecutes 1 (by decide)
    (by decide) with ⟨t, ht, haccounts⟩
  exact hmissing t ht haccounts

def snapshotFirstSchedule : List (KvAction 3) :=
  [appendOf 0 0 [entryOf 1, entryOf 2, entryOf 3] 0, installOf 2 snapshotOfTwo,
    .pushMsgToKvServer 0, appendOf 3 1 [] 3, .getApplyLogs, .push,
    .readRaftApplyCommandLoop, .readRaftApplyCommandLoop]

def snapshotFirstRun : (@kvSystem plainArchive plainKvArchive 3 0 (-1)).Run :=
  TransitionSystem.runOf _ snapshotFirstSchedule (by decide +kernel)

/-- The snapshot is pushed first. -/
theorem snapshotFirstRun_gap_free : ExecutesGapFree snapshotFirstRun.trace := by
  have horder : forall t, t ∈ snapshotFirstRun.trace -> PushesInOrder t := by
    decide +kernel
  exact @gap_free_delivery 3 plainKvArchive plainArchive 0 (-1) snapshotFirstRun horder

end KvServer
end KVRaft
