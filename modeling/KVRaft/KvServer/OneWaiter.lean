import KVRaft.Foundation.Lists
import KVRaft.KvServer.WaitChannels

/-!
# One waiter for an index

The last index of a node never goes back and every `Start` gives out a new one.  A
channel is therefore there exactly while the one call with its index waits on it.
-/

namespace KVRaft
namespace KvServer

open Foundation RaftCore

/-- The index a call has been given; -1 before `Start` and where it was refused. -/
def Phase.raftIndex : Phase -> Int
  | .sent => -1
  | .started raftIndex => raftIndex
  | .waiting raftIndex => raftIndex
  | .reading raftIndex => raftIndex
  | .answered raftIndex _ => raftIndex
  | .replied raftIndex _ => raftIndex

/-- Between creating the channel and deleting it. -/
def Phase.isOpen : Phase -> Bool
  | .waiting _ => true
  | .reading _ => true
  | .answered _ _ => true
  | _ => false

/-- Given an index and not yet replied. -/
def Phase.isActive : Phase -> Bool
  | .started _ => true
  | phase => phase.isOpen

theorem Phase.isActive_of_isOpen {phase : Phase} (h : phase.isOpen = true) :
    phase.isActive = true := by
  cases phase with
  | started raftIndex => rfl
  | _ => exact h

/-- What the loop does to a channel: it pushes, and never creates or deletes one. -/
inductive Pushed : Option (List Op) -> Option (List Op) -> Prop where
  | absent : Pushed none none
  | more (chan ops : List Op) : Pushed (some chan) (some (chan ++ ops))

theorem Pushed.refl (channel : Option (List Op)) : Pushed channel channel := by
  cases channel with
  | none => exact .absent
  | some chan =>
      have h := Pushed.more chan []
      rw [List.append_nil] at h
      exact h

theorem Pushed.isSome {channel channel' : Option (List Op)} (h : Pushed channel channel') :
    channel'.isSome = channel.isSome := by
  cases h with
  | absent => rfl
  | more chan ops => rfl

/-!
# What is asked of states and steps
-/

section

variable {n : Nat}

def CallNode.channel (σ : CallNode n) (i : Int) : Option (List Op) :=
  σ.kv.waitApplyCh.lookup i

structure OneWaiter (σ : CallNode n) : Prop where
  distinct : forall (a b : Nat) (call call' : ClientCall), σ.calls[a]? = some call ->
    σ.calls[b]? = some call' -> call.phase.raftIndex = call'.phase.raftIndex ->
    call.phase.raftIndex ≠ -1 -> a = b
  channel : forall i, (σ.channel i).isSome <->
    exists (a : Nat) (call : ClientCall), σ.calls[a]? = some call ∧
      call.phase.isOpen = true ∧ call.phase.raftIndex = i

/-- The steps of a call create, find and delete its channel; the others push to it. -/
structure OwnChannel (t : Transition (CallNode n) (CallAction n)) : Prop where
  created : forall a call, t.before.calls[a]? = some call ->
    t.action = .handle a .openWaitChan ->
      t.before.channel call.phase.raftIndex = none ∧
        t.after.channel call.phase.raftIndex = some []
  popped : forall a call, t.before.calls[a]? = some call ->
    t.action = .handle a .timeOutPop ->
      exists op chan, t.before.channel call.phase.raftIndex = some (op :: chan) ∧
        t.after.channel call.phase.raftIndex = some chan
  deleted : forall a call, t.before.calls[a]? = some call ->
    t.action = .handle a .closeWaitChan ->
      (t.before.channel call.phase.raftIndex).isSome ∧
        t.after.channel call.phase.raftIndex = none
  others : forall a call, t.before.calls[a]? = some call ->
    call.phase.raftIndex ≠ -1 -> t.action.caller ≠ some a ->
      Pushed (t.before.channel call.phase.raftIndex)
        (t.after.channel call.phase.raftIndex)

end

/-!
# The loop
-/

section

theorem sendMessageToWaitChan_pushed (kv : KvServer) (op : Op) (raftIndex i : Int) :
    Pushed (kv.waitApplyCh.lookup i)
      ((kv.sendMessageToWaitChan op raftIndex).waitApplyCh.lookup i) := by
  unfold sendMessageToWaitChan
  cases hchan : kv.waitApplyCh.lookup raftIndex with
  | none => exact .refl _
  | some chan =>
      by_cases hi : i = raftIndex
      · change Pushed _ ((kv.waitApplyCh.insert raftIndex (chan ++ [op])).lookup i)
        rw [hi, AList.lookup_insert, hchan]
        exact .more chan [op]
      · change Pushed _ ((kv.waitApplyCh.insert raftIndex (chan ++ [op])).lookup i)
        rw [AList.lookup_insert_ne hi]
        exact .refl _

variable [KvArchive]

theorem getCommandFromRaft_pushed {kv kv' : KvServer} {raftStateSize : Int}
    {message : ApplyMsg} {called : Option (Int × Bytes)}
    (h : kv.getCommandFromRaft raftStateSize message = some (kv', called)) (i : Int) :
    Pushed (kv.waitApplyCh.lookup i) (kv'.waitApplyCh.lookup i) := by
  unfold getCommandFromRaft at h
  rcases Option.bind_eq_some_iff.mp h with ⟨op, _, h⟩
  by_cases hold : message.commandIndex ≤ kv.lastSnapShotRaftLogIndex
  · rw [if_pos hold] at h
    cases h
    exact .refl _
  · rw [if_neg hold] at h
    cases h
    have hpushed := sendMessageToWaitChan_pushed
      (kv.executeUnless op (kv.ifRequestDuplicate op.clientId op.requestId)) op
      message.commandIndex i
    rw [executeUnless_waitApplyCh] at hpushed
    exact hpushed

theorem getSnapShotFromRaft_waitApplyCh {n : Nat} {kv kv' : KvServer} {rf : Raft n}
    {message : ApplyMsg} (h : kv.getSnapShotFromRaft rf message = some kv') :
    kv'.waitApplyCh = kv.waitApplyCh := by
  have hcond : rf.condInstallSnapshot message.snapshotTerm message.snapshotIndex
      message.snapshot = true := rfl
  unfold getSnapShotFromRaft at h
  rw [if_pos hcond] at h
  rcases Option.map_eq_some_iff.mp h with ⟨kv1, hread, rfl⟩
  change kv1.waitApplyCh = _
  unfold readSnapShotToInstall at hread
  by_cases hempty : message.snapshot.isEmpty
  · rw [if_pos hempty] at hread
    cases hread
    rfl
  · rw [if_neg hempty] at hread
    unfold parseFromString at hread
    rcases Option.bind_eq_some_iff.mp hread with ⟨archive, _, hread⟩
    rcases Option.bind_eq_some_iff.mp hread with ⟨loaded, _, hread⟩
    cases hread
    rfl

theorem readRaftApplyCommandLoop_pushed {n : Nat} {kv kv' : KvServer} {rf : Raft n}
    {message : ApplyMsg} {called : Option (Int × Bytes)}
    (h : kv.readRaftApplyCommandLoop rf message = some (kv', called)) (i : Int) :
    Pushed (kv.waitApplyCh.lookup i) (kv'.waitApplyCh.lookup i) := by
  unfold readRaftApplyCommandLoop at h
  cases hcommand : message.commandValid with
  | true =>
      simp only [hcommand, if_true] at h
      rcases Option.bind_eq_some_iff.mp h with ⟨⟨kv1, call⟩, hfirst, h⟩
      have hpushed := getCommandFromRaft_pushed hfirst i
      cases hsnapshot : message.snapshotValid with
      | true =>
          simp only [hsnapshot, if_true] at h
          rcases Option.bind_eq_some_iff.mp h with ⟨kv2, hsecond, h⟩
          cases h
          rw [getSnapShotFromRaft_waitApplyCh hsecond]
          exact hpushed
      | false =>
          simp only [hsnapshot, if_neg Bool.false_ne_true] at h
          cases h
          exact hpushed
  | false =>
      simp only [hcommand, if_neg Bool.false_ne_true] at h
      rcases Option.bind_eq_some_iff.mp h with ⟨⟨kv1, call⟩, hfirst, h⟩
      cases hfirst
      cases hsnapshot : message.snapshotValid with
      | true =>
          simp only [hsnapshot, if_true] at h
          rcases Option.bind_eq_some_iff.mp h with ⟨kv2, hsecond, h⟩
          cases h
          rw [getSnapShotFromRaft_waitApplyCh hsecond]
          exact .refl _
      | false =>
          simp only [hsnapshot, if_neg Bool.false_ne_true] at h
          cases h
          exact .refl _

end

/-!
# The handlers
-/

section

theorem openWaitChan_lookup (kv : KvServer) (raftIndex : Int) :
    (kv.openWaitChan raftIndex).waitApplyCh.lookup raftIndex =
      some ((kv.waitApplyCh.lookup raftIndex).getD []) := by
  unfold openWaitChan
  cases hchan : kv.waitApplyCh.lookup raftIndex with
  | none => exact AList.lookup_insert _
  | some chan => exact hchan

theorem openWaitChan_lookup_ne (kv : KvServer) {raftIndex i : Int} (h : i ≠ raftIndex) :
    (kv.openWaitChan raftIndex).waitApplyCh.lookup i = kv.waitApplyCh.lookup i := by
  unfold openWaitChan
  cases kv.waitApplyCh.lookup raftIndex with
  | none => exact AList.lookup_insert_ne h
  | some chan => rfl

theorem onCommit_raftIndex (op raftCommitOp : Op) (raftIndex : Int) :
    (onCommit op raftCommitOp raftIndex).raftIndex = raftIndex ∧
      (onCommit op raftCommitOp raftIndex).isOpen = true := by
  unfold onCommit
  by_cases hsame : raftCommitOp.clientId = op.clientId ∧
      raftCommitOp.requestId = op.requestId
  · rw [if_pos hsame]
    by_cases hget : op.operation = .get
    · rw [if_pos hget]
      exact ⟨rfl, rfl⟩
    · rw [if_neg hget]
      exact ⟨rfl, rfl⟩
  · rw [if_neg hsame]
    exact ⟨rfl, rfl⟩

theorem onTimeOut_raftIndex (kv : KvServer) (op : Op) (raftIndex : Int) (isLeader : Bool) :
    (kv.onTimeOut op raftIndex isLeader).raftIndex = raftIndex ∧
      (kv.onTimeOut op raftIndex isLeader).isOpen = true := by
  unfold onTimeOut
  by_cases hget : op.operation = .get
  · rw [if_pos hget]
    by_cases hcond : (kv.ifRequestDuplicate op.clientId op.requestId && isLeader) = true
    · rw [if_pos hcond]
      exact ⟨rfl, rfl⟩
    · rw [if_neg hcond]
      exact ⟨rfl, rfl⟩
  · rw [if_neg hget]
    by_cases hcond : kv.ifRequestDuplicate op.clientId op.requestId = true
    · rw [if_pos hcond]
      exact ⟨rfl, rfl⟩
    · rw [if_neg hcond]
      exact ⟨rfl, rfl⟩

theorem onRead_raftIndex (raftIndex : Int) (value : Bytes) (exist : Bool) :
    (onRead raftIndex value exist).raftIndex = raftIndex ∧
      (onRead raftIndex value exist).isOpen = true := by
  unfold onRead
  cases exist with
  | true => exact ⟨rfl, rfl⟩
  | false => exact ⟨rfl, rfl⟩

/-- What a handler that goes on after `Start` does to the channels: its own is there
as long as it is open, and the others stay. -/
structure Keeps (kv : KvServer) (phase : Phase) (kv' : KvServer) (phase' : Phase) :
    Prop where
  index : phase'.raftIndex = phase.raftIndex
  own : (kv'.waitApplyCh.lookup phase.raftIndex).isSome = phase'.isOpen
  others : forall i, i ≠ phase.raftIndex ->
    kv'.waitApplyCh.lookup i = kv.waitApplyCh.lookup i

theorem HandlerEffect.isActive {kv kv' : KvServer} {op : Op} {phase phase' : Phase}
    {a : HandlerAction} (h : HandlerEffect kv op phase a kv' phase')
    (hstart : forall raftIndex, a ≠ .start raftIndex) : phase.isActive = true := by
  cases h with
  | refused => exact absurd rfl (hstart none)
  | started raftIndex => exact absurd rfl (hstart (some raftIndex))
  | _ => rfl

theorem HandlerEffect.start_cases {kv kv' : KvServer} {op : Op} {phase phase' : Phase}
    {started : Option Int} (h : HandlerEffect kv op phase (.start started) kv' phase') :
    phase = .sent ∧ kv' = kv ∧
      ((started = none ∧ phase' = .replied (-1) wrongLeader) ∨
        exists raftIndex, started = some raftIndex ∧ phase' = .started raftIndex) := by
  cases h with
  | refused => exact ⟨rfl, rfl, Or.inl ⟨rfl, rfl⟩⟩
  | started raftIndex => exact ⟨rfl, rfl, Or.inr ⟨raftIndex, rfl, rfl⟩⟩

theorem HandlerEffect.keeps {kv kv' : KvServer} {op : Op} {phase phase' : Phase}
    {a : HandlerAction} (h : HandlerEffect kv op phase a kv' phase')
    (hstart : forall raftIndex, a ≠ .start raftIndex)
    (hopen : (kv.waitApplyCh.lookup phase.raftIndex).isSome = phase.isOpen) :
    Keeps kv phase kv' phase' := by
  cases h with
  | refused => exact absurd rfl (hstart none)
  | started raftIndex => exact absurd rfl (hstart (some raftIndex))
  | opened raftIndex =>
      constructor
      · rfl
      · exact congrArg Option.isSome (openWaitChan_lookup kv raftIndex)
      · exact fun i hi => openWaitChan_lookup_ne kv hi
  | @popped raftIndex raftCommitOp chan hchan =>
      rcases onCommit_raftIndex op raftCommitOp raftIndex with ⟨hindex, hstill⟩
      constructor
      · exact hindex
      · rw [hstill]
        exact congrArg Option.isSome (AList.lookup_insert _)
      · exact fun i hi => AList.lookup_insert_ne hi
  | timedOut raftIndex isLeader =>
      rcases onTimeOut_raftIndex kv op raftIndex isLeader with ⟨hindex, hstill⟩
      constructor
      · exact hindex
      · rw [hstill]
        exact hopen
      · exact fun i hi => rfl
  | read raftIndex =>
      rcases onRead_raftIndex raftIndex (kv.executeGetOpOnKVDB op).2.1
        (kv.executeGetOpOnKVDB op).2.2 with ⟨hindex, hstill⟩
      constructor
      · exact hindex
      · rw [hstill]
        exact hopen
      · exact fun i hi => rfl
  | closed raftIndex reply =>
      constructor
      · rfl
      · exact congrArg Option.isSome (AList.lookup_erase raftIndex kv.waitApplyCh)
      · exact fun i hi => AList.lookup_erase_ne hi

end

/-!
# The invariant
-/

section

variable {n : Nat}

/-- Indices given out are at most the last one of the node. -/
structure Waits (σ : CallNode n) : Prop where
  indexed : Indexed σ.raft
  last : 0 ≤ σ.raft.getLastLogIndex
  given : forall (a : Nat) (call : ClientCall), σ.calls[a]? = some call ->
    call.phase.raftIndex ≤ σ.raft.getLastLogIndex
  active : forall (a : Nat) (call : ClientCall), σ.calls[a]? = some call ->
    call.phase.isActive = true -> call.phase.raftIndex ≠ -1
  waiter : OneWaiter σ

theorem Waits.initial [Archive] [KvArchive] (me : Fin n) (maxRaftState : Int) :
    Waits (callSystem me maxRaftState).init := by
  have hnone : forall a : Nat, (callSystem me maxRaftState).init.calls[a]? = none :=
    fun a => List.getElem?_nil
  constructor
  · exact Indexed.blank me _
  · exact le_refl (0 : Int)
  · intro a call hcall
    rw [hnone] at hcall
    cases hcall
  · intro a call hcall
    rw [hnone] at hcall
    cases hcall
  · constructor
    · intro a b call call' hcall
      rw [hnone] at hcall
      cases hcall
    · intro i
      constructor
      · intro hsome
        cases hsome
      · rintro ⟨a, call, hcall, _⟩
        rw [hnone] at hcall
        cases hcall

theorem Waits.openIndex {σ : CallNode n} (h : Waits σ) {a : Nat} {call : ClientCall}
    (hcall : σ.calls[a]? = some call) (hopen : call.phase.isOpen = true) :
    call.phase.raftIndex ≠ -1 :=
  h.active a call hcall (Phase.isActive_of_isOpen hopen)

/-- The channel of a call is there exactly while the call is open. -/
theorem Waits.own {σ : CallNode n} (h : Waits σ) {a : Nat} {call : ClientCall}
    (hcall : σ.calls[a]? = some call) :
    (σ.kv.waitApplyCh.lookup call.phase.raftIndex).isSome = call.phase.isOpen := by
  rw [Bool.eq_iff_iff]
  constructor
  · intro hsome
    rcases (h.waiter.channel _).mp hsome with ⟨b, other, hother, hopen, hsame⟩
    have hindex := h.openIndex hother hopen
    have hba := h.waiter.distinct b a other call hother hcall hsame hindex
    rw [hba, hcall] at hother
    cases hother
    exact hopen
  · intro hopen
    exact (h.waiter.channel _).mpr ⟨a, call, hcall, hopen, rfl⟩

/-- No call waits on an index that has not been given out. -/
theorem Waits.unused {σ : CallNode n} (h : Waits σ) {i : Int}
    (hi : σ.raft.getLastLogIndex < i) : σ.kv.waitApplyCh.lookup i = none := by
  rw [← Option.not_isSome_iff_eq_none]
  intro hsome
  rcases (h.waiter.channel i).mp hsome with ⟨a, call, hcall, _, rfl⟩
  exact absurd (h.given a call hcall) (not_le.mpr hi)

/-!
# One step of a call
-/

/-- A call keeps its index or is given one that no call has had. -/
def Fresh (σ : CallNode n) (call : ClientCall) (rf : Raft n) (phase : Phase) : Prop :=
  phase.raftIndex = call.phase.raftIndex ∨
    (call.phase.raftIndex = -1 ∧ σ.raft.getLastLogIndex < phase.raftIndex ∧
      phase.raftIndex ≤ rf.getLastLogIndex)

theorem Fresh.alone {σ : CallNode n} (h : Waits σ) {a b : Nat} {call other : ClientCall}
    {rf : Raft n} {phase : Phase} (hfresh : Fresh σ call rf phase)
    (hcall : σ.calls[a]? = some call) (hother : σ.calls[b]? = some other)
    (hsame : other.phase.raftIndex = phase.raftIndex) (hindex : phase.raftIndex ≠ -1) :
    b = a := by
  rcases hfresh with hkept | ⟨_, hnew, _⟩
  · have hboth : other.phase.raftIndex = call.phase.raftIndex := hsame.trans hkept
    refine h.waiter.distinct b a other call hother hcall hboth ?_
    rw [hsame]
    exact hindex
  · have hle := h.given b other hother
    rw [hsame] at hle
    exact absurd hle (not_le.mpr hnew)

theorem Waits.moved {σ : CallNode n} (h : Waits σ) {a : Nat} {call : ClientCall}
    (hcall : σ.calls[a]? = some call) {rf : Raft n} {kv : KvServer} {phase : Phase}
    (hproceeds : Proceeds σ.raft rf) (hfresh : Fresh σ call rf phase)
    (hactive : phase.isActive = true -> phase.raftIndex ≠ -1)
    (hown : (kv.waitApplyCh.lookup phase.raftIndex).isSome = phase.isOpen)
    (hothers : forall i, i ≠ phase.raftIndex ->
      kv.waitApplyCh.lookup i = σ.kv.waitApplyCh.lookup i) :
    Waits
      { raft := rf, kv := kv, calls := σ.calls.set a { call with phase := phase } } where
  indexed := hproceeds.indexed
  last := h.last.trans hproceeds.noneLess.last
  given := by
    intro b other hother
    rcases getElem?_set_cases hother with ⟨rfl, rfl⟩ | ⟨_, hold⟩
    · rcases hfresh with hkept | ⟨_, _, hle⟩
      · change phase.raftIndex ≤ _
        rw [hkept]
        exact (h.given _ _ hcall).trans hproceeds.noneLess.last
      · exact hle
    · exact (h.given _ _ hold).trans hproceeds.noneLess.last
  active := by
    intro b other hother
    rcases getElem?_set_cases hother with ⟨rfl, rfl⟩ | ⟨_, hold⟩
    · exact hactive
    · exact h.active b other hold
  waiter :=
    { distinct := by
        intro b c other other' hother hother' hsame hindex
        rcases getElem?_set_cases hother with ⟨rfl, rfl⟩ | ⟨hb, hold⟩
        · rcases getElem?_set_cases hother' with ⟨rfl, _⟩ | ⟨hc, hold'⟩
          · rfl
          · exact (hfresh.alone h hcall hold' hsame.symm hindex).symm
        · rcases getElem?_set_cases hother' with ⟨rfl, rfl⟩ | ⟨hc, hold'⟩
          · rw [hsame] at hindex
            exact hfresh.alone h hcall hold hsame hindex
          · exact h.waiter.distinct b c other other' hold hold' hsame hindex
      channel := by
        intro i
        change (kv.waitApplyCh.lookup i).isSome = true <-> _
        by_cases hi : i = phase.raftIndex
        · rw [hi, hown]
          constructor
          · intro hstill
            exact ⟨a, _, getElem?_set_found hcall _, hstill, rfl⟩
          · rintro ⟨b, other, hother, hstill, hsame⟩
            rcases getElem?_set_cases hother with ⟨rfl, rfl⟩ | ⟨hb, hold⟩
            · exact hstill
            · have hindex := h.openIndex hold hstill
              rw [hsame] at hindex
              exact absurd (hfresh.alone h hcall hold hsame hindex) hb
        · rw [hothers i hi]
          constructor
          · intro hsome
            rcases (h.waiter.channel i).mp hsome with ⟨b, other, hother, hstill, hsame⟩
            by_cases hb : b = a
            · -- the call itself was open, so it has kept its index
              rw [hb, hcall] at hother
              cases hother
              rcases hfresh with hkept | ⟨hnone, _, _⟩
              · exact absurd (hsame.symm.trans hkept.symm) hi
              · exact absurd hnone (h.openIndex hcall hstill)
            · refine ⟨b, other, ?_, hstill, hsame⟩
              change (σ.calls.set a _)[b]? = some other
              rw [List.getElem?_set, if_neg fun hab => hb hab.symm]
              exact hother
          · rintro ⟨b, other, hother, hstill, hsame⟩
            rcases getElem?_set_cases hother with ⟨rfl, rfl⟩ | ⟨hb, hold⟩
            · exact absurd hsame.symm hi
            · exact (h.waiter.channel i).mpr ⟨b, other, hold, hstill, hsame⟩ }

/-- A step that leaves the calls alone and keeps the channels there are. -/
theorem Waits.kept {σ : CallNode n} (h : Waits σ) {rf : Raft n} {kv : KvServer}
    (hproceeds : Proceeds σ.raft rf)
    (hchannels : forall i, (kv.waitApplyCh.lookup i).isSome =
      (σ.kv.waitApplyCh.lookup i).isSome) :
    Waits { raft := rf, kv := kv, calls := σ.calls } where
  indexed := hproceeds.indexed
  last := h.last.trans hproceeds.noneLess.last
  given := fun a call hcall => (h.given a call hcall).trans hproceeds.noneLess.last
  active := h.active
  waiter :=
    { distinct := h.waiter.distinct
      channel := by
        intro i
        change (kv.waitApplyCh.lookup i).isSome = true <-> _
        rw [hchannels i]
        exact h.waiter.channel i }

theorem Waits.requested {σ : CallNode n} (h : Waits σ) (op : Op) :
    Waits { σ with calls := σ.calls ++ [{ op := op, phase := .sent }] } := by
  have hcases : forall (a : Nat) (call : ClientCall),
      (σ.calls ++ [{ op := op, phase := .sent }])[a]? = some call ->
        σ.calls[a]? = some call ∨ call.phase = .sent := by
    intro a call hcall
    rcases getElem?_concat_cases hcall with hold | ⟨_, rfl⟩
    · exact Or.inl hold
    · exact Or.inr rfl
  constructor
  · exact h.indexed
  · exact h.last
  · intro a call hcall
    rcases hcases a call hcall with hold | hsent
    · exact h.given a call hold
    · have hlast := h.last
      rw [hsent]
      change (-1 : Int) ≤ σ.raft.getLastLogIndex
      omega
  · intro a call hcall hactive
    rcases hcases a call hcall with hold | hsent
    · exact h.active a call hold hactive
    · rw [hsent] at hactive
      cases hactive
  · constructor
    · intro a b call call' hcall hcall' hsame hindex
      rcases hcases a call hcall with hold | hsent
      · rcases hcases b call' hcall' with hold' | hsent'
        · exact h.waiter.distinct a b call call' hold hold' hsame hindex
        · rw [hsame, hsent'] at hindex
          exact absurd rfl hindex
      · rw [hsent] at hindex
        exact absurd rfl hindex
    · intro i
      constructor
      · intro hsome
        rcases (h.waiter.channel i).mp hsome with ⟨a, call, hcall, hopen, hsame⟩
        exact ⟨a, call, getElem?_append_found hcall _, hopen, hsame⟩
      · rintro ⟨a, call, hcall, hopen, hsame⟩
        rcases hcases a call hcall with hold | hsent
        · exact (h.waiter.channel i).mpr ⟨a, call, hold, hopen, hsame⟩
        · rw [hsent] at hopen
          cases hopen

/-!
# Every step
-/

variable [Archive] [KvArchive]

theorem Waits.step {σ σ' : CallNode n} {a : CallAction n} (h : Waits σ)
    (heffect : CallNode.StepEffect σ a σ') : Waits σ' := by
  have hproceeds := heffect.proceeds h.indexed
  cases heffect with
  | node _ _ => exact h.kept hproceeds fun _ => rfl
  | request op => exact h.requested op
  | @start a call kv phase hcall hrun =>
      rcases hrun.start_cases with ⟨hsent, rfl, ⟨_, rfl⟩ | ⟨index, hstarted, rfl⟩⟩
      · have hown := h.own hcall
        rw [hsent] at hown
        refine h.moved hcall hproceeds (Or.inl ?_) nofun hown fun _ _ => rfl
        rw [hsent]
        rfl
      · rcases Option.map_eq_some_iff.mp hstarted with ⟨⟨i, term⟩, hraft, rfl⟩
        rcases Raft.start_index hraft with ⟨hnext, hlast⟩
        have hpos := h.last
        have hnew : σ.raft.getLastLogIndex < i := by omega
        refine h.moved hcall hproceeds (Or.inr ⟨?_, hnew, hlast.ge⟩) ?_ ?_ fun _ _ => rfl
        · rw [hsent]
          rfl
        · intro _
          change i ≠ -1
          omega
        · exact congrArg Option.isSome (h.unused hnew)
  | @handle a call action kv phase hstart hcall hrun =>
      have hkeeps := hrun.keeps hstart (h.own hcall)
      have hindex := h.active a call hcall (hrun.isActive hstart)
      apply h.moved hcall hproceeds (Or.inl hkeeps.index)
      · intro _
        rw [hkeeps.index]
        exact hindex
      · rw [hkeeps.index]
        exact hkeeps.own
      · intro i hi
        rw [hkeeps.index] at hi
        exact hkeeps.others i hi
  | consumed hread =>
      exact h.kept hproceeds fun i => (readRaftApplyCommandLoop_pushed hread i).isSome

theorem ownChannel {σ σ' : CallNode n} {a : CallAction n} (h : Waits σ)
    (heffect : CallNode.StepEffect σ a σ') :
    OwnChannel { before := σ, action := a, after := σ' } where
  created := by
    rintro a call hcall rfl
    cases heffect with
    | @handle _ call' _ kv phase _ hcall' hrun =>
        rw [hcall] at hcall'
        cases hcall'
        have hown := h.own hcall
        generalize call.phase = before at hrun hown
        cases hrun with
        | opened raftIndex =>
            have hnone := Option.not_isSome_iff_eq_none.mp (Bool.eq_false_iff.mp hown)
            refine ⟨hnone, ?_⟩
            change (σ.kv.openWaitChan raftIndex).waitApplyCh.lookup raftIndex = _
            rw [openWaitChan_lookup]
            exact congrArg (fun channel => some (channel.getD [])) hnone
  popped := by
    rintro a call hcall rfl
    cases heffect with
    | @handle _ call' _ kv phase _ hcall' hrun =>
        rw [hcall] at hcall'
        cases hcall'
        generalize call.phase = before at hrun
        cases hrun with
        | popped hchan => exact ⟨_, _, hchan, AList.lookup_insert _⟩
  deleted := by
    rintro a call hcall rfl
    cases heffect with
    | @handle _ call' _ kv phase _ hcall' hrun =>
        rw [hcall] at hcall'
        cases hcall'
        have hown := h.own hcall
        generalize call.phase = before at hrun hown
        cases hrun with
        | closed raftIndex reply => exact ⟨hown, AList.lookup_erase _ _⟩
  others := by
    intro b call hcall hindex hother
    cases heffect with
    | node _ _ => exact .refl _
    | request op => exact .refl _
    | @start a call' kv phase hcall' hrun =>
        rcases hrun.start_cases with ⟨_, rfl, _⟩
        exact .refl _
    | @handle a call' action kv phase hstart hcall' hrun =>
        have hkeeps := hrun.keeps hstart (h.own hcall')
        have happart : call.phase.raftIndex ≠ call'.phase.raftIndex := by
          intro hsame
          apply hother
          rw [h.waiter.distinct b a call call' hcall hcall' hsame hindex]
          rfl
        change Pushed _ (kv.waitApplyCh.lookup call.phase.raftIndex)
        rw [hkeeps.others _ happart]
        exact .refl _
    | consumed hread => exact readRaftApplyCommandLoop_pushed hread _

theorem waits {me : Fin n} {maxRaftState : Int}
    {tr : List (Transition (CallNode n) (CallAction n))} {σ : CallNode n}
    (h : (callSystem me maxRaftState).Trace tr σ) : Waits σ := by
  refine TransitionSystem.Trace.invariant (P := fun _ σ => Waits σ)
    (Waits.initial me maxRaftState) ?_ h
  intro tr σ σ' a _ ih hstep
  exact ih.step (CallNode.step_effect hstep)

/-!
# The indices that Start returns
-/

/-- The indices returned so far, in order, none beyond the last one. -/
theorem started_increase {me : Fin n} {maxRaftState : Int}
    {tr : List (Transition (CallNode n) (CallAction n))} {σ : CallNode n}
    (h : (callSystem me maxRaftState).Trace tr σ) :
    (tr.filterMap startIndex).Pairwise (· < ·) ∧
      forall index, index ∈ tr.filterMap startIndex -> index ≤ σ.raft.getLastLogIndex := by
  refine TransitionSystem.Trace.invariant
    (P := fun tr σ => (tr.filterMap startIndex).Pairwise (· < ·) ∧
      forall index, index ∈ tr.filterMap startIndex ->
        index ≤ Raft.getLastLogIndex (CallNode.raft σ))
    ⟨List.Pairwise.nil, fun _ hindex => absurd hindex List.not_mem_nil⟩ ?_ h
  rintro tr σ σ' a htrace ⟨hsorted, hbelow⟩ hstep
  have heffect := CallNode.step_effect hstep
  have hlast := (heffect.proceeds (waits htrace).indexed).noneLess.last
  rw [List.filterMap_append]
  cases hstarted : startIndex { before := σ, action := a, after := σ' } with
  | none =>
      rw [List.filterMap_cons_none hstarted, List.filterMap_nil, List.append_nil]
      exact ⟨hsorted, fun index hindex => (hbelow index hindex).trans hlast⟩
  | some next =>
      rcases heffect.startIndex hstarted with ⟨hnext, hreached⟩
      rw [List.filterMap_cons_some hstarted, List.filterMap_nil]
      constructor
      · rw [List.pairwise_append]
        refine ⟨hsorted, List.pairwise_singleton _ _, ?_⟩
        intro index hindex last hlast'
        rw [List.mem_singleton.mp hlast', hnext]
        exact Int.lt_add_one_of_le (hbelow index hindex)
      · intro index hindex
        rcases List.mem_append.mp hindex with hold | hnew
        · exact (hbelow index hold).trans hlast
        · rw [List.mem_singleton.mp hnew]
          exact hreached.ge

/-- Over every run of a server: the last index, the indices of `Start`, the channels. -/
theorem one_waiter_per_index {me : Fin n} {maxRaftState : Int}
    (r : (callSystem me maxRaftState).Run) :
    (r.Always fun t => t.before.raft.getLastLogIndex ≤ t.after.raft.getLastLogIndex) ∧
    (r.trace.filterMap startIndex).Nodup ∧
    (forall σ, r.Visits σ -> OneWaiter σ) ∧ r.Always OwnChannel := by
  refine ⟨?_, ?_, ?_, ?_⟩
  · intro t ht
    rcases r.valid.before_of_mem ht with ⟨earlier, htrace, _⟩
    have heffect := CallNode.step_effect (r.valid.step_of_mem ht)
    exact (heffect.proceeds (waits htrace).indexed).noneLess.last
  · exact (started_increase r.valid).1.imp fun h => ne_of_lt h
  · intro σ hσ
    rcases hσ.trace with ⟨earlier, htrace, _⟩
    exact (waits htrace).waiter
  · intro t ht
    rcases r.valid.before_of_mem ht with ⟨earlier, htrace, _⟩
    exact ownChannel (waits htrace) (CallNode.step_effect (r.valid.step_of_mem ht))

end

end KvServer
end KVRaft
