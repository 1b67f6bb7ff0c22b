import Mathlib.Logic.Function.Basic
import KVRaft.Common.Bytes
import KVRaft.Foundation.Transition

/-!
# A channel shared by threads

Every thread reads and writes `m_clientFd` as it goes along.  A call is given by a
number, and so is a connection.  The server answers the requests of a connection in
order, and each `recv` returns one answer as a whole.
-/

namespace KVRaft
namespace Rpc

open Foundation

/-- Where a call is. -/
inductive CallPhase where
  | start
  | connecting
  | serializing
  | sending
  | sendFailed
  | sendClosed
  | reconnecting
  | sent
  | receiving (connection : Option Nat)
  | recvFailed
  | recvClosed
  | failed
  /-- has parsed the reply to the request of a call -/
  | done (owner : Nat)
  deriving DecidableEq, Repr

structure SharedConnection where
  /-- the calls whose requests the server has yet to answer -/
  requests : List Nat := []
  /-- the answers that nobody has received yet, with the calls whose requests they answer -/
  replies : List (Nat × Bytes) := []
  closed : Bool := false
  /-- all calls that have sent a request on the connection -/
  senders : List Nat := []
  /-- how many answers have been received -/
  received : Nat := 0

structure SharedChannel where
  clientFd : Option Nat := none
  /-- the number of the next connection -/
  next : Nat := 0
  connection : Nat -> SharedConnection := fun _ => {}
  phase : Nat -> CallPhase := fun _ => .start

/-- The steps of the calls, and of the server on a connection. -/
inductive SharedAction where
  | check (call : Nat)
  | connect (call : Nat) (success : Bool)
  | serialize (call : Nat) (success : Bool)
  | send (call : Nat) (success : Bool)
  | close (call : Nat)
  | clear (call : Nat)
  | beginRecv (call : Nat)
  | recv (call : Nat) (success : Bool)
  | answer (connection : Nat) (reply : Bytes)

namespace SharedChannel

def setPhase (σ : SharedChannel) (call : Nat) (phase : CallPhase) : SharedChannel :=
  { σ with phase := Function.update σ.phase call phase }

def setConnection (σ : SharedChannel) (k : Nat) (conn : SharedConnection) : SharedChannel :=
  { σ with connection := Function.update σ.connection k conn }

/-- `newConnect`: a new connection, or -1. -/
def newConnect (σ : SharedChannel) (success : Bool) : SharedChannel :=
  if success then { σ with clientFd := some σ.next, next := σ.next + 1 }
  else { σ with clientFd := none }

/-- The connection behind `m_clientFd`, if it is open. -/
def openFd (σ : SharedChannel) : Option Nat :=
  σ.clientFd.filter fun k => !(σ.connection k).closed

def sendRequest (σ : SharedChannel) (call k : Nat) : SharedChannel :=
  σ.setConnection k { σ.connection k with
    requests := (σ.connection k).requests ++ [call]
    senders := (σ.connection k).senders ++ [call] }

def closeFd (σ : SharedChannel) : SharedChannel :=
  match σ.clientFd with
  | none => σ
  | some k => σ.setConnection k { σ.connection k with closed := true }

def step (parses : Nat -> Bytes -> Bool) (σ : SharedChannel) :
    SharedAction -> Option SharedChannel
  | .check call =>
      if σ.phase call = .start then
        some (σ.setPhase call (if σ.clientFd = none then .connecting else .serializing))
      else
        none
  | .connect call success =>
      if σ.phase call = .connecting then
        some ((σ.newConnect success).setPhase call (if success then .serializing else .failed))
      else if σ.phase call = .reconnecting then
        some ((σ.newConnect success).setPhase call (if success then .sending else .failed))
      else
        none
  | .serialize call success =>
      if σ.phase call = .serializing then
        some (σ.setPhase call (if success then .sending else .failed))
      else
        none
  | .send call success =>
      if σ.phase call = .sending then
        if success then
          match σ.openFd with
          | none => none
          | some k => some ((σ.sendRequest call k).setPhase call .sent)
        else
          some (σ.setPhase call .sendFailed)
      else
        none
  | .close call =>
      if σ.phase call = .sendFailed then
        some (σ.closeFd.setPhase call .sendClosed)
      else if σ.phase call = .recvFailed then
        some (σ.closeFd.setPhase call .recvClosed)
      else
        none
  | .clear call =>
      if σ.phase call = .sendClosed then
        some ({ σ with clientFd := none }.setPhase call .reconnecting)
      else if σ.phase call = .recvClosed then
        some ({ σ with clientFd := none }.setPhase call .failed)
      else
        none
  | .beginRecv call =>
      if σ.phase call = .sent then
        some (σ.setPhase call (.receiving σ.openFd))
      else
        none
  | .recv call success =>
      match σ.phase call with
      | .receiving fd =>
          if success then
            match fd with
            | none => none
            | some k =>
                match (σ.connection k).replies with
                | [] => none
                | (owner, reply) :: rest =>
                    some ((σ.setConnection k { σ.connection k with
                      replies := rest
                      received := (σ.connection k).received + 1 }).setPhase call
                        (if parses call reply then .done owner else .failed))
          else
            some (σ.setPhase call .recvFailed)
      | _ => none
  | .answer k reply =>
      match (σ.connection k).requests with
      | [] => none
      | call :: rest =>
          some (σ.setConnection k { σ.connection k with
            requests := rest
            replies := (σ.connection k).replies ++ [(call, reply)] })

def sharedSystem (parses : Nat -> Bytes -> Bool) :
    TransitionSystem SharedChannel SharedAction where
  init := {}
  step := step parses

/-- Every call that has parsed a reply has parsed its own. -/
def OwnReplies (σ : SharedChannel) : Prop :=
  forall call owner, σ.phase call = .done owner -> owner = call

/-- Of the calls that have sent on a connection, this one is the next to receive. -/
def InTurn (conn : SharedConnection) (call : Nat) : Prop :=
  conn.senders[conn.received]? = some call

/-- A call that receives an answer it can parse is the one whose turn it is. -/
def ReceivesInTurn (parses : Nat -> Bytes -> Bool)
    (t : Transition SharedChannel SharedAction) : Prop :=
  forall call k owner reply rest, t.action = .recv call true ->
    t.before.phase call = .receiving (some k) ->
      (t.before.connection k).replies = (owner, reply) :: rest ->
        parses call reply = true -> InTurn (t.before.connection k) call

/-!
# Connections in order

Requests that are not answered and answers that are not received are those of the last
senders.
-/

def Ordered (conn : SharedConnection) : Prop :=
  exists served, served.length = conn.received ∧
    conn.senders = served ++ (conn.replies.map Prod.fst ++ conn.requests)

variable {parses : Nat -> Bytes -> Bool} {σ σ' : SharedChannel} {a : SharedAction}

structure SameQueues (conn conn' : SharedConnection) : Prop where
  requests : conn'.requests = conn.requests
  replies : conn'.replies = conn.replies
  senders : conn'.senders = conn.senders
  received : conn'.received = conn.received

theorem SameQueues.refl (conn : SharedConnection) : SameQueues conn conn :=
  ⟨rfl, rfl, rfl, rfl⟩

def afterRecv (σ : SharedChannel) (call k : Nat) (rest : List (Nat × Bytes))
    (phase : CallPhase) : SharedChannel :=
  (σ.setConnection k { σ.connection k with
    replies := rest
    received := (σ.connection k).received + 1 }).setPhase call phase

/-- What a step does to the queues, and which call parses a reply in it. -/
inductive StepCase (parses : Nat -> Bytes -> Bool) (σ : SharedChannel) :
    SharedAction -> SharedChannel -> Prop where
  | quiet (a : SharedAction) (σ' : SharedChannel) (call : Nat) (phase : CallPhase) :
      (forall owner, phase ≠ .done owner) -> σ'.phase = Function.update σ.phase call phase ->
        (forall k, SameQueues (σ.connection k) (σ'.connection k)) -> StepCase parses σ a σ'
  | send (call k : Nat) :
      StepCase parses σ (.send call true) ((σ.sendRequest call k).setPhase call .sent)
  | recv (call k owner : Nat) (reply : Bytes) (rest : List (Nat × Bytes)) :
      σ.phase call = .receiving (some k) -> (σ.connection k).replies = (owner, reply) :: rest ->
        StepCase parses σ (.recv call true)
          (σ.afterRecv call k rest (if parses call reply then .done owner else .failed))
  | answer (k call : Nat) (reply : Bytes) (rest : List Nat) :
      (σ.connection k).requests = call :: rest ->
        StepCase parses σ (.answer k reply) (σ.setConnection k { σ.connection k with
          requests := rest
          replies := (σ.connection k).replies ++ [(call, reply)] })

theorem sameQueues_closeFd (σ : SharedChannel) (k : Nat) :
    SameQueues (σ.connection k) (σ.closeFd.connection k) := by
  unfold closeFd
  split
  · exact SameQueues.refl _
  · rename_i fd _
    by_cases hk : k = fd
    · rw [setConnection, hk]
      simp only [Function.update_self]
      exact ⟨rfl, rfl, rfl, rfl⟩
    · rw [setConnection]
      simp only [Function.update_of_ne hk]
      exact SameQueues.refl _

theorem closeFd_phase (σ : SharedChannel) : σ.closeFd.phase = σ.phase := by
  unfold closeFd
  split <;> rfl

theorem newConnect_eq (σ : SharedChannel) (success : Bool) :
    (σ.newConnect success).connection = σ.connection ∧
      (σ.newConnect success).phase = σ.phase := by
  cases success <;> exact ⟨rfl, rfl⟩

theorem quiet_setPhase (call : Nat) {phase : CallPhase}
    (h : forall owner, phase ≠ .done owner) :
    StepCase parses σ a (σ.setPhase call phase) :=
  .quiet a _ call phase h rfl fun _ => SameQueues.refl _

theorem quiet_newConnect (call : Nat) (success : Bool) {phase : CallPhase}
    (h : forall owner, phase ≠ .done owner) :
    StepCase parses σ a ((σ.newConnect success).setPhase call phase) := by
  rcases newConnect_eq σ success with ⟨hconnection, hphase⟩
  refine .quiet a _ call phase h ?_ fun k => ?_
  · rw [setPhase, hphase]
  · change SameQueues _ ((σ.newConnect success).connection k)
    rw [hconnection]
    exact SameQueues.refl _

theorem quiet_closeFd (call : Nat) {phase : CallPhase} (h : forall owner, phase ≠ .done owner) :
    StepCase parses σ a (σ.closeFd.setPhase call phase) := by
  refine .quiet a _ call phase h ?_ fun k => sameQueues_closeFd σ k
  rw [setPhase, closeFd_phase]

theorem ite_ne_done {success : Bool} {phase phase' : CallPhase}
    (h : forall owner, phase ≠ .done owner) (h' : forall owner, phase' ≠ .done owner)
    (owner : Nat) : (if success then phase else phase') ≠ .done owner := by
  cases success with
  | true => exact h owner
  | false => exact h' owner

theorem step_cases (h : step parses σ a = some σ') : StepCase parses σ a σ' := by
  cases a with
  | check call =>
      rw [step] at h
      split at h
      · cases h
        refine quiet_setPhase call fun owner => ?_
        split <;> exact nofun
      · cases h
  | connect call success =>
      rw [step] at h
      split at h
      · cases h
        exact quiet_newConnect call success (ite_ne_done nofun nofun)
      split at h
      · cases h
        exact quiet_newConnect call success (ite_ne_done nofun nofun)
      · cases h
  | serialize call success =>
      rw [step] at h
      split at h
      · cases h
        exact quiet_setPhase call (ite_ne_done nofun nofun)
      · cases h
  | send call success =>
      rw [step] at h
      split at h
      · cases success with
        | false =>
            cases h
            exact quiet_setPhase call nofun
        | true =>
            simp only [if_true] at h
            split at h
            · cases h
            · cases h
              exact .send call _
      · cases h
  | close call =>
      rw [step] at h
      split at h
      · cases h
        exact quiet_closeFd call nofun
      split at h
      · cases h
        exact quiet_closeFd call nofun
      · cases h
  | clear call =>
      rw [step] at h
      split at h
      · cases h
        exact .quiet _ _ call .reconnecting nofun rfl fun _ => SameQueues.refl _
      split at h
      · cases h
        exact .quiet _ _ call .failed nofun rfl fun _ => SameQueues.refl _
      · cases h
  | beginRecv call =>
      rw [step] at h
      split at h
      · cases h
        exact quiet_setPhase call nofun
      · cases h
  | recv call success =>
      rw [step] at h
      split at h
      · rename_i fd hphase
        cases success with
        | false =>
            cases h
            exact quiet_setPhase call nofun
        | true =>
            simp only [if_true] at h
            split at h
            · cases h
            · rename_i k
              split at h
              · cases h
              · rename_i owner reply rest hreplies
                cases h
                exact .recv call k owner reply rest hphase hreplies
      · cases h
  | answer k reply =>
      rw [step] at h
      split at h
      · cases h
      · rename_i call rest hrequests
        cases h
        exact .answer k call reply rest hrequests

theorem SameQueues.ordered {conn conn' : SharedConnection} (h : SameQueues conn conn')
    (hordered : Ordered conn) : Ordered conn' := by
  unfold Ordered
  rw [h.senders, h.received, h.replies, h.requests]
  exact hordered

/-- The oldest answer is the one for whoever is next. -/
theorem Ordered.head {conn : SharedConnection} (h : Ordered conn) {owner : Nat}
    {reply : Bytes} {rest : List (Nat × Bytes)}
    (hreplies : conn.replies = (owner, reply) :: rest) :
    conn.senders[conn.received]? = some owner := by
  rcases h with ⟨served, hserved, hsenders⟩
  rw [hsenders, hreplies, ← hserved, List.getElem?_append_right (Nat.le_refl _), Nat.sub_self]
  rfl

theorem connection_setConnection (σ : SharedChannel) (k k' : Nat) (conn : SharedConnection) :
    (σ.setConnection k conn).connection k' = if k' = k then conn else σ.connection k' := by
  by_cases hk : k' = k
  · rw [if_pos hk, setConnection, hk]
    simp only [Function.update_self]
  · rw [if_neg hk, setConnection]
    simp only [Function.update_of_ne hk]

/-- Changing one connection keeps the order in all, if it does in that one. -/
theorem ordered_setConnection (h : forall k, Ordered (σ.connection k)) (k : Nat)
    {conn : SharedConnection} (hconn : Ordered conn) (k' : Nat) :
    Ordered ((σ.setConnection k conn).connection k') := by
  rw [connection_setConnection]
  split
  · exact hconn
  · exact h k'

theorem StepCase.ordered (hordered : forall k, Ordered (σ.connection k))
    (h : StepCase parses σ a σ') (k : Nat) : Ordered (σ'.connection k) := by
  cases h with
  | quiet a σ' call phase _ _ hsame => exact (hsame k).ordered (hordered k)
  | send call fd =>
      refine ordered_setConnection hordered fd ?_ k
      rcases hordered fd with ⟨served, hserved, hsenders⟩
      refine ⟨served, hserved, ?_⟩
      dsimp only
      rw [hsenders, List.append_assoc, List.append_assoc]
  | recv call fd owner reply rest _ hreplies =>
      refine ordered_setConnection hordered fd ?_ k
      rcases hordered fd with ⟨served, hserved, hsenders⟩
      refine ⟨served ++ [owner], ?_, ?_⟩
      · rw [List.length_append, hserved]
        rfl
      · rw [hreplies] at hsenders
        dsimp only
        rw [hsenders, List.append_assoc]
        rfl
  | answer fd call reply rest hrequests =>
      refine ordered_setConnection hordered fd ?_ k
      rcases hordered fd with ⟨served, hserved, hsenders⟩
      refine ⟨served, hserved, ?_⟩
      rw [hrequests] at hsenders
      dsimp only
      rw [hsenders, List.map_append, List.append_assoc]
      rfl

/-!
# Runs
-/

theorem trace_ordered {tr : List (Transition SharedChannel SharedAction)}
    (h : (sharedSystem parses).Trace tr σ) : forall k, Ordered (σ.connection k) :=
  TransitionSystem.Trace.invariant (M := sharedSystem parses)
    (P := fun _ σ => forall k, Ordered (σ.connection k)) (fun _ => ⟨[], rfl, rfl⟩)
    (fun _ hordered hstep => (step_cases hstep).ordered hordered) h

/-- A step in turn gives nobody the reply to another call. -/
theorem StepCase.ownReplies (hordered : forall k, Ordered (σ.connection k))
    (hown : OwnReplies σ) (h : StepCase parses σ a σ')
    (hturn : ReceivesInTurn parses { before := σ, action := a, after := σ' }) :
    OwnReplies σ' := by
  intro call owner hdone
  cases h with
  | quiet a σ' other phase hphase hupdate _ =>
      rw [hupdate] at hdone
      by_cases hcall : call = other
      · rw [hcall, Function.update_self] at hdone
        exact absurd hdone (hphase owner)
      · rw [Function.update_of_ne hcall] at hdone
        exact hown call owner hdone
  | send other k =>
      change Function.update σ.phase other .sent call = _ at hdone
      by_cases hcall : call = other
      · rw [hcall, Function.update_self] at hdone
        cases hdone
      · rw [Function.update_of_ne hcall] at hdone
        exact hown call owner hdone
  | recv other k head reply rest hphase hreplies =>
      change Function.update σ.phase other _ call = _ at hdone
      by_cases hcall : call = other
      · rw [hcall, Function.update_self] at hdone
        split at hdone
        · rename_i hparses
          cases hdone
          have hnext := hturn other k owner reply rest rfl hphase hreplies hparses
          have hhead := (hordered k).head hreplies
          rw [hcall]
          exact Option.some.inj (hhead.symm.trans hnext)
        · cases hdone
      · rw [Function.update_of_ne hcall] at hdone
        exact hown call owner hdone
  | answer k other reply rest _ => exact hown call owner hdone

/-- A reply that is received out of turn is that to another call. -/
theorem not_ownReplies_of_step (hordered : forall k, Ordered (σ.connection k))
    (h : step parses σ a = some σ')
    (hturn : ¬ ReceivesInTurn parses { before := σ, action := a, after := σ' }) :
    ¬ OwnReplies σ' := by
  intro hown
  apply hturn
  intro call k owner reply rest haction hphase hreplies hparses
  dsimp only at haction hphase hreplies
  rw [haction, step, hphase] at h
  simp only [if_true, hreplies, hparses] at h
  cases h
  have howner : owner = call := by
    refine hown call owner ?_
    unfold setPhase
    simp only [Function.update_self]
  have hhead := (hordered k).head hreplies
  rw [howner] at hhead
  exact hhead

/-- Everybody gets the own reply in a run exactly if on every connection replies are taken
in the order in which the requests were sent. -/
theorem ownReplies_iff (r : (sharedSystem parses).Run) :
    (forall σ, r.Visits σ -> OwnReplies σ) <-> r.Always (ReceivesInTurn parses) := by
  constructor
  · intro hall t ht
    rcases r.valid.before_of_mem ht with ⟨earlier, hbefore, _⟩
    by_contra hturn
    exact not_ownReplies_of_step (trace_ordered hbefore) (r.valid.step_of_mem ht) hturn
      (hall t.after (r.visits_after ht))
  · intro hturn σ hσ
    rcases hσ.trace with ⟨earlier, htrace, hsub⟩
    have hbegin : forall {tr σ}, (sharedSystem parses).Trace tr σ ->
        (forall t, t ∈ tr -> t ∈ r.trace) -> OwnReplies σ := by
      intro tr σ htr
      induction htr with
      | nil => exact fun _ => nofun
      | snoc htr hstep ih =>
          intro hsub
          have hlast := hturn _ (hsub _ (List.mem_append_right _ (List.mem_singleton_self _)))
          exact (step_cases hstep).ownReplies (trace_ordered htr)
            (ih fun t ht => hsub t (List.mem_append_left _ ht)) hlast
    exact hbegin htrace hsub

/-!
# Two calls on one connection

Call 1 receives before call 0, whose request was sent first.
-/

def swappedSchedule : List SharedAction :=
  [.check 0, .connect 0 true, .serialize 0 true, .check 1, .serialize 1 true, .send 0 true,
    .send 1 true, .answer 0 [8, 3], .answer 0 [8, 3, 16, 1], .beginRecv 1, .recv 1 true]

def swappedRun : (sharedSystem fun _ _ => true).Run :=
  TransitionSystem.runOf _ swappedSchedule (by decide +kernel)

theorem swappedRun_not_ownReplies : ¬ forall σ, swappedRun.Visits σ -> OwnReplies σ := by
  intro hall
  have hlast : swappedRun.state.phase 1 = .done 0 := by decide +kernel
  exact absurd (hall swappedRun.state (Or.inl rfl) 1 0 hlast) (by decide)

end SharedChannel
end Rpc
end KVRaft
