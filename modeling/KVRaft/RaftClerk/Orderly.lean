import KVRaft.RaftClerk.Execution

/-!
# Runs with clerks of their own ids

As long as no clerk is created with the id of another, calls are committed in the
order of their clerk, and whatever a server answers it has gone past.
-/

namespace KVRaft
namespace RaftClerk

open Foundation KvServer Service

variable {n : Nat}

/-- How far a process that creates a clerk has drawn random numbers. -/
def Action.creates : Action n -> Option Nat
  | .newClerk drawn => some drawn
  | _ => none

/-- A clerk that is created gets an id no other clerk has. -/
def FreshId (rand : Nat -> Nat) (t : Transition (Service n) (Action n)) : Prop :=
  forall drawn, drawn ∈ t.action.creates -> forall x, x ∈ t.before.clients ->
    x.clerk.clientId ≠ Clerk.uuid rand drawn

instance (rand : Nat -> Nat) : DecidablePred (FreshId (n := n) rand) := fun t =>
  inferInstanceAs (Decidable
    (forall drawn, drawn ∈ t.action.creates -> forall x, x ∈ t.before.clients ->
      x.clerk.clientId ≠ Clerk.uuid rand drawn))

namespace Service

structure Orderly (σ : Service n) : Prop where
  numbered : Numbered σ
  sequential : Sequential σ
  authentic : Authentic σ
  inSequence : InSequence σ
  server : forall i, (σ.server i).Consistent σ.committed
  settled : forall attempt, attempt ∈ σ.attempts -> attempt.phase.Settled ->
    attempt.entry ∈ (σ.server attempt.server).seen
  returned : forall call, call ∈ σ.returned.map Prod.fst ->
    exists i entry, entry ∈ (σ.server i).seen ∧ entry.call = call

theorem seen_getCommandFromRaft {server server' : Server} {committed : List Entry}
    (h : server.getCommandFromRaft committed = some server') {entry : Entry}
    (hentry : entry ∈ server.seen) : entry ∈ server'.seen := by
  exact List.map_subset Prod.fst (Server.history_getCommandFromRaft h).subset hentry

theorem handled_server_self (σ : Service n) (a : Nat) (attempt : Attempt n)
    (action : HandlerAction) (kv : KvServer) (phase : Phase) :
    (σ.handled a attempt action kv phase).server attempt.server =
      { σ.server attempt.server with kv := kv } :=
  Function.update_self _ _ _

theorem handled_server_of_ne (σ : Service n) (a : Nat) (attempt : Attempt n)
    (action : HandlerAction) (kv : KvServer) (phase : Phase) {i : Fin n}
    (h : i ≠ attempt.server) :
    (σ.handled a attempt action kv phase).server i = σ.server i :=
  Function.update_of_ne h _ _

/-- A handler does not move the loop. -/
theorem handled_history (σ : Service n) (a : Nat) (attempt : Attempt n)
    (action : HandlerAction) (kv : KvServer) (phase : Phase) (i : Fin n) :
    ((σ.handled a attempt action kv phase).server i).history = (σ.server i).history := by
  by_cases hi : i = attempt.server
  · rw [hi, handled_server_self]
  · rw [handled_server_of_ne _ _ _ _ _ _ hi]

theorem handled_seen (σ : Service n) (a : Nat) (attempt : Attempt n)
    (action : HandlerAction) (kv : KvServer) (phase : Phase) (i : Fin n) :
    ((σ.handled a attempt action kv phase).server i).seen = (σ.server i).seen :=
  congrArg History.seen (handled_history σ a attempt action kv phase i)

namespace Orderly

theorem initial [NeZero n] (rand : Nat -> Nat) : Orderly (serviceSystem n rand).init where
  numbered := by
    constructor
    · exact List.nodup_nil
    · intro op hop
      cases hop
    · intro x hx
      cases hx
    · exact List.Pairwise.nil
  sequential := by
    intro x hx
    cases hx
  authentic := by
    constructor
    · intro attempt h
      cases h
    · intro entry raftIndex h
      cases h
    · intro entry h
      cases h
  inSequence := by
    constructor
    · exact Numbering.InOrder.nil
    · intro a b ha
      cases ha
  server _ := Server.consistent_initial
  settled attempt h := by cases h
  returned call h := by cases h

variable {σ : Service n}

theorem committed_of_returned (h : Orderly σ) {call : Nat}
    (hcall : call ∈ σ.returned.map Prod.fst) :
    exists entry, entry ∈ σ.committed ∧ entry.call = call := by
  rcases h.returned call hcall with ⟨i, entry, hseen, heq⟩
  exact ⟨entry, (h.server i).log.subset hseen, heq⟩

theorem seen_issued (h : Orderly σ) {i : Fin n} {entry : Entry}
    (hentry : entry ∈ (σ.server i).seen) : σ.Issued entry :=
  h.authentic.committed entry ((h.server i).log.subset hentry)

/-- An operation that came through is one the server has gone past. -/
theorem seen_of_cameThrough (h : Orderly σ) {i : Fin n} {entry : Entry}
    (hentry : σ.Issued entry) {phase : Phase} {action : HandlerAction}
    (hcame : CameThrough (σ.server i).kv entry.op phase action) :
    entry ∈ (σ.server i).seen := by
  cases hcame with
  | popped hchannel hclient hrequest =>
      rcases ((h.server i).channels _ _ hchannel).mem with ⟨other, hother, rfl⟩
      rw [h.numbered.distinguishes entry other hentry (h.seen_issued hother) hclient.symm
        hrequest.symm]
      exact hother
  | timedOut hduplicate =>
      exact (h.server i).mem_of_duplicate h.inSequence.order h.numbered.distinguishes
        h.authentic.committed hentry hduplicate

/-- The handler call a clerk waits for, with the reply it has got. -/
theorem seen_of_current (h : Orderly σ) {client : Nat} {clerk : Clerk n}
    {attempt : Attempt n} (hcurrent : σ.current client = some (clerk, attempt))
    {raftIndex : Int} {reply : Reply} (hphase : attempt.phase = .replied raftIndex reply)
    (herr : reply.err ≠ .errWrongLeader) :
    attempt.entry ∈ (σ.server attempt.server).seen := by
  rcases current_eq_some hcurrent with ⟨a, _, hattempt⟩
  apply h.settled attempt (List.mem_of_getElem? hattempt)
  rw [hphase]
  exact herr

theorem handled (h : Orderly σ) {a : Nat} {attempt : Attempt n}
    (hattempt : σ.attempts[a]? = some attempt) {action : HandlerAction} {kv : KvServer}
    {phase : Phase}
    (heffect : HandlerEffect (σ.server attempt.server).kv attempt.entry.op attempt.phase
      action kv phase) : Orderly (σ.handled a attempt action kv phase) := by
  have hmem := List.mem_of_getElem? hattempt
  have hissued := h.authentic.attempts attempt hmem
  constructor
  · exact ⟨h.numbered.ids, h.numbered.known, h.numbered.bound, h.numbered.increasing⟩
  · exact h.sequential.handled hattempt action kv phase
  · exact h.authentic.handled hattempt action kv phase
  · exact ⟨h.inSequence.order, h.inSequence.earlier⟩
  · intro i
    by_cases hi : i = attempt.server
    · rw [hi, handled_server_self]
      exact (h.server attempt.server).handle heffect (h.settled attempt hmem)
    · rw [handled_server_of_ne _ _ _ _ _ _ hi]
      exact h.server i
  · intro other hother hsettled
    rw [handled_seen]
    rcases List.mem_or_eq_of_mem_set hother with hold | rfl
    · exact h.settled other hold hsettled
    · rcases heffect.settled hsettled with hbefore | hcame
      · exact h.settled attempt hmem hbefore
      · exact h.seen_of_cameThrough hissued hcame
  · intro call hcall
    rcases h.returned call hcall with ⟨i, entry, hseen, heq⟩
    refine ⟨i, entry, ?_, heq⟩
    rw [handled_seen]
    exact hseen

theorem consumed (h : Orderly σ) {i : Fin n} {server : Server}
    (hstep : (σ.server i).getCommandFromRaft σ.committed = some server) :
    Orderly { σ with server := Function.update σ.server i server } := by
  have hgrow : forall {j : Fin n} {entry : Entry}, entry ∈ (σ.server j).seen ->
      entry ∈ (Function.update σ.server i server j).seen := by
    intro j entry hentry
    by_cases hj : j = i
    · rw [hj] at hentry
      rw [hj, Function.update_self]
      exact seen_getCommandFromRaft hstep hentry
    · rw [Function.update_of_ne hj]
      exact hentry
  constructor
  · exact ⟨h.numbered.ids, h.numbered.known, h.numbered.bound, h.numbered.increasing⟩
  · exact h.sequential
  · exact ⟨h.authentic.attempts, h.authentic.proposals, h.authentic.committed⟩
  · exact ⟨h.inSequence.order, h.inSequence.earlier⟩
  · intro j
    by_cases hj : j = i
    · rw [hj]
      change (Function.update σ.server i server i).Consistent σ.committed
      rw [Function.update_self]
      exact (h.server i).getCommandFromRaft hstep
    · change (Function.update σ.server i server j).Consistent σ.committed
      rw [Function.update_of_ne hj]
      exact h.server j
  · intro attempt hattempt hsettled
    exact hgrow (h.settled attempt hattempt hsettled)
  · intro call hcall
    rcases h.returned call hcall with ⟨j, entry, hseen, heq⟩
    exact ⟨j, entry, hgrow hseen, heq⟩

theorem step [NeZero n] {rand : Nat -> Nat} {σ' : Service n} {a : Action n}
    (h : Orderly σ) (heffect : StepEffect rand σ a σ')
    (hfresh : FreshId rand { before := σ, action := a, after := σ' }) : Orderly σ' := by
  cases heffect with
  | @created drawn =>
      have hfresh := hfresh drawn rfl
      exact
        { h with
          numbered := h.numbered.create hfresh
          sequential := h.sequential.create h.numbered hfresh
          authentic := ⟨h.authentic.attempts, h.authentic.proposals, h.authentic.committed⟩
          inSequence := ⟨h.inSequence.order, h.inSequence.earlier⟩ }
  | invoked hclient =>
      constructor
      · exact h.numbered.invoke hclient
      · exact h.sequential.invoke h.numbered hclient
      · exact h.authentic.invoke _ _ _
      · exact h.inSequence.invoke h.numbered h.sequential h.authentic
          (fun call => h.committed_of_returned) hclient
      · exact h.server
      · intro attempt hattempt hsettled
        rcases List.mem_append.mp hattempt with hold | hnew
        · exact h.settled attempt hold hsettled
        · rw [List.mem_singleton.mp hnew] at hsettled
          exact hsettled.elim
      · exact h.returned
  | handled hattempt hrun => exact h.handled hattempt (handle_effect hrun)
  | committed hproposal =>
      constructor
      · exact ⟨h.numbered.ids, h.numbered.known, h.numbered.bound, h.numbered.increasing⟩
      · exact h.sequential
      · exact h.authentic.commit hproposal
      · exact h.inSequence.commit h.authentic hproposal
      · intro i
        exact (h.server i).commit _
      · exact h.settled
      · exact h.returned
  | consumed hstep => exact h.consumed hstep
  | resent hcurrent =>
      rcases current_eq_some hcurrent with ⟨b, hclient, hattempt⟩
      have hissued := h.authentic.attempts _ (List.mem_of_getElem? hattempt)
      constructor
      · exact h.numbered.setClient hclient
          { clerk := _, attempt := some σ.attempts.length } rfl rfl rfl rfl
      · exact h.sequential.send h.numbered hcurrent _
      · exact h.authentic.send _ _ hissued _
      · exact ⟨h.inSequence.order, h.inSequence.earlier⟩
      · exact h.server
      · intro attempt hmem hsettled
        rcases List.mem_append.mp hmem with hold | hnew
        · exact h.settled attempt hold hsettled
        · rw [List.mem_singleton.mp hnew] at hsettled
          exact hsettled.elim
      · exact h.returned
  | @returned _ client clerk attempt _ _ leader value hcurrent hphase herr =>
      rcases current_eq_some hcurrent with ⟨b, hclient, _⟩
      constructor
      · exact h.numbered.setClient hclient
          { clerk := { clerk with recentLeaderId := leader }, attempt := none }
          rfl rfl rfl rfl
      · exact h.sequential.finish h.numbered hcurrent _ _
      · exact ⟨h.authentic.attempts, h.authentic.proposals, h.authentic.committed⟩
      · exact ⟨h.inSequence.order, h.inSequence.earlier⟩
      · exact h.server
      · exact h.settled
      · intro call hcall
        rw [finish, List.map_append] at hcall
        rcases List.mem_append.mp hcall with hold | hnew
        · exact h.returned call hold
        · refine ⟨_, _, h.seen_of_current hcurrent hphase herr, ?_⟩
          exact (List.mem_singleton.mp hnew).symm

end Orderly
end Service

theorem orderly [NeZero n] {rand : Nat -> Nat}
    {tr : List (Transition (Service n) (Action n))} {σ : Service n}
    (h : (serviceSystem n rand).Trace tr σ) (hfresh : forall t, t ∈ tr -> FreshId rand t) :
    Orderly σ := by
  refine TransitionSystem.Trace.invariant_under (P := fun _ σ => Orderly σ)
    (Orderly.initial rand) ?_ h hfresh
  intro tr σ σ' a _ _ ih hstep hlast
  exact ih.step (step_effect hstep) hlast

end RaftClerk
end KVRaft
