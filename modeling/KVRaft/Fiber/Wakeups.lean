import KVRaft.Foundation.Sums
import KVRaft.Fiber.IOManager

/-!
# Wake-ups that the manager holds

Weights of fibers and callbacks, summed over the contexts and the queue of a manager.
Operations on events move what they find from the contexts to the queue or drop it,
and only `addEvent` brings anything new.
-/

namespace KVRaft
namespace Fiber

open Foundation

structure Weights (κ : Type) where
  fiber : Nat -> Nat
  cb : κ -> Nat

namespace Weights

variable {κ : Type} (W : Weights κ)

def task (task : SchedulerTask Nat κ) : Nat :=
  task.fiber.elim 0 W.fiber + task.cb.elim 0 W.cb

def event (eventCtx : EventContext κ) : Nat :=
  eventCtx.fiber.elim 0 W.fiber + eventCtx.cb.elim 0 W.cb

def context (ctx : FdContext κ) : Nat :=
  W.event ctx.read + W.event ctx.write

/-- What the manager holds and what is queued in scheduler 0, its own. -/
def manager (io : IOManager κ) : Nat :=
  (io.fdContexts.map W.context).sum + ((io.tasks 0).map W.task).sum

/-- What a caller of `addEvent` asks to be run. -/
def request (caller : Caller) : Option κ -> Nat
  | some cb => W.cb cb
  | none => W.fiber caller.fiber

theorem sum_schedulerNoLock (tasks : List (SchedulerTask Nat κ))
    (task : SchedulerTask Nat κ) :
    ((schedulerNoLock tasks task).map W.task).sum ≤ (tasks.map W.task).sum + W.task task := by
  unfold schedulerNoLock
  split
  · rw [List.map_append, List.sum_append, List.map_singleton, List.sum_singleton]
  · exact Nat.le_add_right _ _

/-!
# Contexts
-/

/-- Writing through the reference to the context of an event. -/
theorem context_set {ctx : FdContext κ} {event : Event} {old : EventContext κ}
    (h : ctx.getEveContext event = .ok old) (eventCtx : EventContext κ) :
    W.context (ctx.setEveContext event eventCtx) + W.event old =
      W.context ctx + W.event eventCtx := by
  cases event with
  | none => cases h
  | read =>
      cases h
      simp only [context, FdContext.setEveContext]
      omega
  | write =>
      cases h
      simp only [context, FdContext.setEveContext]
      omega

theorem event_empty : W.event {} = 0 :=
  rfl

theorem context_reset (ctx : FdContext κ) (event : Event) :
    W.context (ctx.resetEveContext event) ≤ W.context ctx := by
  unfold context
  cases event with
  | none => exact Nat.le_refl _
  | read => exact Nat.add_le_add_right (Nat.zero_le _) _
  | write => exact Nat.add_le_add_left (Nat.zero_le _) _

/-- A triggered event hands its task on. -/
theorem context_triggerEvent {ctx ctx' : FdContext κ} {event : Event} {scheduler : Nat}
    {task : SchedulerTask Nat κ} (h : ctx.triggerEvent event = .ok (ctx', scheduler, task)) :
    W.context ctx' + W.task task ≤ W.context ctx := by
  rcases bind_eq_ok.mp h with ⟨_, _, h⟩
  rcases bind_eq_ok.mp h with ⟨eventCtx, hget, h⟩
  have hset := W.context_set hget {}
  have hsame : W.context { ctx with events := ctx.events.clear event.bits } =
      W.context ctx := rfl
  rw [event_empty, hsame] at hset
  rcases eventCtx with ⟨scheduler', fiber, cb⟩
  cases scheduler' with
  | none => cases h
  | some scheduler' =>
      unfold Weights.event at hset
      unfold Weights.task
      cases cb with
      | some cb =>
          cases h
          simp only [Option.elim, FdContext.resetEveContext] at hset ⊢
          omega
      | none =>
          cases h
          simp only [Option.elim, FdContext.resetEveContext] at hset ⊢
          omega

/-!
# The manager
-/

variable {io io' : IOManager κ} {fd : Nat} {ctx : FdContext κ} {event : Event}

theorem manager_setFdContext (io : IOManager κ) (hctx : io.fdContext fd = .ok ctx)
    (ctx' : FdContext κ) :
    W.manager (io.setFdContext fd ctx') + W.context ctx =
      W.manager io + W.context ctx' := by
  have hset := sum_map_set W.context (IOManager.fdContext_ok hctx) ctx'
  unfold manager
  change ((io.fdContexts.set fd ctx').map W.context).sum + ((io.tasks 0).map W.task).sum +
    _ = _
  omega

theorem manager_schedule (io : IOManager κ) (scheduler : Nat) (task : SchedulerTask Nat κ) :
    W.manager (io.schedule scheduler task) ≤ W.manager io + W.task task := by
  unfold manager
  by_cases heq : scheduler = 0
  · subst heq
    have hqueue := W.sum_schedulerNoLock (io.tasks 0) task
    simp only [IOManager.schedule, Function.update_self]
    omega
  · simp only [IOManager.schedule, Function.update_of_ne (Ne.symm heq)]
    omega

theorem manager_triggerEvent (h : io.triggerEvent fd event = .ok io') :
    W.manager io' ≤ W.manager io := by
  rcases bind_eq_ok.mp h with ⟨ctx, hctx, h⟩
  rcases bind_eq_ok.mp h with ⟨⟨ctx', scheduler, task⟩, htrigger, h⟩
  cases h
  have hcontext := W.context_triggerEvent htrigger
  have hset := W.manager_setFdContext io hctx ctx'
  have hschedule := W.manager_schedule (io.setFdContext fd ctx') scheduler task
  omega

theorem manager_triggerIf {bit : Bool} (h : io.triggerIf fd bit event = .ok io') :
    W.manager io' ≤ W.manager io := by
  cases bit with
  | false =>
      cases h
      exact Nat.le_refl _
  | true =>
      rcases bind_eq_ok.mp h with ⟨io1, htrigger, h⟩
      cases h
      change W.manager io1 ≤ W.manager io
      exact W.manager_triggerEvent htrigger

theorem manager_delEvent {ctl done : Bool} (h : io.delEvent fd event ctl = .ok (io', done)) :
    W.manager io' ≤ W.manager io := by
  unfold IOManager.delEvent at h
  split at h
  · cases h
    exact Nat.le_refl _
  rcases bind_eq_ok.mp h with ⟨ctx, hctx, h⟩
  split at h
  · cases h
    exact Nat.le_refl _
  split at h
  · cases h
    exact Nat.le_refl _
  cases h
  have hset := W.manager_setFdContext io.uncount hctx
    ({ ctx with events := ctx.events.clear event.bits }.resetEveContext event)
  have hreset := W.context_reset { ctx with events := ctx.events.clear event.bits } event
  change _ + _ = W.manager io + _ at hset
  change _ ≤ W.context ctx at hreset
  omega

theorem manager_cancelEvent {ctl done : Bool}
    (h : io.cancelEvent fd event ctl = .ok (io', done)) : W.manager io' ≤ W.manager io := by
  unfold IOManager.cancelEvent at h
  split at h
  · cases h
    exact Nat.le_refl _
  rcases bind_eq_ok.mp h with ⟨ctx, hctx, h⟩
  split at h
  · cases h
    exact Nat.le_refl _
  split at h
  · cases h
    exact Nat.le_refl _
  rcases bind_eq_ok.mp h with ⟨io1, htrigger, h⟩
  cases h
  change W.manager io1 ≤ W.manager io
  exact W.manager_triggerEvent htrigger

theorem manager_cancelAll {ctl done : Bool} (h : io.cancelAll fd ctl = .ok (io', done)) :
    W.manager io' ≤ W.manager io := by
  unfold IOManager.cancelAll at h
  split at h
  · cases h
    exact Nat.le_refl _
  rcases bind_eq_ok.mp h with ⟨ctx, hctx, h⟩
  split at h
  · cases h
    exact Nat.le_refl _
  split at h
  · cases h
    exact Nat.le_refl _
  rcases bind_eq_ok.mp h with ⟨io1, hfirst, h⟩
  rcases bind_eq_ok.mp h with ⟨ctx1, _, h⟩
  rcases bind_eq_ok.mp h with ⟨io2, hsecond, h⟩
  rcases bind_eq_ok.mp h with ⟨ctx2, _, h⟩
  rcases bind_eq_ok.mp h with ⟨_, _, h⟩
  cases h
  exact Nat.le_trans (W.manager_triggerIf hsecond) (W.manager_triggerIf hfirst)

theorem manager_handleEvent {report : EpollEvent} {ctl : Bool}
    (h : io.handleEvent report ctl = .ok io') : W.manager io' ≤ W.manager io := by
  rcases bind_eq_ok.mp h with ⟨ctx, hctx, h⟩
  dsimp only at h
  split at h
  · cases h
    exact Nat.le_refl _
  split at h
  · cases h
    exact Nat.le_refl _
  rcases bind_eq_ok.mp h with ⟨io1, hfirst, h⟩
  exact Nat.le_trans (W.manager_triggerIf h) (W.manager_triggerIf hfirst)

theorem manager_contextResize (io : IOManager κ) (size : Nat) :
    W.manager (io.contextResize size) ≤ W.manager io := by
  have hnew : ((IOManager.newContexts io.fdContexts.length
      (size - io.fdContexts.length) : List (FdContext κ)).map W.context).sum = 0 := by
    refine List.sum_eq_zero (List.forall_mem_map.mpr fun ctx hmem => ?_)
    rcases List.mem_map.mp hmem with ⟨_, _, rfl⟩
    rfl
  have hold := ((List.take_sublist size io.fdContexts).map W.context).sum_le_sum
    fun _ _ => Nat.zero_le _
  unfold manager IOManager.contextResize
  dsimp only
  rw [List.map_append, List.sum_append, hnew]
  omega

/-- A registration asks for nothing more than its caller does. -/
theorem event_registration {caller : Caller} {cb : Option κ} {eventCtx : EventContext κ}
    (h : IOManager.registration caller cb = .ok eventCtx) :
    W.event eventCtx = W.request caller cb := by
  cases cb with
  | some cb =>
      cases h
      exact Nat.zero_add _
  | none =>
      rcases bind_eq_ok.mp h with ⟨_, _, h⟩
      cases h
      exact Nat.add_zero _

/-- A refused registration brings nothing. -/
theorem manager_addEvent {caller : Caller} {cb : Option κ} {ctl : Bool} {ret : Int}
    (h : io.addEvent fd event caller cb ctl = .ok (io', ret)) :
    W.manager io' ≤ W.manager io + W.request caller cb ∧
      (ret ≠ 0 -> W.manager io' ≤ W.manager io) := by
  unfold IOManager.addEvent at h
  have hgrown : W.manager (if io.fdContexts.length > fd then io
      else io.contextResize (fd * 3 / 2)) ≤ W.manager io := by
    split
    · exact Nat.le_refl _
    · exact W.manager_contextResize io _
  generalize (if io.fdContexts.length > fd then io else io.contextResize (fd * 3 / 2)) = io0
    at h hgrown
  rcases bind_eq_ok.mp h with ⟨ctx, hctx, h⟩
  rcases bind_eq_ok.mp h with ⟨_, _, h⟩
  split at h
  · cases h
    exact ⟨Nat.le_trans hgrown (Nat.le_add_right _ _), fun _ => hgrown⟩
  rcases bind_eq_ok.mp h with ⟨old, hget, h⟩
  rcases bind_eq_ok.mp h with ⟨_, hfree, h⟩
  rcases bind_eq_ok.mp h with ⟨eventCtx, hregister, h⟩
  cases h
  refine ⟨?_, fun hne => absurd rfl hne⟩
  have hset := W.context_set hget eventCtx
  have hmanager := W.manager_setFdContext
    { io0 with pendingEventCnt := io0.pendingEventCnt + 1 } hctx
    ({ ctx with events := ctx.events.or event.bits }.setEveContext event eventCtx)
  have hrequest := W.event_registration hregister
  change _ + _ = W.context ctx + _ at hset
  change _ + _ = W.manager io0 + _ at hmanager
  omega

end Weights
end Fiber
end KVRaft
