import KVRaft.Fiber.Hooks
import KVRaft.Fiber.Wakeups

/-!
# References to fibers

A fiber is woken by whoever holds a reference to it: a timer, a context, a task or a
worker.  There is at most one such reference while the fiber waits or is about to, and
none while it goes on.
-/

namespace KVRaft
namespace Fiber

open Foundation

/-- The state that a fiber has at each place of its code. -/
def Pc.state : Pc -> State
  | .absent => .term
  | .created => .ready
  | .slept => .ready
  | .waited _ _ => .ready
  | .done => .term
  | _ => .running

/-- A fiber that can be woken but has yet to yield. -/
def Pc.Published : Pc -> Prop
  | .sleeping => True
  | .waiting _ _ => True
  | _ => False

/-- The number of references that may wake a fiber. -/
def Pc.allowance : Pc -> Nat
  | .created => 1
  | .sleeping => 1
  | .slept => 1
  | .waiting _ _ => 1
  | .waited _ _ => 1
  | _ => 0

theorem Pc.state_of_published {pc : Pc} (h : pc.Published) : pc.state = .running := by
  cases pc with
  | sleeping => rfl
  | waiting io timer => rfl
  | _ => cases h

theorem Pc.allowance_of_published {pc : Pc} (h : pc.Published) : pc.allowance = 1 := by
  cases pc with
  | sleeping => rfl
  | waiting io timer => rfl
  | _ => cases h

theorem Pc.ready_or_published {pc : Pc} (h : 0 < pc.allowance) :
    pc.state = .ready ∨ pc.Published := by
  cases pc with
  | created => exact Or.inl rfl
  | slept => exact Or.inl rfl
  | waited io timer => exact Or.inl rfl
  | sleeping => exact Or.inr trivial
  | waiting io timer => exact Or.inr trivial
  | _ => exact absurd h (Nat.lt_irrefl 0)

/-- A fiber that is resumed runs and is not woken again. -/
theorem Pc.state_resumed {pc : Pc} (h : pc.state = .ready) :
    (Pc.resumed pc).state = .running ∧ (Pc.resumed pc).allowance = 0 ∧
      pc.allowance = 1 := by
  cases pc with
  | created => exact ⟨rfl, rfl, rfl⟩
  | slept => exact ⟨rfl, rfl, rfl⟩
  | waited io timer => exact ⟨rfl, rfl, rfl⟩
  | _ => cases h

namespace FiberSystem

variable {n : Nat} {σ σ' : FiberSystem n}

/-- What wakes a fiber. -/
def wakes (fiber : Nat) : Weights Callback where
  fiber := fun other => if other = fiber then 1 else 0
  cb := fun cb =>
    match cb with
    | .scheduler sleeper => if sleeper = fiber then 1 else 0
    | _ => 0

def phaseWeight (W : Weights Callback) : IOPhase -> Nat
  | .holding task => W.task task
  | .invoking _ cb => W.cb cb
  | .firing cbs _ => (cbs.map fun cb => cb.elim 0 W.cb).sum
  | _ => 0

def workerWeight (W : Weights Callback) (worker : IOWorker) : Nat :=
  phaseWeight W worker.phase

/-- The references to a fiber that may still wake it. -/
def wakeups (σ : FiberSystem n) (fiber : Nat) : Nat :=
  TimerManager.held (wakes fiber).cb σ.timers + (wakes fiber).manager σ.io +
    ∑ w, workerWeight (wakes fiber) (σ.worker w)

theorem wakes_fiber_self (fiber : Nat) : (wakes fiber).fiber fiber = 1 :=
  if_pos rfl

theorem wakes_fiber_of_ne {fiber other : Nat} (h : other ≠ fiber) :
    (wakes fiber).fiber other = 0 :=
  if_neg h

/-- A worker that goes on exchanges what it holds. -/
theorem wakeups_setPhase (σ : FiberSystem n) (w : Fin n) {before : IOPhase}
    (h : (σ.worker w).phase = before) (after : IOPhase) (fiber : Nat) :
    (σ.setPhase w after).wakeups fiber + phaseWeight (wakes fiber) before =
      σ.wakeups fiber + phaseWeight (wakes fiber) after := by
  have hupdate := sum_update (workerWeight (wakes fiber)) σ.worker w
    { σ.worker w with phase := after }
  unfold wakeups setPhase
  unfold workerWeight at hupdate ⊢
  dsimp only at hupdate ⊢
  rw [h] at hupdate
  omega

@[simp] theorem wakeups_setActive (σ : FiberSystem n) (activeThreadCnt fiber : Nat) :
    (σ.setActive activeThreadCnt).wakeups fiber = σ.wakeups fiber :=
  rfl

@[simp] theorem wakeups_setFiber (σ : FiberSystem n) (fiber : Nat) (state : State) (pc : Pc)
    (other : Nat) : (σ.setFiber fiber state pc).wakeups other = σ.wakeups other :=
  rfl

theorem wakeups_setTasks (σ : FiberSystem n) (tasks : List (SchedulerTask Nat Callback))
    (fiber : Nat) :
    (σ.setTasks tasks).wakeups fiber + (σ.tasks.map (wakes fiber).task).sum =
      σ.wakeups fiber + (tasks.map (wakes fiber).task).sum := by
  unfold wakeups setTasks Weights.manager FiberSystem.tasks
  dsimp only
  rw [Function.update_self]
  omega

theorem wakeups_schedule (σ : FiberSystem n) (task : SchedulerTask Nat Callback)
    (fiber : Nat) :
    (σ.schedule task).wakeups fiber ≤ σ.wakeups fiber + (wakes fiber).task task := by
  have hschedule := (wakes fiber).manager_schedule σ.io 0 task
  unfold wakeups schedule
  dsimp only
  omega

/-!
# Orderly systems
-/

structure Orderly (σ : FiberSystem n) : Prop where
  tidy : forall fiber, TimerManager.Tidy (wakes fiber).cb σ.timers
  states : forall fiber, (σ.fiber fiber).state = (σ.fiber fiber).pc.state
  fresh : forall fiber, σ.nextFiber ≤ fiber -> (σ.fiber fiber).pc = .absent
  wakeups : forall fiber, σ.wakeups fiber ≤ (σ.fiber fiber).pc.allowance

theorem orderly_create (now : UInt64) : Orderly (create now : FiberSystem n) where
  tidy := fun _ => TimerManager.tidy_create now
  states := fun _ => rfl
  fresh := fun _ _ => rfl
  wakeups := by
    intro fiber
    have htimers : TimerManager.held (wakes fiber).cb
        (create now : FiberSystem n).timers = 0 := rfl
    have hcontexts : ((create now : FiberSystem n).io.fdContexts.map
        (wakes fiber).context).sum = 0 := by
      refine List.sum_eq_zero (List.forall_mem_map.mpr fun ctx hmem => ?_)
      rcases List.mem_map.mp hmem with ⟨_, _, rfl⟩
      rfl
    have hqueue : (((create now : FiberSystem n).io.tasks 0).map (wakes fiber).task).sum = 0 :=
      rfl
    have hworkers : ∑ w, workerWeight (wakes fiber) ((create now : FiberSystem n).worker w) =
        0 :=
      Finset.sum_eq_zero fun _ _ => rfl
    unfold FiberSystem.wakeups Weights.manager
    rw [htimers, hcontexts, hqueue, hworkers]
    exact Nat.zero_le _

/-- A fiber that does not exist cannot be woken. -/
theorem Orderly.wakeups_fresh (h : Orderly σ) {fiber : Nat} (hfiber : σ.nextFiber ≤ fiber) :
    σ.wakeups fiber = 0 := by
  have hwakeups := h.wakeups fiber
  rw [h.fresh fiber hfiber] at hwakeups
  exact Nat.le_zero.mp hwakeups

/-- A step that leaves the fibers where they are. -/
theorem Orderly.keep (h : Orderly σ) (hfiber : σ'.fiber = σ.fiber)
    (hnext : σ'.nextFiber = σ.nextFiber)
    (htidy : forall fiber, TimerManager.Tidy (wakes fiber).cb σ'.timers)
    (hwakeups : forall fiber, σ'.wakeups fiber ≤ σ.wakeups fiber) : Orderly σ' where
  tidy := htidy
  states := by
    rw [hfiber]
    exact h.states
  fresh := by
    rw [hfiber, hnext]
    exact h.fresh
  wakeups := by
    intro fiber
    rw [hfiber]
    exact Nat.le_trans (hwakeups fiber) (h.wakeups fiber)

/-- A step that moves one fiber. -/
theorem Orderly.replace (h : Orderly σ) (fiber : Nat) (pc : Pc)
    (hfiber : σ'.fiber = Function.update σ.fiber fiber { state := pc.state, pc := pc })
    (hfresh : forall other, σ'.nextFiber ≤ other -> other ≠ fiber ∧ σ.nextFiber ≤ other)
    (htidy : forall other, TimerManager.Tidy (wakes other).cb σ'.timers)
    (hself : σ'.wakeups fiber ≤ pc.allowance)
    (hothers : forall other, other ≠ fiber -> σ'.wakeups other ≤ σ.wakeups other) :
    Orderly σ' where
  tidy := htidy
  states := by
    intro other
    rw [hfiber]
    by_cases heq : other = fiber
    · rw [heq, Function.update_self]
    · rw [Function.update_of_ne heq]
      exact h.states other
  fresh := by
    intro other hother
    rcases hfresh other hother with ⟨hne, hold⟩
    rw [hfiber, Function.update_of_ne hne]
    exact h.fresh other hold
  wakeups := by
    intro other
    rw [hfiber]
    by_cases heq : other = fiber
    · rw [heq, Function.update_self]
      exact hself
    · rw [Function.update_of_ne heq]
      exact Nat.le_trans (hothers other heq) (h.wakeups other)

/-- A step of one fiber, which pays for the references that it adds. -/
theorem Orderly.turn (h : Orderly σ) (fiber : Nat) {before : Pc} (after : Pc)
    (hpc : (σ.fiber fiber).pc = before) (hpresent : before ≠ .absent)
    (hfiber : σ'.fiber =
      Function.update σ.fiber fiber { state := after.state, pc := after })
    (hnext : σ'.nextFiber = σ.nextFiber)
    (htidy : forall other, TimerManager.Tidy (wakes other).cb σ'.timers)
    (hself : σ'.wakeups fiber + before.allowance ≤ σ.wakeups fiber + after.allowance)
    (hothers : forall other, other ≠ fiber -> σ'.wakeups other ≤ σ.wakeups other) :
    Orderly σ' := by
  refine h.replace fiber after hfiber ?_ htidy ?_ hothers
  · intro other hother
    rw [hnext] at hother
    refine ⟨?_, hother⟩
    intro heq
    rw [heq] at hother
    exact hpresent (hpc ▸ h.fresh fiber hother)
  · have hwakeups := h.wakeups fiber
    rw [hpc] at hwakeups
    omega

/-- A step that makes a new fiber. -/
theorem Orderly.born (h : Orderly σ) (pc : Pc)
    (hfiber : σ'.fiber =
      Function.update σ.fiber σ.nextFiber { state := pc.state, pc := pc })
    (hnext : σ'.nextFiber = σ.nextFiber + 1)
    (htidy : forall other, TimerManager.Tidy (wakes other).cb σ'.timers)
    (hself : σ'.wakeups σ.nextFiber ≤ σ.wakeups σ.nextFiber + pc.allowance)
    (hothers : forall other, other ≠ σ.nextFiber -> σ'.wakeups other ≤ σ.wakeups other) :
    Orderly σ' := by
  refine h.replace σ.nextFiber pc hfiber ?_ htidy ?_ hothers
  · intro other hother
    rw [hnext] at hother
    exact ⟨Nat.ne_of_gt hother, Nat.le_of_succ_le hother⟩
  · have hnone := h.wakeups_fresh (Nat.le_refl σ.nextFiber)
    omega

/-!
# Parts of steps
-/

theorem Orderly.fail (h : Orderly σ) (err : Panic) : Orderly (σ.fail err) :=
  h.keep rfl rfl h.tidy fun _ => Nat.le_refl _

/-- A worker that goes on without holding anything. -/
theorem Orderly.setPhase (h : Orderly σ) (w : Fin n) (phase : IOPhase)
    (hempty : forall fiber, phaseWeight (wakes fiber) phase = 0) :
    Orderly (σ.setPhase w phase) := by
  refine h.keep rfl rfl h.tidy fun fiber => ?_
  have hupdate := wakeups_setPhase σ w rfl phase fiber
  rw [hempty fiber] at hupdate
  exact Nat.le_trans (Nat.le_add_right _ _) (Nat.le_of_eq hupdate)

/-- Operations on events bring no new references. -/
theorem Orderly.settle (h : Orderly σ) {outcome : Outcome (IOManager Callback)}
    (hio : forall io, outcome = .ok io ->
      forall fiber, (wakes fiber).manager io ≤ (wakes fiber).manager σ.io) :
    Orderly (σ.settle outcome) := by
  cases outcome with
  | error err => exact h.fail err
  | ok io =>
      refine h.keep rfl rfl h.tidy fun fiber => ?_
      have hmanager := hio io rfl fiber
      unfold FiberSystem.wakeups FiberSystem.settle
      dsimp only
      omega

theorem map_fst_ok {α : Type} {outcome : Outcome (IOManager Callback × α)}
    {io : IOManager Callback} (h : outcome.map Prod.fst = .ok io) :
    exists done, outcome = .ok (io, done) := by
  cases outcome with
  | error err => cases h
  | ok result =>
      cases h
      exact ⟨result.2, rfl⟩

theorem wakes_fiberTask (sleeper : Nat) (thread : Int) (fiber : Nat) :
    (wakes fiber).task { fiber := some sleeper, thread := thread } =
      (wakes fiber).fiber sleeper :=
  Nat.add_zero _

/-- A new timer has one reference at most. -/
theorem Orderly.addTimer (h : Orderly σ) {address : Nat} {now ms : UInt64} {cb : Callback}
    {recurring : Bool} (hadd : σ.addTimer address now ms cb recurring = some σ')
    (hrecurring : recurring = true -> cb = .user) :
    σ'.fiber = σ.fiber ∧ σ'.nextFiber = σ.nextFiber ∧
      (forall fiber, TimerManager.Tidy (wakes fiber).cb σ'.timers) ∧
      forall fiber, σ'.wakeups fiber ≤ σ.wakeups fiber + (wakes fiber).cb cb := by
  unfold FiberSystem.addTimer at hadd
  split at hadd
  · rename_i hguard
    cases hadd
    have hspec := fun fiber => (h.tidy fiber).addTimer hguard.2 now ms (some cb)
      recurring fun heq => by
        rw [hrecurring heq]
        rfl
    refine ⟨rfl, rfl, fun fiber => (hspec fiber).1, fun fiber => ?_⟩
    have hheld := (hspec fiber).2
    unfold FiberSystem.wakeups
    simp only [Option.elim] at hheld ⊢
    omega
  · cases hadd

theorem cancelTimer_fiber (σ : FiberSystem n) (timer : Option Nat) :
    (σ.cancelTimer timer).fiber = σ.fiber := by
  cases timer <;> rfl

theorem Orderly.cancelTimer (h : Orderly σ) (timer : Option Nat) :
    Orderly (σ.cancelTimer timer) := by
  cases timer with
  | none => exact h
  | some address =>
      have hspec := fun fiber => (h.tidy fiber).cancel address
      refine h.keep rfl rfl (fun fiber => (hspec fiber).1) fun fiber => ?_
      have hheld := (hspec fiber).2
      unfold FiberSystem.wakeups FiberSystem.cancelTimer
      dsimp only
      omega

end FiberSystem
end Fiber
end KVRaft
