import Mathlib.Data.Fintype.Card
import Mathlib.Logic.Function.Basic
import KVRaft.Foundation.Transition
import KVRaft.Fiber.Tasks

/-!
# The scheduler

Workers that run the loop of `Scheduler::run` over one list of tasks.  A step of a
worker is what it does under the lock, or what it does alone up to its next step: a
scan of the list, the start and the end of a task, the idle fiber's look at
`stopping()`.
-/

namespace KVRaft
namespace Fiber

open Foundation

/-- The thread ids of the workers; -1 stands for any thread. -/
structure Threads (n : Nat) where
  id : Fin n -> Int
  injective : Function.Injective id
  ne : forall w, id w ≠ -1

/-- Where a worker is in its loop. -/
inductive Phase (φ κ : Type) where
  | scanning
  | holding (task : SchedulerTask φ κ)
  | running (task : SchedulerTask φ κ)
  | idle
  | exited
  deriving DecidableEq, Repr

structure Worker (φ κ : Type) where
  phase : Phase φ κ := .scanning
  /-- the idle fiber has ended -/
  idleTerm : Bool := false
  deriving DecidableEq, Repr

namespace Phase

variable {φ κ : Type}

/-- Counted in `activeThreadCnt_`. -/
def Active : Phase φ κ -> Prop
  | .holding _ => True
  | .running _ => True
  | _ => False

def Running : Phase φ κ -> Prop
  | .running _ => True
  | _ => False

def Exited : Phase φ κ -> Prop
  | .exited => True
  | _ => False

instance (phase : Phase φ κ) : Decidable phase.Active := by
  unfold Active
  split <;> infer_instance

instance (phase : Phase φ κ) : Decidable phase.Running := by
  unfold Running
  split <;> infer_instance

instance (phase : Phase φ κ) : Decidable phase.Exited := by
  unfold Exited
  split <;> infer_instance

end Phase

structure Scheduler (n : Nat) (φ κ : Type) where
  tasks : List (SchedulerTask φ κ)
  activeThreadCnt : Nat
  isStopped : Bool
  worker : Fin n -> Worker φ κ
  /-- the assertion that has ended the process -/
  panic : Option Panic

/-- The states of the fibers are those at the moment of the step. -/
inductive SchedulerAction (n : Nat) (φ κ : Type) where
  | schedule (task : SchedulerTask φ κ)
  | scheduleFrom (w : Fin n) (task : SchedulerTask φ κ)
  | scan (w : Fin n) (getState : φ -> State)
  | resume (w : Fin n) (getState : φ -> State)
  | finish (w : Fin n)
  | idle (w : Fin n)
  | stop

namespace Scheduler

variable {n : Nat} {φ κ : Type}

def init : Scheduler n φ κ where
  tasks := []
  activeThreadCnt := 0
  isStopped := false
  worker := fun _ => {}
  panic := none

def setWorker (σ : Scheduler n φ κ) (w : Fin n) (worker : Worker φ κ) : Scheduler n φ κ :=
  { σ with worker := Function.update σ.worker w worker }

def setPhase (σ : Scheduler n φ κ) (w : Fin n) (phase : Phase φ κ) : Scheduler n φ κ :=
  σ.setWorker w { σ.worker w with phase := phase }

def fail (σ : Scheduler n φ κ) (err : Panic) : Scheduler n φ κ :=
  { σ with panic := some err }

def add (σ : Scheduler n φ κ) (task : SchedulerTask φ κ) : Scheduler n φ κ :=
  { σ with tasks := schedulerNoLock σ.tasks task }

/-- The task may run on any worker, or is pinned to one that has not exited. -/
def PinnedToLive (σ : Scheduler n φ κ) (threads : Threads n) (task : SchedulerTask φ κ) :
    Prop :=
  task.thread = -1 ∨ exists w, task.thread = threads.id w ∧ ¬ (σ.worker w).phase.Exited

instance (σ : Scheduler n φ κ) (threads : Threads n) (task : SchedulerTask φ κ) :
    Decidable (σ.PinnedToLive threads task) :=
  inferInstanceAs (Decidable (_ ∨ _))

def Stopping (σ : Scheduler n φ κ) : Prop :=
  σ.isStopped = true ∧ σ.tasks = [] ∧ σ.activeThreadCnt = 0

instance (σ : Scheduler n φ κ) : Decidable σ.Stopping :=
  inferInstanceAs (Decidable (_ ∧ _))

def take (σ : Scheduler n φ κ) (w : Fin n) (task : SchedulerTask φ κ)
    (left : List (SchedulerTask φ κ)) : Scheduler n φ κ :=
  { σ with tasks := left, activeThreadCnt := σ.activeThreadCnt + 1 }.setPhase w (.holding task)

/-- One pass over the list.  A worker that has found nothing resumes its idle fiber, and
leaves the loop if that has ended. -/
def scan (σ : Scheduler n φ κ) (threads : Threads n) (w : Fin n) (getState : φ -> State) :
    Scheduler n φ κ :=
  match takeTask getState (threads.id w) σ.tasks with
  | .error err => σ.fail err
  | .ok (some (task, left)) => σ.take w task left
  | .ok none => σ.setPhase w (if (σ.worker w).idleTerm then .exited else .idle)

def finish (σ : Scheduler n φ κ) (w : Fin n) : Scheduler n φ κ :=
  { σ with activeThreadCnt := σ.activeThreadCnt - 1 }.setPhase w .scanning

/-- The idle fiber ends once it sees that the scheduler is stopping, and yields until
then. -/
def idle (σ : Scheduler n φ κ) (w : Fin n) : Scheduler n φ κ :=
  σ.setWorker w { phase := .scanning, idleTerm := decide σ.Stopping }

def stop (σ : Scheduler n φ κ) : Scheduler n φ κ :=
  if σ.Stopping then σ else { σ with isStopped := true }

/-- Calls from outside come before `stop`.  Once an assertion has failed there are no more
steps. -/
def step (threads : Threads n) (σ : Scheduler n φ κ) (a : SchedulerAction n φ κ) :
    Option (Scheduler n φ κ) :=
  if σ.panic.isSome then
    none
  else
    match a with
    | .schedule task =>
        if σ.isStopped = false ∧ σ.PinnedToLive threads task then some (σ.add task) else none
    | .scheduleFrom w task =>
        if (σ.worker w).phase.Running ∧ σ.PinnedToLive threads task then
          some (σ.add task)
        else
          none
    | .scan w getState =>
        match (σ.worker w).phase with
        | .scanning => some (σ.scan threads w getState)
        | _ => none
    | .resume w getState =>
        match (σ.worker w).phase with
        | .holding task =>
            if task.Resumable getState then
              some (σ.setPhase w (.running task))
            else
              some (σ.fail .resumeState)
        | _ => none
    | .finish w =>
        match (σ.worker w).phase with
        | .running _ => some (σ.finish w)
        | _ => none
    | .idle w =>
        match (σ.worker w).phase with
        | .idle => some (σ.idle w)
        | _ => none
    | .stop => some σ.stop

def schedulerSystem (threads : Threads n) (φ κ : Type) :
    TransitionSystem (Scheduler n φ κ) (SchedulerAction n φ κ) where
  init := init
  step := step threads

@[simp] theorem setWorker_self (σ : Scheduler n φ κ) (w : Fin n) (worker : Worker φ κ) :
    (σ.setWorker w worker).worker w = worker := by
  simp only [setWorker, Function.update_self]

theorem setWorker_of_ne (σ : Scheduler n φ κ) {w w' : Fin n} (h : w' ≠ w)
    (worker : Worker φ κ) : (σ.setWorker w worker).worker w' = σ.worker w' := by
  simp only [setWorker, Function.update_of_ne h]

/-!
# What a step can do
-/

inductive StepCase (threads : Threads n) (σ : Scheduler n φ κ) :
    SchedulerAction n φ κ -> Scheduler n φ κ -> Prop where
  | schedule (task : SchedulerTask φ κ) :
      σ.isStopped = false -> σ.PinnedToLive threads task ->
        StepCase threads σ (.schedule task) (σ.add task)
  | scheduleFrom (w : Fin n) (task : SchedulerTask φ κ) :
      (σ.worker w).phase.Running -> σ.PinnedToLive threads task ->
        StepCase threads σ (.scheduleFrom w task) (σ.add task)
  | take (w : Fin n) (getState : φ -> State) (task : SchedulerTask φ κ)
      (left : List (SchedulerTask φ κ)) :
      (σ.worker w).phase = .scanning ->
        takeTask getState (threads.id w) σ.tasks = .ok (some (task, left)) ->
          StepCase threads σ (.scan w getState) (σ.take w task left)
  | nothing (w : Fin n) (getState : φ -> State) :
      (σ.worker w).phase = .scanning ->
        takeTask getState (threads.id w) σ.tasks = .ok none ->
          StepCase threads σ (.scan w getState)
            (σ.setPhase w (if (σ.worker w).idleTerm then .exited else .idle))
  | resume (w : Fin n) (getState : φ -> State) (task : SchedulerTask φ κ) :
      (σ.worker w).phase = .holding task ->
        StepCase threads σ (.resume w getState) (σ.setPhase w (.running task))
  | finish (w : Fin n) (task : SchedulerTask φ κ) :
      (σ.worker w).phase = .running task -> StepCase threads σ (.finish w) (σ.finish w)
  | idle (w : Fin n) :
      (σ.worker w).phase = .idle -> StepCase threads σ (.idle w) (σ.idle w)
  | stop : StepCase threads σ .stop { σ with isStopped := true }
  | scanFail (w : Fin n) (getState : φ -> State) (err : Panic) :
      (σ.worker w).phase = .scanning -> StepCase threads σ (.scan w getState) (σ.fail err)
  | resumeFail (w : Fin n) (getState : φ -> State) :
      StepCase threads σ (.resume w getState) (σ.fail .resumeState)

theorem stop_eq (σ : Scheduler n φ κ) : σ.stop = { σ with isStopped := true } := by
  unfold stop
  by_cases hstopping : σ.Stopping
  · rw [if_pos hstopping]
    have hstopped := hstopping.1
    cases σ
    cases hstopped
    rfl
  · rw [if_neg hstopping]

theorem step_cases {threads : Threads n} {σ σ' : Scheduler n φ κ} {a : SchedulerAction n φ κ}
    (h : step threads σ a = some σ') : σ.panic = none ∧ StepCase threads σ a σ' := by
  rcases running_of_step h with ⟨hpanic, h⟩
  refine ⟨hpanic, ?_⟩
  cases a with
  | schedule task =>
      dsimp only at h
      split at h
      · rename_i hguard
        cases h
        exact .schedule task hguard.1 hguard.2
      · cases h
  | scheduleFrom w task =>
      dsimp only at h
      split at h
      · rename_i hguard
        cases h
        exact .scheduleFrom w task hguard.1 hguard.2
      · cases h
  | scan w getState =>
      dsimp only at h
      cases hphase : (σ.worker w).phase with
      | scanning =>
          rw [hphase] at h
          cases h
          unfold scan
          cases htake : takeTask getState (threads.id w) σ.tasks with
          | error err => exact .scanFail w getState err hphase
          | ok result =>
              cases result with
              | none => exact .nothing w getState hphase htake
              | some result => exact .take w getState result.1 result.2 hphase htake
      | _ =>
          rw [hphase] at h
          cases h
  | resume w getState =>
      dsimp only at h
      cases hphase : (σ.worker w).phase with
      | holding task =>
          rw [hphase] at h
          dsimp only at h
          split at h
          · cases h
            exact .resume w getState task hphase
          · cases h
            exact .resumeFail w getState
      | _ =>
          rw [hphase] at h
          cases h
  | finish w =>
      dsimp only at h
      cases hphase : (σ.worker w).phase with
      | running task =>
          rw [hphase] at h
          cases h
          exact .finish w task hphase
      | _ =>
          rw [hphase] at h
          cases h
  | idle w =>
      dsimp only at h
      cases hphase : (σ.worker w).phase with
      | idle =>
          rw [hphase] at h
          cases h
          exact .idle w hphase
      | _ =>
          rw [hphase] at h
          cases h
  | stop =>
      cases h
      rw [stop_eq]
      exact .stop

end Scheduler
end Fiber
end KVRaft
