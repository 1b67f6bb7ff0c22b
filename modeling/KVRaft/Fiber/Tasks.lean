import Mathlib.Logic.Basic
import KVRaft.Foundation.Checked

/-!
# Tasks of the scheduler

A task is a fiber or a callback, possibly pinned to a thread.  A worker scans the
shared list, under its lock, for the first task that it may take.
-/

namespace KVRaft
namespace Fiber

open Foundation

/-- The state of a fiber. -/
inductive State where
  | ready
  | running
  | term
  deriving DecidableEq, Repr

/-- The assertions of the fiber library; one that fails aborts the process. -/
inductive Panic where
  | taskIsNullptr
  | fiberTaskState
  | resumeState
  | yieldState
  | notRegistered
  | unknownEvent
  | duplicateEvent
  | eventContextInUse
  | callerNotRunning
  | notTotallyClear
  | nullScheduler
  | noFdContext
  deriving DecidableEq, Repr

abbrev Outcome (α : Type) := Except Panic α

abbrev condPanic (condition : Prop) [Decidable condition] (err : Panic) : Outcome Unit :=
  check condition err

structure SchedulerTask (φ κ : Type) where
  fiber : Option φ := none
  cb : Option κ := none
  thread : Int := -1
  deriving DecidableEq, Repr

variable {φ κ : Type}

/-- A task with nothing to run is not queued. -/
def SchedulerTask.Nonempty (task : SchedulerTask φ κ) : Prop :=
  task.fiber.isSome ∨ task.cb.isSome

instance (task : SchedulerTask φ κ) : Decidable task.Nonempty :=
  inferInstanceAs (Decidable (_ ∨ _))

def schedulerNoLock (tasks : List (SchedulerTask φ κ)) (task : SchedulerTask φ κ) :
    List (SchedulerTask φ κ) :=
  if task.Nonempty then tasks ++ [task] else tasks

def SchedulerTask.MayRunOn (task : SchedulerTask φ κ) (thread : Int) : Prop :=
  task.thread = -1 ∨ task.thread = thread

instance (task : SchedulerTask φ κ) (thread : Int) : Decidable (task.MayRunOn thread) :=
  inferInstanceAs (Decidable (_ ∨ _))

/-- The fiber of a task, if it has one, may be resumed. -/
def SchedulerTask.Ready (getState : φ -> State) (task : SchedulerTask φ κ) : Prop :=
  match task.fiber with
  | some fiber => getState fiber = .ready
  | none => True

instance (getState : φ -> State) (task : SchedulerTask φ κ) :
    Decidable (task.Ready getState) := by
  unfold SchedulerTask.Ready
  split <;> infer_instance

/-- What `resume` asks of a fiber; a callback gets a new one, which is ready. -/
def SchedulerTask.Resumable (getState : φ -> State) (task : SchedulerTask φ κ) : Prop :=
  match task.fiber with
  | some fiber => getState fiber ≠ .term ∧ getState fiber ≠ .running
  | none => True

instance (getState : φ -> State) (task : SchedulerTask φ κ) :
    Decidable (task.Resumable getState) := by
  unfold SchedulerTask.Resumable
  split <;> infer_instance

/-- The loop of `run` over the list: the task that `thread` takes and what is left. -/
def takeTask (getState : φ -> State) (thread : Int) :
    List (SchedulerTask φ κ) ->
      Outcome (Option (SchedulerTask φ κ × List (SchedulerTask φ κ)))
  | [] => .ok none
  | task :: rest =>
      if task.thread ≠ -1 ∧ task.thread ≠ thread then do
        match <- takeTask getState thread rest with
        | none => return none
        | some (taken, left) => return some (taken, task :: left)
      else do
        condPanic task.Nonempty .taskIsNullptr
        condPanic (task.Ready getState) .fiberTaskState
        return some (task, rest)

/-- The task that a scan comes to, the first that the thread may take. -/
def inspected (thread : Int) (tasks : List (SchedulerTask φ κ)) :
    Option (SchedulerTask φ κ) :=
  tasks.find? fun task => decide (task.MayRunOn thread)

/-!
# What a scan does
-/

variable {getState : φ -> State} {thread : Int} {tasks left : List (SchedulerTask φ κ)}
  {taken : SchedulerTask φ κ}

theorem mayRunOn_of {task : SchedulerTask φ κ}
    (h : ¬ (task.thread ≠ -1 ∧ task.thread ≠ thread)) : task.MayRunOn thread := by
  rcases not_and_or.mp h with hfree | hmine
  · exact Or.inl (not_not.mp hfree)
  · exact Or.inr (not_not.mp hmine)

/-- A worker takes the first task that it may run and leaves the others where they are. -/
theorem takeTask_some (h : takeTask getState thread tasks = .ok (some (taken, left))) :
    exists front rest, tasks = front ++ taken :: rest ∧ left = front ++ rest ∧
      (forall task, task ∈ front -> ¬ task.MayRunOn thread) ∧
      taken.MayRunOn thread ∧ taken.Nonempty ∧ taken.Ready getState := by
  induction tasks generalizing left with
  | nil => cases h
  | cons task rest ih =>
      rw [takeTask] at h
      by_cases hother : task.thread ≠ -1 ∧ task.thread ≠ thread
      · rw [if_pos hother] at h
        rcases bind_eq_ok.mp h with ⟨result, hrest, h⟩
        cases result with
        | none => cases h
        | some result =>
            cases h
            rcases ih hrest with ⟨front, rest', htasks, hleft, hfront, hmay⟩
            refine ⟨task :: front, rest', by rw [htasks]; rfl, by rw [hleft]; rfl, ?_, hmay⟩
            intro task' hmem
            rcases List.mem_cons.mp hmem with rfl | hmem
            · exact not_or.mpr hother
            · exact hfront task' hmem
      · rw [if_neg hother] at h
        rcases bind_eq_ok.mp h with ⟨_, hnonempty, h⟩
        rcases bind_eq_ok.mp h with ⟨_, hready, h⟩
        cases h
        exact ⟨[], rest, rfl, rfl, nofun, mayRunOn_of hother, check_eq_ok.mp hnonempty,
          check_eq_ok.mp hready⟩

/-- A worker that takes nothing may run none of the tasks. -/
theorem takeTask_none (h : takeTask getState thread tasks = .ok none) {task}
    (htask : task ∈ tasks) : ¬ task.MayRunOn thread := by
  induction tasks with
  | nil => cases htask
  | cons first rest ih =>
      rw [takeTask] at h
      by_cases hother : first.thread ≠ -1 ∧ first.thread ≠ thread
      · rw [if_pos hother] at h
        rcases bind_eq_ok.mp h with ⟨result, hrest, h⟩
        cases result with
        | none =>
            rcases List.mem_cons.mp htask with rfl | hmem
            · exact not_or.mpr hother
            · exact ih hrest hmem
        | some result => cases h
      · rw [if_neg hother] at h
        rcases bind_eq_ok.mp h with ⟨_, _, h⟩
        rcases bind_eq_ok.mp h with ⟨_, _, h⟩
        cases h

theorem mem_of_inspected {task : SchedulerTask φ κ} (h : inspected thread tasks = some task) :
    task ∈ tasks :=
  List.mem_of_find?_eq_some h

theorem inspected_cons (task : SchedulerTask φ κ) (rest : List (SchedulerTask φ κ)) :
    inspected thread (task :: rest) =
      if task.MayRunOn thread then some task else inspected thread rest := by
  unfold inspected
  rw [List.find?_cons]
  by_cases hmay : task.MayRunOn thread
  · rw [decide_eq_true hmay, if_pos hmay]
  · rw [decide_eq_false hmay, if_neg hmay]

/-- A scan panics over the state of a fiber only when it comes to its task. -/
theorem takeTask_fiberTaskState (h : takeTask getState thread tasks = .error .fiberTaskState) :
    exists task, inspected thread tasks = some task ∧ ¬ task.Ready getState := by
  induction tasks with
  | nil => cases h
  | cons task rest ih =>
      rw [takeTask] at h
      rw [inspected_cons]
      by_cases hother : task.thread ≠ -1 ∧ task.thread ≠ thread
      · rw [if_pos hother] at h
        have hnot : ¬ task.MayRunOn thread := not_or.mpr hother
        rw [if_neg hnot]
        rcases bind_eq_error.mp h with hrest | ⟨result, _, h⟩
        · exact ih hrest
        · cases result with
          | none => cases h
          | some result => cases h
      · rw [if_neg hother] at h
        rw [if_pos (mayRunOn_of hother)]
        refine ⟨task, rfl, ?_⟩
        rcases bind_eq_error.mp h with hempty | ⟨_, _, h⟩
        · cases (check_eq_error.mp hempty).2
        rcases bind_eq_error.mp h with hstate | ⟨_, _, h⟩
        · exact (check_eq_error.mp hstate).1
        · cases h

end Fiber
end KVRaft
