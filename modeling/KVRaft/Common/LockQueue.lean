import KVRaft.Foundation.Transition

/-!
# The blocking queue

Threads push to a queue and pop from it under one mutex.  A thread that finds the queue
empty waits on the condition variable; a push notifies one of those that wait.  A thread
that was notified looks again once it has the mutex, and may find that another one has
come first.
-/

namespace KVRaft

open Foundation

/-- A thread in `Pop` or in `timeOutPop`, which has a deadline. -/
structure Popper where
  thread : Nat
  timed : Bool
  deriving DecidableEq, Repr

/-- The queue, the threads that wait on the condition variable, and those that have been
notified and have not got the mutex back.  `pushed` and `popped` are the history. -/
structure LockQueue (T : Type) where
  queue : List T
  waiting : List Popper
  notified : List Popper
  pushed : List T
  popped : List (Nat × T)

/-- The critical sections.  `notifies` is the thread that `notify_one` picks, and `wakeUp`
wakes one for no reason. -/
inductive LockQueue.Action (T : Type) where
  | push (data : T) (notifies : Option Popper)
  | pop (popper : Popper)
  | wakeUp (popper : Popper)
  | resume (popper : Popper)
  | timeOut (popper : Popper)
  deriving DecidableEq

namespace LockQueue

variable {T : Type}

/-- The loop of a thread that has the mutex. -/
def take (σ : LockQueue T) (popper : Popper) : LockQueue T :=
  match σ.queue with
  | [] => { σ with waiting := σ.waiting ++ [popper] }
  | data :: rest =>
      { σ with queue := rest, popped := σ.popped ++ [(popper.thread, data)] }

def notify (σ : LockQueue T) (popper : Popper) : LockQueue T :=
  { σ with
    waiting := σ.waiting.erase popper
    notified := σ.notified ++ [popper] }

/-- A thread that was notified has the mutex back. -/
def wakened (σ : LockQueue T) (popper : Popper) : LockQueue T :=
  { σ with notified := σ.notified.erase popper }

theorem take_nil {σ : LockQueue T} (h : σ.queue = []) (popper : Popper) :
    σ.take popper = { σ with waiting := σ.waiting ++ [popper] } := by
  rw [take, h]

theorem take_cons {σ : LockQueue T} {data : T} {rest : List T} (h : σ.queue = data :: rest)
    (popper : Popper) :
    σ.take popper =
      { σ with queue := rest, popped := σ.popped ++ [(popper.thread, data)] } := by
  rw [take, h]

/-- The threads that are inside one of the two calls. -/
def inside (σ : LockQueue T) : List Popper :=
  σ.waiting ++ σ.notified

def step (σ : LockQueue T) : Action T -> Option (LockQueue T)
  | .push data none =>
      if σ.waiting = [] then
        some { σ with queue := σ.queue ++ [data], pushed := σ.pushed ++ [data] }
      else
        none
  | .push data (some popper) =>
      if popper ∈ σ.waiting then
        some
          ({ σ with queue := σ.queue ++ [data], pushed := σ.pushed ++ [data] }.notify popper)
      else
        none
  | .pop popper =>
      if popper.thread ∈ σ.inside.map Popper.thread then none else some (σ.take popper)
  | .wakeUp popper =>
      if popper ∈ σ.waiting then some (σ.notify popper) else none
  | .resume popper =>
      if popper ∈ σ.notified then
        some ((σ.wakened popper).take popper)
      else
        none
  | .timeOut popper =>
      if popper.timed = false then
        none
      else if popper ∈ σ.waiting then
        some { σ with waiting := σ.waiting.erase popper }
      else if popper ∈ σ.notified then
        some (σ.wakened popper)
      else
        none

end LockQueue

def lockQueueSystem (T : Type) : TransitionSystem (LockQueue T) (LockQueue.Action T) where
  init :=
    { queue := []
      waiting := []
      notified := []
      pushed := []
      popped := [] }
  step := LockQueue.step

namespace LockQueue

variable {T : Type} {σ σ' : LockQueue T}

/-!
# What a step does
-/

inductive StepEffect (σ : LockQueue T) : Action T -> LockQueue T -> Prop where
  | pushed {data : T} : σ.waiting = [] ->
      StepEffect σ (.push data none)
        { σ with queue := σ.queue ++ [data], pushed := σ.pushed ++ [data] }
  | notified {data : T} {popper : Popper} : popper ∈ σ.waiting ->
      StepEffect σ (.push data (some popper))
        ({ σ with queue := σ.queue ++ [data], pushed := σ.pushed ++ [data] }.notify popper)
  | entered {popper : Popper} : popper.thread ∉ σ.inside.map Popper.thread ->
      StepEffect σ (.pop popper) (σ.take popper)
  | woken {popper : Popper} : popper ∈ σ.waiting ->
      StepEffect σ (.wakeUp popper) (σ.notify popper)
  | resumed {popper : Popper} : popper ∈ σ.notified ->
      StepEffect σ (.resume popper)
        ((σ.wakened popper).take popper)
  | late {popper : Popper} : popper.timed = true -> popper ∈ σ.waiting ->
      StepEffect σ (.timeOut popper) { σ with waiting := σ.waiting.erase popper }
  | gaveUp {popper : Popper} : popper.timed = true -> popper ∉ σ.waiting ->
      popper ∈ σ.notified ->
      StepEffect σ (.timeOut popper) (σ.wakened popper)

theorem step_effect {a : Action T} (h : σ.step a = some σ') : StepEffect σ a σ' := by
  cases a with
  | push data notifies =>
      cases notifies with
      | none =>
          rw [step] at h
          by_cases hnone : σ.waiting = []
          · rw [if_pos hnone] at h
            cases h
            exact .pushed hnone
          · rw [if_neg hnone] at h
            cases h
      | some popper =>
          rw [step] at h
          by_cases hwaits : popper ∈ σ.waiting
          · rw [if_pos hwaits] at h
            cases h
            exact .notified hwaits
          · rw [if_neg hwaits] at h
            cases h
  | pop popper =>
      rw [step] at h
      by_cases hinside : popper.thread ∈ σ.inside.map Popper.thread
      · rw [if_pos hinside] at h
        cases h
      · rw [if_neg hinside] at h
        cases h
        exact .entered hinside
  | wakeUp popper =>
      rw [step] at h
      by_cases hwaits : popper ∈ σ.waiting
      · rw [if_pos hwaits] at h
        cases h
        exact .woken hwaits
      · rw [if_neg hwaits] at h
        cases h
  | resume popper =>
      rw [step] at h
      by_cases hnotified : popper ∈ σ.notified
      · rw [if_pos hnotified] at h
        cases h
        exact .resumed hnotified
      · rw [if_neg hnotified] at h
        cases h
  | timeOut popper =>
      rw [step] at h
      by_cases htimed : popper.timed = false
      · rw [if_pos htimed] at h
        cases h
      · rw [if_neg htimed] at h
        have htimed := eq_true_of_ne_false htimed
        by_cases hwaits : popper ∈ σ.waiting
        · rw [if_pos hwaits] at h
          cases h
          exact .late htimed hwaits
        · rw [if_neg hwaits] at h
          by_cases hnotified : popper ∈ σ.notified
          · rw [if_pos hnotified] at h
            cases h
            exact .gaveUp htimed hwaits hnotified
          · rw [if_neg hnotified] at h
            cases h

/-!
# First in, first out
-/

/-- Every element pushed has gone to one thread, in the order of the pushes, or is still
there. -/
def InOrder (σ : LockQueue T) : Prop :=
  σ.pushed = σ.popped.map Prod.snd ++ σ.queue

theorem InOrder.take (h : InOrder σ) (popper : Popper) : InOrder (σ.take popper) := by
  cases hqueue : σ.queue with
  | nil =>
      rw [take_nil hqueue]
      exact h
  | cons data rest =>
      rw [take_cons hqueue]
      change σ.pushed = (σ.popped ++ [(popper.thread, data)]).map Prod.snd ++ rest
      rw [h, hqueue, List.map_append, List.append_assoc]
      rfl

theorem InOrder.push (h : InOrder σ) (data : T) :
    InOrder { σ with queue := σ.queue ++ [data], pushed := σ.pushed ++ [data] } := by
  change σ.pushed ++ [data] = σ.popped.map Prod.snd ++ (σ.queue ++ [data])
  rw [h, List.append_assoc]

theorem InOrder.step {a : Action T} (h : InOrder σ) (heffect : StepEffect σ a σ') :
    InOrder σ' := by
  cases heffect with
  | pushed _ => exact h.push _
  | notified _ => exact h.push _
  | entered _ => exact h.take _
  | woken _ => exact h
  | @resumed popper _ =>
      have hsame : InOrder (σ.wakened popper) := h
      exact hsame.take popper
  | late _ _ => exact h
  | gaveUp _ _ _ => exact h

/-!
# Notifications
-/

def Action.timesOut : Action T -> Option Popper
  | .timeOut popper => some popper
  | _ => none

/-- A thread in `timeOutPop` that was notified does not give up while there is something
to pop; it does when its deadline passes before it has got the mutex. -/
def Stays (t : Transition (LockQueue T) (Action T)) : Prop :=
  forall popper, popper ∈ t.action.timesOut ->
    popper ∈ t.before.waiting ∨ t.before.queue = []

instance [DecidableEq T] : DecidablePred (Stays (T := T)) := fun t =>
  inferInstanceAs (Decidable (forall popper, popper ∈ t.action.timesOut ->
    popper ∈ t.before.waiting ∨ t.before.queue = []))

/-- No thread waits, or enough have been notified to take all there is. -/
def Attended (σ : LockQueue T) : Prop :=
  σ.waiting = [] ∨ σ.queue.length ≤ σ.notified.length

theorem attended_of_empty (h : σ.queue = []) : Attended σ := by
  right
  rw [h]
  exact Nat.zero_le _

theorem Attended.take (h : Attended σ) (popper : Popper) : Attended (σ.take popper) := by
  cases hqueue : σ.queue with
  | nil =>
      rw [take_nil hqueue]
      exact attended_of_empty hqueue
  | cons data rest =>
      rw [take_cons hqueue]
      rcases h with hnone | hle
      · exact Or.inl hnone
      · right
        rw [hqueue] at hle
        exact Nat.le_trans (Nat.le_succ _) hle

/-- The thread takes one element, or finds the queue empty. -/
theorem Attended.resume (h : Attended σ) {popper : Popper} (hnotified : popper ∈ σ.notified) :
    Attended ((σ.wakened popper).take popper) := by
  cases hqueue : σ.queue with
  | nil =>
      rw [take_nil (σ := σ.wakened popper) hqueue]
      exact attended_of_empty hqueue
  | cons data rest =>
      rw [take_cons (σ := σ.wakened popper) hqueue]
      rcases h with hnone | hle
      · exact Or.inl hnone
      · right
        change rest.length ≤ (σ.notified.erase popper).length
        rw [List.length_erase_of_mem hnotified]
        rw [hqueue, List.length_cons] at hle
        exact Nat.le_sub_of_add_le hle

theorem Attended.notify {popper : Popper} (hle : σ.queue.length ≤ σ.notified.length + 1) :
    Attended (σ.notify popper) := by
  right
  change σ.queue.length ≤ (σ.notified ++ [popper]).length
  rw [List.length_append]
  exact hle

theorem Attended.le_of_mem (h : Attended σ) {popper : Popper} (hwaits : popper ∈ σ.waiting) :
    σ.queue.length ≤ σ.notified.length := by
  rcases h with hnone | hle
  · rw [hnone] at hwaits
    cases hwaits
  · exact hle

theorem Attended.step {a : Action T} (h : Attended σ) (heffect : StepEffect σ a σ')
    (hstays : Stays { before := σ, action := a, after := σ' }) : Attended σ' := by
  cases heffect with
  | pushed hnone => exact Or.inl hnone
  | @notified data popper hwaits =>
      apply Attended.notify
      change (σ.queue ++ [data]).length ≤ _
      rw [List.length_append]
      exact Nat.succ_le_succ (h.le_of_mem hwaits)
  | entered _ => exact h.take _
  | woken hwaits => exact Attended.notify (Nat.le_succ_of_le (h.le_of_mem hwaits))
  | resumed hnotified => exact h.resume hnotified
  | late _ hwaits => exact Or.inr (h.le_of_mem hwaits)
  | gaveUp _ hwaits _ =>
      rcases hstays _ rfl with hstill | hempty
      · exact absurd hstill hwaits
      · exact attended_of_empty hempty

/-!
# Whole runs
-/

/-- No element is lost, repeated or overtaken, and no wake-up is lost either. -/
theorem lockQueue_delivers (r : (lockQueueSystem T).Run) {σ : LockQueue T}
    (hσ : r.Visits σ) :
    σ.InOrder ∧ (r.Always Stays -> σ.Attended) := by
  rcases hσ.trace with ⟨earlier, hearlier, hsub⟩
  constructor
  · refine TransitionSystem.Trace.invariant (P := fun _ σ => σ.InOrder) rfl ?_ hearlier
    intro tr s s' a _ ih hstep
    exact ih.step (step_effect hstep)
  · intro hstays
    refine TransitionSystem.Trace.invariant_under (P := fun _ σ => σ.Attended)
      (Or.inl rfl) ?_ hearlier fun t ht => hstays t (hsub t ht)
    intro tr s s' a _ _ ih hstep hlast
    exact ih.step (step_effect hstep) hlast

/-- Thread 3 comes before thread 1, which waits again. -/
def overtakenSchedule : List (Action Nat) :=
  [.pop ⟨1, false⟩, .pop ⟨2, true⟩, .push 5 (some ⟨1, false⟩), .pop ⟨3, false⟩,
    .resume ⟨1, false⟩, .push 6 (some ⟨2, true⟩), .resume ⟨2, true⟩]

def overtakenRun : (lockQueueSystem Nat).Run :=
  TransitionSystem.runOf _ overtakenSchedule (by decide)

theorem overtakenRun_delivers : overtakenRun.state.popped = [(3, 5), (2, 6)] ∧
    overtakenRun.state.waiting = [⟨1, false⟩] ∧ overtakenRun.state.Attended := by
  have hstays : forall t, t ∈ overtakenRun.trace -> Stays t := by decide
  exact ⟨rfl, rfl, (lockQueue_delivers overtakenRun (Or.inl rfl)).2 hstays⟩

/-- Thread 2 takes the notification with it, and thread 1 sleeps on. -/
def givenUpRun : (lockQueueSystem Nat).Run :=
  TransitionSystem.runOf _
    [.pop ⟨1, false⟩, .pop ⟨2, true⟩, .push 5 (some ⟨2, true⟩), .timeOut ⟨2, true⟩]
    (by decide)

theorem givenUpRun_not_attended : givenUpRun.state.queue = [5] ∧
    ¬ givenUpRun.state.Attended := by
  refine ⟨rfl, ?_⟩
  unfold Attended
  decide

end LockQueue
end KVRaft
