import KVRaft.Foundation.Sums

/-!
# Timers

Timer objects are known by their addresses and `timers_` holds addresses, in the order
of the comparator.  Readings of the clock and the addresses of new objects are
arguments, and the call of `OnTimerInsertedAtFront` is part of the result.
-/

namespace KVRaft
namespace Fiber

open Foundation

structure Timer (κ : Type) where
  recurring : Bool := false
  ms : UInt64 := 0
  next : UInt64 := 0
  cb : Option κ := none
  deriving DecidableEq

/-- The constructor, which reads the clock. -/
def Timer.new {κ : Type} (now ms : UInt64) (cb : Option κ) (recurring : Bool) : Timer κ where
  recurring := recurring
  ms := ms
  next := now + ms
  cb := cb

structure TimerManager (κ : Type) where
  objects : Nat -> Option (Timer κ)
  timers : List Nat
  tickled : Bool
  previousTime : UInt64

namespace TimerManager

variable {κ : Type}

def create (now : UInt64) : TimerManager κ where
  objects := fun _ => none
  timers := []
  tickled := false
  previousTime := now

def timer (m : TimerManager κ) (address : Nat) : Timer κ :=
  (m.objects address).getD {}

def setTimer (m : TimerManager κ) (address : Nat) (timer : Timer κ) : TimerManager κ :=
  { m with objects := Function.update m.objects address (some timer) }

/-- The comparator of the set. -/
def Before (m : TimerManager κ) (lhs rhs : Nat) : Prop :=
  (m.timer lhs).next < (m.timer rhs).next ∨
    ¬ (m.timer rhs).next < (m.timer lhs).next ∧ lhs < rhs

instance (m : TimerManager κ) (lhs rhs : Nat) : Decidable (m.Before lhs rhs) :=
  inferInstanceAs (Decidable (_ ∨ _))

/-- Insertion into a set; what the comparator takes for present is not inserted again. -/
def insertBy (before : Nat -> Nat -> Bool) (address : Nat) : List Nat -> List Nat
  | [] => [address]
  | other :: rest =>
      if before address other then
        address :: other :: rest
      else if before other address then
        other :: insertBy before address rest
      else
        other :: rest

def insert (m : TimerManager κ) (address : Nat) : TimerManager κ :=
  { m with timers := insertBy (fun a b => decide (m.Before a b)) address m.timers }

def find (m : TimerManager κ) (address : Nat) : Option Nat :=
  m.timers.find? fun other => decide (¬ m.Before address other ∧ ¬ m.Before other address)

/-- Erasing what was found; there is nothing to erase at the end of the set. -/
def erase (m : TimerManager κ) : Option Nat -> TimerManager κ
  | some address => { m with timers := m.timers.erase address }
  | none => m

def addTimer (m : TimerManager κ) (address : Nat) (now ms : UInt64) (cb : Option κ)
    (recurring : Bool) : TimerManager κ × Bool :=
  let m := (m.setTimer address (.new now ms cb recurring)).insert address
  let atFront := m.timers.head? = some address ∧ m.tickled = false
  ({ m with tickled := m.tickled || decide atFront }, decide atFront)

def cancel (m : TimerManager κ) (address : Nat) : TimerManager κ × Bool :=
  if (m.timer address).cb.isSome then
    let m := m.setTimer address { m.timer address with cb := none }
    (m.erase (m.find address), true)
  else
    (m, false)

/-- The time to the next timer, all bits set if there is none. -/
def getNextTimer (m : TimerManager κ) (now : UInt64) : TimerManager κ × UInt64 :=
  ({ m with tickled := false },
    match m.timers with
    | [] => ~~~ 0
    | first :: _ => if now ≥ (m.timer first).next then 0 else (m.timer first).next - now)

def detectClockRollover (m : TimerManager κ) (now : UInt64) : Bool :=
  decide (now < m.previousTime ∧ now < m.previousTime - 60 * 60 * 1000)

/-- An expired timer: it is set again if it recurs. -/
def expire (now : UInt64) (m : TimerManager κ) (address : Nat) : TimerManager κ :=
  let timer := m.timer address
  if timer.recurring then
    (m.setTimer address { timer with next := now + timer.ms }).insert address
  else
    m.setTimer address { timer with cb := none }

/-- The loop over the expired timers. -/
def expireAll (now : UInt64) : List Nat -> TimerManager κ -> List (Option κ) × TimerManager κ
  | [], m => ([], m)
  | address :: rest, m =>
      let result := expireAll now rest (expire now m address)
      ((m.timer address).cb :: result.1, result.2)

def due (m : TimerManager κ) (now : UInt64) (rollover : Bool) (address : Nat) : Bool :=
  rollover || decide ((m.timer address).next ≤ now)

/-- The callbacks of the expired timers.  A clock that was set back expires them all. -/
def listExpiredCb (m : TimerManager κ) (now : UInt64) : List (Option κ) × TimerManager κ :=
  match m.timers.head? with
  | none => ([], m)
  | some first =>
      let rollover := m.detectClockRollover now
      if rollover = false ∧ now < (m.timer first).next then
        ([], { m with previousTime := now })
      else
        -- `lower_bound` and the loop after it stop at the first timer that is not due
        expireAll now (m.timers.takeWhile (m.due now rollover))
          { m with previousTime := now, timers := m.timers.dropWhile (m.due now rollover) }

/-!
# What the timers hold

A weight of callbacks, summed over the timers in the set.
-/

variable {weight : κ -> Nat}

def held (weight : κ -> Nat) (m : TimerManager κ) : Nat :=
  (m.timers.map fun address => (m.timer address).cb.elim 0 weight).sum

/-- Timers in the set are objects, and those that recur weigh nothing. -/
structure Tidy (weight : κ -> Nat) (m : TimerManager κ) : Prop where
  allocated : forall address, address ∈ m.timers -> (m.objects address).isSome
  recurring : forall address, (m.timer address).recurring = true ->
    (m.timer address).cb.elim 0 weight = 0

@[simp] theorem timer_setTimer (m : TimerManager κ) (address : Nat) (timer : Timer κ) :
    (m.setTimer address timer).timer address = timer := by
  simp [TimerManager.timer, setTimer]

theorem timer_setTimer_of_ne (m : TimerManager κ) {address other : Nat} (timer : Timer κ)
    (h : other ≠ address) : (m.setTimer address timer).timer other = m.timer other := by
  simp only [TimerManager.timer, setTimer, Function.update_of_ne h]

theorem mem_insertBy {before : Nat -> Nat -> Bool} {address other : Nat} {l : List Nat}
    (h : other ∈ insertBy before address l) : other = address ∨ other ∈ l := by
  induction l with
  | nil => exact Or.inl (List.mem_singleton.mp h)
  | cons first rest ih =>
      rw [insertBy] at h
      split at h
      · exact List.mem_cons.mp h
      split at h
      · rcases List.mem_cons.mp h with rfl | hmem
        · exact Or.inr List.mem_cons_self
        · exact (ih hmem).imp_right (List.mem_cons_of_mem first)
      · exact Or.inr h

theorem sum_insertBy (f : Nat -> Nat) (before : Nat -> Nat -> Bool) (address : Nat)
    (l : List Nat) :
    ((insertBy before address l).map f).sum ≤ f address + (l.map f).sum := by
  induction l with
  | nil => exact Nat.le_refl _
  | cons first rest ih =>
      rw [insertBy]
      split
      · exact Nat.le_refl _
      split
      · rw [List.map_cons, List.map_cons, List.sum_cons, List.sum_cons]
        omega
      · exact Nat.le_add_left _ _

/-- An object that weighs no more than before. -/
theorem held_setTimer (m : TimerManager κ) (address : Nat) (timer : Timer κ)
    (h : timer.cb.elim 0 weight ≤ (m.timer address).cb.elim 0 weight) (l : List Nat) :
    (l.map fun a => ((m.setTimer address timer).timer a).cb.elim 0 weight).sum ≤
      (l.map fun a => (m.timer a).cb.elim 0 weight).sum := by
  refine List.sum_le_sum fun other _ => ?_
  by_cases heq : other = address
  · rw [heq, timer_setTimer]
    exact h
  · rw [timer_setTimer_of_ne m timer heq]

theorem Tidy.setTimer {m : TimerManager κ} (h : Tidy weight m) (address : Nat)
    (timer : Timer κ) (hrecurring : timer.recurring = true ->
      timer.cb.elim 0 weight = 0) :
    Tidy weight (m.setTimer address timer) where
  allocated := by
    intro other hmem
    by_cases heq : other = address
    · rw [heq]
      simp [TimerManager.setTimer]
    · simp only [TimerManager.setTimer, Function.update_of_ne heq]
      exact h.allocated other hmem
  recurring := by
    intro other
    by_cases heq : other = address
    · rw [heq, timer_setTimer]
      exact hrecurring
    · rw [timer_setTimer_of_ne m timer heq]
      exact h.recurring other

theorem Tidy.insert {m : TimerManager κ} (h : Tidy weight m) {address : Nat}
    (hobject : (m.objects address).isSome) : Tidy weight (m.insert address) where
  allocated := by
    intro other hmem
    rcases mem_insertBy hmem with rfl | hold
    · exact hobject
    · exact h.allocated other hold
  recurring := h.recurring

theorem held_insert (weight : κ -> Nat) (m : TimerManager κ) (address : Nat) :
    held weight (m.insert address) ≤
      (m.timer address).cb.elim 0 weight + held weight m :=
  sum_insertBy _ _ address m.timers

/-!
# The operations

No operation but `addTimer` adds weight, and an expired timer gives its weight away.
-/

theorem tidy_create (now : UInt64) : Tidy weight (create now : TimerManager κ) where
  allocated := nofun
  recurring := nofun

theorem Tidy.addTimer {m : TimerManager κ} (h : Tidy weight m) {address : Nat}
    (hfresh : m.objects address = none) (now ms : UInt64) (cb : Option κ) (recurring : Bool)
    (hrecurring : recurring = true -> cb.elim 0 weight = 0) :
    Tidy weight (m.addTimer address now ms cb recurring).1 ∧
      held weight (m.addTimer address now ms cb recurring).1 ≤
        cb.elim 0 weight + held weight m := by
  have hset := h.setTimer address (.new now ms cb recurring) hrecurring
  constructor
  · have hobject : ((m.setTimer address (.new now ms cb recurring)).objects
        address).isSome := by
      simp [TimerManager.setTimer]
    exact ⟨(hset.insert hobject).allocated, (hset.insert hobject).recurring⟩
  · have hinsert := held_insert weight (m.setTimer address (.new now ms cb recurring)) address
    rw [timer_setTimer] at hinsert
    -- the timers in the set are other objects
    have hsame : held weight (m.setTimer address (.new now ms cb recurring)) =
        held weight m := by
      refine congrArg List.sum (List.map_congr_left fun other hmem => ?_)
      have hne : other ≠ address := by
        intro heq
        have hobject := h.allocated other hmem
        rw [heq, hfresh] at hobject
        cases hobject
      rw [timer_setTimer_of_ne m _ hne]
    rw [hsame] at hinsert
    exact hinsert

theorem Tidy.erase {m : TimerManager κ} (h : Tidy weight m) (it : Option Nat) :
    Tidy weight (m.erase it) ∧ held weight (m.erase it) ≤ held weight m := by
  cases it with
  | none => exact ⟨h, Nat.le_refl _⟩
  | some address =>
      refine ⟨⟨?_, h.recurring⟩, (List.erase_sublist.map _).sum_le_sum
        fun _ _ => Nat.zero_le _⟩
      exact fun other hmem => h.allocated other (List.mem_of_mem_erase hmem)

theorem Tidy.cancel {m : TimerManager κ} (h : Tidy weight m) (address : Nat) :
    Tidy weight (m.cancel address).1 ∧ held weight (m.cancel address).1 ≤ held weight m := by
  unfold TimerManager.cancel
  split
  · have hset := h.setTimer address { m.timer address with cb := none } fun _ => rfl
    rcases hset.erase ((m.setTimer address { m.timer address with cb := none }).find address)
      with ⟨htidy, hheld⟩
    exact ⟨htidy, Nat.le_trans hheld (held_setTimer m address _ (Nat.zero_le _) m.timers)⟩
  · exact ⟨h, Nat.le_refl _⟩

/-- An expired timer is outside the set and goes back only if it weighs nothing. -/
theorem Tidy.expire {m : TimerManager κ} (h : Tidy weight m) (now : UInt64) (address : Nat) :
    Tidy weight (expire now m address) ∧
      held weight (expire now m address) ≤ held weight m ∧
      forall l : List Nat,
        (l.map fun a => ((expire now m address).timer a).cb.elim 0 weight).sum ≤
          (l.map fun a => (m.timer a).cb.elim 0 weight).sum := by
  unfold TimerManager.expire
  by_cases hrecurring : (m.timer address).recurring = true
  · rw [if_pos hrecurring]
    have hset := h.setTimer address
      { m.timer address with next := now + (m.timer address).ms } (h.recurring address)
    have hobjects := held_setTimer m address
      { m.timer address with next := now + (m.timer address).ms }
      (Nat.le_refl (Option.elim _ 0 weight))
    have hinsert := held_insert weight (m.setTimer address
      { m.timer address with next := now + (m.timer address).ms }) address
    rw [timer_setTimer, h.recurring address hrecurring, Nat.zero_add] at hinsert
    exact ⟨hset.insert (by simp [TimerManager.setTimer]),
      Nat.le_trans hinsert (hobjects m.timers), hobjects⟩
  · rw [if_neg hrecurring]
    have hset := h.setTimer address { m.timer address with cb := none } fun _ => rfl
    have hobjects := held_setTimer m address { m.timer address with cb := none }
      (Nat.zero_le ((m.timer address).cb.elim 0 weight))
    exact ⟨hset, hobjects m.timers, hobjects⟩

theorem Tidy.expireAll {m : TimerManager κ} (h : Tidy weight m) (now : UInt64)
    (expired : List Nat) :
    Tidy weight (expireAll now expired m).2 ∧
      ((expireAll now expired m).1.map fun cb => cb.elim 0 weight).sum +
          held weight (expireAll now expired m).2 ≤
        (expired.map fun a => (m.timer a).cb.elim 0 weight).sum + held weight m := by
  induction expired generalizing m with
  | nil => exact ⟨h, Nat.le_refl _⟩
  | cons address rest ih =>
      rcases h.expire now address with ⟨htidy, hheld, hobjects⟩
      rcases ih htidy with ⟨htidy', hrest⟩
      refine ⟨htidy', ?_⟩
      rw [TimerManager.expireAll, List.map_cons, List.map_cons, List.sum_cons, List.sum_cons]
      have hobjects := hobjects rest
      dsimp only
      omega

/-- What the callbacks of the expired timers weigh, the set has lost. -/
theorem Tidy.listExpiredCb {m : TimerManager κ} (h : Tidy weight m) (now : UInt64) :
    Tidy weight (m.listExpiredCb now).2 ∧
      ((m.listExpiredCb now).1.map fun cb => cb.elim 0 weight).sum +
        held weight (m.listExpiredCb now).2 ≤ held weight m := by
  unfold TimerManager.listExpiredCb
  cases m.timers.head? with
  | none => exact ⟨h, Nat.le_of_eq (Nat.zero_add _)⟩
  | some first =>
      dsimp only
      split
      · exact ⟨⟨h.allocated, h.recurring⟩, Nat.le_of_eq (Nat.zero_add _)⟩
      · generalize m.due now (m.detectClockRollover now) = due
        have hleft : Tidy weight ({ m with
            previousTime := now, timers := m.timers.dropWhile due } : TimerManager κ) :=
          ⟨fun other hmem =>
            h.allocated other ((List.dropWhile_sublist _).mem hmem), h.recurring⟩
        rcases hleft.expireAll now (m.timers.takeWhile due) with ⟨htidy, hweight⟩
        refine ⟨htidy, Nat.le_trans hweight (Nat.le_of_eq ?_)⟩
        have hsplit : held weight m =
            ((m.timers.takeWhile due ++ m.timers.dropWhile due).map fun a =>
              (m.timer a).cb.elim 0 weight).sum := by
          rw [List.takeWhile_append_dropWhile]
          rfl
        rw [hsplit, List.map_append, List.sum_append]
        rfl

end TimerManager
end Fiber
end KVRaft
