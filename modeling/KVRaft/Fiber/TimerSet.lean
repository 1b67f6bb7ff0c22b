import Mathlib.Data.Prod.Lex
import KVRaft.Foundation.OrderedLists
import KVRaft.Fiber.Timers

/-!
# The set of timers

The comparator orders timers by their deadlines and then by their addresses.  The set
stays in this order as long as a deadline changes only while its timer is outside.
-/

namespace KVRaft
namespace Fiber
namespace TimerManager

open Foundation

variable {κ : Type} {m : TimerManager κ} {address : Nat}

/-!
# Moving a timer
-/

def setNext (m : TimerManager κ) (address : Nat) (next : UInt64) : TimerManager κ :=
  m.setTimer address { m.timer address with next := next }

def refresh (m : TimerManager κ) (address : Nat) (now : UInt64) : TimerManager κ × Bool :=
  if (m.timer address).cb.isNone then
    (m, false)
  else
    match m.find address with
    | none => (m, false)
    | some it =>
        let m := m.erase (some it)
        ((m.setNext address (now + (m.timer address).ms)).insert address, true)

/-- `addTimer(val, lock)`: the timer goes into the set; the result tells whether
`OnTimerInsertedAtFront` is called. -/
def addBack (m : TimerManager κ) (address : Nat) : TimerManager κ × Bool :=
  let m := m.insert address
  let atFront := m.timers.head? = some address ∧ m.tickled = false
  ({ m with tickled := m.tickled || decide atFront }, decide atFront)

/-- The result of the call and whether `OnTimerInsertedAtFront` was called. -/
def reset (m : TimerManager κ) (address : Nat) (now ms : UInt64) (fromNow : Bool) :
    TimerManager κ × Bool × Bool :=
  if ms = (m.timer address).ms ∧ fromNow = false then
    (m, true, false)
  else if (m.timer address).cb.isNone then
    (m, true, false)
  else
    match m.find address with
    | none => (m, false, false)
    | some it =>
        let m := m.erase (some it)
        let start := if fromNow then now else (m.timer address).next - (m.timer address).ms
        let m := m.setTimer address { m.timer address with ms := ms, next := start + ms }
        ((m.addBack address).1, true, (m.addBack address).2)

/-!
# Expiry by lower bound

The set is searched for `nowTimer`, an object of the call's own with the reading for a
deadline and no other timer's address.
-/

/-- What lies before the end of the expired timers, and what after. -/
def splitExpired (m : TimerManager κ) (now : UInt64) (rollover : Bool) (nowTimer : Nat) :
    List Nat × List Nat :=
  if rollover then
    (m.timers, [])
  else
    let search := m.setTimer nowTimer { next := now }
    let lower := m.timers.takeWhile fun a => decide (search.Before a nowTimer)
    let rest := m.timers.dropWhile fun a => decide (search.Before a nowTimer)
    (lower ++ rest.takeWhile fun a => decide ((m.timer a).next = now),
      rest.dropWhile fun a => decide ((m.timer a).next = now))

/-- The timers whose callbacks a call returns. -/
def expired (m : TimerManager κ) (now : UInt64) (nowTimer : Nat) : List Nat :=
  match m.timers.head? with
  | none => []
  | some first =>
      if m.detectClockRollover now = false ∧ now < (m.timer first).next then
        []
      else
        (m.splitExpired now (m.detectClockRollover now) nowTimer).1

/-- `listExpiredCb` with the search it makes. -/
def listExpiredCbFrom (m : TimerManager κ) (now : UInt64) (nowTimer : Nat) :
    List (Option κ) × TimerManager κ :=
  match m.timers.head? with
  | none => ([], m)
  | some first =>
      let rollover := m.detectClockRollover now
      if rollover = false ∧ now < (m.timer first).next then
        ([], { m with previousTime := now })
      else
        let split := m.splitExpired now rollover nowTimer
        expireAll now split.1 { m with previousTime := now, timers := split.2 }

/-!
# The order of the set
-/

/-- The comparator compares deadlines first and addresses then. -/
def key (m : TimerManager κ) (address : Nat) : Nat ×ₗ Nat :=
  toLex ((m.timer address).next.toNat, address)

theorem key_injective (m : TimerManager κ) : Function.Injective m.key := by
  intro a b h
  exact congrArg (fun k => (ofLex k).2) h

theorem before_iff {a b : Nat} : m.Before a b <-> m.key a < m.key b := by
  unfold Before key
  rw [Prod.Lex.toLex_lt_toLex, UInt64.lt_iff_toNat_lt, UInt64.lt_iff_toNat_lt]
  dsimp only
  omega

/-- The set is in the order of the comparator. -/
def Sorted (m : TimerManager κ) : Prop :=
  Ascending m.key m.timers

theorem key_of_next {m' : TimerManager κ} {a : Nat}
    (h : (m'.timer a).next = (m.timer a).next) : m'.key a = m.key a := by
  rw [key, h]
  rfl

theorem key_le_iff {a b : Nat} (h : m.key a ≤ m.key b) :
    (m.timer a).next ≤ (m.timer b).next := by
  rw [UInt64.le_iff_toNat_le]
  rcases Prod.Lex.toLex_le_toLex.mp h with hlt | ⟨heq, _⟩
  · exact hlt.le
  · exact heq.le

theorem find_eq_some_iff : m.find address = some address <-> address ∈ m.timers := by
  apply find?_eq_some_iff_mem m.key_injective
  intro b
  rw [decide_eq_true_eq, before_iff, before_iff]

theorem find_of_mem (h : address ∈ m.timers) : m.find address = some address :=
  find_eq_some_iff.mpr h

/-!
# Insertion
-/

theorem insertBy_perm {key : Nat -> Nat ×ₗ Nat} (hkey : Function.Injective key)
    {before : Nat -> Nat -> Bool} (hbefore : forall a b, before a b = true <-> key a < key b)
    {l : List Nat} (hnot : address ∉ l) :
    (insertBy before address l).Perm (address :: l) := by
  induction l with
  | nil => exact List.Perm.refl _
  | cons first rest ih =>
      rcases not_or.mp fun h => hnot (List.mem_cons.mpr h) with ⟨hne, hrest⟩
      rw [insertBy]
      split
      · exact List.Perm.refl _
      split
      · exact ((ih hrest).cons first).trans (List.Perm.swap _ _ _)
      · rename_i hlt hgt
        rw [hbefore] at hlt hgt
        exact absurd (hkey (le_antisymm (not_lt.mp hgt) (not_lt.mp hlt))) hne

theorem ascending_insertBy {key : Nat -> Nat ×ₗ Nat} {before : Nat -> Nat -> Bool}
    (hbefore : forall a b, before a b = true <-> key a < key b) {l : List Nat}
    (h : Ascending key l) : Ascending key (insertBy before address l) := by
  induction l with
  | nil => exact List.pairwise_singleton _ _
  | cons first rest ih =>
      rcases List.pairwise_cons.mp h with ⟨hfirst, hrest⟩
      rw [insertBy]
      split
      · rename_i hlt
        rw [hbefore] at hlt
        refine List.pairwise_cons.mpr ⟨fun b hb => ?_, h⟩
        rcases List.mem_cons.mp hb with rfl | hmem
        · exact hlt
        · exact hlt.trans (hfirst b hmem)
      split
      · rename_i hgt
        rw [hbefore] at hgt
        refine List.pairwise_cons.mpr ⟨fun b hb => ?_, ih hrest⟩
        rcases mem_insertBy hb with rfl | hmem
        · exact hgt
        · exact hfirst b hmem
      · exact h

theorem before_decide (m : TimerManager κ) (a b : Nat) :
    decide (m.Before a b) = true <-> m.key a < m.key b := by
  rw [decide_eq_true_eq, before_iff]

theorem Sorted.insert (h : m.Sorted) (address : Nat) : (m.insert address).Sorted :=
  ascending_insertBy m.before_decide h

theorem mem_insert (hnot : address ∉ m.timers) {a : Nat} :
    a ∈ (m.insert address).timers <-> a = address ∨ a ∈ m.timers := by
  have hperm := insertBy_perm m.key_injective m.before_decide hnot
  exact hperm.mem_iff.trans List.mem_cons

@[simp] theorem timer_insert (m : TimerManager κ) (address a : Nat) :
    (m.insert address).timer a = m.timer a :=
  rfl

/-!
# Changing an object
-/

theorem Sorted.setTimer (h : m.Sorted) {timer : Timer κ}
    (hsafe : address ∉ m.timers ∨ timer.next = (m.timer address).next) :
    (m.setTimer address timer).Sorted := by
  refine Ascending.congr h fun a ha => key_of_next ?_
  by_cases heq : a = address
  · rcases hsafe with hnot | hnext
    · exact absurd (heq ▸ ha) hnot
    · rw [heq, timer_setTimer, hnext]
  · rw [timer_setTimer_of_ne m timer heq]

theorem Sorted.erase (h : m.Sorted) (it : Option Nat) : (m.erase it).Sorted := by
  cases it with
  | none => exact h
  | some a => exact Ascending.sublist h List.erase_sublist

theorem Sorted.mem_erase (h : m.Sorted) {a : Nat} :
    a ∈ (m.erase (some address)).timers <-> a ≠ address ∧ a ∈ m.timers :=
  h.nodup.mem_erase_iff

@[simp] theorem timer_erase (m : TimerManager κ) (it : Option Nat) (a : Nat) :
    (m.erase it).timer a = m.timer a := by
  cases it with
  | none => rfl
  | some _ => rfl

@[simp] theorem tickled_erase (m : TimerManager κ) (it : Option Nat) :
    (m.erase it).tickled = m.tickled := by
  cases it with
  | none => rfl
  | some _ => rfl

end TimerManager
end Fiber
end KVRaft
