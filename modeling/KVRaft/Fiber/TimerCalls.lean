import KVRaft.Foundation.Transition
import KVRaft.Fiber.PendingTimers

/-!
# Calls of the timer manager

Threads call the manager in any order, each call under its lock.  What a call reads from
the clock is an argument, and the last reading is kept beside the manager.
-/

namespace KVRaft
namespace Fiber

open Foundation

inductive TimerCall (κ : Type) where
  | addTimer (address : Nat) (now ms : UInt64) (cb : Option κ) (recurring : Bool)
  | cancel (address : Nat)
  | refresh (address : Nat) (now : UInt64)
  | reset (address : Nat) (now ms : UInt64) (fromNow : Bool)
  | getNextTimer (now : UInt64)
  | listExpiredCb (now : UInt64) (nowTimer : Nat)
  deriving DecidableEq

/-- What the call reads from the clock. -/
def TimerCall.reading {κ : Type} : TimerCall κ -> Option UInt64
  | .addTimer _ now _ _ _ => some now
  | .cancel _ => none
  | .refresh _ now => some now
  | .reset _ now _ fromNow => if fromNow then some now else none
  | .getNextTimer now => some now
  | .listExpiredCb now _ => some now

/-- Only new timers come with a callback, and it may be empty. -/
def TimerCall.givesCallback {κ : Type} : TimerCall κ -> Bool
  | .addTimer _ _ _ cb _ => cb.isSome
  | _ => true

namespace TimerManager

variable {κ : Type}

/-- New objects get addresses of their own, and a caller has a pointer to its timer. -/
def callable (m : TimerManager κ) : TimerCall κ -> Bool
  | .addTimer address _ _ _ _ => (m.objects address).isNone
  | .cancel address => (m.objects address).isSome
  | .refresh address _ => (m.objects address).isSome
  | .reset address _ _ _ => (m.objects address).isSome
  | .getNextTimer _ => true
  | .listExpiredCb _ nowTimer => (m.objects nowTimer).isNone

/-- The manager after a call and whether the call has called `OnTimerInsertedAtFront`. -/
def apply (m : TimerManager κ) : TimerCall κ -> TimerManager κ × Bool
  | .addTimer address now ms cb recurring => m.addTimer address now ms cb recurring
  | .cancel address => ((m.cancel address).1, false)
  | .refresh address now => ((m.refresh address now).1, false)
  | .reset address now ms fromNow =>
      ((m.reset address now ms fromNow).1, (m.reset address now ms fromNow).2.2)
  | .getNextTimer now => ((m.getNextTimer now).1, false)
  | .listExpiredCb now nowTimer => ((m.listExpiredCbFrom now nowTimer).2, false)

end TimerManager

structure Clocked (κ : Type) where
  manager : TimerManager κ
  clock : UInt64

def timersSystem {κ : Type} (start : UInt64) :
    TransitionSystem (Clocked κ) (TimerCall κ) where
  init := { manager := .create start, clock := start }
  step := fun s call =>
    if s.manager.callable call then
      some { manager := (s.manager.apply call).1, clock := call.reading.getD s.clock }
    else
      none

/-!
# What a call does
-/

namespace TimerManager

variable {κ : Type} {m m' : TimerManager κ} {address : Nat} {call : TimerCall κ}

inductive Effect (m : TimerManager κ) : TimerCall κ -> TimerManager κ -> Prop
  | idle {call : TimerCall κ} : Effect m call m
  | added {m' : TimerManager κ} {address : Nat} {now ms : UInt64} {cb : Option κ}
      {recurring : Bool} :
      m.objects address = none -> Changed m m' address (.new now ms cb recurring) True ->
      Effect m (.addTimer address now ms cb recurring) m'
  | cancelled {m' : TimerManager κ} {address : Nat} :
      address ∈ m.timers -> (m.timer address).cb ≠ none ->
      Changed m m' address { m.timer address with cb := none } False ->
      Effect m (.cancel address) m'
  | refreshed {m' : TimerManager κ} {address : Nat} {now : UInt64} :
      address ∈ m.timers -> (m.timer address).cb ≠ none ->
      Changed m m' address { m.timer address with next := now + (m.timer address).ms } True ->
      Effect m (.refresh address now) m'
  | moved {m' : TimerManager κ} {address : Nat} {now ms : UInt64} {fromNow : Bool} :
      address ∈ m.timers -> (m.timer address).cb ≠ none ->
      Changed m m' address (resetTimer (m.timer address) now ms fromNow) True ->
      Effect m (.reset address now ms fromNow) m'
  | asked {now : UInt64} : Effect m (.getNextTimer now) { m with tickled := false }
  | expired {m' : TimerManager κ} {now : UInt64} {nowTimer : Nat} :
      nowTimer ∉ m.timers -> Expired m m' now (m.expired now nowTimer) ->
      (m'.previousTime = m.previousTime ∨ m'.previousTime = now) ->
      Effect m (.listExpiredCb now nowTimer) m'

theorem Consistent.fresh (h : m.Consistent) {address : Nat}
    (hfresh : (m.objects address).isNone) : address ∉ m.timers := by
  intro hmem
  have hobject := h.allocated address hmem
  rw [Option.isNone_iff_eq_none.mp hfresh] at hobject
  cases hobject

theorem effect (h : m.Consistent) (hcall : m.callable call) :
    Effect m call (m.apply call).1 := by
  cases call with
  | addTimer address now ms cb recurring =>
      have hfresh := Option.isNone_iff_eq_none.mp hcall
      exact .added hfresh (h.addTimer hfresh now ms cb recurring)
  | cancel address =>
      rcases h.cancel address with ⟨_, hidle⟩ | ⟨hmem, hcb, _, hchanged⟩
      · rw [TimerManager.apply, hidle]
        exact .idle
      · exact .cancelled hmem hcb hchanged
  | refresh address now =>
      rcases h.refresh address now with ⟨_, hidle⟩ | ⟨hmem, hcb, _, hchanged⟩
      · rw [TimerManager.apply, hidle]
        exact .idle
      · exact .refreshed hmem hcb hchanged
  | reset address now ms fromNow =>
      rw [TimerManager.apply]
      rcases h.reset address now ms fromNow with hidle | ⟨hmem, hcb, m', hchanged, _, heq⟩
      · rw [hidle]
        exact .idle
      · rw [heq]
        exact .moved hmem hcb hchanged.addBack
  | getNextTimer now => exact .asked
  | listExpiredCb now nowTimer =>
      have hout := h.fresh hcall
      exact .expired hout (listExpiredCbFrom_expired h.sorted hout now).2
        (m.previousTime_listExpiredCbFrom now nowTimer)

theorem Effect.consistent (heffect : Effect m call m') (h : m.Consistent) :
    m'.Consistent := by
  cases heffect with
  | idle => exact h
  | added _ hchanged => exact hchanged.consistent h fun _ => trivial
  | cancelled _ _ hchanged => exact hchanged.consistent h nofun
  | refreshed _ _ hchanged => exact hchanged.consistent h fun _ => trivial
  | moved _ _ hchanged => exact hchanged.consistent h fun _ => trivial
  | asked => exact ⟨h.sorted, h.allocated, h.armed⟩
  | expired _ hexpired _ => exact hexpired.consistent h

/-- An object stays one and never changes between recurring and not. -/
theorem Effect.object (heffect : Effect m call m') {a : Nat} (ha : (m.objects a).isSome) :
    (m'.objects a).isSome ∧ (m'.timer a).recurring = (m.timer a).recurring := by
  have hchanged : forall {address : Nat} {timer : Timer κ} {inside : Prop},
      Changed m m' address timer inside ->
      timer.recurring = (m.timer address).recurring ->
      (m'.objects a).isSome ∧ (m'.timer a).recurring = (m.timer a).recurring := by
    intro address timer inside h hrecurring
    refine ⟨(h.objects a).mpr (Or.inr ha), ?_⟩
    by_cases heq : a = address
    · rw [heq, h.self, hrecurring]
    · rw [h.other heq]
  cases heffect with
  | idle => exact ⟨ha, rfl⟩
  | @added m' address now ms cb recurring hfresh h =>
      have hne : a ≠ address := by
        rintro rfl
        rw [hfresh] at ha
        cases ha
      exact ⟨(h.objects a).mpr (Or.inr ha), by rw [h.other hne]⟩
  | cancelled _ _ h => exact hchanged h rfl
  | refreshed _ _ h => exact hchanged h rfl
  | moved _ _ h => exact hchanged h rfl
  | asked => exact ⟨ha, rfl⟩
  | expired _ h _ =>
      refine ⟨(h.objects a).mpr (Or.inr ha), ?_⟩
      rw [h.timer]
      split
      · unfold expiredTimer
        split
        · rfl
        · rfl
      · rfl

/-- An object without a callback that is outside the set is never used again. -/
structure Retired (m : TimerManager κ) (address : Nat) : Prop where
  object : (m.objects address).isSome
  cb : (m.timer address).cb = none
  out : address ∉ m.timers

theorem Retired.not_expired (h : m.Retired address) (hm : m.Consistent) {nowTimer : Nat}
    (hout : nowTimer ∉ m.timers) (now : UInt64) : address ∉ m.expired now nowTimer :=
  fun hmem => h.out ((mem_expired hm.sorted hout).mp hmem).1

theorem Effect.retired (heffect : Effect m call m') (hm : m.Consistent)
    (h : m.Retired address) : m'.Retired address := by
  have hkept : forall {other : Nat} {timer : Timer κ} {inside : Prop},
      Changed m m' other timer inside -> address ≠ other -> m'.Retired address := by
    intro other timer inside hchanged hne
    refine ⟨(hchanged.objects address).mpr (Or.inr h.object), ?_, ?_⟩
    · rw [hchanged.other hne]
      exact h.cb
    · exact fun hmem => h.out ((hchanged.mem_other hne).mp hmem)
  cases heffect with
  | idle => exact h
  | added hfresh hchanged =>
      refine hkept hchanged ?_
      rintro rfl
      have hobject := h.object
      rw [hfresh] at hobject
      cases hobject
  | cancelled hmem _ hchanged => exact hkept hchanged fun heq => h.out (heq ▸ hmem)
  | refreshed hmem _ hchanged => exact hkept hchanged fun heq => h.out (heq ▸ hmem)
  | moved hmem _ hchanged => exact hkept hchanged fun heq => h.out (heq ▸ hmem)
  | asked => exact ⟨h.object, h.cb, h.out⟩
  | @expired m' now nowTimer hout hexpired _ =>
      have hnot := h.not_expired hm hout now
      refine ⟨(hexpired.objects address).mpr (Or.inr h.object), ?_, ?_⟩
      · rw [hexpired.timer, if_neg hnot]
        exact h.cb
      · rw [hexpired.timers, if_neg hnot]
        exact h.out

end TimerManager

/-!
# Runs
-/

section

variable {κ : Type} {start : UInt64} {s s' : Clocked κ} {call : TimerCall κ}

theorem timer_step (h : (timersSystem start).step s call = some s') :
    s.manager.callable call ∧ s'.manager = (s.manager.apply call).1 ∧
      s'.clock = call.reading.getD s.clock := by
  change (if _ then _ else _) = _ at h
  split at h
  · cases h
    exact ⟨‹_›, rfl, rfl⟩
  · cases h

theorem timer_effect (hm : s.manager.Consistent)
    (h : (timersSystem start).step s call = some s') :
    TimerManager.Effect s.manager call s'.manager := by
  rcases timer_step h with ⟨hcall, hmanager, _⟩
  rw [hmanager]
  exact TimerManager.effect hm hcall

theorem create_consistent (now : UInt64) :
    (TimerManager.create now : TimerManager κ).Consistent where
  sorted := List.Pairwise.nil
  allocated := nofun
  armed := nofun

theorem timers_consistent {tr : List (Transition (Clocked κ) (TimerCall κ))}
    (h : (timersSystem start).Trace tr s) : s.manager.Consistent := by
  induction h with
  | nil => exact create_consistent start
  | snoc _ hstep ih => exact (timer_effect ih hstep).consistent ih

/-- The clock is never read below its last reading. -/
def NonDecreasing (t : Transition (Clocked κ) (TimerCall κ)) : Prop :=
  forall now, now ∈ t.action.reading -> t.before.clock ≤ now

instance (t : Transition (Clocked κ) (TimerCall κ)) : Decidable (NonDecreasing t) :=
  Option.decidableForallMem t.action.reading

/-- The timers whose callbacks a call returns, if it returns any. -/
def returnedBy (t : Transition (Clocked κ) (TimerCall κ)) : List Nat :=
  match t.action with
  | .listExpiredCb now nowTimer => t.before.manager.expired now nowTimer
  | _ => []

def returned (tr : List (Transition (Clocked κ) (TimerCall κ))) : List Nat :=
  tr.flatMap returnedBy

end

end Fiber
end KVRaft
