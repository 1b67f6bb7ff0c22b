import KVRaft.Fiber.TimerCalls

/-!
# Changes outside the set

A `std::set` stays a set only if the key of an element never changes while the element
is inside, and erasing its end is undefined.  The calls are written once more with both
as faults; no call runs into one.
-/

namespace KVRaft
namespace Fiber

open Foundation

namespace TimerManager

variable {κ : Type}

/-- A deadline may be assigned outside the set only. -/
def assignNext (m : TimerManager κ) (address : Nat) (timer : Timer κ) :
    Option (TimerManager κ) :=
  if address ∈ m.timers then none else some (m.setTimer address timer)

/-- There must be an element to erase. -/
def eraseFound (m : TimerManager κ) : Option Nat -> Option (TimerManager κ)
  | some it => some (m.erase (some it))
  | none => none

def addTimerStrict (m : TimerManager κ) (address : Nat) (now ms : UInt64) (cb : Option κ)
    (recurring : Bool) : Option (TimerManager κ) := do
  let m <- m.assignNext address (.new now ms cb recurring)
  return (m.addBack address).1

def cancelStrict (m : TimerManager κ) (address : Nat) : Option (TimerManager κ) :=
  if (m.timer address).cb.isSome then
    let m := m.setTimer address { m.timer address with cb := none }
    m.eraseFound (m.find address)
  else
    some m

def refreshStrict (m : TimerManager κ) (address : Nat) (now : UInt64) :
    Option (TimerManager κ) :=
  if (m.timer address).cb.isNone then
    some m
  else
    match m.find address with
    | none => some m
    | some it => do
        let m := m.erase (some it)
        let m <- m.assignNext address
          { m.timer address with next := now + (m.timer address).ms }
        return m.insert address

def resetStrict (m : TimerManager κ) (address : Nat) (now ms : UInt64) (fromNow : Bool) :
    Option (TimerManager κ) :=
  if ms = (m.timer address).ms ∧ fromNow = false then
    some m
  else if (m.timer address).cb.isNone then
    some m
  else
    match m.find address with
    | none => some m
    | some it => do
        let m := m.erase (some it)
        let start := if fromNow then now else (m.timer address).next - (m.timer address).ms
        let m <- m.assignNext address { m.timer address with ms := ms, next := start + ms }
        return (m.addBack address).1

def expireStrict (now : UInt64) (m : TimerManager κ) (address : Nat) :
    Option (TimerManager κ) :=
  let timer := m.timer address
  if timer.recurring then do
    let m <- m.assignNext address { timer with next := now + timer.ms }
    return m.insert address
  else
    some (m.setTimer address { timer with cb := none })

def expireAllStrict (now : UInt64) : List Nat -> TimerManager κ -> Option (TimerManager κ)
  | [], m => some m
  | address :: rest, m => do
      let m <- expireStrict now m address
      expireAllStrict now rest m

def listExpiredCbStrict (m : TimerManager κ) (now : UInt64) (nowTimer : Nat) :
    Option (TimerManager κ) :=
  match m.timers.head? with
  | none => some m
  | some first =>
      let rollover := m.detectClockRollover now
      if rollover = false ∧ now < (m.timer first).next then
        some { m with previousTime := now }
      else
        let split := m.splitExpired now rollover nowTimer
        expireAllStrict now split.1 { m with previousTime := now, timers := split.2 }

def applyStrict (m : TimerManager κ) : TimerCall κ -> Option (TimerManager κ)
  | .addTimer address now ms cb recurring => m.addTimerStrict address now ms cb recurring
  | .cancel address => m.cancelStrict address
  | .refresh address now => m.refreshStrict address now
  | .reset address now ms fromNow => m.resetStrict address now ms fromNow
  | .getNextTimer now => some (m.getNextTimer now).1
  | .listExpiredCb now nowTimer => m.listExpiredCbStrict now nowTimer

/-- What a call finds when it looks for its timer in the set, if it does. -/
def lookup (m : TimerManager κ) : TimerCall κ -> Option (Option Nat)
  | .cancel address =>
      if (m.timer address).cb.isSome then
        some ((m.setTimer address { m.timer address with cb := none }).find address)
      else
        none
  | .refresh address _ =>
      if (m.timer address).cb.isNone then none else some (m.find address)
  | .reset address _ ms fromNow =>
      if ms = (m.timer address).ms ∧ fromNow = false then
        none
      else if (m.timer address).cb.isNone then
        none
      else
        some (m.find address)
  | _ => none

/-!
# No call faults
-/

variable {m m' : TimerManager κ} {address : Nat} {call : TimerCall κ}

theorem assignNext_eq (hout : address ∉ m.timers) (timer : Timer κ) :
    m.assignNext address timer = some (m.setTimer address timer) :=
  if_neg hout

theorem not_mem_erase (h : m.Sorted) : address ∉ (m.erase (some address)).timers :=
  fun hmem => (h.mem_erase.mp hmem).1 rfl

/-- An object with a callback is in the set, where it is found. -/
theorem find_armed (h : m.Consistent) (hcb : ¬ (m.timer address).cb.isNone = true) :
    m.find address = some address := by
  refine find_of_mem (h.armed address ?_)
  rw [Option.isSome_iff_ne_none]
  exact fun hnone => hcb (Option.isNone_iff_eq_none.mpr hnone)

theorem find_cancelled (h : m.Consistent) (hcb : (m.timer address).cb.isSome) :
    (m.setTimer address { m.timer address with cb := none }).find address = some address :=
  find_of_mem (h.armed address hcb)

theorem cancelStrict_eq (h : m.Consistent) (address : Nat) :
    m.cancelStrict address = some (m.cancel address).1 := by
  unfold cancelStrict TimerManager.cancel
  by_cases hcb : (m.timer address).cb.isSome = true
  · rw [if_pos hcb, if_pos hcb]
    dsimp only
    rw [find_cancelled h hcb]
    rfl
  · rw [if_neg hcb, if_neg hcb]

theorem refreshStrict_eq (h : m.Consistent) (address : Nat) (now : UInt64) :
    m.refreshStrict address now = some (m.refresh address now).1 := by
  unfold refreshStrict TimerManager.refresh
  by_cases hcb : (m.timer address).cb.isNone = true
  · rw [if_pos hcb, if_pos hcb]
  · rw [if_neg hcb, if_neg hcb]
    rw [find_armed h hcb]
    dsimp only
    rw [assignNext_eq (not_mem_erase h.sorted)]
    rfl

theorem resetStrict_eq (h : m.Consistent) (address : Nat) (now ms : UInt64)
    (fromNow : Bool) :
    m.resetStrict address now ms fromNow = some (m.reset address now ms fromNow).1 := by
  unfold resetStrict TimerManager.reset
  by_cases hsame : ms = (m.timer address).ms ∧ fromNow = false
  · rw [if_pos hsame, if_pos hsame]
  rw [if_neg hsame, if_neg hsame]
  by_cases hcb : (m.timer address).cb.isNone = true
  · rw [if_pos hcb, if_pos hcb]
  · rw [if_neg hcb, if_neg hcb]
    rw [find_armed h hcb]
    dsimp only
    rw [assignNext_eq (not_mem_erase h.sorted)]
    rfl

theorem expireStrict_eq (hout : address ∉ m.timers) (now : UInt64) :
    expireStrict now m address = some (expire now m address) := by
  unfold expireStrict TimerManager.expire
  dsimp only
  by_cases hrecurring : (m.timer address).recurring = true
  · rw [if_pos hrecurring, if_pos hrecurring, assignNext_eq hout]
    rfl
  · rw [if_neg hrecurring, if_neg hrecurring]

/-- A timer is outside the set from its removal to its own turn. -/
theorem expireAllStrict_eq (h : m.Sorted) {addresses : List Nat} (hnodup : addresses.Nodup)
    (hout : forall a, a ∈ addresses -> a ∉ m.timers) (now : UInt64) :
    expireAllStrict now addresses m = some (expireAll now addresses m).2 := by
  induction addresses generalizing m with
  | nil => rfl
  | cons first rest ih =>
      rcases List.nodup_cons.mp hnodup with ⟨hfirst, hrest⟩
      have hchanged := changed_expire h (hout first List.mem_cons_self) now
      have hrun := ih hchanged.sorted hrest fun a ha hmem =>
        hout a (List.mem_cons_of_mem first ha)
          ((hchanged.mem_other fun heq => hfirst (heq ▸ ha)).mp hmem)
      rw [expireAllStrict, expireStrict_eq (hout first List.mem_cons_self)]
      exact hrun

theorem listExpiredCbStrict_eq (h : m.Sorted) {nowTimer : Nat} (hout : nowTimer ∉ m.timers)
    (now : UInt64) :
    m.listExpiredCbStrict now nowTimer = some (m.listExpiredCbFrom now nowTimer).2 := by
  unfold listExpiredCbStrict listExpiredCbFrom
  cases m.timers.head? with
  | none => rfl
  | some first =>
      dsimp only
      split
      · rfl
      · rw [splitExpired_eq h hout]
        generalize m.due now (m.detectClockRollover now) = due
        have hnodup := Ascending.nodup h
        rw [← List.takeWhile_append_dropWhile (p := due) (l := m.timers)] at hnodup
        rcases List.nodup_append.mp hnodup with ⟨htake, _, hdisjoint⟩
        have hrest : ({ m with previousTime := now, timers := m.timers.dropWhile due } :
            TimerManager κ).Sorted :=
          Ascending.sublist h (List.dropWhile_sublist due)
        exact expireAllStrict_eq hrest htake
          (fun a ha hmem => hdisjoint a ha a hmem rfl) now

theorem applyStrict_eq (h : m.Consistent) (hcall : m.callable call) :
    m.applyStrict call = some (m.apply call).1 := by
  cases call with
  | addTimer address now ms cb recurring =>
      change m.addTimerStrict address now ms cb recurring = _
      unfold addTimerStrict
      rw [assignNext_eq (h.fresh hcall)]
      rfl
  | cancel address => exact cancelStrict_eq h address
  | refresh address now => exact refreshStrict_eq h address now
  | reset address now ms fromNow => exact resetStrict_eq h address now ms fromNow
  | getNextTimer now => rfl
  | listExpiredCb now nowTimer => exact listExpiredCbStrict_eq h.sorted (h.fresh hcall) now

/-- What is looked for is found. -/
theorem lookup_found (h : m.Consistent) (call : TimerCall κ) : m.lookup call ≠ some none := by
  cases call with
  | cancel address =>
      rw [lookup]
      split
      · rw [find_cancelled h ‹_›]
        nofun
      · nofun
  | refresh address now =>
      rw [lookup]
      split
      · nofun
      · rw [find_armed h ‹_›]
        nofun
  | reset address now ms fromNow =>
      rw [lookup]
      split
      · nofun
      split
      · nofun
      · rw [find_armed h ‹_›]
        nofun
  | _ => nofun

/-- Timers in the set have a callback. -/
def Armed (m : TimerManager κ) : Prop :=
  forall a, a ∈ m.timers -> (m.timer a).cb.isSome

theorem Effect.armed (heffect : Effect m call m') (hm : m.Consistent)
    (hgives : call.givesCallback = true) (h : m.Armed) : m'.Armed := by
  have hkept : forall {address : Nat} {timer : Timer κ} {inside : Prop},
      Changed m m' address timer inside -> (inside -> timer.cb.isSome) -> m'.Armed := by
    intro address timer inside hchanged hcb a ha
    by_cases heq : a = address
    · rw [heq] at ha ⊢
      rw [hchanged.self]
      exact hcb (hchanged.mem_self.mp ha)
    · rw [hchanged.other heq]
      exact h a ((hchanged.mem_other heq).mp ha)
  cases heffect with
  | idle => exact h
  | added _ hchanged => exact hkept hchanged fun _ => hgives
  | cancelled _ _ hchanged => exact hkept hchanged False.elim
  | refreshed _ hcb hchanged =>
      exact hkept hchanged fun _ => Option.isSome_iff_ne_none.mpr hcb
  | moved _ hcb hchanged =>
      exact hkept hchanged fun _ => Option.isSome_iff_ne_none.mpr hcb
  | asked => exact h
  | expired hout hexpired _ =>
      intro a ha
      have hin := hexpired.timers a
      have htimer := hexpired.timer a
      split at hin
      · rename_i hmem
        rw [htimer, if_pos hmem, expiredTimer, if_pos (hin.mp ha)]
        exact h a ((mem_expired hm.sorted hout).mp hmem).1
      · rename_i hmem
        rw [htimer, if_neg hmem]
        exact h a (hin.mp ha)

end TimerManager

section

variable {κ : Type} {start : UInt64} {s : Clocked κ}

theorem timers_armed {tr : List (Transition (Clocked κ) (TimerCall κ))}
    (h : (timersSystem start).Trace tr s)
    (hgives : forall t, t ∈ tr -> t.action.givesCallback = true) : s.manager.Armed := by
  refine TransitionSystem.Trace.invariant_under (P := fun _ s => s.manager.Armed)
    (C := fun t => t.action.givesCallback = true) nofun ?_ h hgives
  intro tr s s' call htrace _ hold hstep hlast
  have hm := timers_consistent htrace
  exact (timer_effect hm hstep).armed hm hlast hold

/-- The set stays in order, no element changes inside, exactly the timers in it have a
callback, and a timer that is looked for is found. -/
structure TimerSetKept (r : (@timersSystem κ start).Run) : Prop where
  sorted : forall s, r.Visits s -> s.manager.timers.Pairwise s.manager.Before
  armed : forall s, r.Visits s ->
    forall a, (s.manager.timer a).cb.isSome <-> a ∈ s.manager.timers
  strict : forall t, t ∈ r.trace ->
    t.before.manager.applyStrict t.action = some t.after.manager
  found : forall t, t ∈ r.trace -> t.before.manager.lookup t.action ≠ some none

theorem timer_set_kept (r : (@timersSystem κ start).Run)
    (hgives : r.Always fun t => t.action.givesCallback = true) : TimerSetKept r where
  sorted := by
    intro s hs
    rcases hs.trace with ⟨tr, htrace, _⟩
    exact List.Pairwise.imp TimerManager.before_iff.mpr (timers_consistent htrace).sorted
  armed := by
    intro s hs a
    rcases hs.trace with ⟨tr, htrace, hsub⟩
    constructor
    · exact (timers_consistent htrace).armed a
    · exact timers_armed htrace (fun t ht => hgives t (hsub t ht)) a
  strict := by
    intro t ht
    rcases r.valid.before_of_mem ht with ⟨tr, htrace, _⟩
    rcases timer_step (r.valid.step_of_mem ht) with ⟨hcall, hmanager, _⟩
    rw [hmanager]
    exact TimerManager.applyStrict_eq (timers_consistent htrace) hcall
  found := by
    intro t ht
    rcases r.valid.before_of_mem ht with ⟨tr, htrace, _⟩
    exact TimerManager.lookup_found (timers_consistent htrace) t.action

end

/-- A recurring and a one-shot timer through every call. -/
def everyCallSchedule : List (TimerCall Unit) :=
  [.addTimer 0 10 5 (some ()) true, .addTimer 1 10 5 (some ()) false, .refresh 1 12,
    .reset 0 12 7 true, .getNextTimer 13, .listExpiredCb 18 2, .listExpiredCb 19 2,
    .cancel 0, .cancel 1]

def everyCallRun : (@timersSystem Unit 10).Run :=
  TransitionSystem.runOf _ everyCallSchedule (by decide +kernel)

theorem everyCallRun_timer_set_kept : TimerSetKept everyCallRun :=
  timer_set_kept everyCallRun (by unfold TransitionSystem.Run.Always; decide +kernel)

end Fiber
end KVRaft
