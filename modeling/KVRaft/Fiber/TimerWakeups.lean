import Mathlib.Algebra.Group.Nat.Defs
import KVRaft.Fiber.TimerCalls

/-!
# Waking up for a new timer

An idle thread sleeps until the first deadline it was told.  A timer that comes to stand
before it is announced, unless one has been announced already: `tickled` remembers this
from one question to the next.  Refreshed and recurring timers move without an
announcement, and only to later deadlines.
-/

namespace KVRaft
namespace Fiber

open Foundation

namespace TimerManager

variable {κ : Type} {m m' : TimerManager κ} {address : Nat} {call : TimerCall κ}

/-- No timer waits for a deadline below all those of another state. -/
def NoneEarlier (asked m : TimerManager κ) : Prop :=
  forall a, a ∈ m.timers ->
    exists b, b ∈ asked.timers ∧ (asked.timer b).next ≤ (m.timer a).next

/-- The deadline of every pending timer is its period after some reading so far. -/
def Started (m : TimerManager κ) (clock : UInt64) : Prop :=
  forall a, a ∈ m.timers ->
    exists start, start ≤ clock ∧ (m.timer a).next = start + (m.timer a).ms

/-- The deadlines of a refreshed timer and of a recurring one that expires are computed
without overflow. -/
def NoOverflow (m : TimerManager κ) : TimerCall κ -> Prop
  | .refresh address now => (m.timer address).cb.isSome ->
      now.toNat + (m.timer address).ms.toNat < 2 ^ 64
  | .listExpiredCb now nowTimer => forall a, a ∈ m.expired now nowTimer ->
      (m.timer a).recurring = true -> now.toNat + (m.timer a).ms.toNat < 2 ^ 64
  | _ => True

instance (m : TimerManager κ) : (call : TimerCall κ) -> Decidable (m.NoOverflow call)
  | .addTimer _ _ _ _ _ => isTrue trivial
  | .cancel _ => isTrue trivial
  | .refresh address now => inferInstanceAs (Decidable ((m.timer address).cb.isSome ->
      now.toNat + (m.timer address).ms.toNat < 2 ^ 64))
  | .reset _ _ _ _ => isTrue trivial
  | .getNextTimer _ => isTrue trivial
  | .listExpiredCb now nowTimer => inferInstanceAs (Decidable (forall a,
      a ∈ m.expired now nowTimer -> (m.timer a).recurring = true ->
        now.toNat + (m.timer a).ms.toNat < 2 ^ 64))

/-!
# Deadlines
-/

/-- A deadline counted from a later reading is a later one. -/
theorem next_le {start now ms next : UInt64} (hnext : next = start + ms)
    (hle : start ≤ now) (hfits : now.toNat + ms.toNat < 2 ^ 64) : next ≤ now + ms := by
  rw [UInt64.le_iff_toNat_le] at hle ⊢
  rw [hnext, UInt64.toNat_add, UInt64.toNat_add]
  omega

theorem Started.mono {clock clock' : UInt64} (h : m.Started clock) (hle : clock ≤ clock') :
    m.Started clock' := by
  intro a ha
  rcases h a ha with ⟨start, hstart, hnext⟩
  exact ⟨start, UInt64.le_trans hstart hle, hnext⟩

theorem Changed.started {timer : Timer κ} {inside : Prop} {clock : UInt64}
    (hchanged : Changed m m' address timer inside) (h : m.Started clock)
    (htimer : inside -> exists start, start ≤ clock ∧ timer.next = start + timer.ms) :
    m'.Started clock := by
  intro a ha
  by_cases heq : a = address
  · rw [heq] at ha ⊢
    rw [hchanged.self]
    exact htimer (hchanged.mem_self.mp ha)
  · rw [hchanged.other heq]
    exact h a ((hchanged.mem_other heq).mp ha)

theorem Effect.started {clock : UInt64} (heffect : Effect m call m')
    (h : m.Started clock) (hclock : forall now, now ∈ call.reading -> clock ≤ now) :
    m'.Started (call.reading.getD clock) := by
  have hle : clock ≤ call.reading.getD clock := by
    cases hreading : call.reading with
    | none => exact UInt64.le_refl _
    | some now => exact hclock now hreading
  have hlater := h.mono hle
  cases heffect with
  | idle => exact hlater
  | added _ hchanged =>
      exact hchanged.started hlater fun _ => ⟨_, UInt64.le_refl _, rfl⟩
  | cancelled _ _ hchanged => exact hchanged.started hlater False.elim
  | refreshed _ _ hchanged =>
      exact hchanged.started hlater fun _ => ⟨_, UInt64.le_refl _, rfl⟩
  | @moved m' address now ms fromNow hmem _ hchanged =>
      refine hchanged.started hlater fun _ => ?_
      cases fromNow with
      | true => exact ⟨now, UInt64.le_refl _, rfl⟩
      | false =>
          -- what is left of the old deadline is the reading it was counted from
          rcases hlater address hmem with ⟨start, hstart, hnext⟩
          refine ⟨start, hstart, ?_⟩
          change (m.timer address).next - (m.timer address).ms + ms = start + ms
          rw [hnext, UInt64.add_sub_cancel]
  | asked => exact hlater
  | @expired m' now nowTimer hout hexpired _ =>
      intro a ha
      have hin := hexpired.timers a
      have htimer := hexpired.timer a
      split at hin
      · rename_i hmem
        rw [if_pos hmem, expiredTimer, if_pos (hin.mp ha)] at htimer
        rw [htimer]
        exact ⟨now, UInt64.le_refl _, rfl⟩
      · rename_i hmem
        rw [if_neg hmem] at htimer
        rw [htimer]
        exact hlater a (hin.mp ha)

/-!
# Calls without an announcement
-/

theorem addBack_quiet (hquiet : (m.addBack address).2 = false) :
    (m.addBack address).1.tickled = m.tickled ∧
      (m.tickled = false -> (m.addBack address).1.timers.head? ≠ some address) := by
  change decide _ = false at hquiet
  constructor
  · change (m.tickled || decide _) = m.tickled
    rw [hquiet, Bool.or_false]
  · intro htickled hhead
    rw [decide_eq_false_iff_not] at hquiet
    exact hquiet ⟨hhead, htickled⟩

/-- A timer that goes into the set behind another one is not the earliest. -/
theorem Changed.noneEarlier_behind {asked : TimerManager κ} {timer : Timer κ}
    (hchanged : Changed m m' address timer True) (h : NoneEarlier asked m)
    (hfront : m'.timers.head? ≠ some address) : NoneEarlier asked m' := by
  intro a ha
  by_cases heq : a = address
  · cases hhead : m'.timers.head? with
    | none =>
        rw [List.head?_eq_none_iff.mp hhead] at ha
        cases ha
    | some first =>
        have hne : first ≠ address := fun heq => hfront (heq ▸ hhead)
        have hfirst := (hchanged.mem_other hne).mp (List.mem_of_head? hhead)
        rcases h first hfirst with ⟨b, hb, hle⟩
        have hnext := key_le_iff (Ascending.head_le hchanged.sorted hhead ha)
        rw [hchanged.other hne] at hnext
        exact ⟨b, hb, UInt64.le_trans hle hnext⟩
  · rw [hchanged.other heq]
    exact h a ((hchanged.mem_other heq).mp ha)

/-- Neither is one that moves back. -/
theorem Changed.noneEarlier_later {asked : TimerManager κ} {timer : Timer κ} {inside : Prop}
    (hchanged : Changed m m' address timer inside) (h : NoneEarlier asked m)
    (hlater : inside -> address ∈ m.timers ∧ (m.timer address).next ≤ timer.next) :
    NoneEarlier asked m' := by
  intro a ha
  by_cases heq : a = address
  · rw [heq] at ha ⊢
    rcases hlater (hchanged.mem_self.mp ha) with ⟨hmem, hnext⟩
    rcases h address hmem with ⟨b, hb, hle⟩
    rw [hchanged.self]
    exact ⟨b, hb, UInt64.le_trans hle hnext⟩
  · rw [hchanged.other heq]
    exact h a ((hchanged.mem_other heq).mp ha)

theorem tickled_cancel (m : TimerManager κ) (address : Nat) :
    (m.cancel address).1.tickled = m.tickled := by
  unfold TimerManager.cancel
  split
  · exact tickled_erase _ _
  · rfl

theorem tickled_refresh (m : TimerManager κ) (address : Nat) (now : UInt64) :
    (m.refresh address now).1.tickled = m.tickled := by
  unfold TimerManager.refresh
  split
  · rfl
  · split
    · rfl
    · rfl

/-- A call that announces nothing leaves no timer earlier than all that were asked about. -/
theorem quiet_step {asked : TimerManager κ} {clock : UInt64} (h : m.Consistent)
    (hcall : m.callable call) (hstarted : m.Started clock)
    (hclock : forall now, now ∈ call.reading -> clock ≤ now) (hfits : m.NoOverflow call)
    (hask : forall now, call ≠ .getNextTimer now) (hquiet : (m.apply call).2 = false)
    (htickled : m.tickled = false) (hnone : NoneEarlier asked m) :
    (m.apply call).1.tickled = false ∧ NoneEarlier asked (m.apply call).1 := by
  -- a deadline counted from now is not before the one counted from an earlier reading
  have hlater : forall a now, a ∈ m.timers -> clock ≤ now ->
      now.toNat + (m.timer a).ms.toNat < 2 ^ 64 ->
      (m.timer a).next ≤ now + (m.timer a).ms := by
    intro a now ha hle hfit
    rcases hstarted a ha with ⟨start, hstart, hnext⟩
    exact next_le hnext (UInt64.le_trans hstart hle) hfit
  cases call with
  | addTimer address now ms cb recurring =>
      have hfresh := Option.isNone_iff_eq_none.mp hcall
      have hchanged := h.addTimer hfresh now ms cb recurring
      rcases addBack_quiet (m := m.setTimer address (.new now ms cb recurring)) hquiet with
        ⟨hsame, hfront⟩
      exact ⟨hsame.trans htickled, hchanged.noneEarlier_behind hnone (hfront htickled)⟩
  | cancel address =>
      refine ⟨(tickled_cancel m address).trans htickled, ?_⟩
      rcases h.cancel address with ⟨_, hidle⟩ | ⟨_, _, _, hchanged⟩
      · rw [TimerManager.apply, hidle]
        exact hnone
      · exact hchanged.noneEarlier_later hnone False.elim
  | refresh address now =>
      refine ⟨(tickled_refresh m address now).trans htickled, ?_⟩
      rcases h.refresh address now with ⟨_, hidle⟩ | ⟨hmem, hcb, _, hchanged⟩
      · rw [TimerManager.apply, hidle]
        exact hnone
      · refine hchanged.noneEarlier_later hnone fun _ => ⟨hmem, ?_⟩
        exact hlater address now hmem (hclock now rfl)
          (hfits (Option.isSome_iff_ne_none.mpr hcb))
  | reset address now ms fromNow =>
      rw [TimerManager.apply] at hquiet ⊢
      rcases h.reset address now ms fromNow with hidle | ⟨hmem, _, m', hchanged, hold, heq⟩
      · rw [hidle]
        exact ⟨htickled, hnone⟩
      · rw [heq] at hquiet ⊢
        rcases addBack_quiet hquiet with ⟨hsame, hfront⟩
        rw [hold] at hsame hfront
        exact ⟨hsame.trans htickled,
          hchanged.addBack.noneEarlier_behind hnone (hfront htickled)⟩
  | getNextTimer now => exact absurd rfl (hask now)
  | listExpiredCb now nowTimer =>
      have hout := h.fresh hcall
      have hexpired := (listExpiredCbFrom_expired h.sorted hout now).2
      refine ⟨hexpired.tickled.trans htickled, fun a ha => ?_⟩
      have hin := hexpired.timers a
      have htimer := hexpired.timer a
      split at hin
      · rename_i hmem
        have hrecurring := hin.mp ha
        have hpending := ((mem_expired h.sorted hout).mp hmem).1
        rw [if_pos hmem, expiredTimer, if_pos hrecurring] at htimer
        rcases hnone a hpending with ⟨b, hb, hle⟩
        refine ⟨b, hb, UInt64.le_trans hle ?_⟩
        change _ ≤ ((m.listExpiredCbFrom now nowTimer).2.timer a).next
        rw [htimer]
        exact hlater a now hpending (hclock now rfl) (hfits a hmem hrecurring)
      · rename_i hmem
        rcases hnone a (hin.mp ha) with ⟨b, hb, hle⟩
        rw [if_neg hmem] at htimer
        refine ⟨b, hb, ?_⟩
        change _ ≤ ((m.listExpiredCbFrom now nowTimer).2.timer a).next
        rw [htimer]
        exact hle

end TimerManager

/-!
# Runs
-/

section

variable {κ : Type} {start : UInt64} {s : Clocked κ}

def Notifies (t : Transition (Clocked κ) (TimerCall κ)) : Prop :=
  (t.before.manager.apply t.action).2 = true

def Asks (t : Transition (Clocked κ) (TimerCall κ)) : Prop :=
  exists now, t.action = .getNextTimer now

/-- Some timer waits for a deadline below all those that were pending when asked. -/
def EarlierPending (asked m : TimerManager κ) : Prop :=
  exists a, a ∈ m.timers ∧
    forall b, b ∈ asked.timers -> (m.timer a).next < (asked.timer b).next

/-- Whenever an earlier timer waits than at the last question, it has been announced
that one came to stand at the front. -/
def NoMissedWakeUp (r : (@timersSystem κ start).Run) : Prop :=
  forall earlier t later, r.trace = earlier ++ t :: later -> Asks t ->
    (forall u, u ∈ later -> ¬ Asks u) ->
    EarlierPending t.before.manager r.state.manager -> exists u, u ∈ later ∧ Notifies u

/-- The clock does not go back and the deadlines that are not announced do not overflow. -/
structure InTime (t : Transition (Clocked κ) (TimerCall κ)) : Prop where
  clock : NonDecreasing t
  fits : t.before.manager.NoOverflow t.action

theorem timers_started {tr : List (Transition (Clocked κ) (TimerCall κ))}
    (h : (timersSystem start).Trace tr s) (hclock : forall t, t ∈ tr -> InTime t) :
    s.manager.Started s.clock := by
  refine TransitionSystem.Trace.invariant_under (C := InTime)
    (P := fun _ s => s.manager.Started s.clock) (fun _ ha => absurd ha List.not_mem_nil) ?_
    h hclock
  intro tr s s' call htrace _ hold hstep hlast
  rcases timer_step hstep with ⟨_, _, hreading⟩
  rw [hreading]
  exact (timer_effect (timers_consistent htrace) hstep).started hold hlast.clock

/-- No wake-up is missed as long as the clock does not go back and no deadline of a
refreshed or recurring timer overflows. -/
theorem no_missed_wake_up (r : (@timersSystem κ start).Run) (hin : r.Always InTime) :
    NoMissedWakeUp r := by
  intro earlier t later hsplit hasks hsince hearlier
  have htrace := r.valid
  have hall : forall u, u ∈ earlier ++ t :: later -> InTime u := fun u hu =>
    hin u (hsplit ▸ hu)
  rw [hsplit] at htrace
  have hkept := TransitionSystem.Trace.since (C := InTime)
    (Q := fun later s => (forall u, u ∈ later -> ¬ Asks u) ->
      (exists u, u ∈ later ∧ Notifies u) ∨
        (s.manager.tickled = false ∧
          TimerManager.NoneEarlier t.before.manager s.manager)) ?_ ?_ htrace hall hsince
  · rcases hkept with hnotified | ⟨_, hnone⟩
    · exact hnotified
    · rcases hearlier with ⟨a, ha, hbelow⟩
      rcases hnone a ha with ⟨b, hb, hle⟩
      exact absurd (hbelow b hb) (UInt64.not_lt.mpr hle)
  · intro _ _ hstep _ _
    rcases hasks with ⟨now, haction⟩
    rcases timer_step hstep with ⟨_, hmanager, _⟩
    rw [haction] at hmanager
    right
    rw [hmanager]
    exact ⟨rfl, fun a ha => ⟨a, ha, UInt64.le_refl _⟩⟩
  · intro later s s' call htrace hbefore hold hstep hlast hsince
    rcases hold fun u hu => hsince u (List.mem_append_left _ hu) with
      ⟨u, hu, hnotifies⟩ | ⟨htickled, hnone⟩
    · exact Or.inl ⟨u, List.mem_append_left _ hu, hnotifies⟩
    · have hlater := hsince _ (List.mem_append_right later (List.mem_singleton_self _))
      cases hquiet : (s.manager.apply call).2 with
      | true =>
          exact Or.inl ⟨_, List.mem_append_right later (List.mem_singleton_self _), hquiet⟩
      | false =>
          rcases timer_step hstep with ⟨hcall, hmanager, _⟩
          right
          rw [hmanager]
          exact TimerManager.quiet_step (timers_consistent htrace) hcall
            (timers_started htrace hbefore) hlast.clock hlast.fits
            (fun now heq => hlater ⟨now, heq⟩) hquiet htickled hnone

end

/-!
# A deadline that wraps around

A timer that should never fire is refreshed one millisecond later.  Its deadline wraps
around to zero, and the thread that was told the old one is not woken.
-/

def longTimerSchedule : List (TimerCall Unit) :=
  [.addTimer 0 0 18446744073709551615 (some ()) false, .getNextTimer 0, .refresh 0 1]

def longTimerRun : (@timersSystem Unit 0).Run :=
  TransitionSystem.runOf _ longTimerSchedule (by decide +kernel)

theorem longTimerRun_missed :
    longTimerRun.Always NonDecreasing ∧ ¬ NoMissedWakeUp longTimerRun := by
  constructor
  · unfold TransitionSystem.Run.Always
    decide +kernel
  · intro h
    have hrun : exists t, t ∈ longTimerRun.trace[1]? ∧ t.action = .getNextTimer 0 ∧
        (forall u, u ∈ longTimerRun.trace.drop 2 -> u.action = .refresh 0 1 ∧
          (u.before.manager.apply u.action).2 = false) ∧
        (0 ∈ longTimerRun.state.manager.timers ∧
          forall b, b ∈ t.before.manager.timers ->
            (longTimerRun.state.manager.timer 0).next < (t.before.manager.timer b).next) := by
      decide +kernel
    rcases hrun with ⟨t, ht, haction, hlater, hearlier⟩
    rcases List.getElem?_eq_some_iff.mp ht with ⟨hlt, heq⟩
    have hsplit : longTimerRun.trace =
        longTimerRun.trace.take 1 ++ t :: longTimerRun.trace.drop 2 := by
      rw [← heq, ← List.drop_eq_getElem_cons hlt, List.take_append_drop]
    have hsince : forall u, u ∈ longTimerRun.trace.drop 2 -> ¬ Asks u := by
      rintro u hu ⟨now, hasks⟩
      rw [(hlater u hu).1] at hasks
      cases hasks
    rcases h _ t _ hsplit ⟨0, haction⟩ hsince ⟨0, hearlier⟩ with ⟨u, hu, hnotifies⟩
    rw [Notifies, (hlater u hu).2] at hnotifies
    cases hnotifies

/-- A timer that is put before the one an idle thread waits for. -/
def earlierTimerSchedule : List (TimerCall Unit) :=
  [.addTimer 0 0 100 (some ()) true, .getNextTimer 1, .addTimer 1 2 10 (some ()) false,
    .refresh 0 3]

def earlierTimerRun : (@timersSystem Unit 0).Run :=
  TransitionSystem.runOf _ earlierTimerSchedule (by decide +kernel)

theorem earlierTimerRun_no_missed_wake_up : NoMissedWakeUp earlierTimerRun := by
  have hclock : forall t, t ∈ earlierTimerRun.trace -> NonDecreasing t := by
    decide +kernel
  have hfits : forall t, t ∈ earlierTimerRun.trace -> t.before.manager.NoOverflow t.action := by
    decide +kernel
  exact no_missed_wake_up earlierTimerRun fun t ht => ⟨hclock t ht, hfits t ht⟩

end Fiber
end KVRaft
