import KVRaft.Fiber.TimerCalls

/-!
# When timers expire

As long as the clock does not go back, a call expires exactly the timers that are due.
A clock that was set back by more than an hour expires all of them, and so does a
smaller step back in the first hour, where the hour before the stored reading wraps
around.
-/

namespace KVRaft
namespace Fiber

open Foundation

section

variable {κ : Type} {start : UInt64} {s s' : Clocked κ} {call : TimerCall κ}

/-- What expiry at a time leaves of a timer. -/
def leftAt (now : UInt64) : Option (Timer κ) -> Option (Timer κ)
  | none => none
  | some timer =>
      if timer.next ≤ now then
        if timer.recurring then some { timer with next := now + timer.ms } else none
      else
        some timer

/-- A call expires exactly what is due, in the order of the deadlines. -/
structure ExpiresDue (m : TimerManager κ) (now : UInt64) (nowTimer : Nat) : Prop where
  callbacks : (m.listExpiredCbFrom now nowTimer).1 =
    (m.expired now nowTimer).map fun a => (m.timer a).cb
  nodup : (m.expired now nowTimer).Nodup
  due : forall a, a ∈ m.expired now nowTimer <->
    exists timer, m.pending a = some timer ∧ timer.next ≤ now
  ordered : (m.expired now nowTimer).Pairwise fun a b => (m.timer a).next ≤ (m.timer b).next
  left : (m.listExpiredCbFrom now nowTimer).2.pending = fun a => leftAt now (m.pending a)

structure ExpireWhenDue (r : (@timersSystem κ start).Run) : Prop where
  due : forall t, t ∈ r.trace -> forall now nowTimer,
    t.action = .listExpiredCb now nowTimer -> ExpiresDue t.before.manager now nowTimer
  once : forall a, (r.state.manager.timer a).recurring = false ->
    (returned r.trace).count a ≤ 1
  cancelled : forall earlier t later a, r.trace = earlier ++ t :: later ->
    t.action = .cancel a -> (t.before.manager.cancel a).2 = true -> a ∉ returned later

/-!
# Due timers
-/

namespace TimerManager

variable {m m' : TimerManager κ}

theorem pending_eq_some {a : Nat} {timer : Timer κ} :
    m.pending a = some timer <-> a ∈ m.timers ∧ m.timer a = timer := by
  unfold pending
  split
  · rw [Option.some.injEq]
    exact (and_iff_right ‹_›).symm
  · exact iff_of_false nofun fun h => ‹a ∉ m.timers› h.1

theorem expiresDue (h : m.Consistent) {now : UInt64} (hclock : m.previousTime ≤ now)
    {nowTimer : Nat} (hout : nowTimer ∉ m.timers) : ExpiresDue m now nowTimer := by
  have hforward : m.detectClockRollover now = false := by
    unfold detectClockRollover
    rw [decide_eq_false_iff_not]
    exact fun hback => UInt64.not_lt.mpr hclock hback.1
  have hmem : forall a, a ∈ m.expired now nowTimer <->
      a ∈ m.timers ∧ (m.timer a).next ≤ now := by
    intro a
    rw [mem_expired h.sorted hout, hforward]
    exact and_congr_right fun _ => or_iff_right Bool.false_ne_true
  rcases listExpiredCbFrom_expired h.sorted hout now with ⟨hcbs, hexpired⟩
  have hascending : Ascending m.key (m.expired now nowTimer) := by
    rw [expired_eq h.sorted hout]
    exact Ascending.sublist h.sorted List.filter_sublist
  refine ⟨hcbs, hascending.nodup, fun a => ?_, ?_, ?_⟩
  · rw [hmem]
    constructor
    · rintro ⟨hin, hdue⟩
      exact ⟨m.timer a, pending_eq_some.mpr ⟨hin, rfl⟩, hdue⟩
    · rintro ⟨timer, hpending, hdue⟩
      rcases pending_eq_some.mp hpending with ⟨hin, rfl⟩
      exact ⟨hin, hdue⟩
  · exact List.Pairwise.imp (fun hlt => key_le_iff (le_of_lt hlt)) hascending
  · funext a
    by_cases ha : a ∈ m.expired now nowTimer
    · rcases (hmem a).mp ha with ⟨hin, hdue⟩
      rw [hexpired.pending_mem ha, pending_eq_some.mpr ⟨hin, rfl⟩, leftAt, if_pos hdue]
    · rw [hexpired.pending_not_mem ha]
      cases hpending : m.pending a with
      | none => rfl
      | some timer =>
          rcases pending_eq_some.mp hpending with ⟨hin, rfl⟩
          rw [leftAt, if_neg fun hdue => ha ((hmem a).mpr ⟨hin, hdue⟩)]

end TimerManager

/-- The stored reading is one of the clock's. -/
theorem previousTime_le {tr : List (Transition (Clocked κ) (TimerCall κ))}
    (h : (timersSystem start).Trace tr s) (hclock : forall t, t ∈ tr -> NonDecreasing t) :
    s.manager.previousTime ≤ s.clock := by
  refine TransitionSystem.Trace.invariant_under
    (P := fun _ s => s.manager.previousTime ≤ s.clock) (UInt64.le_refl start) ?_ h hclock
  intro tr s s' call htrace _ hold hstep hlast
  rcases timer_step hstep with ⟨_, _, hclock⟩
  have hnext : s.clock ≤ s'.clock := by
    rw [hclock]
    cases hreading : call.reading with
    | none => exact UInt64.le_refl _
    | some now => exact hlast now hreading
  have hsame : s'.manager.previousTime = s.manager.previousTime ->
      s'.manager.previousTime ≤ s'.clock := by
    intro heq
    rw [heq]
    exact UInt64.le_trans hold hnext
  have heffect := timer_effect (timers_consistent htrace) hstep
  generalize s'.manager = m' at heffect hsame ⊢
  cases heffect with
  | idle => exact hsame rfl
  | added _ hchanged => exact hsame hchanged.previousTime
  | cancelled _ _ hchanged => exact hsame hchanged.previousTime
  | refreshed _ _ hchanged => exact hsame hchanged.previousTime
  | moved _ _ hchanged => exact hsame hchanged.previousTime
  | asked => exact hsame rfl
  | expired _ _ hprevious =>
      rcases hprevious with heq | heq
      · exact hsame heq
      · rw [heq, hclock]
        exact UInt64.le_refl _

/-!
# Returned timers
-/

theorem returned_concat (tr : List (Transition (Clocked κ) (TimerCall κ)))
    (t : Transition (Clocked κ) (TimerCall κ)) :
    returned (tr ++ [t]) = returned tr ++ returnedBy t := by
  rw [returned, List.flatMap_append, List.flatMap_singleton]
  rfl

theorem returnedBy_nodup (t : Transition (Clocked κ) (TimerCall κ))
    (hm : t.before.manager.Consistent) (hcall : t.before.manager.callable t.action) :
    (returnedBy t).Nodup := by
  unfold returnedBy
  cases haction : t.action with
  | listExpiredCb now nowTimer =>
      rw [haction] at hcall
      dsimp only
      rw [TimerManager.expired_eq hm.sorted (hm.fresh hcall)]
      exact hm.sorted.nodup.filter _
  | _ => exact List.nodup_nil

/-- What is retired is not returned; a one-shot timer retires when it is returned. -/
theorem retired_not_returned {t : Transition (Clocked κ) (TimerCall κ)}
    (hm : t.before.manager.Consistent) (hcall : t.before.manager.callable t.action) {a : Nat}
    (ha : t.before.manager.Retired a) : a ∉ returnedBy t := by
  unfold returnedBy
  cases haction : t.action with
  | listExpiredCb now nowTimer =>
      rw [haction] at hcall
      exact ha.not_expired hm (hm.fresh hcall) now
  | _ => exact List.not_mem_nil

theorem returned_retires {t : Transition (Clocked κ) (TimerCall κ)}
    (hm : t.before.manager.Consistent) (hcall : t.before.manager.callable t.action) {a : Nat}
    (ha : a ∈ returnedBy t) (honce : (t.before.manager.timer a).recurring = false) :
    (t.before.manager.apply t.action).1.Retired a := by
  unfold returnedBy at ha
  cases haction : t.action with
  | listExpiredCb now nowTimer =>
      rw [haction] at hcall ha
      have hout := hm.fresh hcall
      have hin := ((TimerManager.mem_expired hm.sorted hout).mp ha).1
      have hexpired := (TimerManager.listExpiredCbFrom_expired hm.sorted hout now).2
      refine ⟨(hexpired.objects a).mpr (Or.inl ha), ?_, ?_⟩
      · change ((t.before.manager.listExpiredCbFrom now nowTimer).2.timer a).cb = none
        rw [hexpired.timer, if_pos ha, TimerManager.expiredTimer, honce]
        rfl
      · change a ∉ (t.before.manager.listExpiredCbFrom now nowTimer).2.timers
        rw [hexpired.timers, if_pos ha, honce]
        exact Bool.false_ne_true
  | _ =>
      rw [haction] at ha
      cases ha

theorem cancel_retires {m : TimerManager κ} (hm : m.Consistent) {a : Nat}
    (hcancel : (m.cancel a).2 = true) : (m.cancel a).1.Retired a := by
  rcases hm.cancel a with ⟨_, hidle⟩ | ⟨hmem, _, _, hchanged⟩
  · rw [hidle] at hcancel
    cases hcancel
  · refine ⟨(hchanged.objects a).mpr (Or.inl rfl), ?_, hchanged.mem_self.mp⟩
    rw [hchanged.self]

/-- A timer of a later state that is not recurring was none before. -/
theorem recurring_before {m m' : TimerManager κ} (heffect : m.Effect call m') {a : Nat}
    (h : (m'.timer a).recurring = false) : (m.timer a).recurring = false := by
  cases hobject : m.objects a with
  | none => rw [TimerManager.timer_of_none hobject]
  | some timer => rw [← (heffect.object (by rw [hobject]; rfl)).2, h]

theorem returned_once {tr : List (Transition (Clocked κ) (TimerCall κ))}
    (h : (timersSystem start).Trace tr s) {a : Nat}
    (honce : (s.manager.timer a).recurring = false) :
    (returned tr).count a ≤ 1 ∧ (a ∈ returned tr -> s.manager.Retired a) := by
  induction h with
  | nil => exact ⟨Nat.zero_le _, nofun⟩
  | @snoc tr s s' call htr hstep ih =>
      have hm := timers_consistent htr
      have heffect := timer_effect hm hstep
      rcases timer_step hstep with ⟨hcall, hmanager, _⟩
      have hbefore := recurring_before heffect honce
      rcases ih hbefore with ⟨hcount, hretired⟩
      rw [returned_concat, List.count_append]
      by_cases hold : a ∈ returned tr
      · have hkept := heffect.retired hm (hretired hold)
        have hnew := List.count_eq_zero.mpr (retired_not_returned
          (t := { before := s, action := call, after := s' }) hm hcall (hretired hold))
        exact ⟨by omega, fun _ => hkept⟩
      · have hnone := List.count_eq_zero.mpr hold
        have hnodup := List.nodup_iff_count_le_one.mp (returnedBy_nodup
          { before := s, action := call, after := s' } hm hcall) a
        refine ⟨by omega, fun hmem => ?_⟩
        rcases List.mem_append.mp hmem with hmem | hmem
        · exact absurd hmem hold
        · rw [hmanager]
          exact returned_retires hm hcall hmem hbefore

theorem cancelled_never_returned
    {earlier later : List (Transition (Clocked κ) (TimerCall κ))}
    {t : Transition (Clocked κ) (TimerCall κ)}
    (h : (timersSystem start).Trace (earlier ++ t :: later) s) {a : Nat}
    (haction : t.action = .cancel a) (hcancel : (t.before.manager.cancel a).2 = true) :
    a ∉ returned later ∧ s.manager.Retired a := by
  refine TransitionSystem.Trace.since (C := fun _ => True)
    (Q := fun later s => a ∉ returned later ∧ s.manager.Retired a) ?_ ?_ h fun _ _ => trivial
  · intro htrace _ hstep _
    have hm := timers_consistent htrace
    rcases timer_step hstep with ⟨_, hmanager, _⟩
    rw [haction] at hmanager
    refine ⟨List.not_mem_nil, ?_⟩
    rw [hmanager]
    exact cancel_retires hm hcancel
  · rintro later s s' call htrace _ ⟨hnever, hretired⟩ hstep _
    have hm := timers_consistent htrace
    rcases timer_step hstep with ⟨hcall, _, _⟩
    constructor
    · rw [returned_concat, List.mem_append]
      exact not_or.mpr ⟨hnever, retired_not_returned hm hcall hretired⟩
    · exact (timer_effect hm hstep).retired hm hretired

/-- Timers expire exactly when they are due as long as the clock does not go back. -/
theorem expire_when_due (r : (@timersSystem κ start).Run) (hclock : r.Always NonDecreasing) :
    ExpireWhenDue r where
  due := by
    intro t ht now nowTimer haction
    rcases r.valid.before_of_mem ht with ⟨earlier, htrace, hsub⟩
    have hm := timers_consistent htrace
    rcases timer_step (r.valid.step_of_mem ht) with ⟨hcall, _, _⟩
    have hprevious := previousTime_le htrace fun u hu => hclock u (hsub u hu)
    have hreading := hclock t ht now (by rw [haction]; rfl)
    rw [haction] at hcall
    exact TimerManager.expiresDue hm (UInt64.le_trans hprevious hreading) (hm.fresh hcall)
  once := fun _ honce => (returned_once r.valid honce).1
  cancelled := by
    intro earlier t later a hsplit haction hcancel
    have htrace := r.valid
    rw [hsplit] at htrace
    exact (cancelled_never_returned htrace haction hcancel).1

/-!
# A clock that goes back
-/

/-- No timer expires before its deadline but after a step back of more than an hour. -/
def NoEarlyFiring (r : (@timersSystem κ start).Run) : Prop :=
  forall t, t ∈ r.trace -> forall now nowTimer, t.action = .listExpiredCb now nowTimer ->
    forall a, a ∈ t.before.manager.expired now nowTimer ->
      now < (t.before.manager.timer a).next ->
      now.toNat + 3600000 < t.before.manager.previousTime.toNat

/-- A reading below one that was stored in the first hour, while a later timer waits. -/
def BackInFirstHour (t : Transition (Clocked κ) (TimerCall κ)) : Prop :=
  exists now nowTimer, t.action = .listExpiredCb now nowTimer ∧
    now < t.before.manager.previousTime ∧
    t.before.manager.previousTime.toNat < 3600000 ∧
    exists a, a ∈ t.before.manager.timers ∧ now < (t.before.manager.timer a).next

/-- The hour is subtracted modulo 2^64. -/
theorem detectClockRollover_iff (m : TimerManager κ) (now : UInt64) :
    m.detectClockRollover now = true <->
      now < m.previousTime ∧ (m.previousTime.toNat < 3600000 ∨
        now.toNat + 3600000 < m.previousTime.toNat) := by
  have hhour : (60 * 60 * 1000 : UInt64).toNat = 3600000 := rfl
  have hnow := now.toNat_lt
  have hprevious := m.previousTime.toNat_lt
  unfold TimerManager.detectClockRollover
  rw [decide_eq_true_eq, UInt64.lt_iff_toNat_lt, UInt64.lt_iff_toNat_lt, UInt64.toNat_sub,
    hhour]
  omega

/-- Timers fire early exactly when the clock goes back a little in the first hour. -/
theorem no_early_firing_iff (r : (@timersSystem κ start).Run) :
    NoEarlyFiring r <-> r.Always fun t => ¬ BackInFirstHour t := by
  constructor
  · rintro hnever t ht ⟨now, nowTimer, haction, hback, hhour, a, hin, hlater⟩
    rcases r.valid.before_of_mem ht with ⟨earlier, htrace, _⟩
    have hm := timers_consistent htrace
    rcases timer_step (r.valid.step_of_mem ht) with ⟨hcall, _, _⟩
    rw [haction] at hcall
    have hrollover := (detectClockRollover_iff t.before.manager now).mpr
      ⟨hback, Or.inl hhour⟩
    have hmem := (TimerManager.mem_expired hm.sorted (hm.fresh hcall)).mpr
      ⟨hin, Or.inl hrollover⟩
    have hjump := hnever t ht now nowTimer haction a hmem hlater
    omega
  · intro hnot t ht now nowTimer haction a hmem hlater
    rcases r.valid.before_of_mem ht with ⟨earlier, htrace, _⟩
    have hm := timers_consistent htrace
    rcases timer_step (r.valid.step_of_mem ht) with ⟨hcall, _, _⟩
    rw [haction] at hcall
    rcases (TimerManager.mem_expired hm.sorted (hm.fresh hcall)).mp hmem with
      ⟨hin, hrollover | hdue⟩
    · rcases (detectClockRollover_iff t.before.manager now).mp hrollover with
        ⟨hback, hhour | hjump⟩
      · exact absurd ⟨now, nowTimer, haction, hback, hhour, a, hin, hlater⟩ (hnot t ht)
      · exact hjump
    · exact absurd hlater (UInt64.not_lt.mpr hdue)

end

/-!
# Two short runs

In the first a recurring and a one-shot timer are due at once while a third is cancelled.
In the second, twelve milliseconds after the machine has booted, a second worker comes
with a reading that is one millisecond older.
-/

def dueTimersSchedule : List (TimerCall Unit) :=
  [.addTimer 0 10 5 (some ()) true, .addTimer 1 10 5 (some ()) false,
    .addTimer 2 11 9 (some ()) false, .refresh 1 11, .cancel 2, .listExpiredCb 16 3,
    .listExpiredCb 25 3]

def dueTimersRun : (@timersSystem Unit 10).Run :=
  TransitionSystem.runOf _ dueTimersSchedule (by decide +kernel)

theorem dueTimersRun_expire_when_due : ExpireWhenDue dueTimersRun :=
  expire_when_due dueTimersRun (by unfold TransitionSystem.Run.Always; decide +kernel)

def bootSchedule : List (TimerCall Unit) :=
  [.addTimer 0 10 1000 (some ()) false, .listExpiredCb 12 1, .listExpiredCb 11 1]

def bootRun : (@timersSystem Unit 10).Run :=
  TransitionSystem.runOf _ bootSchedule (by decide +kernel)

theorem bootRun_fires_early : ¬ NoEarlyFiring bootRun := by
  intro h
  have hcall : exists t, t ∈ bootRun.trace ∧ t.action = .listExpiredCb 11 1 ∧
      0 ∈ t.before.manager.expired 11 1 ∧ 11 < (t.before.manager.timer 0).next ∧
      t.before.manager.previousTime = 12 := by
    decide +kernel
  rcases hcall with ⟨t, ht, haction, hmem, hlater, hprevious⟩
  have hjump := h t ht 11 1 haction 0 hmem hlater
  rw [hprevious] at hjump
  exact absurd hjump (by decide)

end Fiber
end KVRaft
