import Mathlib.Data.List.TakeWhile
import KVRaft.Fiber.TimerSet

/-!
# Pending timers

What the set stands for: at an address either no timer or one that waits.  Every
operation is described by what it does to the objects and to the set, and from that by
what it does to the pending timers.
-/

namespace KVRaft
namespace Fiber
namespace TimerManager

open Foundation

variable {κ : Type} {m m' : TimerManager κ} {address : Nat}

def pending (m : TimerManager κ) (address : Nat) : Option (Timer κ) :=
  if address ∈ m.timers then some (m.timer address) else none

/-- The set is in order, it holds objects, and an object with a callback is in it. -/
structure Consistent (m : TimerManager κ) : Prop where
  sorted : m.Sorted
  allocated : forall a, a ∈ m.timers -> (m.objects a).isSome
  armed : forall a, (m.timer a).cb.isSome -> a ∈ m.timers

/-- One object becomes another one, which ends up inside the set or outside. -/
structure Changed (m m' : TimerManager κ) (address : Nat) (timer : Timer κ)
    (inside : Prop) : Prop where
  sorted : m'.Sorted
  objects : forall a, (m'.objects a).isSome <-> a = address ∨ (m.objects a).isSome
  timer : forall a, m'.timer a = if a = address then timer else m.timer a
  timers : forall a, a ∈ m'.timers <-> if a = address then inside else a ∈ m.timers
  previousTime : m'.previousTime = m.previousTime

namespace Changed

variable {timer : Timer κ} {inside : Prop}

theorem self (h : Changed m m' address timer inside) : m'.timer address = timer :=
  (h.timer address).trans (if_pos rfl)

theorem other (h : Changed m m' address timer inside) {a : Nat} (ha : a ≠ address) :
    m'.timer a = m.timer a :=
  (h.timer a).trans (if_neg ha)

theorem mem_self (h : Changed m m' address timer inside) :
    address ∈ m'.timers <-> inside := by
  rw [h.timers, if_pos rfl]

theorem mem_other (h : Changed m m' address timer inside) {a : Nat} (ha : a ≠ address) :
    a ∈ m'.timers <-> a ∈ m.timers := by
  rw [h.timers, if_neg ha]

theorem consistent (h : Changed m m' address timer inside) (hm : m.Consistent)
    (harmed : timer.cb.isSome -> inside) : m'.Consistent where
  sorted := h.sorted
  allocated := by
    intro a ha
    rw [h.objects]
    by_cases heq : a = address
    · exact Or.inl heq
    · exact Or.inr (hm.allocated a ((h.mem_other heq).mp ha))
  armed := by
    intro a ha
    by_cases heq : a = address
    · rw [heq, h.self] at ha
      rw [heq, h.mem_self]
      exact harmed ha
    · rw [h.other heq] at ha
      exact (h.mem_other heq).mpr (hm.armed a ha)

end Changed

/-!
# Objects
-/

@[simp] theorem objects_setTimer (m : TimerManager κ) (address a : Nat) (timer : Timer κ) :
    ((m.setTimer address timer).objects a).isSome <-> a = address ∨ (m.objects a).isSome := by
  by_cases heq : a = address
  · simp [setTimer, heq]
  · simp [setTimer, heq]

theorem timer_setTimer_eq (m : TimerManager κ) (address a : Nat) (timer : Timer κ) :
    (m.setTimer address timer).timer a = if a = address then timer else m.timer a := by
  by_cases heq : a = address
  · rw [if_pos heq, heq, timer_setTimer]
  · rw [if_neg heq, timer_setTimer_of_ne m timer heq]

theorem timer_of_none (h : m.objects address = none) : m.timer address = {} := by
  simp [TimerManager.timer, h]

/-- An object is set while it is outside the set. -/
theorem changed_setTimer (h : m.Sorted) (hout : address ∉ m.timers) (timer : Timer κ) :
    Changed m (m.setTimer address timer) address timer False where
  sorted := h.setTimer (Or.inl hout)
  objects := fun a => objects_setTimer m address a timer
  timer := fun a => timer_setTimer_eq m address a timer
  timers := by
    intro a
    by_cases heq : a = address
    · rw [if_pos heq, heq]
      exact iff_of_false hout id
    · rw [if_neg heq]
      exact Iff.rfl
  previousTime := rfl

/-- It goes back inside. -/
theorem Changed.insert {timer : Timer κ} (h : Changed m m' address timer False) :
    Changed m (m'.insert address) address timer True where
  sorted := h.sorted.insert address
  objects := h.objects
  timer := h.timer
  timers := by
    intro a
    rw [mem_insert h.mem_self.mp]
    by_cases heq : a = address
    · rw [if_pos heq]
      exact iff_of_true (Or.inl heq) trivial
    · rw [if_neg heq, h.mem_other heq]
      exact or_iff_right heq
  previousTime := h.previousTime

theorem Changed.addBack {timer : Timer κ} (h : Changed m m' address timer False) :
    Changed m (m'.addBack address).1 address timer True where
  sorted := h.insert.sorted
  objects := h.insert.objects
  timer := h.insert.timer
  timers := h.insert.timers
  previousTime := h.insert.previousTime

/-- It is taken out before it changes. -/
theorem changed_erase (h : m.Sorted) (timer : Timer κ) :
    Changed m ((m.erase (some address)).setTimer address timer) address timer False := by
  have hout : address ∉ (m.erase (some address)).timers := fun hmem =>
    (h.mem_erase.mp hmem).1 rfl
  have hset := changed_setTimer (h.erase (some address)) hout timer
  refine ⟨hset.sorted, hset.objects, hset.timer, fun a => ?_, hset.previousTime⟩
  rw [hset.timers, h.mem_erase]
  by_cases heq : a = address
  · rw [if_pos heq, if_pos heq]
  · rw [if_neg heq, if_neg heq]
    exact and_iff_right heq

/-!
# The operations
-/

theorem Consistent.addTimer (h : m.Consistent) (hfresh : m.objects address = none)
    (now ms : UInt64) (cb : Option κ) (recurring : Bool) :
    Changed m (m.addTimer address now ms cb recurring).1 address (.new now ms cb recurring)
      True := by
  have hout : address ∉ m.timers := by
    intro hmem
    have hobject := h.allocated address hmem
    rw [hfresh] at hobject
    cases hobject
  exact (changed_setTimer h.sorted hout (.new now ms cb recurring)).addBack

theorem Consistent.cancel (h : m.Consistent) (address : Nat) :
    ((m.timer address).cb = none ∧ m.cancel address = (m, false)) ∨
      (address ∈ m.timers ∧ (m.timer address).cb ≠ none ∧ (m.cancel address).2 = true ∧
        Changed m (m.cancel address).1 address { m.timer address with cb := none }
          False) := by
  unfold TimerManager.cancel
  cases hcb : (m.timer address).cb with
  | none => exact Or.inl ⟨rfl, rfl⟩
  | some cb =>
      have hmem := h.armed address (by rw [hcb]; rfl)
      -- the deadline stays, so the comparator still finds the timer
      have hset : (m.setTimer address { m.timer address with cb := none }).Sorted :=
        h.sorted.setTimer (Or.inr rfl)
      have hfind : (m.setTimer address { m.timer address with cb := none }).find address =
          some address := find_of_mem hmem
      refine Or.inr ⟨hmem, nofun, rfl, ?_⟩
      rw [Option.isSome_some, if_pos rfl]
      dsimp only
      rw [hfind]
      refine ⟨hset.erase _, ?_, ?_, ?_, rfl⟩
      · exact fun a => objects_setTimer m address a _
      · exact fun a => timer_setTimer_eq m address a _
      · intro a
        rw [hset.mem_erase]
        by_cases heq : a = address
        · rw [if_pos heq]
          exact iff_of_false (fun hne => hne.1 heq) id
        · rw [if_neg heq]
          exact and_iff_right heq

theorem Consistent.refresh (h : m.Consistent) (address : Nat) (now : UInt64) :
    ((m.timer address).cb = none ∧ m.refresh address now = (m, false)) ∨
      (address ∈ m.timers ∧ (m.timer address).cb ≠ none ∧ (m.refresh address now).2 = true ∧
        Changed m (m.refresh address now).1 address
          { m.timer address with next := now + (m.timer address).ms } True) := by
  unfold TimerManager.refresh
  cases hcb : (m.timer address).cb with
  | none => exact Or.inl ⟨rfl, rfl⟩
  | some cb =>
      have hmem := h.armed address (by rw [hcb]; rfl)
      refine Or.inr ⟨hmem, nofun, ?_⟩
      rw [Option.isNone_some, if_neg Bool.false_ne_true, find_of_mem hmem]
      refine ⟨rfl, (changed_erase h.sorted _).insert⟩

/-- The object `reset` leaves. -/
def resetTimer (timer : Timer κ) (now ms : UInt64) (fromNow : Bool) : Timer κ :=
  { timer with
    ms := ms
    next := (if fromNow then now else timer.next - timer.ms) + ms }

theorem Consistent.reset (h : m.Consistent) (address : Nat) (now ms : UInt64)
    (fromNow : Bool) :
    m.reset address now ms fromNow = (m, true, false) ∨
      (address ∈ m.timers ∧ (m.timer address).cb ≠ none ∧
        exists m', Changed m m' address (resetTimer (m.timer address) now ms fromNow) False ∧
          m'.tickled = m.tickled ∧
          m.reset address now ms fromNow = ((m'.addBack address).1, true,
            (m'.addBack address).2)) := by
  unfold TimerManager.reset
  by_cases hsame : ms = (m.timer address).ms ∧ fromNow = false
  · rw [if_pos hsame]
    exact Or.inl rfl
  rw [if_neg hsame]
  cases hcb : (m.timer address).cb with
  | none => exact Or.inl rfl
  | some cb =>
      have hmem := h.armed address (by rw [hcb]; rfl)
      rw [Option.isNone_some, if_neg Bool.false_ne_true, find_of_mem hmem]
      exact Or.inr ⟨hmem, nofun, _, changed_erase h.sorted _, rfl, rfl⟩

/-!
# Expiry
-/

/-- What a timer is after it has expired. -/
def expiredTimer (now : UInt64) (timer : Timer κ) : Timer κ :=
  if timer.recurring then { timer with next := now + timer.ms } else { timer with cb := none }

/-- The timers at some addresses, all outside the set, have expired. -/
structure Expired (m m' : TimerManager κ) (now : UInt64) (addresses : List Nat) : Prop where
  sorted : m'.Sorted
  objects : forall a, (m'.objects a).isSome <-> a ∈ addresses ∨ (m.objects a).isSome
  timer : forall a, m'.timer a =
    if a ∈ addresses then expiredTimer now (m.timer a) else m.timer a
  timers : forall a, a ∈ m'.timers <->
    if a ∈ addresses then (m.timer a).recurring = true else a ∈ m.timers
  tickled : m'.tickled = m.tickled

theorem expired_nil (h : m.Sorted) (now previousTime : UInt64) :
    Expired m { m with previousTime := previousTime } now [] where
  sorted := h
  objects := fun a => (or_iff_right List.not_mem_nil).symm
  timer := fun a => (if_neg List.not_mem_nil).symm
  timers := fun a => by rw [if_neg List.not_mem_nil]
  tickled := rfl

theorem changed_expire (h : m.Sorted) (hout : address ∉ m.timers) (now : UInt64) :
    Changed m (expire now m address) address (expiredTimer now (m.timer address))
      ((m.timer address).recurring = true) := by
  unfold TimerManager.expire expiredTimer
  by_cases hrecurring : (m.timer address).recurring = true
  · rw [if_pos hrecurring, if_pos hrecurring, eq_true hrecurring]
    exact (changed_setTimer h hout _).insert
  · rw [if_neg hrecurring, if_neg hrecurring, eq_false hrecurring]
    exact changed_setTimer h hout _

theorem tickled_expire (m : TimerManager κ) (now : UInt64) (address : Nat) :
    (expire now m address).tickled = m.tickled := by
  unfold TimerManager.expire
  dsimp only
  split
  · rfl
  · rfl

theorem expireAll_expired (h : m.Sorted) {addresses : List Nat} (hnodup : addresses.Nodup)
    (hout : forall a, a ∈ addresses -> a ∉ m.timers) (now : UInt64) :
    (expireAll now addresses m).1 = addresses.map (fun a => (m.timer a).cb) ∧
      Expired m (expireAll now addresses m).2 now addresses := by
  induction addresses generalizing m with
  | nil => exact ⟨rfl, expired_nil h now m.previousTime⟩
  | cons first rest ih =>
      rcases List.nodup_cons.mp hnodup with ⟨hfirst, hrest⟩
      have hchanged := changed_expire h (hout first List.mem_cons_self) now
      have hne : forall a, a ∈ rest -> a ≠ first := fun a ha heq => hfirst (heq ▸ ha)
      rcases ih hchanged.sorted hrest fun a ha hmem =>
        hout a (List.mem_cons_of_mem first ha) ((hchanged.mem_other (hne a ha)).mp hmem)
        with ⟨hcbs, hexpired⟩
      constructor
      · rw [expireAll, List.map_cons]
        dsimp only
        rw [hcbs]
        congr 1
        refine List.map_congr_left fun a ha => ?_
        rw [hchanged.other (hne a ha)]
      · rw [expireAll]
        dsimp only
        refine ⟨hexpired.sorted, fun a => ?_, fun a => ?_, fun a => ?_, ?_⟩
        · rw [hexpired.objects, hchanged.objects, List.mem_cons]
          tauto
        · rw [hexpired.timer]
          by_cases heq : a = first
          · rw [heq, if_neg hfirst, if_pos List.mem_cons_self, hchanged.self]
          · rw [hchanged.other heq]
            exact if_congr ((List.mem_cons.trans (or_iff_right heq)).symm) rfl rfl
        · rw [hexpired.timers]
          by_cases heq : a = first
          · rw [heq, if_neg hfirst, if_pos List.mem_cons_self, hchanged.mem_self]
          · rw [hchanged.other heq, hchanged.mem_other heq,
              if_congr ((List.mem_cons.trans (or_iff_right heq)).symm) rfl rfl]
        · exact hexpired.tickled.trans (tickled_expire m now first)

/-!
# The due timers

The search by lower bound and the loop behind it find the timers that are due.
-/

theorem due_down (m : TimerManager κ) (now : UInt64) (rollover : Bool) (a b : Nat)
    (hlt : m.key a < m.key b) (hb : m.due now rollover b = true) :
    m.due now rollover a = true := by
  unfold due at hb ⊢
  rw [Bool.or_eq_true, decide_eq_true_eq] at hb ⊢
  exact hb.imp_right (UInt64.le_trans (key_le_iff hlt.le))

/-- What the search compares: the deadline first, and the address at equal deadlines. -/
theorem before_nowTimer {now : UInt64} {nowTimer a : Nat} (ha : a ≠ nowTimer) :
    (m.setTimer nowTimer { next := now }).Before a nowTimer <->
      (m.timer a).next < now ∨ ¬ now < (m.timer a).next ∧ a < nowTimer := by
  unfold Before
  rw [timer_setTimer, timer_setTimer_of_ne m _ ha]

theorem splitExpired_eq (h : m.Sorted) {nowTimer : Nat} (hout : nowTimer ∉ m.timers)
    (now : UInt64) (rollover : Bool) :
    m.splitExpired now rollover nowTimer =
      (m.timers.takeWhile (m.due now rollover), m.timers.dropWhile (m.due now rollover)) := by
  have hne : forall a, a ∈ m.timers -> a ≠ nowTimer := fun a ha heq => hout (heq ▸ ha)
  unfold splitExpired
  cases rollover with
  | true =>
      rw [if_pos rfl]
      have hall : m.due now true = fun _ => true := rfl
      have htake : m.timers.takeWhile (fun _ => true) = m.timers :=
        List.takeWhile_eq_self_iff.mpr fun _ _ => rfl
      have hdrop : m.timers.dropWhile (fun _ => true) = [] :=
        List.dropWhile_eq_nil_iff.mpr fun _ _ => rfl
      rw [hall, htake, hdrop]
  | false =>
      rw [if_neg Bool.false_ne_true]
      have hsearch : Ascending (m.setTimer nowTimer { next := now }).key m.timers :=
        h.setTimer (Or.inl hout)
      have hdue : forall a,
          decide ((m.setTimer nowTimer { next := now }).Before a nowTimer) = true ->
            m.due now false a = true := by
        intro a ha
        rw [decide_eq_true_eq] at ha
        have hne : a ≠ nowTimer := by
          rintro rfl
          exact lt_irrefl _ (before_iff.mp ha)
        change decide _ = true
        rw [decide_eq_true_eq]
        rcases (before_nowTimer hne).mp ha with hlt | ⟨hge, _⟩
        · exact UInt64.le_of_lt hlt
        · exact UInt64.not_lt.mp hge
      have hequal : forall a,
          a ∈ m.timers.dropWhile (fun a =>
            decide ((m.setTimer nowTimer { next := now }).Before a nowTimer)) ->
            decide ((m.timer a).next = now) = m.due now false a := by
        intro a ha
        have hmem := (List.dropWhile_sublist _).mem ha
        -- behind the lower bound no deadline is below the reading
        have hge : ¬ (m.timer a).next < now := by
          rw [Ascending.dropWhile_eq_filter hsearch] at ha
          · intro hlt
            have hnot := (List.mem_filter.mp ha).2
            rw [Bool.not_eq_true', decide_eq_false_iff_not] at hnot
            exact hnot ((before_nowTimer (hne a hmem)).mpr (Or.inl hlt))
          · intro b c hbc hc
            rw [decide_eq_true_eq] at hc ⊢
            exact before_iff.mpr (hbc.trans (before_iff.mp hc))
        change decide _ = decide _
        rw [decide_eq_decide]
        constructor
        · exact UInt64.le_of_eq
        · intro hle
          exact UInt64.le_antisymm hle (UInt64.not_lt.mp hge)
      rcases while_split hdue hequal with ⟨htake, hdrop⟩
      exact Prod.ext htake hdrop

theorem listExpiredCbFrom_eq (h : m.Sorted) {nowTimer : Nat} (hout : nowTimer ∉ m.timers)
    (now : UInt64) : m.listExpiredCbFrom now nowTimer = m.listExpiredCb now := by
  unfold listExpiredCbFrom TimerManager.listExpiredCb
  cases m.timers.head? with
  | none => rfl
  | some first =>
      dsimp only
      rw [splitExpired_eq h hout]

theorem expired_eq (h : m.Sorted) {nowTimer : Nat} (hout : nowTimer ∉ m.timers)
    (now : UInt64) :
    m.expired now nowTimer = m.timers.filter (m.due now (m.detectClockRollover now)) := by
  unfold expired
  cases hhead : m.timers.head? with
  | none =>
      rw [List.head?_eq_none_iff.mp hhead]
      rfl
  | some first =>
      dsimp only
      split
      · rename_i hnone
        rcases hnone with ⟨hrollover, hnext⟩
        symm
        apply List.filter_eq_nil_iff.mpr
        intro a ha
        have hle := key_le_iff (Ascending.head_le h hhead ha)
        unfold due
        rw [hrollover, Bool.false_or, decide_eq_true_eq]
        exact fun hdue => UInt64.not_lt.mpr (UInt64.le_trans hle hdue) hnext
      · rw [splitExpired_eq h hout]
        exact Ascending.takeWhile_eq_filter h (m.due_down now _)

theorem mem_expired (h : m.Sorted) {nowTimer : Nat} (hout : nowTimer ∉ m.timers)
    {now : UInt64} {a : Nat} :
    a ∈ m.expired now nowTimer <->
      a ∈ m.timers ∧ (m.detectClockRollover now = true ∨ (m.timer a).next ≤ now) := by
  rw [expired_eq h hout, List.mem_filter]
  unfold due
  rw [Bool.or_eq_true, decide_eq_true_eq]

/-- A call returns the callbacks of the expired timers and sets the recurring ones again. -/
theorem listExpiredCbFrom_expired (h : m.Sorted) {nowTimer : Nat}
    (hout : nowTimer ∉ m.timers) (now : UInt64) :
    (m.listExpiredCbFrom now nowTimer).1 =
        (m.expired now nowTimer).map (fun a => (m.timer a).cb) ∧
      Expired m (m.listExpiredCbFrom now nowTimer).2 now (m.expired now nowTimer) := by
  unfold listExpiredCbFrom expired
  cases m.timers.head? with
  | none => exact ⟨rfl, expired_nil h now m.previousTime⟩
  | some first =>
      dsimp only
      split
      · exact ⟨rfl, expired_nil h now now⟩
      · rw [splitExpired_eq h hout]
        generalize m.due now (m.detectClockRollover now) = due
        have hsplit := List.takeWhile_append_dropWhile (p := due) (l := m.timers)
        have hnodup := Ascending.nodup h
        rw [← hsplit] at hnodup
        rcases List.nodup_append.mp hnodup with ⟨htake, _, hdisjoint⟩
        have hrest : ({ m with previousTime := now, timers := m.timers.dropWhile due } :
            TimerManager κ).Sorted :=
          Ascending.sublist h (List.dropWhile_sublist due)
        rcases expireAll_expired hrest htake
          (fun a ha hmem => hdisjoint a ha a hmem rfl) now with ⟨hcbs, hexpired⟩
        refine ⟨hcbs, hexpired.sorted, hexpired.objects, hexpired.timer, fun a => ?_,
          hexpired.tickled⟩
        rw [hexpired.timers]
        by_cases ha : a ∈ m.timers.takeWhile due
        · rw [if_pos ha, if_pos ha]
          exact Iff.rfl
        · rw [if_neg ha, if_neg ha]
          conv_rhs => rw [← hsplit, List.mem_append]
          exact (or_iff_right ha).symm

theorem previousTime_expireAll (now : UInt64) (addresses : List Nat) (m : TimerManager κ) :
    (expireAll now addresses m).2.previousTime = m.previousTime := by
  induction addresses generalizing m with
  | nil => rfl
  | cons first rest ih =>
      rw [expireAll, ih, TimerManager.expire]
      split
      · rfl
      · rfl

/-- The reading is stored if the set was not empty. -/
theorem previousTime_listExpiredCbFrom (m : TimerManager κ) (now : UInt64) (nowTimer : Nat) :
    (m.listExpiredCbFrom now nowTimer).2.previousTime = m.previousTime ∨
      (m.listExpiredCbFrom now nowTimer).2.previousTime = now := by
  unfold listExpiredCbFrom
  cases m.timers.head? with
  | none => exact Or.inl rfl
  | some first =>
      dsimp only
      split
      · exact Or.inr rfl
      · exact Or.inr (previousTime_expireAll now _ _)

theorem Expired.pending_mem {now : UInt64} {addresses : List Nat}
    (h : Expired m m' now addresses) {a : Nat} (ha : a ∈ addresses) :
    m'.pending a =
      if (m.timer a).recurring then some { m.timer a with next := now + (m.timer a).ms }
      else none := by
  have hin := h.timers a
  have htimer := h.timer a
  rw [if_pos ha] at hin htimer
  unfold pending
  by_cases hrecurring : (m.timer a).recurring = true
  · rw [expiredTimer, if_pos hrecurring] at htimer
    rw [if_pos (hin.mpr hrecurring), if_pos hrecurring, htimer]
  · rw [if_neg (fun hmem => hrecurring (hin.mp hmem)), if_neg hrecurring]

theorem Expired.pending_not_mem {now : UInt64} {addresses : List Nat}
    (h : Expired m m' now addresses) {a : Nat} (ha : a ∉ addresses) :
    m'.pending a = m.pending a := by
  have hin := h.timers a
  have htimer := h.timer a
  rw [if_neg ha] at hin htimer
  unfold pending
  rw [htimer]
  exact if_congr hin rfl rfl

theorem Expired.consistent {now : UInt64} {addresses : List Nat}
    (h : Expired m m' now addresses) (hm : m.Consistent) : m'.Consistent where
  sorted := h.sorted
  allocated := by
    intro a ha
    rw [h.objects]
    rw [h.timers] at ha
    split at ha
    · exact Or.inl ‹_›
    · exact Or.inr (hm.allocated a ha)
  armed := by
    intro a ha
    rw [h.timers]
    rw [h.timer] at ha
    split at ha
    · rename_i hin
      rw [if_pos hin]
      by_contra hrecurring
      rw [expiredTimer, if_neg hrecurring] at ha
      cases ha
    · rename_i hin
      rw [if_neg hin]
      exact hm.armed a ha

end TimerManager
end Fiber
end KVRaft
