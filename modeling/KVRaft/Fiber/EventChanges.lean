import KVRaft.Fiber.ContextTable

/-!
# Changes of the registered events

What every operation does to the events of the contexts: those of one context may
change, and an event stays unless it is what the operation takes away.
-/

namespace KVRaft
namespace Fiber

open Foundation

theorem not_has_empty {event : Event} : ¬ Events.empty.Has event := by
  cases event <;> decide

theorem FdContext.triggerEvent_events {κ : Type} {ctx ctx' : FdContext κ} {event : Event}
    {scheduler : Nat} {task : SchedulerTask Nat κ}
    (h : ctx.triggerEvent event = .ok (ctx', scheduler, task)) :
    ctx'.events = ctx.events.clear event.bits := by
  rcases bind_eq_ok.mp h with ⟨_, _, h⟩
  rcases bind_eq_ok.mp h with ⟨eventCtx, _, h⟩
  cases hscheduler : eventCtx.scheduler with
  | none =>
      simp only [hscheduler] at h
      cases h
  | some scheduler =>
      simp only [hscheduler] at h
      cases h
      rw [FdContext.resetEveContext_events]

namespace IOManager

variable {κ : Type} {io io' io1 io2 : IOManager κ} {p q : Nat} {event : Event}
  {f g : Events -> Events}

/-- What a context is registered for. -/
def eventsAt (io : IOManager κ) (p : Nat) : Events :=
  ((io.fdContexts[p]?).map FdContext.events).getD .empty

def Registered (io : IOManager κ) (p : Nat) (event : Event) : Prop :=
  (io.eventsAt p).Has event

instance (io : IOManager κ) (p : Nat) (event : Event) : Decidable (io.Registered p event) :=
  inferInstanceAs (Decidable (_ ≠ _))

theorem eventsAt_of {ctx : FdContext κ} (h : io.fdContexts[p]? = some ctx) :
    io.eventsAt p = ctx.events := by
  rw [eventsAt, h]
  rfl

theorem Registered.has {ctx : FdContext κ} (h : io.Registered p event)
    (hctx : io.fdContexts[p]? = some ctx) : ctx.events.Has event := by
  rw [← eventsAt_of hctx]
  exact h

theorem Registered.lt (h : io.Registered p event) : p < io.fdContexts.length := by
  by_contra hlt
  have hnone : io.fdContexts[p]? = none := List.getElem?_eq_none (Nat.le_of_not_lt hlt)
  rw [Registered, eventsAt, hnone] at h
  exact not_has_empty h

/-- One context has other events, and everything else stays. -/
structure Changes (io io' : IOManager κ) (p : Nat) (f : Events -> Events) : Prop where
  length : io'.fdContexts.length = io.fdContexts.length
  here : io'.eventsAt p = f (io.eventsAt p)
  others : forall q, q ≠ p -> io'.eventsAt q = io.eventsAt q

theorem Changes.trans (h : Changes io io1 p f) (h' : Changes io1 io2 p g) :
    Changes io io2 p (g ∘ f) where
  length := h'.length.trans h.length
  here := by rw [h'.here, h.here, Function.comp_apply]
  others q hq := (h'.others q hq).trans (h.others q hq)

theorem changes_set {ctx ctx' : FdContext κ} (hctx : io.fdContexts[p]? = some ctx)
    (hio' : io'.fdContexts = io.fdContexts.set p ctx') (hevents : ctx'.events = f ctx.events) :
    Changes io io' p f where
  length := by rw [hio', List.length_set]
  here := by
    have hlt := (List.getElem?_eq_some_iff.mp hctx).1
    have hnew : io'.fdContexts[p]? = some ctx' := by
      rw [hio', List.getElem?_set_self hlt]
    rw [eventsAt_of hnew, eventsAt_of hctx, hevents]
  others q hq := by
    rw [eventsAt, hio', List.getElem?_set_ne (Ne.symm hq), eventsAt]

/-- An event stays registered unless it is the one that is changed. -/
theorem Changes.registered (h : Changes io io' p f) (hreg : io.Registered q event)
    (hkeep : q = p -> (f (io.eventsAt p)).Has event) : io'.Registered q event := by
  rw [Registered]
  by_cases hq : q = p
  · rw [hq, h.here]
    exact hkeep hq
  · rw [h.others q hq]
    exact hreg

/-!
# What the operations change
-/

theorem register_changes {caller : Caller} {cb : Option κ} {ctl : Bool} {ret : Int}
    (h : io.register p event caller cb ctl = .ok (io', ret)) :
    io' = io ∧ ret = -1 ∨
      Changes io io' p (fun events => events.or event.bits) ∧ ret = 0 ∧ event ≠ .none := by
  rcases bind_eq_ok.mp h with ⟨ctx, hctx, h⟩
  rcases bind_eq_ok.mp h with ⟨_, _, h⟩
  cases ctl with
  | false =>
      cases h
      exact .inl ⟨rfl, rfl⟩
  | true =>
      rw [if_neg (by decide)] at h
      rcases bind_eq_ok.mp h with ⟨eventCtx, hget, h⟩
      rcases bind_eq_ok.mp h with ⟨_, _, h⟩
      rcases bind_eq_ok.mp h with ⟨eventCtx', _, h⟩
      cases h
      right
      refine ⟨changes_set (fdContext_ok hctx) rfl ?_, rfl, ?_⟩
      · rw [FdContext.setEveContext_events]
      · rintro rfl
        cases hget

theorem unregister_changes {ctl done : Bool}
    (h : io.unregister p event ctl = .ok (io', done)) :
    io' = io ∧ done = false ∨
      Changes io io' p (fun events => events.clear event.bits) ∧ done = true := by
  rcases bind_eq_ok.mp h with ⟨ctx, hctx, h⟩
  by_cases hevent : ctx.events.Has event
  · rw [if_neg (not_not_intro hevent)] at h
    cases ctl with
    | false =>
        cases h
        exact .inl ⟨rfl, rfl⟩
    | true =>
        cases h
        right
        refine ⟨changes_set (fdContext_ok hctx) rfl ?_, rfl⟩
        rw [FdContext.resetEveContext_events]
  · rw [if_pos hevent] at h
    cases h
    exact .inl ⟨rfl, rfl⟩

theorem triggerEvent_changes (h : io.triggerEvent p event = .ok io') :
    Changes io io' p (fun events => events.clear event.bits) := by
  rcases bind_eq_ok.mp h with ⟨ctx, hctx, h⟩
  rcases bind_eq_ok.mp h with ⟨⟨ctx', scheduler, task⟩, htrigger, h⟩
  cases h
  exact changes_set (fdContext_ok hctx) rfl (FdContext.triggerEvent_events htrigger)

theorem fire_changes {ctl done : Bool} (h : io.fire p event ctl = .ok (io', done)) :
    io' = io ∧ done = false ∨
      Changes io io' p (fun events => events.clear event.bits) ∧ done = true := by
  rcases bind_eq_ok.mp h with ⟨ctx, hctx, h⟩
  by_cases hevent : ctx.events.Has event
  · rw [if_neg (not_not_intro hevent)] at h
    cases ctl with
    | false =>
        cases h
        exact .inl ⟨rfl, rfl⟩
    | true =>
        rw [if_neg (by decide)] at h
        rcases bind_eq_ok.mp h with ⟨fired, hfired, h⟩
        cases h
        have hchanges := triggerEvent_changes hfired
        exact .inr ⟨⟨hchanges.length, hchanges.here, hchanges.others⟩, rfl⟩
  · rw [if_pos hevent] at h
    cases h
    exact .inl ⟨rfl, rfl⟩

theorem triggerIf_changes {bit : Bool} (h : io.triggerIf p bit event = .ok io') :
    Changes io io' p (fun events => events.clear (if bit then event.bits else .empty)) := by
  cases bit with
  | false =>
      cases h
      refine ⟨rfl, ?_, fun _ _ => rfl⟩
      simp [Events.clear, Events.empty]
  | true =>
      rcases bind_eq_ok.mp h with ⟨fired, hfired, h⟩
      cases h
      have hchanges := triggerEvent_changes hfired
      exact ⟨hchanges.length, hchanges.here, hchanges.others⟩

theorem fireAll_changes {ctl done : Bool} (h : io.fireAll p ctl = .ok (io', done)) :
    io' = io ∧ done = false ∨ Changes io io' p (fun _ => .empty) ∧ done = true := by
  rcases bind_eq_ok.mp h with ⟨ctx, hctx, h⟩
  by_cases hevents : ctx.events = .empty
  · rw [if_pos hevents] at h
    cases h
    exact .inl ⟨rfl, rfl⟩
  · rw [if_neg hevents] at h
    cases ctl with
    | false =>
        cases h
        exact .inl ⟨rfl, rfl⟩
    | true =>
        rw [if_neg (by decide)] at h
        rcases bind_eq_ok.mp h with ⟨io1, hread, h⟩
        rcases bind_eq_ok.mp h with ⟨ctx1, _, h⟩
        rcases bind_eq_ok.mp h with ⟨io2, hwrite, h⟩
        rcases bind_eq_ok.mp h with ⟨ctx2, hctx2, h⟩
        rcases bind_eq_ok.mp h with ⟨_, hcheck, h⟩
        cases h
        have hchanges := (triggerIf_changes hread).trans (triggerIf_changes hwrite)
        right
        refine ⟨⟨hchanges.length, ?_, hchanges.others⟩, rfl⟩
        rw [eventsAt_of (fdContext_ok hctx2)]
        exact check_eq_ok.mp hcheck

/-- Handling a report clears the events that it goes by. -/
theorem handleEvent_changes {report : EpollEvent} {ctl : Bool}
    (h : io.handleEvent report ctl = .ok io') :
    io' = io ∨ ctl = true ∧ exists ctx, io.fdContexts[report.fd]? = some ctx ∧
      Changes io io' report.fd (fun events => events.clear (realEvents ctx report)) := by
  rcases bind_eq_ok.mp h with ⟨ctx, hctx, h⟩
  by_cases hnone : ctx.events.and (realEvents ctx report) = .empty
  · rw [if_pos hnone] at h
    cases h
    exact .inl rfl
  · rw [if_neg hnone] at h
    cases ctl with
    | false =>
        cases h
        exact .inl rfl
    | true =>
        rw [if_neg (by decide)] at h
        rcases bind_eq_ok.mp h with ⟨io1, hread, hwrite⟩
        have hchanges := (triggerIf_changes hread).trans (triggerIf_changes hwrite)
        right
        refine ⟨rfl, ctx, fdContext_ok hctx, hchanges.length, ?_, hchanges.others⟩
        rw [hchanges.here, Function.comp_apply]
        generalize realEvents ctx report = real
        rcases real with ⟨r, w⟩
        cases r <;> cases w <;> simp [Events.clear, Event.bits, Events.empty]

end IOManager

/-!
# What is kept
-/

/-- The events that a call takes away when it has an effect. -/
def TableCall.Drops {κ : Type} (event : Event) : TableCall κ -> Prop
  | .addEvent _ _ _ _ => False
  | .delEvent _ dropped => dropped = event
  | .cancelEvent _ dropped => dropped = event
  | .cancelAll _ => True

theorem has_or {events added : Events} {event : Event} (h : events.Has event) :
    (events.or added).Has event := by
  rcases events with ⟨r, w⟩
  rcases added with ⟨r', w'⟩
  cases event <;> cases r <;> cases w <;> cases r' <;> cases w' <;> revert h <;> decide

theorem has_clear {events cleared : Events} {event : Event} (h : events.Has event)
    (hcleared : ¬ cleared.Has event) : (events.clear cleared).Has event := by
  rcases events with ⟨r, w⟩
  rcases cleared with ⟨r', w'⟩
  cases event <;> cases r <;> cases w <;> cases r' <;> cases w' <;> revert h hcleared <;> decide

theorem bits_has {event other : Event} (h : other.bits.Has event) : other = event := by
  cases event <;> cases other <;> revert h <;> decide

theorem has_bits_self {events : Events} {event : Event} (h : event ≠ .none) :
    (events.or event.bits).Has event := by
  rcases events with ⟨r, w⟩
  cases event <;> cases r <;> cases w <;> revert h <;> decide

namespace TableCall

variable {κ : Type} {call : TableCall κ} {io io' : IOManager κ} {p q : Nat} {event : Event}
  {ctl done : Bool}

/-- A call without an effect leaves the manager alone; one with an effect changes its
context only, and keeps there what it does not drop. -/
theorem perform_changes (h : call.perform io p ctl = .ok (io', done)) :
    io' = io ∧ done = false ∨ done = true ∧ exists f, IOManager.Changes io io' p f ∧
      forall events event, events.Has event -> ¬ call.Drops event -> (f events).Has event := by
  have hclear : forall dropped events event, Events.Has events event -> ¬ dropped = event ->
      (events.clear dropped.bits).Has event :=
    fun dropped events event hhas hne => has_clear hhas (mt bits_has hne)
  cases call with
  | addEvent fd event caller cb =>
      cases hregister : io.register p event caller cb ctl with
      | error err =>
          rw [perform, hregister] at h
          cases h
      | ok result =>
          rw [perform, hregister] at h
          cases h
          rcases IOManager.register_changes hregister with
            ⟨hsame, hret⟩ | ⟨hchanges, hret, _⟩
          · exact .inl ⟨hsame, by rw [hret]; decide⟩
          · exact .inr ⟨by rw [hret]; decide, _, hchanges, fun _ _ hhas _ => has_or hhas⟩
  | delEvent fd dropped =>
      rcases IOManager.unregister_changes h with hsame | ⟨hchanges, hdone⟩
      · exact .inl hsame
      · exact .inr ⟨hdone, _, hchanges, hclear dropped⟩
  | cancelEvent fd dropped =>
      rcases IOManager.fire_changes h with hsame | ⟨hchanges, hdone⟩
      · exact .inl hsame
      · exact .inr ⟨hdone, _, hchanges, hclear dropped⟩
  | cancelAll fd =>
      rcases IOManager.fireAll_changes h with hsame | ⟨hchanges, hdone⟩
      · exact .inl hsame
      · exact .inr ⟨hdone, _, hchanges, fun _ _ _ hdrops => absurd trivial hdrops⟩

theorem perform_length (h : call.perform io p ctl = .ok (io', done)) :
    io'.fdContexts.length = io.fdContexts.length := by
  rcases perform_changes h with ⟨rfl, _⟩ | ⟨_, f, hchanges, _⟩
  · rfl
  · exact hchanges.length

theorem perform_registered (h : call.perform io p ctl = .ok (io', done))
    (hreg : io.Registered q event) (hkeep : q = p -> done = true -> ¬ call.Drops event) :
    io'.Registered q event := by
  rcases perform_changes h with ⟨rfl, _⟩ | ⟨hdone, f, hchanges, hkept⟩
  · exact hreg
  · apply hchanges.registered hreg
    intro hq
    rw [hq] at hreg
    exact hkept _ _ hreg (hkeep hq hdone)

end TableCall

end Fiber
end KVRaft
