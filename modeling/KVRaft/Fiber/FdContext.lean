import KVRaft.Fiber.Tasks

/-!
# Event contexts

What a file descriptor is registered for, and whom to wake for each event.
Callbacks are given by a type `κ`, fibers and schedulers by numbers.
-/

namespace KVRaft
namespace Fiber

open Foundation

inductive Event where
  | none
  | read
  | write
  deriving DecidableEq, Repr

/-- A set of event bits. -/
structure Events where
  read : Bool := false
  write : Bool := false
  deriving DecidableEq, Repr

namespace Events

def empty : Events := {}

def and (a b : Events) : Events where
  read := a.read && b.read
  write := a.write && b.write

def or (a b : Events) : Events where
  read := a.read || b.read
  write := a.write || b.write

/-- `a & ~b` -/
def clear (a b : Events) : Events where
  read := a.read && !b.read
  write := a.write && !b.write

def Subset (a b : Events) : Prop :=
  a.and b = a

instance (a b : Events) : Decidable (a.Subset b) :=
  inferInstanceAs (Decidable (_ = _))

/-- The number of bits. -/
def count (a : Events) : Int :=
  a.read.toNat + a.write.toNat

end Events

def Event.bits : Event -> Events
  | .none => .empty
  | .read => { read := true }
  | .write => { write := true }

/-- `events & event` is not zero -/
def Events.Has (events : Events) (event : Event) : Prop :=
  events.and event.bits ≠ .empty

instance (events : Events) (event : Event) : Decidable (events.Has event) :=
  inferInstanceAs (Decidable (_ ≠ _))

structure EventContext (κ : Type) where
  scheduler : Option Nat := none
  fiber : Option Nat := none
  cb : Option κ := none
  deriving DecidableEq, Repr

structure FdContext (κ : Type) where
  read : EventContext κ := {}
  write : EventContext κ := {}
  fd : Nat
  events : Events := .empty
  deriving DecidableEq, Repr

namespace FdContext

variable {κ : Type}

def getEveContext (ctx : FdContext κ) : Event -> Outcome (EventContext κ)
  | .read => .ok ctx.read
  | .write => .ok ctx.write
  | .none => .error .unknownEvent

/-- Writing through the reference that `getEveContext` returns. -/
def setEveContext (ctx : FdContext κ) (event : Event) (eventCtx : EventContext κ) :
    FdContext κ :=
  match event with
  | .read => { ctx with read := eventCtx }
  | .write => { ctx with write := eventCtx }
  | .none => ctx

def resetEveContext (ctx : FdContext κ) (event : Event) : FdContext κ :=
  ctx.setEveContext event {}

/-- The scheduler and the task that it is handed come with the context afterwards. -/
def triggerEvent (ctx : FdContext κ) (event : Event) :
    Outcome (FdContext κ × Nat × SchedulerTask Nat κ) := do
  condPanic (ctx.events.Has event) .notRegistered
  let ctx := { ctx with events := ctx.events.clear event.bits }
  let eventCtx <- ctx.getEveContext event
  match eventCtx.scheduler with
  | none => throw .nullScheduler
  | some scheduler =>
      let task : SchedulerTask Nat κ :=
        match eventCtx.cb with
        | some cb => { cb := some cb }
        | none => { fiber := eventCtx.fiber }
      return (ctx.resetEveContext event, scheduler, task)

/-!
# Contexts in order

An event has somebody to wake exactly while it is registered.
-/

/-- What the context of one event holds while the event is registered or not. -/
structure Holds (registered : Bool) (eventCtx : EventContext κ) : Prop where
  scheduler : registered = true -> eventCtx.scheduler.isSome
  empty : registered = false -> eventCtx = {}

structure InOrder (ctx : FdContext κ) : Prop where
  read : Holds ctx.events.read ctx.read
  write : Holds ctx.events.write ctx.write

theorem holds_empty : Holds false ({} : EventContext κ) where
  scheduler := fun h => by cases h
  empty := fun _ => rfl

theorem inOrder_new (fd : Nat) : InOrder ({ fd := fd } : FdContext κ) where
  read := holds_empty
  write := holds_empty

theorem has_read {events : Events} : events.Has .read <-> events.read = true := by
  cases events with
  | mk read write => cases read <;> simp [Events.Has, Events.and, Event.bits, Events.empty]

theorem has_write {events : Events} : events.Has .write <-> events.write = true := by
  cases events with
  | mk read write => cases write <;> simp [Events.Has, Events.and, Event.bits, Events.empty]

theorem subset_iff {a b : Events} :
    a.Subset b <-> (a.read = true -> b.read = true) ∧ (a.write = true -> b.write = true) := by
  rcases a with ⟨r, w⟩
  rcases b with ⟨r', w'⟩
  cases r <;> cases w <;> cases r' <;> cases w' <;> decide

theorem not_has_none {events : Events} : ¬ events.Has .none := by
  simp [Events.Has, Events.and, Event.bits, Events.empty]

theorem count_clear {events : Events} {event : Event} (h : events.Has event) :
    (events.clear event.bits).count = events.count - 1 := by
  rcases events with ⟨r, w⟩
  revert h
  cases event <;> cases r <;> cases w <;> decide

theorem count_or {events : Events} {event : Event} (h : ¬ events.Has event)
    (hevent : event ≠ .none) : (events.or event.bits).count = events.count + 1 := by
  rcases events with ⟨r, w⟩
  revert h hevent
  cases event <;> cases r <;> cases w <;> decide

/-- Clearing an event and its context keeps the others in order. -/
theorem InOrder.reset {ctx : FdContext κ} (h : InOrder ctx) (event : Event) :
    InOrder ({ ctx with events := ctx.events.clear event.bits }.resetEveContext event) := by
  cases event with
  | none =>
      constructor
      · simpa [Events.clear, Event.bits, Events.empty, resetEveContext, setEveContext] using
          h.read
      · simpa [Events.clear, Event.bits, Events.empty, resetEveContext, setEveContext] using
          h.write
  | read =>
      constructor
      · simpa [Events.clear, Event.bits, resetEveContext, setEveContext] using holds_empty
      · simpa [Events.clear, Event.bits, resetEveContext, setEveContext] using h.write
  | write =>
      constructor
      · simpa [Events.clear, Event.bits, resetEveContext, setEveContext] using h.read
      · simpa [Events.clear, Event.bits, resetEveContext, setEveContext] using holds_empty

/-- A new event with somebody to wake keeps the others in order. -/
theorem InOrder.register {ctx : FdContext κ} (h : InOrder ctx) (event : Event)
    {eventCtx : EventContext κ} (hscheduler : eventCtx.scheduler.isSome) :
    InOrder ({ ctx with events := ctx.events.or event.bits }.setEveContext event eventCtx) := by
  have hnew : Holds true eventCtx := ⟨fun _ => hscheduler, fun h => by cases h⟩
  cases event with
  | none =>
      constructor
      · simpa [Events.or, Event.bits, Events.empty, setEveContext] using h.read
      · simpa [Events.or, Event.bits, Events.empty, setEveContext] using h.write
  | read =>
      constructor
      · simpa [Events.or, Event.bits, setEveContext] using hnew
      · simpa [Events.or, Event.bits, setEveContext] using h.write
  | write =>
      constructor
      · simpa [Events.or, Event.bits, setEveContext] using h.read
      · simpa [Events.or, Event.bits, setEveContext] using hnew

/-- A registered event is triggered once and is not registered any more. -/
theorem InOrder.triggerEvent {ctx : FdContext κ} (h : InOrder ctx) {event : Event}
    (hevent : ctx.events.Has event) :
    exists scheduler task, ctx.triggerEvent event =
      .ok ({ ctx with events := ctx.events.clear event.bits }.resetEveContext event,
        scheduler, task) := by
  unfold FdContext.triggerEvent
  rw [condPanic, check_of hevent]
  cases event with
  | none => exact absurd hevent not_has_none
  | read =>
      rcases Option.isSome_iff_exists.mp (h.read.scheduler (has_read.mp hevent)) with
        ⟨scheduler, hscheduler⟩
      simp only [bind, Except.bind, getEveContext, hscheduler]
      exact ⟨scheduler, _, rfl⟩
  | write =>
      rcases Option.isSome_iff_exists.mp (h.write.scheduler (has_write.mp hevent)) with
        ⟨scheduler, hscheduler⟩
      simp only [bind, Except.bind, getEveContext, hscheduler]
      exact ⟨scheduler, _, rfl⟩

theorem triggerEvent_unregistered {ctx : FdContext κ} {event : Event}
    (h : ¬ ctx.events.Has event) : ctx.triggerEvent event = .error .notRegistered := by
  unfold FdContext.triggerEvent
  rw [condPanic, check_of_not h]
  rfl

@[simp] theorem resetEveContext_events (ctx : FdContext κ) (event : Event) :
    (ctx.resetEveContext event).events = ctx.events := by
  cases event <;> rfl

@[simp] theorem setEveContext_events (ctx : FdContext κ) (event : Event)
    (eventCtx : EventContext κ) : (ctx.setEveContext event eventCtx).events = ctx.events := by
  cases event <;> rfl

end FdContext
end Fiber
end KVRaft
