import Mathlib.Algebra.Ring.Int.Defs
import Mathlib.Logic.Function.Basic
import KVRaft.Foundation.Lists
import KVRaft.Foundation.Sums
import KVRaft.Fiber.FdContext

/-!
# The I/O manager

The operations on events, each of them one step under the mutex of its file
descriptor.  Whether the call of `epoll_ctl` in it succeeds is an argument, and so
is the task that the caller wants to be run: a callback, or its own fiber.
-/

namespace KVRaft
namespace Fiber

open Foundation

structure IOManager (κ : Type) where
  fdContexts : List (FdContext κ)
  pendingEventCnt : Int
  /-- the task lists of the schedulers -/
  tasks : Nat -> List (SchedulerTask Nat κ)

/-- An event that `epoll_wait` has reported; `failed` stands for `EPOLLERR` and
`EPOLLHUP`. -/
structure EpollEvent where
  fd : Nat
  ready : Events
  failed : Bool
  deriving DecidableEq, Repr

/-- Whoever calls `addEvent`: its scheduler and the fiber that it runs in. -/
structure Caller where
  scheduler : Nat
  fiber : Nat
  state : State
  deriving DecidableEq, Repr

namespace IOManager

variable {κ : Type}

def newContexts (first count : Nat) : List (FdContext κ) :=
  (List.range' first count).map fun fd => { fd := fd }

def contextResize (io : IOManager κ) (size : Nat) : IOManager κ :=
  { io with
    fdContexts := io.fdContexts.take size ++
      newContexts io.fdContexts.length (size - io.fdContexts.length) }

/-- Right after construction. -/
def create : IOManager κ :=
  contextResize { fdContexts := [], pendingEventCnt := 0, tasks := fun _ => [] } 32

def fdContext (io : IOManager κ) (fd : Nat) : Outcome (FdContext κ) :=
  match io.fdContexts[fd]? with
  | some ctx => .ok ctx
  | none => .error .noFdContext

def setFdContext (io : IOManager κ) (fd : Nat) (ctx : FdContext κ) : IOManager κ :=
  { io with fdContexts := io.fdContexts.set fd ctx }

def schedule (io : IOManager κ) (scheduler : Nat) (task : SchedulerTask Nat κ) : IOManager κ :=
  { io with
    tasks := Function.update io.tasks scheduler (schedulerNoLock (io.tasks scheduler) task) }

/-- Triggering an event of a file descriptor hands its task to the scheduler. -/
def triggerEvent (io : IOManager κ) (fd : Nat) (event : Event) : Outcome (IOManager κ) := do
  let ctx <- io.fdContext fd
  let (ctx, scheduler, task) <- ctx.triggerEvent event
  return (io.setFdContext fd ctx).schedule scheduler task

def uncount (io : IOManager κ) : IOManager κ :=
  { io with pendingEventCnt := io.pendingEventCnt - 1 }

/-- What is recorded for a new event. -/
def registration (caller : Caller) : Option κ -> Outcome (EventContext κ)
  | some cb => .ok { scheduler := some caller.scheduler, cb := some cb }
  | none => do
      condPanic (caller.state = .running) .callerNotRunning
      return { scheduler := some caller.scheduler, fiber := some caller.fiber }

/-- The return value of the source comes with the manager afterwards. -/
def addEvent (io : IOManager κ) (fd : Nat) (event : Event) (caller : Caller)
    (cb : Option κ) (ctl : Bool) : Outcome (IOManager κ × Int) := do
  let io := if io.fdContexts.length > fd then io else io.contextResize (fd * 3 / 2)
  let ctx <- io.fdContext fd
  condPanic (¬ ctx.events.Has event) .duplicateEvent
  if ctl = false then
    return (io, -1)
  else
    let io := { io with pendingEventCnt := io.pendingEventCnt + 1 }
    let ctx := { ctx with events := ctx.events.or event.bits }
    let eventCtx <- ctx.getEveContext event
    condPanic (eventCtx.scheduler = none ∧ eventCtx.fiber = none ∧ eventCtx.cb.isNone)
      .eventContextInUse
    let eventCtx <- registration caller cb
    return (io.setFdContext fd (ctx.setEveContext event eventCtx), 0)

def delEvent (io : IOManager κ) (fd : Nat) (event : Event) (ctl : Bool) :
    Outcome (IOManager κ × Bool) := do
  if io.fdContexts.length ≤ fd then
    return (io, false)
  else
    let ctx <- io.fdContext fd
    if ¬ ctx.events.Has event then
      return (io, false)
    else if ctl = false then
      return (io, false)
    else
      let ctx := { ctx with events := ctx.events.clear event.bits }
      return (io.uncount.setFdContext fd (ctx.resetEveContext event), true)

def cancelEvent (io : IOManager κ) (fd : Nat) (event : Event) (ctl : Bool) :
    Outcome (IOManager κ × Bool) := do
  if io.fdContexts.length ≤ fd then
    return (io, false)
  else
    let ctx <- io.fdContext fd
    if ¬ ctx.events.Has event then
      return (io, false)
    else if ctl = false then
      return (io, false)
    else
      let io <- io.triggerEvent fd event
      return (io.uncount, true)

/-- Triggering and uncounting, when the bit is set. -/
def triggerIf (io : IOManager κ) (fd : Nat) (bit : Bool) (event : Event) :
    Outcome (IOManager κ) := do
  if bit then
    let io <- io.triggerEvent fd event
    return io.uncount
  else
    return io

def cancelAll (io : IOManager κ) (fd : Nat) (ctl : Bool) : Outcome (IOManager κ × Bool) := do
  if io.fdContexts.length ≤ fd then
    return (io, false)
  else
    let ctx <- io.fdContext fd
    if ctx.events = .empty then
      return (io, false)
    else if ctl = false then
      return (io, false)
    else
      let io <- io.triggerIf fd ctx.events.read .read
      let ctx <- io.fdContext fd
      let io <- io.triggerIf fd ctx.events.write .write
      let ctx <- io.fdContext fd
      condPanic (ctx.events = .empty) .notTotallyClear
      return (io, true)

/-- The bits of a reported event that the idle loop goes by. -/
def realEvents (ctx : FdContext κ) (event : EpollEvent) : Events :=
  if event.failed then event.ready.or ctx.events else event.ready

/-- The idle loop's handling of one reported event. -/
def handleEvent (io : IOManager κ) (event : EpollEvent) (ctl : Bool) :
    Outcome (IOManager κ) := do
  let ctx <- io.fdContext event.fd
  let real := realEvents ctx event
  -- only that some event overlaps is checked here
  if ctx.events.and real = .empty then
    return io
  else if ctl = false then
    return io
  else
    let io <- io.triggerIf event.fd real.read .read
    io.triggerIf event.fd real.write .write

/-!
# Sound managers

Every context is in order and the counter is the number of registered events.
-/

/-- The number of events that the contexts are registered for. -/
def registered (io : IOManager κ) : Int :=
  (io.fdContexts.map fun ctx => ctx.events.count).sum

structure Sound (io : IOManager κ) : Prop where
  size : 32 ≤ io.fdContexts.length
  contexts : forall ctx, ctx ∈ io.fdContexts -> ctx.InOrder
  counted : io.pendingEventCnt = io.registered

variable {io : IOManager κ} {fd : Nat} {ctx ctx' : FdContext κ} {event : Event}

theorem fdContext_of (h : io.fdContexts[fd]? = some ctx) : io.fdContext fd = .ok ctx := by
  rw [fdContext, h]

theorem fdContext_ok (h : io.fdContext fd = .ok ctx) : io.fdContexts[fd]? = some ctx := by
  rw [fdContext] at h
  cases hctx : io.fdContexts[fd]? with
  | none =>
      rw [hctx] at h
      cases h
  | some ctx' =>
      rw [hctx] at h
      cases h
      rfl

theorem fdContexts_set (hctx : io.fdContexts[fd]? = some ctx) (ctx' : FdContext κ) :
    (io.setFdContext fd ctx').fdContexts[fd]? = some ctx' :=
  getElem?_set_found hctx ctx'

/-- A new context, with the counter changed by as many events. -/
theorem Sound.set (h : Sound io) (hctx : io.fdContexts[fd]? = some ctx)
    (hnew : ctx'.InOrder) {io' : IOManager κ}
    (hcontexts : io'.fdContexts = io.fdContexts.set fd ctx')
    (hcount : io'.pendingEventCnt =
      io.pendingEventCnt - ctx.events.count + ctx'.events.count) : Sound io' where
  size := by
    rw [hcontexts, List.length_set]
    exact h.size
  contexts := by
    intro other hother
    rw [hcontexts] at hother
    rcases List.mem_or_eq_of_mem_set hother with hold | rfl
    · exact h.contexts other hold
    · exact hnew
  counted := by
    have hset := sum_map_set (fun ctx : FdContext κ => ctx.events.count) hctx ctx'
    rw [hcount, h.counted, registered, registered, hcontexts]
    omega

theorem Sound.inOrder (h : Sound io) (hctx : io.fdContexts[fd]? = some ctx) : ctx.InOrder :=
  h.contexts ctx (List.mem_of_getElem? hctx)

theorem lookup (hfd : ¬ io.fdContexts.length ≤ fd) :
    exists ctx, io.fdContexts[fd]? = some ctx :=
  ⟨_, List.getElem?_eq_getElem (Nat.lt_of_not_le hfd)⟩

/-!
# Triggering
-/

theorem triggerIf_true : io.triggerIf fd true event =
    (do
      let io <- io.triggerEvent fd event
      return io.uncount) :=
  rfl

/-- Triggering what is registered, and nothing if the bit is not set. -/
theorem Sound.triggerIf (h : Sound io) (hctx : io.fdContexts[fd]? = some ctx) (bit : Bool)
    (hbit : bit = true -> ctx.events.Has event) :
    exists io' ctx', io.triggerIf fd bit event = .ok io' ∧ Sound io' ∧
      io'.fdContexts[fd]? = some ctx' ∧
      ctx'.events = ctx.events.clear (if bit then event.bits else .empty) := by
  unfold IOManager.triggerIf
  cases bit with
  | false =>
      refine ⟨io, ctx, rfl, h, hctx, ?_⟩
      simp [Events.clear, Events.empty]
  | true =>
      have hevent := hbit rfl
      rcases (h.inOrder hctx).triggerEvent hevent with ⟨scheduler, task, htrigger⟩
      have hnew := (h.inOrder hctx).reset event
      generalize hctx' : { ctx with events := ctx.events.clear event.bits }.resetEveContext
        event = ctx' at htrigger hnew
      have hevents : ctx'.events = ctx.events.clear event.bits := by
        rw [← hctx', FdContext.resetEveContext_events]
      refine ⟨((io.setFdContext fd ctx').schedule scheduler task).uncount, ctx', ?_,
        h.set hctx hnew rfl ?_, fdContexts_set hctx ctx', hevents⟩
      · simp only [if_true, IOManager.triggerEvent, fdContext_of hctx, htrigger, bind,
          Except.bind, pure, Except.pure]
      · rw [hevents, FdContext.count_clear hevent]
        change io.pendingEventCnt - 1 = _
        omega

theorem triggerIf_unregistered (hctx : io.fdContexts[fd]? = some ctx)
    (hevent : ¬ ctx.events.Has event) :
    io.triggerIf fd true event = .error .notRegistered := by
  simp only [IOManager.triggerIf, IOManager.triggerEvent, fdContext_of hctx,
    FdContext.triggerEvent_unregistered hevent, bind, Except.bind, if_true]

/-!
# The operations
-/

/-- New contexts are in order and register nothing. -/
theorem mem_newContexts {first count : Nat} (h : ctx ∈ newContexts first count) :
    ctx.InOrder ∧ ctx.events.count = 0 := by
  rcases List.mem_map.mp h with ⟨fd, _, rfl⟩
  exact ⟨FdContext.inOrder_new fd, rfl⟩

theorem sum_newContexts (first count : Nat) :
    ((newContexts first count : List (FdContext κ)).map fun ctx => ctx.events.count).sum = 0 :=
  List.sum_eq_zero (List.forall_mem_map.mpr fun _ hctx => (mem_newContexts hctx).2)

theorem Sound.create : Sound (create : IOManager κ) where
  size := Nat.le_refl 32
  contexts := fun _ hctx => (mem_newContexts hctx).1
  counted := (sum_newContexts 0 32).symm

/-- Growing adds contexts that register nothing. -/
theorem Sound.contextResize (h : Sound io) {size : Nat}
    (hsize : io.fdContexts.length ≤ size) : Sound (io.contextResize size) := by
  have hcontexts : (io.contextResize size).fdContexts = io.fdContexts ++
      newContexts io.fdContexts.length (size - io.fdContexts.length) := by
    rw [IOManager.contextResize, List.take_of_length_le hsize]
  constructor
  · rw [hcontexts, List.length_append]
    exact Nat.le_trans h.size (Nat.le_add_right _ _)
  · intro ctx hctx
    rw [hcontexts] at hctx
    rcases List.mem_append.mp hctx with hold | hnew
    · exact h.contexts ctx hold
    · exact (mem_newContexts hnew).1
  · rw [registered, hcontexts, List.map_append, List.sum_append, sum_newContexts,
      Int.add_zero]
    exact h.counted

theorem Sound.delEvent (h : Sound io) (fd : Nat) (event : Event) (ctl : Bool) :
    exists io' done, io.delEvent fd event ctl = .ok (io', done) ∧ Sound io' := by
  unfold IOManager.delEvent
  by_cases hfd : io.fdContexts.length ≤ fd
  · rw [if_pos hfd]
    exact ⟨io, false, rfl, h⟩
  rcases lookup hfd with ⟨ctx, hctx⟩
  rw [if_neg hfd, fdContext_of hctx]
  simp only [bind, Except.bind]
  by_cases hevent : ctx.events.Has event
  · cases ctl with
    | false =>
        rw [if_neg (not_not_intro hevent), if_pos rfl]
        exact ⟨io, false, rfl, h⟩
    | true =>
        rw [if_neg (not_not_intro hevent), if_neg (by decide)]
        refine ⟨_, true, rfl, h.set hctx ((h.inOrder hctx).reset event) rfl ?_⟩
        simp only [FdContext.resetEveContext_events, FdContext.count_clear hevent]
        change io.pendingEventCnt - 1 = _
        omega
  · rw [if_pos hevent]
    exact ⟨io, false, rfl, h⟩

theorem Sound.cancelEvent (h : Sound io) (fd : Nat) (event : Event) (ctl : Bool) :
    exists io' done, io.cancelEvent fd event ctl = .ok (io', done) ∧ Sound io' := by
  unfold IOManager.cancelEvent
  by_cases hfd : io.fdContexts.length ≤ fd
  · rw [if_pos hfd]
    exact ⟨io, false, rfl, h⟩
  rcases lookup hfd with ⟨ctx, hctx⟩
  rw [if_neg hfd, fdContext_of hctx]
  simp only [bind, Except.bind]
  by_cases hevent : ctx.events.Has event
  · cases ctl with
    | false =>
        rw [if_neg (not_not_intro hevent), if_pos rfl]
        exact ⟨io, false, rfl, h⟩
    | true =>
        rw [if_neg (not_not_intro hevent), if_neg (by decide)]
        rcases h.triggerIf hctx true (fun _ => hevent) with ⟨io', ctx', htrigger, hsound, _⟩
        rw [triggerIf_true] at htrigger
        rcases bind_eq_ok.mp htrigger with ⟨io1, hone, heq⟩
        cases heq
        simp only [hone]
        exact ⟨_, true, rfl, hsound⟩
  · rw [if_pos hevent]
    exact ⟨io, false, rfl, h⟩

theorem clear_ite (events : Events) (bit : Bool) (event : Event) :
    events.clear (if bit then event.bits else .empty) =
      if bit then events.clear event.bits else events := by
  cases bit with
  | true => rfl
  | false => simp [Events.clear, Events.empty]

/-- Both bits of a set that is registered are triggered one after the other. -/
theorem Sound.triggerBoth (h : Sound io) (hctx : io.fdContexts[fd]? = some ctx)
    {bits : Events} (hbits : bits.Subset ctx.events) :
    exists io1 ctx1 io2 ctx2, io.triggerIf fd bits.read .read = .ok io1 ∧
      io1.fdContexts[fd]? = some ctx1 ∧ ctx1.events.write = ctx.events.write ∧
      io1.triggerIf fd bits.write .write = .ok io2 ∧ Sound io2 ∧
      io2.fdContexts[fd]? = some ctx2 ∧ ctx2.events = ctx.events.clear bits := by
  rcases FdContext.subset_iff.mp hbits with ⟨hread, hwrite⟩
  rcases h.triggerIf hctx bits.read (fun hbit => FdContext.has_read.mpr (hread hbit)) with
    ⟨io1, ctx1, hfirst, hsound1, hctx1, hevents1⟩
  have hsame : ctx1.events.write = ctx.events.write := by
    rw [hevents1, clear_ite]
    cases bits.read <;> simp [Events.clear, Event.bits]
  rcases hsound1.triggerIf hctx1 bits.write (fun hbit => by
    rw [FdContext.has_write, hsame]
    exact hwrite hbit) with ⟨io2, ctx2, hsecond, hsound2, hctx2, hevents2⟩
  refine ⟨io1, ctx1, io2, ctx2, hfirst, hctx1, hsame, hsecond, hsound2, hctx2, ?_⟩
  rw [hevents2, hevents1]
  rcases bits with ⟨r, w⟩
  cases r <;> cases w <;> simp [Events.clear, Event.bits, Events.empty]

theorem Sound.cancelAll (h : Sound io) (fd : Nat) (ctl : Bool) :
    exists io' done, io.cancelAll fd ctl = .ok (io', done) ∧ Sound io' := by
  unfold IOManager.cancelAll
  by_cases hfd : io.fdContexts.length ≤ fd
  · rw [if_pos hfd]
    exact ⟨io, false, rfl, h⟩
  rcases lookup hfd with ⟨ctx, hctx⟩
  rw [if_neg hfd, fdContext_of hctx]
  simp only [bind, Except.bind]
  by_cases hevents : ctx.events = .empty
  · rw [if_pos hevents]
    exact ⟨io, false, rfl, h⟩
  rw [if_neg hevents]
  cases ctl with
  | false => exact ⟨io, false, rfl, h⟩
  | true =>
      have hall : ctx.events.Subset ctx.events := FdContext.subset_iff.mpr ⟨id, id⟩
      rcases h.triggerBoth hctx hall with
        ⟨io1, ctx1, io2, ctx2, hfirst, hctx1, hsame, hsecond, hsound, hctx2, hevents2⟩
      have hclear : ctx2.events = .empty := by
        rw [hevents2]
        simp [Events.clear, Events.empty]
      rw [if_neg (by decide)]
      simp only [hfirst, fdContext_of hctx1, hsame, hsecond, fdContext_of hctx2,
        check_of hclear]
      exact ⟨io2, true, rfl, hsound⟩

/-- Registering an event that is not registered. -/
theorem Sound.register (h : Sound io) (hctx : io.fdContexts[fd]? = some ctx)
    (hevent : ¬ ctx.events.Has event) (hreal : event ≠ .none) {eventCtx : EventContext κ}
    (hscheduler : eventCtx.scheduler.isSome) :
    Sound (({ io with pendingEventCnt := io.pendingEventCnt + 1 } : IOManager κ).setFdContext fd
      ({ ctx with events := ctx.events.or event.bits }.setEveContext event eventCtx)) := by
  refine h.set hctx ((h.inOrder hctx).register event hscheduler) rfl ?_
  rw [FdContext.setEveContext_events, FdContext.count_or hevent hreal]
  change io.pendingEventCnt + 1 = _
  omega

theorem registration_ok {caller : Caller} {cb : Option κ} {eventCtx : EventContext κ}
    (h : registration caller cb = .ok eventCtx) : eventCtx.scheduler.isSome := by
  cases cb with
  | some cb =>
      cases h
      rfl
  | none =>
      rcases bind_eq_ok.mp h with ⟨_, _, h⟩
      cases h
      rfl

/-- The context of an event that is not registered is free. -/
theorem Sound.getEveContext (h : Sound io) (hctx : io.fdContexts[fd]? = some ctx)
    (hevent : ¬ ctx.events.Has event) (hreal : event ≠ .none) :
    { ctx with events := ctx.events.or event.bits }.getEveContext event = .ok {} := by
  have horder := h.inOrder hctx
  cases event with
  | none => exact absurd rfl hreal
  | read =>
      have hread := mt FdContext.has_read.mpr hevent
      exact congrArg Except.ok (horder.read.empty (Bool.not_eq_true _ ▸ hread))
  | write =>
      have hwrite := mt FdContext.has_write.mpr hevent
      exact congrArg Except.ok (horder.write.empty (Bool.not_eq_true _ ▸ hwrite))

theorem registration_error {caller : Caller} {cb : Option κ} {err : Panic}
    (h : registration caller cb = .error err) : err = .callerNotRunning := by
  cases cb with
  | some cb => cases h
  | none =>
      rcases bind_eq_error.mp h with hcheck | ⟨_, _, h⟩
      · exact (check_eq_error.mp hcheck).2
      · cases h

/-- What `addEvent` refuses, it refuses before anything is triggered. -/
theorem Sound.addEvent (h : Sound io) (fd : Nat) (event : Event) (caller : Caller)
    (cb : Option κ) (ctl : Bool) :
    (exists io' ret, io.addEvent fd event caller cb ctl = .ok (io', ret) ∧ Sound io') ∨
      exists err, io.addEvent fd event caller cb ctl = .error err ∧ err ≠ .notRegistered := by
  have hgrown : Sound (if io.fdContexts.length > fd then io
      else io.contextResize (fd * 3 / 2)) := by
    by_cases hfd : io.fdContexts.length > fd
    · rw [if_pos hfd]
      exact h
    · rw [if_neg hfd]
      exact h.contextResize (by omega)
  unfold IOManager.addEvent
  generalize (if io.fdContexts.length > fd then io else io.contextResize (fd * 3 / 2)) = io0
    at hgrown
  cases hctx : io0.fdContexts[fd]? with
  | none =>
      right
      simp [IOManager.fdContext, hctx, bind, Except.bind]
  | some ctx =>
      simp only [fdContext_of hctx, bind, Except.bind, condPanic]
      by_cases hevent : ctx.events.Has event
      · right
        rw [check_of_not (not_not_intro hevent)]
        exact ⟨_, rfl, by decide⟩
      rw [check_of hevent]
      cases ctl with
      | false =>
          left
          exact ⟨io0, -1, rfl, hgrown⟩
      | true =>
          simp only [Bool.true_eq_false, if_false]
          by_cases hreal : event = .none
          · right
            rw [hreal]
            exact ⟨.unknownEvent, rfl, by decide⟩
          rw [hgrown.getEveContext hctx hevent hreal]
          simp only [and_self, Option.isNone_none, check_of]
          cases hregister : registration caller cb with
          | error err =>
              right
              exact ⟨err, rfl, by rw [registration_error hregister]; decide⟩
          | ok eventCtx =>
              left
              exact ⟨_, 0, rfl,
                hgrown.register hctx hevent hreal (registration_ok hregister)⟩

/-!
# Stale reports

The idle loop checks that some reported event is still registered and then triggers
every one that was reported.
-/

/-- Some, but not all, of the events that the loop goes by are registered. -/
structure Stale (io : IOManager κ) (event : EpollEvent) (ctl : Bool) (ctx : FdContext κ) :
    Prop where
  context : io.fdContexts[event.fd]? = some ctx
  ctl : ctl = true
  overlaps : ctx.events.and (realEvents ctx event) ≠ .empty
  missing : ¬ (realEvents ctx event).Subset ctx.events

theorem handleEvent_none {event : EpollEvent} (hctx : io.fdContexts[event.fd]? = none)
    (ctl : Bool) : io.handleEvent event ctl = .error .noFdContext := by
  simp only [IOManager.handleEvent, IOManager.fdContext, hctx, bind, Except.bind]

/-- A report that is not stale is handled. -/
theorem Sound.handleEvent (h : Sound io) {event : EpollEvent}
    (hctx : io.fdContexts[event.fd]? = some ctx) {ctl : Bool}
    (hfresh : ¬ Stale io event ctl ctx) :
    exists io', io.handleEvent event ctl = .ok io' ∧ Sound io' := by
  unfold IOManager.handleEvent
  simp only [fdContext_of hctx, bind, Except.bind]
  by_cases hoverlap : ctx.events.and (realEvents ctx event) = .empty
  · rw [if_pos hoverlap]
    exact ⟨io, rfl, h⟩
  rw [if_neg hoverlap]
  cases hctl : ctl with
  | false => exact ⟨io, rfl, h⟩
  | true =>
      have hsubset : (realEvents ctx event).Subset ctx.events := by
        by_contra hmissing
        exact hfresh ⟨hctx, hctl, hoverlap, hmissing⟩
      rcases h.triggerBoth hctx hsubset with
        ⟨io1, ctx1, io2, ctx2, hfirst, _, _, hsecond, hsound, _⟩
      simp only [hfirst, Bool.true_eq_false, if_false]
      exact ⟨io2, hsecond, hsound⟩

/-- A stale report has an event triggered that is not registered. -/
theorem Sound.handleEvent_stale (h : Sound io) {event : EpollEvent} {ctl : Bool}
    (hstale : Stale io event ctl ctx) :
    io.handleEvent event ctl = .error .notRegistered := by
  have hctx := hstale.context
  unfold IOManager.handleEvent
  simp only [fdContext_of hctx, bind, Except.bind, if_neg hstale.overlaps, hstale.ctl,
    Bool.true_eq_false, if_false]
  have hmissing := mt FdContext.subset_iff.mpr hstale.missing
  generalize realEvents ctx event = real at hmissing
  by_cases hread : real.read = true -> ctx.events.read = true
  · -- the read event goes through, the write event is the missing one
    have hwrite : real.write = true ∧ ctx.events.write ≠ true := by
      by_contra hnot
      exact hmissing ⟨hread, fun hbit => by
        by_contra hclear
        exact hnot ⟨hbit, hclear⟩⟩
    rcases h.triggerIf hctx real.read (fun hbit => FdContext.has_read.mpr (hread hbit)) with
      ⟨io1, ctx1, hfirst, _, hctx1, hevents1⟩
    have hsame : ctx1.events.write = ctx.events.write := by
      rw [hevents1, clear_ite]
      cases real.read <;> simp [Events.clear, Event.bits]
    rw [hfirst, hwrite.1]
    refine triggerIf_unregistered hctx1 ?_
    rw [FdContext.has_write, hsame]
    exact hwrite.2
  · rcases Classical.not_imp.mp hread with ⟨hbit, hclear⟩
    rw [hbit, triggerIf_unregistered hctx (mt FdContext.has_read.mp hclear)]

end IOManager
end Fiber
end KVRaft
