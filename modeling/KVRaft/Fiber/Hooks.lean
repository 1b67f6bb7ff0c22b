import KVRaft.Fiber.EventBookkeeping
import KVRaft.Fiber.Scheduler
import KVRaft.Fiber.Timers

/-!
# Hooked calls

The workers of an I/O manager with the fibers that they run.  A fiber in a hooked call
adds a timer or an event that is to wake it, and yields in a step of its own.  Every
operation under one lock is one step; readings of the clock may be older than the step.
-/

namespace KVRaft
namespace Fiber

open Foundation

/-- What timers and tasks call: `IOManager::scheduler` with a sleeping fiber, the time
limit of a call of `do_io`, or a function of the program. -/
inductive Callback where
  | scheduler (fiber : Nat)
  | timeLimit (info fd : Nat) (event : Event)
  | user
  deriving DecidableEq, Repr

structure TimerInfo where
  cancelled : Bool := false
  /-- the call that it belongs to still holds it -/
  alive : Bool := false
  deriving DecidableEq, Repr

/-- A call of `do_io` on a socket. -/
structure IoCall where
  fd : Nat
  event : Event
  timeout : UInt64
  info : Nat
  deriving DecidableEq, Repr

/-- Where the code of a fiber is. -/
inductive Pc where
  | absent
  | created
  | user
  | callback
  /-- has added its timer and has yet to yield -/
  | sleeping
  | slept
  | calling (io : IoCall)
  | armed (io : IoCall) (timer : Option Nat)
  | refused (io : IoCall) (timer : Option Nat)
  /-- has added its event and has yet to yield -/
  | waiting (io : IoCall) (timer : Option Nat)
  | waited (io : IoCall) (timer : Option Nat)
  | woken (io : IoCall) (timer : Option Nat)
  | done
  deriving DecidableEq, Repr

/-- Where a fiber goes on that is resumed. -/
def Pc.resumed : Pc -> Pc
  | .created => .user
  | .slept => .user
  | .waited io timer => .woken io timer
  | pc => pc

/-- Where the fiber of a callback is. -/
def Callback.pc : Callback -> Pc
  | .user => .user
  | _ => .callback

structure HookedFiber where
  state : State := .term
  pc : Pc := .absent
  deriving DecidableEq, Repr

/-- Where a worker is in its loop and in that of its idle fiber. -/
inductive IOPhase where
  | scanning
  | holding (task : SchedulerTask Nat Callback)
  | running (fiber : Nat)
  | invoking (fiber : Nat) (cb : Callback)
  | cancelling (fiber fd : Nat) (event : Event)
  | idle
  | blocked
  | polled (events : List EpollEvent)
  | firing (cbs : List (Option Callback)) (events : List EpollEvent)
  | exited
  deriving DecidableEq, Repr

structure IOWorker where
  phase : IOPhase := .scanning
  /-- the idle fiber has ended -/
  idleTerm : Bool := false
  deriving DecidableEq, Repr

structure FiberSystem (n : Nat) where
  clock : UInt64
  io : IOManager Callback
  timers : TimerManager Callback
  info : Nat -> TimerInfo
  nextInfo : Nat
  fiber : Nat -> HookedFiber
  nextFiber : Nat
  activeThreadCnt : Nat
  isStopped : Bool
  worker : Fin n -> IOWorker
  /-- the assertion that has ended the process -/
  panic : Option Panic

inductive FiberAction (n : Nat) where
  -- any thread
  | tick (now : UInt64)
  | spawn (thread : Int)
  | schedule (thread : Int)
  | addTimer (address : Nat) (now ms : UInt64) (recurring : Bool)
  | addEvent (fd : Nat) (event : Event) (caller : Caller) (ctl : Bool)
  | delEvent (fd : Nat) (event : Event) (ctl : Bool)
  | cancelEvent (fd : Nat) (event : Event) (ctl : Bool)
  | cancelAll (fd : Nat) (ctl : Bool)
  | stop (now : UInt64)
  -- the loop of a worker
  | scan (w : Fin n)
  | resume (w : Fin n)
  | invoke (w : Fin n)
  | cancelTimedOut (w : Fin n) (ctl : Bool)
  | finish (w : Fin n)
  -- its idle fiber
  | idle (w : Fin n) (now : UInt64)
  | epollWait (w : Fin n) (events : List EpollEvent)
  | listExpired (w : Fin n) (now : UInt64)
  | fire (w : Fin n)
  | handleEvent (w : Fin n) (ctl : Bool)
  | idleYield (w : Fin n)
  -- hooked calls of the fiber that it runs
  | sleep (w : Fin n) (seconds : UInt32) (address : Nat) (now : UInt64)
  | usleep (w : Fin n) (usec : UInt32) (address : Nat) (now : UInt64)
  | nanosleep (w : Fin n) (sec nsec : Int64) (address : Nat) (now : UInt64)
  | beginIo (w : Fin n) (fd : Nat) (event : Event) (timeout : UInt64)
  | ioReturn (w : Fin n)
  | ioAgain (w : Fin n) (address : Nat) (now : UInt64)
  | ioAddEvent (w : Fin n) (ctl : Bool)
  | ioGiveUp (w : Fin n)
  | ioCheck (w : Fin n)
  | yield (w : Fin n)
  deriving DecidableEq

namespace FiberSystem

variable {n : Nat}

def create (now : UInt64) : FiberSystem n where
  clock := now
  io := .create
  timers := .create now
  info := fun _ => {}
  nextInfo := 0
  fiber := fun _ => {}
  nextFiber := 0
  activeThreadCnt := 0
  isStopped := false
  worker := fun _ => {}
  panic := none

def tasks (σ : FiberSystem n) : List (SchedulerTask Nat Callback) :=
  σ.io.tasks 0

def setTasks (σ : FiberSystem n) (tasks : List (SchedulerTask Nat Callback)) :
    FiberSystem n :=
  { σ with io := { σ.io with tasks := Function.update σ.io.tasks 0 tasks } }

def setActive (σ : FiberSystem n) (activeThreadCnt : Nat) : FiberSystem n :=
  { σ with activeThreadCnt := activeThreadCnt }

def getState (σ : FiberSystem n) (fiber : Nat) : State :=
  (σ.fiber fiber).state

def setPhase (σ : FiberSystem n) (w : Fin n) (phase : IOPhase) : FiberSystem n :=
  { σ with worker := Function.update σ.worker w { σ.worker w with phase := phase } }

def setFiber (σ : FiberSystem n) (fiber : Nat) (state : State) (pc : Pc) : FiberSystem n :=
  { σ with fiber := Function.update σ.fiber fiber { state := state, pc := pc } }

def setPc (σ : FiberSystem n) (fiber : Nat) (pc : Pc) : FiberSystem n :=
  σ.setFiber fiber (σ.fiber fiber).state pc

def setInfo (σ : FiberSystem n) (info : Nat) (timerInfo : TimerInfo) : FiberSystem n :=
  { σ with info := Function.update σ.info info timerInfo }

def fail (σ : FiberSystem n) (err : Panic) : FiberSystem n :=
  { σ with panic := some err }

def settle (σ : FiberSystem n) : Outcome (IOManager Callback) -> FiberSystem n
  | .ok io => { σ with io := io }
  | .error err => σ.fail err

def schedule (σ : FiberSystem n) (task : SchedulerTask Nat Callback) : FiberSystem n :=
  { σ with io := σ.io.schedule 0 task }

/-- The fiber that a worker runs. -/
def runs (σ : FiberSystem n) (w : Fin n) : Option Nat :=
  match (σ.worker w).phase with
  | .running fiber => some fiber
  | _ => none

/-!
# Any thread
-/

/-- A new fiber with a function of the program, scheduled. -/
def spawn (σ : FiberSystem n) (thread : Int) : FiberSystem n :=
  let fiber := σ.nextFiber
  ({ σ with nextFiber := fiber + 1 }.setFiber fiber .ready .created).schedule
    { fiber := some fiber, thread := thread }

/-- A timer with a new object; the reading of the clock was taken before. -/
def addTimer (σ : FiberSystem n) (address : Nat) (now ms : UInt64) (cb : Callback)
    (recurring : Bool) : Option (FiberSystem n) :=
  if now ≤ σ.clock ∧ σ.timers.objects address = none then
    some { σ with timers := (σ.timers.addTimer address now ms (some cb) recurring).1 }
  else
    none

def stopping (σ : FiberSystem n) (now : UInt64) : FiberSystem n × Bool :=
  let result := σ.timers.getNextTimer now
  ({ σ with timers := result.1 },
    decide (result.2 = ~~~ 0 ∧ σ.io.pendingEventCnt = 0 ∧ σ.isStopped = true ∧
      σ.tasks = [] ∧ σ.activeThreadCnt = 0))

def stop (σ : FiberSystem n) (now : UInt64) : FiberSystem n :=
  let result := σ.stopping now
  if result.2 then result.1 else { result.1 with isStopped := true }

/-!
# The loop of a worker
-/

def take (σ : FiberSystem n) (w : Fin n) (task : SchedulerTask Nat Callback)
    (left : List (SchedulerTask Nat Callback)) : FiberSystem n :=
  ((σ.setTasks left).setActive (σ.activeThreadCnt + 1)).setPhase w (.holding task)

def scan (σ : FiberSystem n) (threads : Threads n) (w : Fin n) : FiberSystem n :=
  match takeTask σ.getState (threads.id w) σ.tasks with
  | .error err => σ.fail err
  | .ok (some (task, left)) => σ.take w task left
  | .ok none => σ.setPhase w (if (σ.worker w).idleTerm then .exited else .idle)

/-- A callback gets a fiber of its own. -/
def resume (σ : FiberSystem n) (w : Fin n) (task : SchedulerTask Nat Callback) :
    Option (FiberSystem n) :=
  match task.fiber with
  | some fiber =>
      if task.Resumable σ.getState then
        some ((σ.setFiber fiber .running (Pc.resumed (σ.fiber fiber).pc)).setPhase w
          (.running fiber))
      else
        some (σ.fail .resumeState)
  | none =>
      match task.cb with
      | some cb =>
          let fiber := σ.nextFiber
          some (({ σ with nextFiber := fiber + 1 }.setFiber fiber .running cb.pc).setPhase w
            (.invoking fiber cb))
      | none => none

def invoke (σ : FiberSystem n) (w : Fin n) (fiber : Nat) : Callback -> FiberSystem n
  | .scheduler sleeper =>
      (σ.schedule { fiber := some sleeper }).setPhase w (.running fiber)
  | .timeLimit info fd event =>
      if (σ.info info).alive = true ∧ (σ.info info).cancelled = false then
        (σ.setInfo info { σ.info info with cancelled := true }).setPhase w
          (.cancelling fiber fd event)
      else
        σ.setPhase w (.running fiber)
  | .user => σ.setPhase w (.running fiber)

def cancelTimedOut (σ : FiberSystem n) (w : Fin n) (fiber fd : Nat) (event : Event)
    (ctl : Bool) : FiberSystem n :=
  (σ.settle ((σ.io.cancelEvent fd event ctl).map Prod.fst)).setPhase w (.running fiber)

/-- The worker goes on with its loop after a fiber has given way. -/
def back (σ : FiberSystem n) (w : Fin n) : FiberSystem n :=
  (σ.setActive (σ.activeThreadCnt - 1)).setPhase w .scanning

/-- The end of `MainFunc`. -/
def finish (σ : FiberSystem n) (w : Fin n) (fiber : Nat) : Option (FiberSystem n) :=
  match (σ.fiber fiber).pc with
  | .user => some ((σ.setFiber fiber .term .done).back w)
  | .callback => some ((σ.setFiber fiber .term .done).back w)
  | _ => none

/-- A fiber that is not running must not yield. -/
def yieldTo (σ : FiberSystem n) (w : Fin n) (fiber : Nat) (pc : Pc) : FiberSystem n :=
  match (σ.fiber fiber).state with
  | .running => (σ.setFiber fiber .ready pc).back w
  | .term => (σ.setPc fiber pc).back w
  | .ready => σ.fail .yieldState

def yield (σ : FiberSystem n) (w : Fin n) (fiber : Nat) : Option (FiberSystem n) :=
  match (σ.fiber fiber).pc with
  | .sleeping => some (σ.yieldTo w fiber .slept)
  | .waiting io timer => some (σ.yieldTo w fiber (.waited io timer))
  | _ => none

/-!
# The idle fiber
-/

/-- The idle fiber ends when the manager is stopping, and waits for events otherwise.  The
pipe of `tickle` only ends the wait, which may end at any time here. -/
def idle (σ : FiberSystem n) (w : Fin n) (now : UInt64) : FiberSystem n :=
  let result := σ.stopping now
  if result.2 then
    { result.1 with
      worker := Function.update σ.worker w { phase := .scanning, idleTerm := true } }
  else
    result.1.setPhase w .blocked

def MayReportAll (σ : FiberSystem n) (events : List EpollEvent) : Prop :=
  (events.map EpollEvent.fd).Nodup ∧
    forall event, event ∈ events -> EventSystem.MayReport σ.io event

instance (σ : FiberSystem n) (events : List EpollEvent) :
    Decidable (σ.MayReportAll events) :=
  inferInstanceAs (Decidable (_ ∧ _))

def listExpired (σ : FiberSystem n) (w : Fin n) (now : UInt64) (events : List EpollEvent) :
    FiberSystem n :=
  let result := σ.timers.listExpiredCb now
  { σ with timers := result.2 }.setPhase w (.firing result.1 events)

/-!
# Hooked calls
-/

/-- The hooks of the three kinds of sleep. -/
def sleepFor (σ : FiberSystem n) (fiber : Nat) (ms : UInt64) (address : Nat) (now : UInt64) :
    Option (FiberSystem n) :=
  match (σ.fiber fiber).pc with
  | .user => (σ.setPc fiber .sleeping).addTimer address now ms (.scheduler fiber) false
  | _ => none

def sleep (σ : FiberSystem n) (fiber : Nat) (seconds : UInt32) :=
  σ.sleepFor fiber (seconds * 1000).toUInt64

def usleep (σ : FiberSystem n) (fiber : Nat) (usec : UInt32) :=
  σ.sleepFor fiber (usec / 1000).toUInt64

def nanosleep (σ : FiberSystem n) (fiber : Nat) (sec nsec : Int64) :=
  σ.sleepFor fiber (sec * 1000 + nsec / 1000 / 1000).toInt32.toInt64.toUInt64

def beginIo (σ : FiberSystem n) (fiber fd : Nat) (event : Event) (timeout : UInt64) :
    Option (FiberSystem n) :=
  match (σ.fiber fiber).pc with
  | .user =>
      let info := σ.nextInfo
      some (({ σ with nextInfo := info + 1 }.setInfo info { alive := true }).setPc fiber
        (.calling { fd := fd, event := event, timeout := timeout, info := info }))
  | _ => none

/-- Back from `do_io`, which lets go of its `timer_info`. -/
def leaveIo (σ : FiberSystem n) (fiber : Nat) (io : IoCall) : FiberSystem n :=
  (σ.setInfo io.info { σ.info io.info with alive := false }).setPc fiber .user

def ioReturn (σ : FiberSystem n) (fiber : Nat) : Option (FiberSystem n) :=
  match (σ.fiber fiber).pc with
  | .calling io => some (σ.leaveIo fiber io)
  | _ => none

/-- The system call would block: a timer is added, unless there is no time limit. -/
def ioAgain (σ : FiberSystem n) (fiber : Nat) (address : Nat) (now : UInt64) :
    Option (FiberSystem n) :=
  match (σ.fiber fiber).pc with
  | .calling io =>
      if io.timeout ≠ ~~~ 0 then
        (σ.setPc fiber (.armed io (some address))).addTimer address now io.timeout
          (.timeLimit io.info io.fd io.event) false
      else
        some (σ.setPc fiber (.armed io none))
  | _ => none

def caller (σ : FiberSystem n) (fiber : Nat) : Caller where
  scheduler := 0
  fiber := fiber
  state := σ.getState fiber

def ioAddEvent (σ : FiberSystem n) (fiber : Nat) (ctl : Bool) : Option (FiberSystem n) :=
  match (σ.fiber fiber).pc with
  | .armed io timer =>
      match σ.io.addEvent io.fd io.event (σ.caller fiber) none ctl with
      | .error err => some (σ.fail err)
      | .ok (manager, ret) =>
          let σ := { σ with io := manager }
          if ret ≠ 0 then
            some (σ.setPc fiber (.refused io timer))
          else
            some (σ.setPc fiber (.waiting io timer))
  | _ => none

def cancelTimer (σ : FiberSystem n) : Option Nat -> FiberSystem n
  | some address => { σ with timers := (σ.timers.cancel address).1 }
  | none => σ

def ioGiveUp (σ : FiberSystem n) (fiber : Nat) : Option (FiberSystem n) :=
  match (σ.fiber fiber).pc with
  | .refused io timer => some ((σ.cancelTimer timer).leaveIo fiber io)
  | _ => none

/-- After it was woken a call cancels its timer, and has timed out or is tried again.  An
expired timer is not cancelled and no other sets the flag, so the two are one step. -/
def ioCheck (σ : FiberSystem n) (fiber : Nat) : Option (FiberSystem n) :=
  match (σ.fiber fiber).pc with
  | .woken io timer =>
      if (σ.info io.info).cancelled then
        some ((σ.cancelTimer timer).leaveIo fiber io)
      else
        some ((σ.cancelTimer timer).setPc fiber (.calling io))
  | _ => none

/-!
# Steps
-/

/-- Once an assertion has failed there are no more steps. -/
def step (threads : Threads n) (σ : FiberSystem n) (a : FiberAction n) :
    Option (FiberSystem n) :=
  if σ.panic.isSome then
    none
  else
    match a with
    | .tick now => if σ.clock ≤ now then some { σ with clock := now } else none
    | .spawn thread => some (σ.spawn thread)
    | .schedule thread => some (σ.schedule { cb := some .user, thread := thread })
    | .addTimer address now ms recurring => σ.addTimer address now ms .user recurring
    | .addEvent fd event caller ctl =>
        some (σ.settle ((σ.io.addEvent fd event caller (some .user) ctl).map Prod.fst))
    | .delEvent fd event ctl => some (σ.settle ((σ.io.delEvent fd event ctl).map Prod.fst))
    | .cancelEvent fd event ctl =>
        some (σ.settle ((σ.io.cancelEvent fd event ctl).map Prod.fst))
    | .cancelAll fd ctl => some (σ.settle ((σ.io.cancelAll fd ctl).map Prod.fst))
    | .stop now => if now ≤ σ.clock then some (σ.stop now) else none
    | .scan w =>
        match (σ.worker w).phase with
        | .scanning => some (σ.scan threads w)
        | _ => none
    | .resume w =>
        match (σ.worker w).phase with
        | .holding task => σ.resume w task
        | _ => none
    | .invoke w =>
        match (σ.worker w).phase with
        | .invoking fiber cb => some (σ.invoke w fiber cb)
        | _ => none
    | .cancelTimedOut w ctl =>
        match (σ.worker w).phase with
        | .cancelling fiber fd event => some (σ.cancelTimedOut w fiber fd event ctl)
        | _ => none
    | .finish w => (σ.runs w).bind (σ.finish w)
    | .idle w now =>
        match (σ.worker w).phase with
        | .idle => if now ≤ σ.clock then some (σ.idle w now) else none
        | _ => none
    | .epollWait w events =>
        match (σ.worker w).phase with
        | .blocked =>
            if σ.MayReportAll events then some (σ.setPhase w (.polled events)) else none
        | _ => none
    | .listExpired w now =>
        match (σ.worker w).phase with
        | .polled events => if now ≤ σ.clock then some (σ.listExpired w now events) else none
        | _ => none
    | .fire w =>
        match (σ.worker w).phase with
        | .firing (cb :: cbs) events =>
            some ((σ.schedule { cb := cb }).setPhase w (.firing cbs events))
        | _ => none
    | .handleEvent w ctl =>
        match (σ.worker w).phase with
        | .firing [] (event :: rest) =>
            some ((σ.settle (σ.io.handleEvent event ctl)).setPhase w (.firing [] rest))
        | _ => none
    | .idleYield w =>
        match (σ.worker w).phase with
        | .firing [] [] => some (σ.setPhase w .scanning)
        | _ => none
    | .sleep w seconds address now =>
        (σ.runs w).bind fun fiber => σ.sleep fiber seconds address now
    | .usleep w usec address now =>
        (σ.runs w).bind fun fiber => σ.usleep fiber usec address now
    | .nanosleep w sec nsec address now =>
        (σ.runs w).bind fun fiber => σ.nanosleep fiber sec nsec address now
    | .beginIo w fd event timeout =>
        (σ.runs w).bind fun fiber => σ.beginIo fiber fd event timeout
    | .ioReturn w => (σ.runs w).bind σ.ioReturn
    | .ioAgain w address now => (σ.runs w).bind fun fiber => σ.ioAgain fiber address now
    | .ioAddEvent w ctl => (σ.runs w).bind fun fiber => σ.ioAddEvent fiber ctl
    | .ioGiveUp w => (σ.runs w).bind σ.ioGiveUp
    | .ioCheck w => (σ.runs w).bind σ.ioCheck
    | .yield w => (σ.runs w).bind (σ.yield w)

def fiberSystem (threads : Threads n) (now : UInt64) :
    TransitionSystem (FiberSystem n) (FiberAction n) where
  init := create now
  step := step threads

end FiberSystem
end Fiber
end KVRaft
