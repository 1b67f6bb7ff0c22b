import KVRaft.Foundation.Transition
import KVRaft.Fiber.IOManager

/-!
# The table of contexts

The operations on events once more, at the boundaries of their locks.  Each looks for a
context under one lock, `addEvent` makes the table larger under another, and what was
found is used under the lock of the context.  The contexts are on the heap and stay
there, whatever becomes of the table.
-/

namespace KVRaft
namespace Fiber

open Foundation

namespace IOManager

variable {κ : Type}

/-!
# With a context in hand
-/

/-- The rest of `addEvent`. -/
def register (io : IOManager κ) (p : Nat) (event : Event) (caller : Caller) (cb : Option κ)
    (ctl : Bool) : Outcome (IOManager κ × Int) := do
  let ctx <- io.fdContext p
  condPanic (¬ ctx.events.Has event) .duplicateEvent
  if ctl = false then
    return (io, -1)
  else
    let io := { io with pendingEventCnt := io.pendingEventCnt + 1 }
    let ctx := { ctx with events := ctx.events.or event.bits }
    let eventCtx <- ctx.getEveContext event
    condPanic (eventCtx.scheduler = none ∧ eventCtx.fiber = none ∧ eventCtx.cb.isNone)
      .eventContextInUse
    let eventCtx <- registration caller cb
    return (io.setFdContext p (ctx.setEveContext event eventCtx), 0)

/-- The rest of `delEvent`. -/
def unregister (io : IOManager κ) (p : Nat) (event : Event) (ctl : Bool) :
    Outcome (IOManager κ × Bool) := do
  let ctx <- io.fdContext p
  if ¬ ctx.events.Has event then
    return (io, false)
  else if ctl = false then
    return (io, false)
  else
    let ctx := { ctx with events := ctx.events.clear event.bits }
    return (io.uncount.setFdContext p (ctx.resetEveContext event), true)

/-- The rest of `cancelEvent`. -/
def fire (io : IOManager κ) (p : Nat) (event : Event) (ctl : Bool) :
    Outcome (IOManager κ × Bool) := do
  let ctx <- io.fdContext p
  if ¬ ctx.events.Has event then
    return (io, false)
  else if ctl = false then
    return (io, false)
  else
    let io <- io.triggerEvent p event
    return (io.uncount, true)

/-- The rest of `cancelAll`. -/
def fireAll (io : IOManager κ) (p : Nat) (ctl : Bool) : Outcome (IOManager κ × Bool) := do
  let ctx <- io.fdContext p
  if ctx.events = .empty then
    return (io, false)
  else if ctl = false then
    return (io, false)
  else
    let io <- io.triggerIf p ctx.events.read .read
    let ctx <- io.fdContext p
    let io <- io.triggerIf p ctx.events.write .write
    let ctx <- io.fdContext p
    condPanic (ctx.events = .empty) .notTotallyClear
    return (io, true)

theorem addEvent_split (io : IOManager κ) (fd : Nat) (event : Event) (caller : Caller)
    (cb : Option κ) (ctl : Bool) :
    io.addEvent fd event caller cb ctl =
      (if io.fdContexts.length > fd then io
        else io.contextResize (fd * 3 / 2)).register fd event caller cb ctl :=
  rfl

theorem delEvent_split (io : IOManager κ) (fd : Nat) (event : Event) (ctl : Bool) :
    io.delEvent fd event ctl =
      if io.fdContexts.length ≤ fd then .ok (io, false) else io.unregister fd event ctl :=
  rfl

theorem cancelEvent_split (io : IOManager κ) (fd : Nat) (event : Event) (ctl : Bool) :
    io.cancelEvent fd event ctl =
      if io.fdContexts.length ≤ fd then .ok (io, false) else io.fire fd event ctl :=
  rfl

theorem cancelAll_split (io : IOManager κ) (fd : Nat) (ctl : Bool) :
    io.cancelAll fd ctl =
      if io.fdContexts.length ≤ fd then .ok (io, false) else io.fireAll fd ctl :=
  rfl

end IOManager

/-!
# Calls between the locks
-/

inductive TableCall (κ : Type) where
  | addEvent (fd : Nat) (event : Event) (caller : Caller) (cb : Option κ)
  | delEvent (fd : Nat) (event : Event)
  | cancelEvent (fd : Nat) (event : Event)
  | cancelAll (fd : Nat)
  deriving DecidableEq, Repr

/-- How far a thread is with its call. -/
inductive TablePhase (κ : Type) where
  | ready
  /-- `addEvent` has found the table too small -/
  | growing (fd : Nat) (event : Event) (caller : Caller) (cb : Option κ)
  | holding (p : Nat) (call : TableCall κ)
  deriving DecidableEq, Repr

structure ContextTable (κ : Type) where
  /-- the manager, with all contexts on the heap by their addresses -/
  io : IOManager κ
  /-- the address for each descriptor -/
  fdContexts : List Nat
  phase : Nat -> TablePhase κ
  panic : Option Panic

inductive TableAction (κ : Type) where
  | look (thread : Nat) (call : TableCall κ)
  | grow (thread : Nat)
  | perform (thread : Nat) (ctl : Bool)
  | trigger (p : Nat) (ready : Events) (failed : Bool) (ctl : Bool)
  deriving DecidableEq, Repr

def TableCall.fd {κ : Type} : TableCall κ -> Nat
  | .addEvent fd _ _ _ => fd
  | .delEvent fd _ => fd
  | .cancelEvent fd _ => fd
  | .cancelAll fd => fd

/-- What the call does under the lock of its context, and whether it has an effect. -/
def TableCall.perform {κ : Type} (io : IOManager κ) (p : Nat) (ctl : Bool) :
    TableCall κ -> Outcome (IOManager κ × Bool)
  | .addEvent _ event caller cb =>
      (io.register p event caller cb ctl).map fun result => (result.1, result.2 = 0)
  | .delEvent _ event => io.unregister p event ctl
  | .cancelEvent _ event => io.fire p event ctl
  | .cancelAll _ => io.fireAll p ctl

namespace ContextTable

variable {κ : Type}

def setPhase (σ : ContextTable κ) (thread : Nat) (phase : TablePhase κ) : ContextTable κ :=
  { σ with phase := Function.update σ.phase thread phase }

def settle (σ : ContextTable κ) : Outcome (IOManager κ) -> ContextTable κ
  | .ok io => { σ with io := io }
  | .error err => { σ with panic := some err }

/-- The addresses beyond the new size are dropped, and each free place gets a context. -/
def contextResize (σ : ContextTable κ) (size : Nat) : ContextTable κ :=
  let kept := σ.fdContexts.take size
  let added := size - kept.length
  { σ with
    io := { σ.io with
      fdContexts := σ.io.fdContexts ++ IOManager.newContexts kept.length added }
    fdContexts := kept ++ List.range' σ.io.fdContexts.length added }

/-- Right after construction. -/
def init : ContextTable κ :=
  contextResize
    { io := { fdContexts := [], pendingEventCnt := 0, tasks := fun _ => [] }
      fdContexts := []
      phase := fun _ => .ready
      panic := none } 32

/-- The beginning of a call: the size is checked and, if it suffices, the context read. -/
def look (σ : ContextTable κ) (thread : Nat) (call : TableCall κ) : ContextTable κ :=
  match σ.fdContexts[call.fd]? with
  | some p => σ.setPhase thread (.holding p call)
  | none =>
      match call with
      | .addEvent fd event caller cb => σ.setPhase thread (.growing fd event caller cb)
      | _ => σ

/-- The size is not checked again. -/
def grow (σ : ContextTable κ) (thread fd : Nat) (event : Event) (caller : Caller)
    (cb : Option κ) : ContextTable κ :=
  let σ := σ.contextResize (fd * 3 / 2)
  match σ.fdContexts[fd]? with
  | some p => σ.setPhase thread (.holding p (.addEvent fd event caller cb))
  | none => { σ with panic := some .noFdContext }

/-- Once an assertion has failed there are no more steps.  A trigger may come at any time
and for any context, with the address that `epoll_ctl` was given. -/
def step (σ : ContextTable κ) (a : TableAction κ) : Option (ContextTable κ) :=
  if σ.panic.isSome then
    none
  else
    match a with
    | .look thread call =>
        match σ.phase thread with
        | .ready => some (σ.look thread call)
        | _ => none
    | .grow thread =>
        match σ.phase thread with
        | .growing fd event caller cb => some (σ.grow thread fd event caller cb)
        | _ => none
    | .perform thread ctl =>
        match σ.phase thread with
        | .holding p call =>
            some ((σ.setPhase thread .ready).settle ((call.perform σ.io p ctl).map Prod.fst))
        | _ => none
    | .trigger p ready failed ctl =>
        if p < σ.io.fdContexts.length then
          some (σ.settle (σ.io.handleEvent { fd := p, ready := ready, failed := failed } ctl))
        else
          none

end ContextTable

def tableSystem (κ : Type) : TransitionSystem (ContextTable κ) (TableAction κ) where
  init := .init
  step := ContextTable.step

end Fiber
end KVRaft
