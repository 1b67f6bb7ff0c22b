import KVRaft.Foundation.Transition
import KVRaft.Fiber.IOManager

/-!
# Bookkeeping of the events

Any thread may register, delete or cancel events between the moment `epoll_wait`
returns a batch to a worker and the moment the worker gets to one of its reports.
-/

namespace KVRaft
namespace Fiber

open Foundation

structure EventSystem (κ : Type) where
  io : IOManager κ
  /-- the reports that the idle loop of each worker has yet to handle -/
  batches : Nat -> List EpollEvent
  /-- the assertion that has ended the process -/
  panic : Option Panic

inductive EventAction (κ : Type) where
  | addEvent (fd : Nat) (event : Event) (caller : Caller) (cb : Option κ) (ctl : Bool)
  | delEvent (fd : Nat) (event : Event) (ctl : Bool)
  | cancelEvent (fd : Nat) (event : Event) (ctl : Bool)
  | cancelAll (fd : Nat) (ctl : Bool)
  | epollWait (worker : Nat) (batch : List EpollEvent)
  | handleEvent (worker : Nat) (ctl : Bool)

namespace EventSystem

variable {κ : Type}

def init : EventSystem κ where
  io := .create
  batches := fun _ => []
  panic := none

def settle (σ : EventSystem κ) : Outcome (IOManager κ) -> EventSystem κ
  | .ok io => { σ with io := io }
  | .error err => { σ with panic := some err }

def setBatch (σ : EventSystem κ) (worker : Nat) (batch : List EpollEvent) : EventSystem κ :=
  { σ with batches := Function.update σ.batches worker batch }

/-- A report of `epoll_wait` is about a registered descriptor, and except for errors
about the events that it is registered for. -/
def MayReport (io : IOManager κ) (event : EpollEvent) : Prop :=
  match io.fdContexts[event.fd]? with
  | some ctx => ctx.events ≠ .empty ∧ event.ready.Subset ctx.events
  | none => False

instance (io : IOManager κ) (event : EpollEvent) : Decidable (MayReport io event) := by
  unfold MayReport
  split <;> infer_instance

/-- Once an assertion has failed there are no more steps. -/
def step (σ : EventSystem κ) (a : EventAction κ) : Option (EventSystem κ) :=
  if σ.panic.isSome then
    none
  else
    match a with
    | .addEvent fd event caller cb ctl =>
        some (σ.settle ((σ.io.addEvent fd event caller cb ctl).map Prod.fst))
    | .delEvent fd event ctl => some (σ.settle ((σ.io.delEvent fd event ctl).map Prod.fst))
    | .cancelEvent fd event ctl =>
        some (σ.settle ((σ.io.cancelEvent fd event ctl).map Prod.fst))
    | .cancelAll fd ctl => some (σ.settle ((σ.io.cancelAll fd ctl).map Prod.fst))
    | .epollWait worker batch =>
        if σ.batches worker = [] ∧ (batch.map EpollEvent.fd).Nodup ∧
            forall event, event ∈ batch -> MayReport σ.io event then
          some (σ.setBatch worker batch)
        else
          none
    | .handleEvent worker ctl =>
        match σ.batches worker with
        | [] => none
        | event :: rest => some ((σ.setBatch worker rest).settle (σ.io.handleEvent event ctl))

def eventSystem (κ : Type) : TransitionSystem (EventSystem κ) (EventAction κ) where
  init := init
  step := step

/-- The worker comes to a report of which some events, but not all, are registered. -/
def HandlesStale (t : Transition (EventSystem κ) (EventAction κ)) : Prop :=
  exists worker ctl event rest ctx, t.action = .handleEvent worker ctl ∧
    t.before.batches worker = event :: rest ∧ IOManager.Stale t.before.io event ctl ctx

/-- What the manager owes between two steps. -/
structure Consistent (σ : EventSystem κ) : Prop where
  triggers : σ.panic ≠ some .notRegistered
  counted : σ.io.pendingEventCnt = σ.io.registered

/-!
# Steps

The manager stays sound, and only a stale report makes `triggerEvent` fail.
-/

/-- What a step does that triggers only registered events. -/
structure Quiet (σ' : EventSystem κ) : Prop where
  sound : σ'.io.Sound
  panic : σ'.panic ≠ some .notRegistered

theorem settle_quiet {σ : EventSystem κ} (hsound : σ.io.Sound) (hpanic : σ.panic = none)
    {α : Type} {outcome : Outcome (IOManager κ × α)}
    (h : (exists io done, outcome = .ok (io, done) ∧ io.Sound) ∨
      exists err, outcome = .error err ∧ err ≠ .notRegistered) :
    Quiet (σ.settle (outcome.map Prod.fst)) := by
  rcases h with ⟨io, done, rfl, hsound'⟩ | ⟨err, rfl, hne⟩
  · refine ⟨hsound', ?_⟩
    change σ.panic ≠ _
    rw [hpanic]
    exact nofun
  · exact ⟨hsound, fun h => hne (Option.some.inj h)⟩

/-- Operations on events by themselves trigger only what is registered. -/
theorem step_quiet {σ σ' : EventSystem κ} {a : EventAction κ} (hsound : σ.io.Sound)
    (h : step σ a = some σ') (ha : forall worker ctl, a ≠ .handleEvent worker ctl) :
    Quiet σ' := by
  rcases running_of_step h with ⟨hnone, h⟩
  cases a with
  | addEvent fd event caller cb ctl =>
      cases h
      exact settle_quiet hsound hnone (hsound.addEvent fd event caller cb ctl)
  | delEvent fd event ctl =>
      cases h
      exact settle_quiet hsound hnone (Or.inl (hsound.delEvent fd event ctl))
  | cancelEvent fd event ctl =>
      cases h
      exact settle_quiet hsound hnone (Or.inl (hsound.cancelEvent fd event ctl))
  | cancelAll fd ctl =>
      cases h
      exact settle_quiet hsound hnone (Or.inl (hsound.cancelAll fd ctl))
  | epollWait worker batch =>
      dsimp only at h
      split at h
      · cases h
        refine ⟨hsound, ?_⟩
        change σ.panic ≠ _
        rw [hnone]
        exact nofun
      · cases h
  | handleEvent worker ctl => exact absurd rfl (ha worker ctl)

/-- The idle loop triggers an event that is not registered exactly over a stale report. -/
theorem step_handleEvent {σ σ' : EventSystem κ} {worker : Nat} {ctl : Bool}
    (hsound : σ.io.Sound) (h : step σ (.handleEvent worker ctl) = some σ') :
    σ'.io.Sound ∧ (σ'.panic = some .notRegistered <->
      HandlesStale { before := σ, action := .handleEvent worker ctl, after := σ' }) := by
  rcases running_of_step h with ⟨hnone, h⟩
  dsimp only at h
  cases hbatch : σ.batches worker with
  | nil =>
      rw [hbatch] at h
      cases h
  | cons event rest =>
      rw [hbatch] at h
      cases h
      have hstale : HandlesStale
          { before := σ, action := .handleEvent worker ctl,
            after := (σ.setBatch worker rest).settle (σ.io.handleEvent event ctl) } <->
          exists ctx, IOManager.Stale σ.io event ctl ctx := by
        constructor
        · rintro ⟨worker', ctl', event', rest', ctx, haction, hbatch', hstale⟩
          cases haction
          rw [hbatch] at hbatch'
          cases hbatch'
          exact ⟨ctx, hstale⟩
        · rintro ⟨ctx, hstale⟩
          exact ⟨worker, ctl, event, rest, ctx, rfl, hbatch, hstale⟩
      rw [hstale]
      by_cases hnow : exists ctx, IOManager.Stale σ.io event ctl ctx
      · rcases hnow with ⟨ctx, hnow⟩
        rw [hsound.handleEvent_stale hnow]
        exact ⟨hsound, iff_of_true rfl ⟨ctx, hnow⟩⟩
      cases hctx : σ.io.fdContexts[event.fd]? with
      | none =>
          rw [IOManager.handleEvent_none hctx]
          exact ⟨hsound, iff_of_false nofun hnow⟩
      | some ctx =>
          rcases hsound.handleEvent hctx (fun hthis => hnow ⟨ctx, hthis⟩) with
            ⟨io', hok, hsound'⟩
          rw [hok]
          refine ⟨hsound', iff_of_false ?_ hnow⟩
          change σ.panic ≠ _
          rw [hnone]
          exact nofun

theorem step_sound {σ σ' : EventSystem κ} {a : EventAction κ} (hsound : σ.io.Sound)
    (h : step σ a = some σ') :
    σ'.io.Sound ∧ (σ'.panic = some .notRegistered <->
      HandlesStale { before := σ, action := a, after := σ' }) := by
  by_cases ha : exists worker ctl, a = .handleEvent worker ctl
  · rcases ha with ⟨worker, ctl, rfl⟩
    exact step_handleEvent hsound h
  · have hquiet := step_quiet hsound h fun worker ctl heq => ha ⟨worker, ctl, heq⟩
    refine ⟨hquiet.sound, iff_of_false hquiet.panic ?_⟩
    rintro ⟨worker, ctl, _, _, _, haction, _⟩
    exact ha ⟨worker, ctl, haction⟩

/-!
# Runs
-/

theorem trace_sound {tr : List (Transition (EventSystem κ) (EventAction κ))}
    {σ : EventSystem κ} (h : (eventSystem κ).Trace tr σ) : σ.io.Sound :=
  TransitionSystem.Trace.invariant (M := eventSystem κ)
    (P := fun _ σ => σ.io.Sound) IOManager.Sound.create
    (fun _ hsound hstep => (step_sound hsound hstep).1) h

/-- A run keeps its books exactly as long as no worker comes to a stale report. -/
theorem consistent_iff (r : (eventSystem κ).Run) :
    (forall σ, r.Visits σ -> Consistent σ) <-> r.Always fun t => ¬ HandlesStale t := by
  constructor
  · intro hall t ht hstale
    rcases r.valid.before_of_mem ht with ⟨earlier, hbefore, _⟩
    have hpanic := (step_sound (trace_sound hbefore) (r.valid.step_of_mem ht)).2.mpr hstale
    exact (hall t.after (r.visits_after ht)).triggers hpanic
  · intro hfresh σ hσ
    rcases hσ.trace with ⟨earlier, htrace, hsub⟩
    refine ⟨?_, (trace_sound htrace).counted⟩
    cases htrace with
    | nil => exact nofun
    | snoc htr hstep =>
        intro hpanic
        refine hfresh _ (hsub _ (List.mem_append_right _ (List.mem_singleton_self _))) ?_
        exact (step_sound (trace_sound htr) hstep).2.mp hpanic

/-!
# One of two reported events

Descriptor 7 waits for both events and both are reported to worker 0.  The write event
is deleted before the worker gets to the report.
-/

def anyCaller : Caller where
  scheduler := 0
  fiber := 1
  state := .running

def deletedEventSchedule : List (EventAction Nat) :=
  [.addEvent 7 .read anyCaller none true, .addEvent 7 .write anyCaller (some 5) true,
    .epollWait 0 [{ fd := 7, ready := { read := true, write := true }, failed := false }],
    .delEvent 7 .write true, .handleEvent 0 true]

def deletedEventRun : (eventSystem Nat).Run :=
  TransitionSystem.runOf _ deletedEventSchedule (by decide +kernel)

theorem deletedEventRun_not_consistent :
    ¬ forall σ, deletedEventRun.Visits σ -> Consistent σ := by
  intro hall
  have hlast := (hall deletedEventRun.state (Or.inl rfl)).triggers
  exact hlast (by decide +kernel)

end EventSystem
end Fiber
end KVRaft
