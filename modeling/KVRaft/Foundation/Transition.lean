import Mathlib.Data.List.Basic

/-!
# Guarded transition systems

A system is an initial state and a partial step function: an action that is not
enabled in a state has no successor.  All nondeterminism sits in the choice of
the next action, so a schedule is a list of actions and a run is replayed by
evaluation.
-/

namespace KVRaft
namespace Foundation

structure TransitionSystem (State Action : Type) where
  init : State
  step : State -> Action -> Option State

structure Transition (State Action : Type) where
  before : State
  action : Action
  after : State

namespace TransitionSystem

variable {State Action : Type}

/-!
# Traces

A trace lists the transitions of a run from the initial state, oldest first,
together with the state it ends in.
-/

inductive Trace (M : TransitionSystem State Action) :
    List (Transition State Action) -> State -> Prop where
  | nil : Trace M [] M.init
  | snoc {tr : List (Transition State Action)} {s s' : State} {a : Action} :
      Trace M tr s -> M.step s a = some s' ->
      Trace M (tr ++ [{ before := s, action := a, after := s' }]) s'

/-- A run carries the proof that its trace is one of the system's. -/
structure Run (M : TransitionSystem State Action) where
  trace : List (Transition State Action)
  state : State
  valid : M.Trace trace state

/-- The states a run passes through, the last one included. -/
def Run.Visits {M : TransitionSystem State Action} (r : M.Run) (s : State) : Prop :=
  s = r.state ∨ exists t, t ∈ r.trace ∧ s = t.before

/-- Every transition of the run satisfies the step condition C. -/
def Run.Always {M : TransitionSystem State Action} (r : M.Run)
    (C : Transition State Action -> Prop) : Prop :=
  forall t, t ∈ r.trace -> C t

/-!
# The invariant rule

One induction serves every safety result: a predicate on the trace so far and
the state reached, which holds initially and is kept by every enabled step,
holds of every run.  The step condition is available for the last transition and
for all earlier ones.
-/

theorem Trace.invariant {M : TransitionSystem State Action}
    {P : List (Transition State Action) -> State -> Prop}
    (base : P [] M.init)
    (step : forall {tr s s' a}, M.Trace tr s -> P tr s -> M.step s a = some s' ->
      P (tr ++ [{ before := s, action := a, after := s' }]) s')
    {tr : List (Transition State Action)} {s : State} (h : M.Trace tr s) :
    P tr s := by
  induction h with
  | nil => exact base
  | snoc htr hstep ih => exact step htr ih hstep

/-- The same for traces whose transitions all meet the step condition. -/
theorem Trace.invariant_under {M : TransitionSystem State Action}
    {C : Transition State Action -> Prop}
    {P : List (Transition State Action) -> State -> Prop}
    (base : P [] M.init)
    (step : forall {tr s s' a}, M.Trace tr s -> (forall t, t ∈ tr -> C t) -> P tr s ->
      M.step s a = some s' -> C { before := s, action := a, after := s' } ->
      P (tr ++ [{ before := s, action := a, after := s' }]) s')
    {tr : List (Transition State Action)} {s : State} (h : M.Trace tr s)
    (hC : forall t, t ∈ tr -> C t) : P tr s := by
  induction h with
  | nil => exact base
  | @snoc tr s s' a htr hstep ih =>
      have hbefore : forall t, t ∈ tr -> C t :=
        fun t ht => hC t (List.mem_append_left _ ht)
      have hlast := hC _ (List.mem_append_right tr (List.mem_singleton_self _))
      exact step htr hbefore (ih hbefore) hstep hlast

/-- What one transition brings about and every later step keeps: the predicate is on
the transitions since then. -/
theorem Trace.since {M : TransitionSystem State Action} {C : Transition State Action -> Prop}
    {earlier : List (Transition State Action)} {t : Transition State Action}
    {Q : List (Transition State Action) -> State -> Prop}
    (base : M.Trace earlier t.before -> (forall u, u ∈ earlier -> C u) ->
      M.step t.before t.action = some t.after -> C t -> Q [] t.after)
    (step : forall {later s s' a}, M.Trace (earlier ++ t :: later) s ->
      (forall u, u ∈ earlier ++ t :: later -> C u) -> Q later s ->
      M.step s a = some s' -> C { before := s, action := a, after := s' } ->
      Q (later ++ [{ before := s, action := a, after := s' }]) s')
    {later : List (Transition State Action)} {s : State}
    (h : M.Trace (earlier ++ t :: later) s) (hC : forall u, u ∈ earlier ++ t :: later -> C u) :
    Q later s := by
  generalize htr : earlier ++ t :: later = tr at h hC
  induction h generalizing later with
  | nil => exact absurd htr (List.append_ne_nil_of_right_ne_nil earlier nofun)
  | @snoc tr s s' a hbefore hstep ih =>
      have hold : forall u, u ∈ tr -> C u := fun u hu => hC u (List.mem_append_left _ hu)
      have hlast := hC _ (List.mem_append_right tr (List.mem_singleton_self _))
      rcases List.eq_nil_or_concat later with rfl | ⟨since, last, rfl⟩
      · rcases List.append_inj' htr rfl with ⟨rfl, heq⟩
        cases heq
        exact base hbefore hold hstep hlast
      · rw [List.concat_eq_append, ← List.cons_append, ← List.append_assoc] at htr
        rcases List.append_inj' htr rfl with ⟨rfl, heq⟩
        cases heq
        rw [List.concat_eq_append]
        exact step hbefore hold (ih rfl hold) hstep hlast

/-- Every transition of a trace is an enabled step. -/
theorem Trace.step_of_mem {M : TransitionSystem State Action}
    {tr : List (Transition State Action)} {s : State} (h : M.Trace tr s)
    {t : Transition State Action} (ht : t ∈ tr) :
    M.step t.before t.action = some t.after := by
  induction h with
  | nil => cases ht
  | snoc _ hstep ih =>
      rcases List.mem_append.mp ht with hold | hnew
      · exact ih hold
      · rw [List.mem_singleton.mp hnew]
        exact hstep

/-- The trace up to a transition is itself a trace, ending where it starts. -/
theorem Trace.before_of_mem {M : TransitionSystem State Action}
    {tr : List (Transition State Action)} {s : State} (h : M.Trace tr s)
    {t : Transition State Action} (ht : t ∈ tr) :
    exists earlier, M.Trace earlier t.before ∧
      forall u, u ∈ earlier -> u ∈ tr := by
  induction h with
  | nil => cases ht
  | snoc htr _ ih =>
      rcases List.mem_append.mp ht with hold | hnew
      · rcases ih hold with ⟨earlier, hearlier, hsub⟩
        exact ⟨earlier, hearlier, fun u hu => List.mem_append_left _ (hsub u hu)⟩
      · rw [List.mem_singleton.mp hnew]
        exact ⟨_, htr, fun u hu => List.mem_append_left _ hu⟩

/-- A run has reached every state it visits along transitions of its own. -/
theorem Run.Visits.trace {M : TransitionSystem State Action} {r : M.Run} {s : State}
    (h : r.Visits s) :
    exists earlier, M.Trace earlier s ∧ forall t, t ∈ earlier -> t ∈ r.trace := by
  rcases h with rfl | ⟨t, ht, rfl⟩
  · exact ⟨r.trace, r.valid, fun _ ht => ht⟩
  · exact r.valid.before_of_mem ht

/-- A trace passes on from the end of each transition, or ends there. -/
theorem Trace.after_of_mem {M : TransitionSystem State Action}
    {tr : List (Transition State Action)} {s : State} (h : M.Trace tr s)
    {t : Transition State Action} (ht : t ∈ tr) :
    t.after = s ∨ exists u, u ∈ tr ∧ t.after = u.before := by
  induction h with
  | nil => cases ht
  | snoc _ _ ih =>
      rcases List.mem_append.mp ht with hold | hnew
      · rcases ih hold with hlast | ⟨u, hu, hnext⟩
        · exact Or.inr ⟨_, List.mem_append_right _ (List.mem_singleton_self _), hlast⟩
        · exact Or.inr ⟨u, List.mem_append_left _ hu, hnext⟩
      · rw [List.mem_singleton.mp hnew]
        exact Or.inl rfl

theorem Run.visits_after {M : TransitionSystem State Action} (r : M.Run)
    {t : Transition State Action} (ht : t ∈ r.trace) : r.Visits t.after :=
  r.valid.after_of_mem ht

/-- A preorder that every transition respects orders the states of a trace. -/
theorem Trace.before_rel {M : TransitionSystem State Action} {R : State -> State -> Prop}
    (htrans : forall s s' s'', R s s' -> R s' s'' -> R s s'')
    {tr : List (Transition State Action)} {s : State} (h : M.Trace tr s)
    (hstep : forall t, t ∈ tr -> R t.before t.after) {t : Transition State Action}
    (ht : t ∈ tr) : R t.before s := by
  induction h with
  | nil => cases ht
  | @snoc tr s s' a htr hnext ih =>
      have hlast : R s s' :=
        hstep _ (List.mem_append_right tr (List.mem_singleton_self _))
      rcases List.mem_append.mp ht with hold | hnew
      · have hbefore := ih (fun u hu => hstep u (List.mem_append_left _ hu)) hold
        exact htrans _ _ _ hbefore hlast
      · rw [List.mem_singleton.mp hnew]
        exact hlast

theorem Run.visits_rel {M : TransitionSystem State Action} {R : State -> State -> Prop}
    (hrefl : forall s, R s s) (htrans : forall s s' s'', R s s' -> R s' s'' -> R s s'')
    (r : M.Run) (hstep : r.Always fun t => R t.before t.after) {s : State}
    (h : r.Visits s) : R s r.state := by
  rcases h with rfl | ⟨t, ht, rfl⟩
  · exact hrefl _
  · exact r.valid.before_rel htrans hstep ht

/-!
# Schedules

A schedule is replayed by running the step function; a replay that gets stuck
has no result.
-/

def replayFrom (M : TransitionSystem State Action) :
    List (Transition State Action) -> State -> List Action ->
      Option (List (Transition State Action) × State)
  | tr, s, [] => some (tr, s)
  | tr, s, a :: rest =>
      match M.step s a with
      | none => none
      | some s' =>
          replayFrom M (tr ++ [{ before := s, action := a, after := s' }]) s' rest

def replay (M : TransitionSystem State Action) (schedule : List Action) :
    Option (List (Transition State Action) × State) :=
  M.replayFrom [] M.init schedule

theorem replayFrom_trace {M : TransitionSystem State Action}
    {tr tr' : List (Transition State Action)} {s s' : State}
    {schedule : List Action} (h : M.Trace tr s)
    (hrun : M.replayFrom tr s schedule = some (tr', s')) : M.Trace tr' s' := by
  induction schedule generalizing tr s with
  | nil =>
      cases hrun
      exact h
  | cons a rest ih =>
      cases hstep : M.step s a with
      | none =>
          rw [replayFrom, hstep] at hrun
          cases hrun
      | some next =>
          rw [replayFrom, hstep] at hrun
          exact ih (Trace.snoc h hstep) hrun

theorem replay_trace {M : TransitionSystem State Action}
    {tr : List (Transition State Action)} {s : State} {schedule : List Action}
    (hrun : M.replay schedule = some (tr, s)) : M.Trace tr s :=
  replayFrom_trace Trace.nil hrun

/-- The run of a schedule that does not get stuck. -/
def runOf (M : TransitionSystem State Action) (schedule : List Action)
    (h : (M.replay schedule).isSome) : M.Run where
  trace := ((M.replay schedule).get h).1
  state := ((M.replay schedule).get h).2
  valid := replay_trace (Option.some_get h).symm

end TransitionSystem
end Foundation
end KVRaft
