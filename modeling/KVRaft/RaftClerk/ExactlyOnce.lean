import KVRaft.RaftClerk.Orderly
import KVRaft.RaftCore.Raft.PlainArchive

/-!
# Each call is applied once

With ids of their own, and no reader that sets the number of a request back, every
Put and every Append that returns has been applied once.  Processes that never
seed their random numbers give their clerks the same id.
-/

namespace KVRaft
namespace RaftClerk

open Foundation KvServer Service

variable {n : Nat}

/-!
# What is asked of a state
-/

/-- How often a server has executed the operation of a call. -/
def Server.timesExecuted (server : Server) (call : Nat) : Nat :=
  (server.executed.map Entry.call).count call

namespace Service

/-- Applied once: by some server, by none twice, and by all that are up to date. -/
structure AppliedOnce (σ : Service n) (call : Nat) : Prop where
  somewhere : exists i, (σ.server i).timesExecuted call = 1
  atMost : forall i, (σ.server i).timesExecuted call ≤ 1
  upToDate : forall i, (σ.server i).applied = σ.committed.length ->
    (σ.server i).timesExecuted call = 1

/-- No operation is dropped, and none that was acknowledged is missing from a map. -/
structure ExactlyOnce (σ : Service n) : Prop where
  applied : forall call value op, (call, value) ∈ σ.returned ->
    σ.calls[call]? = some op -> op.Writes -> σ.AppliedOnce call
  kept : forall i entry, entry ∈ (σ.server i).seen -> entry.op.Writes ->
    (σ.server i).timesExecuted entry.call = 1
  map : forall i, (σ.server i).kv.skipList = mapOf (σ.server i).executed

/-- The handler call of a Get that reads in a step. -/
def reader (σ : Service n) : Action n -> Option (Attempt n)
  | .handle a .executeGetOpOnKVDB => σ.attempts[a]?
  | _ => none

end Service

/-- A reader does not set the last request of its client back. -/
def NeverLowers (t : Transition (Service n) (Action n)) : Prop :=
  forall attempt, attempt ∈ t.before.reader t.action -> forall last,
    last ∈ lastRequest (t.before.server attempt.server).kv attempt.entry.op.clientId ->
      last ≤ attempt.entry.op.requestId

instance : DecidablePred (NeverLowers (n := n)) := fun t =>
  inferInstanceAs (Decidable
    (forall attempt, attempt ∈ t.before.reader t.action -> forall last,
      last ∈ lastRequest (t.before.server attempt.server).kv attempt.entry.op.clientId ->
        last ≤ attempt.entry.op.requestId))

def KeepsApart (rand : Nat -> Nat) (t : Transition (Service n) (Action n)) : Prop :=
  FreshId rand t ∧ NeverLowers t

instance (rand : Nat -> Nat) : DecidablePred (KeepsApart (n := n) rand) := fun t =>
  inferInstanceAs (Decidable (FreshId rand t ∧ NeverLowers t))

/-!
# The verdicts of every server
-/

theorem exact_step [NeZero n] {rand : Nat -> Nat} {σ σ' : Service n} {a : Action n}
    (horderly : Orderly σ) (hexact : forall i, (σ.server i).Exact)
    (heffect : StepEffect rand σ a σ')
    (hraise : NeverLowers { before := σ, action := a, after := σ' }) (i : Fin n) :
    (σ'.server i).Exact := by
  cases heffect with
  | @handled a attempt action kv phase hattempt hrun =>
      by_cases hi : i = attempt.server
      · rw [hi, handled_server_self]
        apply (hexact attempt.server).handle (handle_effect hrun)
        rintro rfl last hlast
        exact hraise attempt hattempt last hlast
      · rw [handled_server_of_ne _ _ _ _ _ _ hi]
        exact hexact i
  | @consumed j server hstep =>
      by_cases hi : i = j
      · rw [hi]
        change (Function.update σ.server j server j).Exact
        rw [Function.update_self]
        exact (hexact j).getCommandFromRaft (horderly.server j) horderly.inSequence.order
          horderly.numbered.distinguishes horderly.authentic.committed hstep
      · change (Function.update σ.server j server i).Exact
        rw [Function.update_of_ne hi]
        exact hexact i
  | created => exact hexact i
  | invoked _ => exact hexact i
  | committed _ => exact hexact i
  | resent _ => exact hexact i
  | returned _ _ _ => exact hexact i

theorem exact_of_trace [NeZero n] {rand : Nat -> Nat}
    {tr : List (Transition (Service n) (Action n))} {σ : Service n}
    (h : (serviceSystem n rand).Trace tr σ)
    (hapart : forall t, t ∈ tr -> KeepsApart rand t) (i : Fin n) : (σ.server i).Exact := by
  refine TransitionSystem.Trace.invariant_under
    (P := fun _ σ => forall i, (σ.server i).Exact) (fun _ => Server.exact_initial)
    ?_ h hapart i
  intro tr σ σ' a htrace hbefore ih hstep hlast
  exact exact_step (orderly htrace fun t ht => (hbefore t ht).1) ih (step_effect hstep)
    hlast.2

/-!
# Counting
-/

namespace Service

variable {σ : Service n}

theorem executed_calls_nodup (h : Orderly σ) {i : Fin n} (hexact : (σ.server i).Exact) :
    ((σ.server i).executed.map Entry.call).Nodup := by
  apply List.Nodup.map_on _ hexact.judged.nodup
  intro a ha b hb hcall
  exact issued_call (h.seen_issued (History.executed_seen ha))
    (h.seen_issued (History.executed_seen hb)) hcall

theorem timesExecuted_le_one (h : Orderly σ) {i : Fin n} (hexact : (σ.server i).Exact)
    (call : Nat) : (σ.server i).timesExecuted call ≤ 1 :=
  List.nodup_iff_count_le_one.mp (executed_calls_nodup h hexact) call

theorem timesExecuted_of_seen (h : Orderly σ) {i : Fin n} (hexact : (σ.server i).Exact)
    {entry : Entry} (hseen : entry ∈ (σ.server i).seen) (hwrites : entry.op.Writes) :
    (σ.server i).timesExecuted entry.call = 1 := by
  have hmem := hexact.judged.executed_of_seen hseen hwrites
  exact List.count_eq_one_of_mem (executed_calls_nodup h hexact)
    (List.mem_map.mpr ⟨entry, hmem, rfl⟩)

/-- A server that is up to date has gone past all that was committed. -/
theorem seen_of_upToDate (h : Orderly σ) {i : Fin n}
    (happlied : (σ.server i).applied = σ.committed.length) :
    (σ.server i).seen = σ.committed := by
  apply (h.server i).log.eq_of_length
  rw [Server.seen_length, happlied]

theorem exactlyOnce (h : Orderly σ) (hexact : forall i, (σ.server i).Exact) :
    ExactlyOnce σ where
  applied := by
    intro call value op hreturned hop hwrites
    have hcall : call ∈ σ.returned.map Prod.fst :=
      List.mem_map.mpr ⟨(call, value), hreturned, rfl⟩
    rcases h.returned call hcall with ⟨i, entry, hseen, rfl⟩
    have hentry : entry.op = op := Option.some.inj ((h.seen_issued hseen).symm.trans hop)
    rw [← hentry] at hwrites
    constructor
    · exact ⟨i, timesExecuted_of_seen h (hexact i) hseen hwrites⟩
    · intro j
      exact timesExecuted_le_one h (hexact j) entry.call
    · intro j happlied
      apply timesExecuted_of_seen h (hexact j) _ hwrites
      rw [seen_of_upToDate h happlied]
      exact (h.server i).log.subset hseen
  kept i entry hseen hwrites := timesExecuted_of_seen h (hexact i) hseen hwrites
  map i := (h.server i).map

end Service

theorem exactly_once [NeZero n] {rand : Nat -> Nat} (r : (serviceSystem n rand).Run)
    (hapart : r.Always (KeepsApart rand)) {σ : Service n} (hσ : r.Visits σ) :
    σ.ExactlyOnce := by
  rcases hσ.trace with ⟨earlier, htrace, hsub⟩
  have hbefore : forall t, t ∈ earlier -> KeepsApart rand t :=
    fun t ht => hapart t (hsub t ht)
  exact exactlyOnce (orderly htrace fun t ht => (hbefore t ht).1)
    (exact_of_trace htrace hbefore)

/-!
# Two processes, one id

Neither process has drawn a random number before it creates its clerk.  The first
clerk puts `a` under `x`; the Put of the second one is taken for a duplicate.
-/

/-- The first numbers of a process that never seeds them. -/
def unseeded (k : Nat) : Nat :=
  [1804289383, 846930886, 1681692777, 1714636915, 1957747793, 424238335, 719885386,
    1649760492].getD k 0

/-- One handler call from start to reply, its operation committed in between. -/
def answered (client attempt proposal : Nat) (raftIndex : Int) : List (Action 2) :=
  [.handle attempt (.start (some raftIndex)), .handle attempt .openWaitChan,
    .commit proposal, .getCommandFromRaft 0, .getCommandFromRaft 0, .getCommandFromRaft 0,
    .handle attempt .timeOutPop, .handle attempt .closeWaitChan, .receive client]

def twoPuts (drawn : Nat) : List (Action 2) :=
  [.newClerk 0, .newClerk drawn, .invoke 0 (.put [120] [97])] ++ answered 0 0 0 1 ++
    [.invoke 1 (.put [121] [98])] ++ answered 1 1 1 2

def sameIdRun : (serviceSystem 2 unseeded).Run :=
  TransitionSystem.runOf _ (twoPuts 0) (by decide +kernel)

/-- The Put of the second clerk, with the id of the first one. -/
def secondPut : Op where
  operation := .put
  key := [121]
  value := [98]
  clientId := Clerk.uuid unseeded 0
  requestId := 1

theorem sameIdRun_drops_a_put :
    sameIdRun.Visits sameIdRun.state ∧ ¬ sameIdRun.state.ExactlyOnce ∧
      (1, []) ∈ sameIdRun.state.returned ∧
      forall i, (sameIdRun.state.server i).kv.skipList.searchElement [121] = none := by
  refine ⟨Or.inl rfl, ?_, by decide +kernel, by decide +kernel⟩
  intro h
  have hop : sameIdRun.state.calls[1]? = some secondPut := by decide +kernel
  have hnever : forall i, (sameIdRun.state.server i).timesExecuted 1 = 0 := by
    decide +kernel
  rcases (h.applied 1 [] secondPut (by decide +kernel) hop (by decide)).somewhere with
    ⟨i, honce⟩
  rw [hnever i] at honce
  cases honce

def twoIdsRun : (serviceSystem 2 unseeded).Run :=
  TransitionSystem.runOf _ (twoPuts 4) (by decide +kernel)

/-- Two clerks of one process have ids of their own. -/
theorem twoIdsRun_applies_once : twoIdsRun.state.ExactlyOnce := by
  have hapart : forall t, t ∈ twoIdsRun.trace -> KeepsApart unseeded t := by
    decide +kernel
  exact exactly_once twoIdsRun hapart (Or.inl rfl)

end RaftClerk
end KVRaft
