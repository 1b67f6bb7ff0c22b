import KVRaft.RaftClerk.ExactlyOnce

/-!
# Reads and replicated state

Two servers that have gone through the same operations have the same map and have
dropped the same operations, unless a reader set the number of a request back on
one of them.
-/

namespace KVRaft
namespace RaftClerk

open Foundation KvServer Service

variable {n : Nat}

/-- The operation at a place of the history was a duplicate and not executed. -/
def Server.Suppressed (server : Server) (k : Nat) : Prop :=
  exists p, p ∈ server.history[k]? ∧ p.1.op.Writes ∧ p.2 = true

instance (server : Server) : DecidablePred server.Suppressed := fun k =>
  inferInstanceAs (Decidable
    (exists p, p ∈ server.history[k]? ∧ p.1.op.Writes ∧ p.2 = true))

structure SameOutcome (server server' : Server) : Prop where
  map : forall key,
    server.kv.skipList.searchElement key = server'.kv.skipList.searchElement key
  suppressed : forall k, server.Suppressed k <-> server'.Suppressed k

/-- Servers that have gone through as much have reached the same outcome. -/
def Agree (σ : Service n) : Prop :=
  forall i j, (σ.server i).applied = (σ.server j).applied ->
    SameOutcome (σ.server i) (σ.server j)

theorem suppressed_of_same {server server' : Server} (h : server.Exact)
    (h' : server'.Exact) (hseen : server.seen = server'.seen) {k : Nat}
    (hk : server.Suppressed k) : server'.Suppressed k := by
  rcases hk with ⟨p, hp, hwrites, hduplicate⟩
  have hlength : k < server'.history.length := by
    have hlengths := congrArg List.length hseen
    rw [Server.seen_length, Server.seen_length] at hlengths
    rw [Server.applied, Server.applied] at hlengths
    rw [← hlengths]
    exact (List.getElem?_eq_some_iff.mp hp).1
  have hq := List.getElem?_eq_getElem hlength
  have hsame := h.judged.agree h'.judged hseen hp hq hwrites
  exact ⟨p, by rw [hq, hsame]; rfl, hwrites, hduplicate⟩

theorem executed_eq_of_same {server server' : Server} (h : server.Exact)
    (h' : server'.Exact) (hseen : server.seen = server'.seen) :
    server.executed = server'.executed :=
  h.judged.executed_eq h'.judged hseen

theorem sameOutcome {σ : Service n} (h : Orderly σ) (hexact : forall i, (σ.server i).Exact) :
    Agree σ := by
  intro i j happlied
  have hseen : (σ.server i).seen = (σ.server j).seen := by
    have hi := List.prefix_iff_eq_take.mp (h.server i).log
    have hj := List.prefix_iff_eq_take.mp (h.server j).log
    rw [Server.seen_length] at hi hj
    rw [hi, hj, happlied]
  constructor
  · intro key
    rw [(h.server i).map, (h.server j).map]
    change (mapOf (σ.server i).executed).searchElement key =
      (mapOf (σ.server j).executed).searchElement key
    rw [executed_eq_of_same (hexact i) (hexact j) hseen]
  · intro k
    constructor
    · exact suppressed_of_same (hexact i) (hexact j) hseen
    · exact suppressed_of_same (hexact j) (hexact i) hseen.symm

theorem reads_do_not_influence [NeZero n] {rand : Nat -> Nat}
    (r : (serviceSystem n rand).Run) (hfresh : r.Always (FreshId rand))
    (hraise : r.Always NeverLowers) {σ : Service n} (hσ : r.Visits σ) : Agree σ := by
  rcases hσ.trace with ⟨earlier, htrace, hsub⟩
  apply sameOutcome (orderly htrace fun t ht => hfresh t (hsub t ht))
  exact exact_of_trace htrace fun t ht => ⟨hfresh t (hsub t ht), hraise t (hsub t ht)⟩

/-!
# A late reader

The handler of a Get on server 0 is slow.  Meanwhile the clerk gets its answer from
server 1 and appends `a` to `x`, on server 0 and again on server 1.  The handler
reads between the two entries of the Append.
-/

def lateReadSchedule : List (Action 2) :=
  [.newClerk 0, .invoke 0 (.get [120]), .handle 0 (.start (some 1)), .handle 0 .openWaitChan,
    .commit 0, .getCommandFromRaft 0, .getCommandFromRaft 0, .getCommandFromRaft 0,
    .handle 0 .timeOutPop, .fail 0, .handle 1 (.start (some 2)), .handle 1 .openWaitChan,
    .commit 1, .getCommandFromRaft 1, .getCommandFromRaft 1, .getCommandFromRaft 1,
    .getCommandFromRaft 1, .getCommandFromRaft 1, .getCommandFromRaft 1,
    .handle 1 .timeOutPop, .handle 1 .executeGetOpOnKVDB, .handle 1 .closeWaitChan,
    .receive 0, .invoke 0 (.append [120] [97]), .handle 2 (.start (some 3)),
    .handle 2 .openWaitChan, .commit 2, .fail 0, .handle 3 (.start (some 4)),
    .handle 3 .openWaitChan, .commit 3, .getCommandFromRaft 0, .getCommandFromRaft 0,
    .getCommandFromRaft 0, .getCommandFromRaft 0, .getCommandFromRaft 0,
    .getCommandFromRaft 0, .handle 0 .executeGetOpOnKVDB, .getCommandFromRaft 0,
    .getCommandFromRaft 0, .getCommandFromRaft 0, .getCommandFromRaft 1,
    .getCommandFromRaft 1, .getCommandFromRaft 1, .getCommandFromRaft 1,
    .getCommandFromRaft 1, .getCommandFromRaft 1]

def lateReadRun : (serviceSystem 2 unseeded).Run :=
  TransitionSystem.runOf _ lateReadSchedule (by decide +kernel)

theorem lateReadRun_appends_twice :
    lateReadRun.Visits lateReadRun.state ∧ lateReadRun.Always (FreshId unseeded) ∧
      ¬ Agree lateReadRun.state ∧
      (lateReadRun.state.server 0).kv.skipList.searchElement [120] = some [97, 97] ∧
      (lateReadRun.state.server 1).kv.skipList.searchElement [120] = some [97] := by
  have hfresh : forall t, t ∈ lateReadRun.trace -> FreshId unseeded t := by
    decide +kernel
  have hzero : (lateReadRun.state.server 0).kv.skipList.searchElement [120] =
      some [97, 97] := by
    decide +kernel
  have hone : (lateReadRun.state.server 1).kv.skipList.searchElement [120] =
      some [97] := by
    decide +kernel
  refine ⟨Or.inl rfl, hfresh, ?_, hzero, hone⟩
  intro hagree
  have hsame := (hagree 0 1 (by decide +kernel)).map [120]
  rw [hzero, hone] at hsame
  cases hsame

def noLateReadRun : (serviceSystem 2 unseeded).Run :=
  TransitionSystem.runOf _
    (lateReadSchedule.filter fun a => a ≠ .handle 0 .executeGetOpOnKVDB) (by decide +kernel)

/-- Without the late reader both servers drop the second entry of the Append. -/
theorem noLateReadRun_agrees :
    (noLateReadRun.state.server 0).applied = 4 ∧ (noLateReadRun.state.server 1).applied = 4 ∧
      Agree noLateReadRun.state := by
  have hfresh : forall t, t ∈ noLateReadRun.trace -> FreshId unseeded t := by
    decide +kernel
  have hraise : forall t, t ∈ noLateReadRun.trace -> NeverLowers t := by
    decide +kernel
  exact ⟨by decide +kernel, by decide +kernel,
    reads_do_not_influence noLateReadRun hfresh hraise (Or.inl rfl)⟩

end RaftClerk
end KVRaft
