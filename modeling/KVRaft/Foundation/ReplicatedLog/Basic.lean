import Mathlib.Data.List.Infix
import Mathlib.Order.Defs.LinearOrder
import Mathlib.Tactic.Linarith
import KVRaft.Foundation.Lists
import KVRaft.Foundation.Quorum

/-!
# Logs replicated by elected leaders

An abstract account of leader-based log replication over any set of servers,
any quorum system, any linear order of terms and any kind of entry that knows
the term it was created in.  Logs are complete: nothing is ever compacted here.

Besides the current terms and logs the state keeps what the argument talks
about: the ballots cast, the log each candidate stood with, the leader of each
term with the log it was elected with and the log it has built so far, and which
prefixes of that log a server has acknowledged.
-/

namespace KVRaft
namespace Foundation

set_option linter.unusedSectionVars false

/-!
# Prefixes
-/

theorem take_eq_of_isPrefix {E : Type} {L K : List E} (h : L <+: K) {n : Nat}
    (hn : n ≤ L.length) : K.take n = L.take n := by
  rcases h with ⟨rest, rfl⟩
  exact List.take_append_of_le_length hn

theorem take_eq_of_take_isPrefix {E : Type} {L K : List E} {n : Nat} (h : L.take n <+: K)
    (hn : n ≤ L.length) : K.take n = L.take n := by
  have hlen : n ≤ (L.take n).length := by
    rw [List.length_take]
    omega
  rw [take_eq_of_isPrefix h hlen, List.take_take, Nat.min_self]

structure LogSystem (S E τ : Type) where
  quorums : QuorumSystem S
  termOf : E -> τ

structure LogState (S E τ : Type) where
  term : S -> τ
  log : S -> List E
  vote : S -> τ -> Option S
  claim : τ -> S -> Option (List E)
  leader : τ -> Option S
  base : τ -> List E
  leaderLog : τ -> List E
  acked : S -> τ -> Nat -> Prop

namespace LogState

variable {S E τ : Type} [DecidableEq S] [DecidableEq τ]

/-!
# Updates

Each step changes a few components; these are the updates they are made of.
-/

def setTerm (α : LogState S E τ) (v : S) (t : τ) : LogState S E τ :=
  { α with term := Function.update α.term v t }

def setLog (α : LogState S E τ) (v : S) (L : List E) : LogState S E τ :=
  { α with log := Function.update α.log v L }

def castVote (α : LogState S E τ) (v : S) (t : τ) (c : S) : LogState S E τ :=
  { α with vote := Function.update α.vote v (Function.update (α.vote v) t (some c)) }

def setClaim (α : LogState S E τ) (t : τ) (c : S) (L : List E) : LogState S E τ :=
  { α with
    claim := Function.update α.claim t (Function.update (α.claim t) c (some L)) }

def crown (α : LogState S E τ) (t : τ) (c : S) (L : List E) : LogState S E τ :=
  { α with
    leader := Function.update α.leader t (some c)
    base := Function.update α.base t L
    leaderLog := Function.update α.leaderLog t L }

def extendLog (α : LogState S E τ) (t : τ) (c : S) (e : E) : LogState S E τ :=
  { α with
    log := Function.update α.log c (α.log c ++ [e])
    leaderLog := Function.update α.leaderLog t (α.leaderLog t ++ [e]) }

def addAck (α : LogState S E τ) (v : S) (t : τ) (N : Nat) : LogState S E τ :=
  { α with
    acked := fun u T k => α.acked u T k ∨ (u = v ∧ T = t ∧ k = N) }

@[simp] theorem setTerm_term (α : LogState S E τ) (v u : S) (t : τ) :
    (α.setTerm v t).term u = if u = v then t else α.term u :=
  Function.update_apply _ _ _ _

@[simp] theorem setLog_log (α : LogState S E τ) (v u : S) (L : List E) :
    (α.setLog v L).log u = if u = v then L else α.log u :=
  Function.update_apply _ _ _ _

@[simp] theorem castVote_vote (α : LogState S E τ) (v u : S) (t T : τ) (c : S) :
    (α.castVote v t c).vote u T =
      if u = v ∧ T = t then some c else α.vote u T := by
  by_cases hu : u = v
  · subst hu
    simp [castVote, Function.update_apply]
  · simp [castVote, hu]

@[simp] theorem setClaim_claim (α : LogState S E τ) (t T : τ) (c d : S)
    (L : List E) :
    (α.setClaim t c L).claim T d =
      if T = t ∧ d = c then some L else α.claim T d := by
  by_cases hT : T = t
  · subst hT
    simp [setClaim, Function.update_apply]
  · simp [setClaim, hT]

@[simp] theorem crown_leader (α : LogState S E τ) (t T : τ) (c : S) (L : List E) :
    (α.crown t c L).leader T = if T = t then some c else α.leader T :=
  Function.update_apply _ _ _ _

@[simp] theorem crown_base (α : LogState S E τ) (t T : τ) (c : S) (L : List E) :
    (α.crown t c L).base T = if T = t then L else α.base T :=
  Function.update_apply _ _ _ _

@[simp] theorem crown_leaderLog (α : LogState S E τ) (t T : τ) (c : S)
    (L : List E) :
    (α.crown t c L).leaderLog T = if T = t then L else α.leaderLog T :=
  Function.update_apply _ _ _ _

@[simp] theorem extendLog_log (α : LogState S E τ) (t : τ) (c u : S) (e : E) :
    (α.extendLog t c e).log u = if u = c then α.log c ++ [e] else α.log u :=
  Function.update_apply _ _ _ _

@[simp] theorem extendLog_leaderLog (α : LogState S E τ) (t T : τ) (c : S) (e : E) :
    (α.extendLog t c e).leaderLog T =
      if T = t then α.leaderLog t ++ [e] else α.leaderLog T :=
  Function.update_apply _ _ _ _

end LogState

namespace LogSystem

variable {S E τ : Type} [DecidableEq S] [LinearOrder τ]

/-!
# Comparing logs

A log is at least as up to date as another when it ends in a later term, or in
the same term and is no shorter.  A prefix is settled in a term when it ends in
that leader's own entry and a quorum has acknowledged it; it is live while a
quorum may still come to acknowledge it.
-/

def UpToDate (M : LogSystem S E τ) (L K : List E) : Prop :=
  forall e, K.getLast? = some e ->
    exists d, L.getLast? = some d ∧
      (M.termOf e < M.termOf d ∨
        (M.termOf e = M.termOf d ∧ K.length ≤ L.length))

/-- Position `N` of the leader's log of term `T` holds an entry of that term. -/
def Own (M : LogSystem S E τ) (α : LogState S E τ) (T : τ) (N : Nat) : Prop :=
  exists k e, N = k + 1 ∧ (α.leaderLog T)[k]? = some e ∧ M.termOf e = T

def Settled (M : LogSystem S E τ) (α : LogState S E τ) (T : τ) (N : Nat) : Prop :=
  M.Own α T N ∧
    exists Q, M.quorums.IsQuorum Q ∧ forall q, q ∈ Q -> α.acked q T N

def Live (M : LogSystem S E τ) (α : LogState S E τ) (T : τ) (N : Nat) : Prop :=
  M.Own α T N ∧
    exists Q, M.quorums.IsQuorum Q ∧
      forall q, q ∈ Q -> α.acked q T N ∨ α.term q ≤ T

/-- `L` is known to be committed by term `t`: it is empty or part of a prefix
settled in a term up to `t`. -/
def Committed (M : LogSystem S E τ) (α : LogState S E τ) (L : List E) (t : τ) :
    Prop :=
  L = [] ∨
    exists T N, T ≤ t ∧ M.Settled α T N ∧ L <+: (α.leaderLog T).take N

/-- Keep a log that already contains `L`, replace it by `L` otherwise. -/
noncomputable def keep (L K : List E) : List E := by
  classical
  exact if L <+: K then K else L

theorem keep_of_isPrefix {L K : List E} (h : L <+: K) : keep L K = K :=
  if_pos h

theorem keep_of_not_isPrefix {L K : List E} (h : ¬ L <+: K) : keep L K = L :=
  if_neg h

theorem keep_eq_or (L K : List E) : keep L K = K ∨ keep L K = L := by
  by_cases h : L <+: K
  · exact Or.inl (keep_of_isPrefix h)
  · exact Or.inr (keep_of_not_isPrefix h)

/-- The offer is always contained in the outcome. -/
theorem prefix_keep_self (L K : List E) : L <+: keep L K := by
  by_cases h : L <+: K
  · rw [keep_of_isPrefix h]
    exact h
  · rw [keep_of_not_isPrefix h]

/-- What a log contains survives `keep` if it is comparable with the offer. -/
theorem prefix_keep {P L K : List E} (hP : P <+: K)
    (hcomp : P <+: L ∨ L <+: P) : P <+: keep L K := by
  by_cases h : L <+: K
  · rw [keep_of_isPrefix h]
    exact hP
  · rw [keep_of_not_isPrefix h]
    rcases hcomp with hPL | hLP
    · exact hPL
    · exact absurd (hLP.trans hP) h

/-!
# Steps

`Step M v` is what server `v` may do.  A `Slip` is a step a faulty
implementation may take instead: rewriting a log with entries that do come from
the right positions of leaders' logs but need not fit together, or acknowledging
a prefix it may not hold.
-/

inductive Step (M : LogSystem S E τ) (v : S) (α : LogState S E τ) :
    LogState S E τ -> Prop where
  | learn {t : τ} : α.term v ≤ t -> Step M v α (α.setTerm v t)
  | stand {t : τ} : α.term v < t ->
      Step M v α (((α.setTerm v t).setClaim t v (α.log v)).castVote v t v)
  | grant {c : S} {L : List E} :
      α.vote v (α.term v) = none ->
      α.claim (α.term v) c = some L ->
      M.UpToDate L (α.log v) ->
      Step M v α (α.castVote v (α.term v) c)
  | win {Q : Finset S} :
      α.leader (α.term v) = none ->
      M.quorums.IsQuorum Q ->
      (forall q, q ∈ Q -> α.vote q (α.term v) = some v) ->
      Step M v α (α.crown (α.term v) v (α.log v))
  | extend {e : E} :
      α.leader (α.term v) = some v ->
      α.log v = α.leaderLog (α.term v) ->
      M.termOf e = α.term v ->
      Step M v α (α.extendLog (α.term v) v e)
  | adopt {c : S} {L : List E} :
      α.leader (α.term v) = some c ->
      α.base (α.term v) <+: L ->
      L <+: α.leaderLog (α.term v) ->
      Step M v α (α.setLog v (keep L (α.log v)))
  | acknowledge {c : S} {N : Nat} :
      α.leader (α.term v) = some c ->
      N ≤ (α.leaderLog (α.term v)).length ->
      (α.leaderLog (α.term v)).take N <+: α.log v ->
      Step M v α (α.addAck v (α.term v) N)
  | install {L : List E} :
      M.Committed α L (α.term v) ->
      Step M v α (α.setLog v (keep L (α.log v)))

inductive Slip (M : LogSystem S E τ) (v : S) (α : LogState S E τ) :
    LogState S E τ -> Prop where
  | splice {L : List E} :
      (forall (i : Nat) (e : E), L[i]? = some e ->
        (α.leaderLog (M.termOf e))[i]? = some e ∧ M.termOf e ≤ α.term v) ->
      Slip M v α (α.setLog v L)
  | overAck {c : S} {N : Nat} :
      α.leader (α.term v) = some c ->
      N ≤ (α.leaderLog (α.term v)).length ->
      Slip M v α (α.addAck v (α.term v) N)

def Move (M : LogSystem S E τ) (v : S) (α β : LogState S E τ) : Prop :=
  M.Step v α β ∨ M.Slip v α β

end LogSystem
end Foundation
end KVRaft
