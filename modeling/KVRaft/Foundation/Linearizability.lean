import Mathlib.Data.List.Nodup
import Mathlib.Data.List.Perm.Basic
import Mathlib.Data.List.Range

/-!
# Linearizability

An object says what its operations do one at a time.  A history of calls, of which
many may be under way at once, is linearizable if some order of its calls is a run
of the object and no call comes before one that had returned when it began.

Where an object is replicated through a log, the calls that change it take effect at
the places of the log, and a call that only reads may do so between any two of them.
-/

namespace KVRaft
namespace Foundation

structure SequentialObject (State Op Value : Type) where
  init : State
  apply : State -> Op -> State × Value

/-- A call that has taken effect, with the value it returns. -/
structure Effect (Op Value : Type) where
  call : Nat
  op : Op
  value : Value
  deriving DecidableEq, Repr

namespace SequentialObject

variable {State Op Value : Type} (obj : SequentialObject State Op Value)

/-- Run from one state to another the object returns the values of these calls. -/
def Legal : State -> List (Effect Op Value) -> State -> Prop
  | s, [], s' => s = s'
  | s, x :: xs, s' => (obj.apply s x.op).2 = x.value ∧ Legal (obj.apply s x.op).1 xs s'

variable {obj}

theorem Legal.append {s s' s'' : State} {xs ys : List (Effect Op Value)}
    (hxs : obj.Legal s xs s') (hys : obj.Legal s' ys s'') : obj.Legal s (xs ++ ys) s'' := by
  induction xs generalizing s with
  | nil =>
      cases hxs
      exact hys
  | cons x xs ih => exact ⟨hxs.1, ih hxs.2⟩

/-- A call that leaves a state as it is and returns what it does. -/
def ReadsIn (obj : SequentialObject State Op Value) (s : State) (x : Effect Op Value) : Prop :=
  obj.apply s x.op = (s, x.value)

theorem legal_reads {s : State} {xs : List (Effect Op Value)}
    (h : forall x, x ∈ xs -> obj.ReadsIn s x) : obj.Legal s xs s := by
  induction xs with
  | nil => rfl
  | cons x xs ih =>
      have hread := h x List.mem_cons_self
      have hrest := ih fun y hy => h y (List.mem_cons_of_mem x hy)
      rw [Legal, hread]
      exact ⟨rfl, hrest⟩

end SequentialObject

/-- An order of calls that explains the values returned: a run of the object in which
every call that has returned has its value, and which keeps to the order of the calls
that did not overlap. -/
structure Linearizes {State Op Value : Type} (obj : SequentialObject State Op Value)
    (calls : List Op) (returned : List (Nat × Value)) (Precedes : Nat -> Nat -> Prop)
    (order : List (Effect Op Value)) : Prop where
  issued : forall x, x ∈ order -> calls[x.call]? = some x.op
  once : (order.map Effect.call).Nodup
  complete : forall call value, (call, value) ∈ returned ->
    exists x, x ∈ order ∧ x.call = call ∧ x.value = value
  legal : exists s, obj.Legal obj.init order s
  realTime : order.Pairwise fun x y => ¬ Precedes y.call x.call

/-!
# Reading between the places of a log

`log k` are the calls that take effect at place `k`; a read at place `k` comes right
before them.
-/

section

variable {α : Type}

/-- The reads at a place. -/
def readsAt (reads : List α) (point : α -> Nat) (k : Nat) : List α :=
  reads.filter fun x => point x = k

/-- The first `m` places, each after the reads at it. -/
def sequence (log : Nat -> List α) (reads : List α) (point : α -> Nat) (m : Nat) : List α :=
  (List.range m).flatMap fun k => readsAt reads point k ++ log k

variable {log : Nat -> List α} {reads : List α} {point : α -> Nat} {m : Nat}

theorem mem_readsAt {k : Nat} {x : α} :
    x ∈ readsAt reads point k <-> x ∈ reads ∧ point x = k := by
  rw [readsAt, List.mem_filter, decide_eq_true_iff]

theorem mem_sequence {x : α} :
    x ∈ sequence log reads point m <->
      exists k, k < m ∧ ((x ∈ reads ∧ point x = k) ∨ x ∈ log k) := by
  rw [sequence, List.mem_flatMap]
  constructor
  · rintro ⟨k, hk, hx⟩
    rw [List.mem_append, mem_readsAt] at hx
    exact ⟨k, List.mem_range.mp hk, hx⟩
  · rintro ⟨k, hk, hx⟩
    refine ⟨k, List.mem_range.mpr hk, ?_⟩
    rw [List.mem_append, mem_readsAt]
    exact hx

theorem sequence_succ : sequence log reads point (m + 1) =
    sequence log reads point m ++ (readsAt reads point m ++ log m) := by
  rw [sequence, List.range_succ, List.flatMap_append, List.flatMap_singleton, sequence]

theorem sequence_prefix {k : Nat} (hk : k ≤ m) :
    sequence log reads point k <+: sequence log reads point m := by
  induction m, hk using Nat.le_induction with
  | base => exact List.prefix_rfl
  | succ m _ ih =>
      rw [sequence_succ]
      exact ih.trans (List.prefix_append _ _)

/-- A relation that holds at every place, from the reads there to what takes effect,
and from each place to the later ones. -/
theorem pairwise_sequence {R : α -> α -> Prop}
    (hreads : forall k, (readsAt reads point k).Pairwise R)
    (hlog : forall k, (log k).Pairwise R)
    (hplace : forall k x y, x ∈ reads -> point x = k -> y ∈ log k -> R x y)
    (hlater : forall k l x y, k < l -> ((x ∈ reads ∧ point x = k) ∨ x ∈ log k) ->
      ((y ∈ reads ∧ point y = l) ∨ y ∈ log l) -> R x y) :
    (sequence log reads point m).Pairwise R := by
  rw [sequence, List.pairwise_flatMap]
  constructor
  · intro k _
    rw [List.pairwise_append]
    refine ⟨hreads k, hlog k, ?_⟩
    intro x hx y hy
    rw [mem_readsAt] at hx
    exact hplace k x y hx.1 hx.2 hy
  · apply List.pairwise_lt_range.imp
    intro k l hkl x hx y hy
    rw [List.mem_append, mem_readsAt] at hx hy
    exact hlater k l x y hkl hx hy

end

variable {State Op Value : Type} {obj : SequentialObject State Op Value}

/-- The states between the places of a log are those of the run. -/
theorem legal_sequence {log : Nat -> List (Effect Op Value)} {reads : List (Effect Op Value)}
    {point : Effect Op Value -> Nat} {state : Nat -> State}
    (hlog : forall k, obj.Legal (state k) (log k) (state (k + 1)))
    (hreads : forall x, x ∈ reads -> obj.ReadsIn (state (point x)) x) (m : Nat) :
    obj.Legal (state 0) (sequence log reads point m) (state m) := by
  induction m with
  | zero => rfl
  | succ m ih =>
      have hhere : obj.Legal (state m) (readsAt reads point m) (state m) := by
        apply SequentialObject.legal_reads
        intro x hx
        rcases mem_readsAt.mp hx with ⟨hmem, hpoint⟩
        rw [← hpoint]
        exact hreads x hmem
      rw [sequence_succ]
      exact ih.append (hhere.append (hlog m))

end Foundation
end KVRaft
