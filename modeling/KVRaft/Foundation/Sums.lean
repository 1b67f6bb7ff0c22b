import Mathlib.Algebra.BigOperators.Group.Finset.Piecewise
import Mathlib.Algebra.GroupWithZero.Nat
import Mathlib.Algebra.Order.BigOperators.Group.List
import Mathlib.Algebra.Order.Group.Nat
import Mathlib.Data.Fintype.Basic

/-!
# Sums of weights

What the sum of a weight over a list gains when one element is replaced, and what the sum
over finitely many parties gains when one of them gets something else.
-/

namespace KVRaft
namespace Foundation

variable {α M : Type} [AddCommMonoid M]

theorem sum_map_set (weight : α -> M) {l : List α} {i : Nat} {a : α} (h : l[i]? = some a)
    (a' : α) :
    ((l.set i a').map weight).sum + weight a = (l.map weight).sum + weight a' := by
  induction l generalizing i with
  | nil => cases h
  | cons first rest ih =>
      cases i with
      | zero =>
          cases h
          rw [List.set_cons_zero, List.map_cons, List.map_cons, List.sum_cons, List.sum_cons,
            add_comm, ← add_assoc, add_right_comm]
      | succ i =>
          rw [List.set_cons_succ, List.map_cons, List.map_cons, List.sum_cons, List.sum_cons,
            add_assoc, ih h, ← add_assoc]

theorem sum_update {ι : Type} [Fintype ι] [DecidableEq ι] (weight : α -> M) (held : ι -> α)
    (p : ι) (a : α) :
    ∑ q, weight (Function.update held p a q) + weight (held p) =
      ∑ q, weight (held q) + weight a := by
  have hnew : ∑ q, weight (Function.update held p a q) =
      weight a + ∑ q ∈ Finset.univ \ {p}, weight (held q) := by
    rw [← Finset.sum_update_of_mem (Finset.mem_univ p) (fun q => weight (held q))]
    exact Finset.sum_congr rfl fun q _ => Function.apply_update (fun _ => weight) held p a q
  have hold : ∑ q, weight (held q) =
      weight (held p) + ∑ q ∈ Finset.univ \ {p}, weight (held q) :=
    Finset.sum_eq_add_sum_sdiff_singleton_of_mem (Finset.mem_univ p) fun q => weight (held q)
  rw [hnew, hold, add_comm, ← add_assoc, add_right_comm]

end Foundation
end KVRaft
