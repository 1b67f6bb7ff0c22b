import Mathlib.Data.List.Basic

/-!
# Lists with levels

A list whose elements reach up to a level of their own.  At level `i` only the
elements that reach it are seen, so each level is a sublist of the one below.
-/

namespace KVRaft
namespace Foundation

section

variable {α : Type} {height : α -> Nat}

/-- The first element of a list that reaches level `i`. -/
def firstAt (height : α -> Nat) (i : Nat) (l : List α) : Option α :=
  l.find? fun a => i ≤ height a

/-- The last element that does. -/
def lastAt (height : α -> Nat) (i : Nat) (l : List α) : Option α :=
  l.reverse.find? fun a => i ≤ height a

variable {i : Nat} {l r : List α} {a : α}

theorem firstAt_append (i : Nat) (l r : List α) :
    firstAt height i (l ++ r) = (firstAt height i l).or (firstAt height i r) :=
  List.find?_append

theorem firstAt_eq_none : firstAt height i l = none <-> forall a, a ∈ l -> height a < i := by
  simp only [firstAt, List.find?_eq_none, decide_eq_true_eq, Nat.not_le]

/-- What comes before the first element that reaches a level does not reach it. -/
theorem firstAt_eq_some :
    firstAt height i l = some a <->
      i ≤ height a ∧ exists before after, l = before ++ a :: after ∧
        firstAt height i before = none := by
  simp only [firstAt_eq_none]
  simp [firstAt, List.find?_eq_some_iff_append]

theorem firstAt_append_of_none (h : firstAt height i l = none) (r : List α) :
    firstAt height i (l ++ r) = firstAt height i r := by
  rw [firstAt_append, h, Option.none_or]

theorem firstAt_append_of_some (h : firstAt height i l = some a) (r : List α) :
    firstAt height i (l ++ r) = some a := by
  rw [firstAt_append, h, Option.some_or]

theorem firstAt_cons_of_le (h : i ≤ height a) (l : List α) :
    firstAt height i (a :: l) = some a :=
  List.find?_cons_of_pos (decide_eq_true h)

theorem firstAt_cons_of_lt (h : height a < i) (l : List α) :
    firstAt height i (a :: l) = firstAt height i l :=
  List.find?_cons_of_neg (by simpa using h)

theorem firstAt_zero (l : List α) : firstAt height 0 l = l.head? := by
  cases l with
  | nil => rfl
  | cons a l => exact firstAt_cons_of_le (Nat.zero_le _) l

theorem mem_of_firstAt (h : firstAt height i l = some a) : a ∈ l :=
  List.mem_of_find?_eq_some h

theorem lastAt_append_cons (h : i ≤ height a) (l : List α)
    (hr : firstAt height i r = none) : lastAt height i (l ++ a :: r) = some a := by
  rw [firstAt_eq_none] at hr
  rw [lastAt, List.reverse_append, List.reverse_cons, List.append_assoc, List.find?_append]
  have hnone : r.reverse.find? (fun a => decide (i ≤ height a)) = none := by
    simpa using hr
  rw [hnone, Option.none_or, List.singleton_append]
  exact firstAt_cons_of_le h _

/-- A list splits at the last element that reaches a level. -/
theorem lastAt_eq_some :
    lastAt height i l = some a <->
      i ≤ height a ∧ exists before after, l = before ++ a :: after ∧
        firstAt height i after = none := by
  constructor
  · intro h
    rcases firstAt_eq_some.mp h with ⟨hle, before, after, hsplit, hnone⟩
    refine ⟨hle, after.reverse, before.reverse, ?_, ?_⟩
    · rw [← List.reverse_reverse l, hsplit]
      simp
    · rw [firstAt_eq_none] at hnone ⊢
      simpa using hnone
  · rintro ⟨hle, before, after, rfl, hnone⟩
    exact lastAt_append_cons hle before hnone

theorem lastAt_of_firstAt (h : firstAt height i r = some a) (l : List α) :
    exists b, b ∈ r ∧ lastAt height i (l ++ r) = some b := by
  cases hlast : lastAt height i r with
  | none =>
      rw [lastAt, List.find?_eq_none] at hlast
      rcases firstAt_eq_some.mp h with ⟨hle, _⟩
      have hnot := hlast a (List.mem_reverse.mpr (mem_of_firstAt h))
      exact absurd (decide_eq_true hle) hnot
  | some b =>
      rcases lastAt_eq_some.mp hlast with ⟨hle, before, after, rfl, hnone⟩
      refine ⟨b, List.mem_append_right _ List.mem_cons_self, ?_⟩
      rw [← List.append_assoc]
      exact lastAt_append_cons hle _ hnone

end

end Foundation
end KVRaft
