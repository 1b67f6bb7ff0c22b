import Mathlib.Data.List.Basic

/-!
# Places of a list

What stands at a place of a list when the list grows at its end and when one of its
elements is replaced, and lists that begin with one another.
-/

namespace KVRaft
namespace Foundation

variable {α β : Type} {xs ys : List α} {i j : Nat} {x y z : α}

/-!
# Growing lists
-/

theorem getElem?_append_found (h : xs[i]? = some x) (ys : List α) :
    (xs ++ ys)[i]? = some x :=
  (List.getElem?_append_left (List.getElem?_eq_some_iff.mp h).1).trans h

theorem getElem?_of_isPrefix (h : xs <+: ys) (hx : xs[i]? = some x) : ys[i]? = some x := by
  rcases h with ⟨rest, rfl⟩
  exact getElem?_append_found hx rest

theorem getElem?_concat_cases (h : (xs ++ [x])[i]? = some y) :
    xs[i]? = some y ∨ (i = xs.length ∧ y = x) := by
  rcases Nat.lt_or_ge i xs.length with hlt | hge
  · rw [List.getElem?_append_left hlt] at h
    exact Or.inl h
  · have hlength := (List.getElem?_eq_some_iff.mp h).1
    rw [List.length_append, List.length_singleton] at hlength
    have hi : i = xs.length := Nat.le_antisymm (Nat.le_of_lt_succ hlength) hge
    rw [hi, List.getElem?_concat_length] at h
    exact Or.inr ⟨hi, (Option.some.inj h).symm⟩

theorem prefix_concat (h : xs <+: ys) (hx : ys[xs.length]? = some x) : xs ++ [x] <+: ys := by
  rcases h with ⟨rest, rfl⟩
  rw [List.getElem?_append_right (Nat.le_refl _), Nat.sub_self] at hx
  cases rest with
  | nil => cases hx
  | cons b rest =>
      cases hx
      exact ⟨rest, by rw [List.append_assoc]; rfl⟩

/-- Of two lists that agree where both have something, the shorter one comes first. -/
theorem prefix_of_agree (hlength : xs.length ≤ ys.length)
    (hagree : forall (k : Nat) x y, xs[k]? = some x -> ys[k]? = some y -> x = y) : xs <+: ys := by
  rw [List.prefix_iff_getElem]
  exact ⟨hlength, fun k hk => hagree k _ _ (List.getElem?_eq_getElem hk)
    (List.getElem?_eq_getElem (Nat.lt_of_lt_of_le hk hlength))⟩

/-!
# Replaced elements
-/

theorem getElem?_set_found (h : xs[i]? = some x) (y : α) : (xs.set i y)[i]? = some y :=
  List.getElem?_set_self (List.getElem?_eq_some_iff.mp h).1

theorem getElem?_set_cases (h : (xs.set i x)[j]? = some y) :
    (j = i ∧ y = x) ∨ (j ≠ i ∧ xs[j]? = some y) := by
  rw [List.getElem?_set] at h
  by_cases hij : i = j
  · rw [if_pos hij] at h
    by_cases hlt : i < xs.length
    · rw [if_pos hlt] at h
      exact Or.inl ⟨hij.symm, (Option.some.inj h).symm⟩
    · rw [if_neg hlt] at h
      cases h
  · rw [if_neg hij] at h
    exact Or.inr ⟨fun hji => hij hji.symm, h⟩

theorem mem_set_found (h : xs[i]? = some x) (y : α) : y ∈ xs.set i y :=
  List.mem_of_getElem? (getElem?_set_found h y)

/-- Replacing an element keeps every other one. -/
theorem mem_set_of_ne (h : xs[i]? = some x) (hz : z ∈ xs) (hne : z ≠ x) (y : α) :
    z ∈ xs.set i y := by
  rcases List.mem_iff_getElem?.mp hz with ⟨j, hj⟩
  have hij : i ≠ j := by
    intro heq
    rw [heq, hj] at h
    exact hne (Option.some.inj h)
  exact List.mem_of_getElem? ((List.getElem?_set_ne hij).trans hj)

theorem map_set_same {f : α -> β} (h : xs[i]? = some x) (hsame : f y = f x) :
    (xs.set i y).map f = xs.map f := by
  rcases List.getElem?_eq_some_iff.mp h with ⟨hi, rfl⟩
  rw [List.map_set, hsame, ← List.getElem_map f (h := by rwa [List.length_map]),
    List.set_getElem_self]

/-- With distinct keys the other elements have other keys. -/
theorem mem_set_nodup {f : α -> β} (hnodup : (xs.map f).Nodup) (hx : xs[i]? = some x)
    (hz : z ∈ xs.set i y) : z = y ∨ (z ∈ xs ∧ f z ≠ f x) := by
  rcases List.mem_iff_getElem?.mp hz with ⟨j, hj⟩
  rcases getElem?_set_cases hj with ⟨_, hnew⟩ | ⟨hji, hold⟩
  · exact Or.inl hnew
  · refine Or.inr ⟨List.mem_of_getElem? hold, ?_⟩
    intro hsame
    have hlength : j < (xs.map f).length := by
      rw [List.length_map]
      exact (List.getElem?_eq_some_iff.mp hold).1
    apply hji
    apply (List.getElem?_inj hlength hnodup).mp
    rw [List.getElem?_map, List.getElem?_map, hx, hold, Option.map_some, Option.map_some, hsame]

end Foundation
end KVRaft
