import Mathlib.Order.Lattice
import Mathlib.Data.List.Basic

/-!
# Lists in the order of a key

An ordered set is kept as the list of its elements, each with a smaller key than the
ones after it.
-/

namespace KVRaft
namespace Foundation

variable {α β : Type} [LinearOrder β]

def Ascending (key : α -> β) (l : List α) : Prop :=
  l.Pairwise fun a b => key a < key b

namespace Ascending

variable {key key' : α -> β} {l : List α} {a : α}

theorem nodup (h : Ascending key l) : l.Nodup := by
  refine List.Pairwise.imp ?_ h
  rintro b c hlt rfl
  exact lt_irrefl _ hlt

theorem sublist {l' : List α} (h : Ascending key l) (hsub : l'.Sublist l) :
    Ascending key l' :=
  List.Pairwise.sublist hsub h

/-- Only the keys of the elements matter. -/
theorem congr (h : Ascending key l) (hkeys : forall b, b ∈ l -> key' b = key b) :
    Ascending key' l := by
  refine List.Pairwise.imp_of_mem ?_ h
  intro b c hb hc hlt
  rw [hkeys b hb, hkeys c hc]
  exact hlt

theorem head_le (h : Ascending key l) (hhead : l.head? = some a) {b : α} (hb : b ∈ l) :
    key a ≤ key b := by
  cases l with
  | nil => cases hhead
  | cons first rest =>
      cases hhead
      rcases List.mem_cons.mp hb with rfl | hrest
      · exact le_refl _
      · exact le_of_lt (List.rel_of_pairwise_cons h hrest)

/-!
# Prefixes

A property that holds of everything below an element it holds of cuts the list in two.
-/

variable {p : α -> Bool}

theorem takeWhile_eq_filter (h : Ascending key l)
    (hdown : forall b c, key b < key c -> p c = true -> p b = true) :
    l.takeWhile p = l.filter p := by
  induction l with
  | nil => rfl
  | cons first rest ih =>
      rcases List.pairwise_cons.mp h with ⟨hfirst, hrest⟩
      by_cases hp : p first = true
      · rw [List.takeWhile_cons_of_pos hp, List.filter_cons_of_pos hp, ih hrest]
      · rw [List.takeWhile_cons_of_neg hp, List.filter_cons_of_neg hp]
        symm
        apply List.filter_eq_nil_iff.mpr
        intro b hb hpb
        exact hp (hdown first b (hfirst b hb) hpb)

theorem dropWhile_eq_filter (h : Ascending key l)
    (hdown : forall b c, key b < key c -> p c = true -> p b = true) :
    l.dropWhile p = l.filter fun b => !p b := by
  induction l with
  | nil => rfl
  | cons first rest ih =>
      rcases List.pairwise_cons.mp h with ⟨hfirst, hrest⟩
      by_cases hp : p first = true
      · rw [List.dropWhile_cons_of_pos hp, List.filter_cons_of_neg (by rw [hp]; decide),
          ih hrest]
      · rw [List.dropWhile_cons_of_neg hp]
        symm
        apply List.filter_eq_self.mpr
        intro b hb
        rcases List.mem_cons.mp hb with rfl | hmem
        · simpa using hp
        · rw [Bool.not_eq_true']
          by_contra hpb
          exact hp (hdown first b (hfirst b hmem) (Bool.not_eq_false _ ▸ hpb))

end Ascending

/-- An element is looked up by comparing keys only. -/
theorem find?_eq_some_iff_mem {key : α -> β} {l : List α} {a : α} {p : α -> Bool}
    (hkey : Function.Injective key)
    (hp : forall b, p b = true <-> ¬ key a < key b ∧ ¬ key b < key a) :
    l.find? p = some a <-> a ∈ l := by
  have hiff : forall b, p b = true <-> b = a := by
    intro b
    rw [hp b]
    constructor
    · rintro ⟨hnot, hnot'⟩
      exact hkey (le_antisymm (not_lt.mp hnot) (not_lt.mp hnot'))
    · rintro rfl
      exact ⟨lt_irrefl _, lt_irrefl _⟩
  constructor
  · exact List.mem_of_find?_eq_some
  · intro hmem
    cases hfind : l.find? p with
    | none => exact absurd ((hiff a).mpr rfl) (List.find?_eq_none.mp hfind a hmem)
    | some b => rw [(hiff b).mp (List.find?_some hfind)]

/-!
# Reading a prefix in two goes
-/

theorem while_congr {l : List α} {q r : α -> Bool} (h : forall a, a ∈ l -> q a = r a) :
    l.takeWhile q = l.takeWhile r ∧ l.dropWhile q = l.dropWhile r := by
  induction l with
  | nil => exact ⟨rfl, rfl⟩
  | cons a rest ih =>
      rcases ih fun b hb => h b (List.mem_cons_of_mem a hb) with ⟨htake, hdrop⟩
      rw [List.takeWhile_cons, List.takeWhile_cons, List.dropWhile_cons, List.dropWhile_cons,
        h a List.mem_cons_self, htake, hdrop]
      exact ⟨rfl, rfl⟩

theorem while_split {l : List α} {p q r : α -> Bool} (hp : forall a, p a = true -> r a = true)
    (hq : forall a, a ∈ l.dropWhile p -> q a = r a) :
    l.takeWhile p ++ (l.dropWhile p).takeWhile q = l.takeWhile r ∧
      (l.dropWhile p).dropWhile q = l.dropWhile r := by
  induction l with
  | nil => exact ⟨rfl, rfl⟩
  | cons first rest ih =>
      by_cases hfirst : p first = true
      · rw [List.dropWhile_cons_of_pos hfirst] at hq ⊢
        rcases ih hq with ⟨htake, hdrop⟩
        rw [List.takeWhile_cons_of_pos hfirst, List.takeWhile_cons_of_pos (hp _ hfirst),
          List.dropWhile_cons_of_pos (hp _ hfirst), List.cons_append, htake]
        exact ⟨rfl, hdrop⟩
      · rw [List.dropWhile_cons_of_neg hfirst] at hq ⊢
        rw [List.takeWhile_cons_of_neg hfirst, List.nil_append]
        exact while_congr hq

end Foundation
end KVRaft
