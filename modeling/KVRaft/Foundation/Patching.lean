import Mathlib.Data.List.Basic

/-!
# Patching a list

A list is brought in line with a received one by replacing every element whose
key differs from that of the received element at its place.  Elements beyond the
received ones stay, so the outcome is the received list only if there are none.
-/

namespace KVRaft
namespace Foundation

variable {α κ : Type}

def patch [DecidableEq κ] (key : α -> κ) : List α -> List α -> List α
  | held, [] => held
  | [], d :: received => d :: received
  | e :: held, d :: received =>
      (if key e = key d then e else d) :: patch key held received

/-- The lists first disagree in the key at place `k`. -/
structure FirstConflict (key : α -> κ) (held received : List α) (k : Nat) : Prop where
  before : forall (j : Nat) (e d : α), j < k -> held[j]? = some e -> received[j]? = some d ->
    key e = key d
  here : exists e d, held[k]? = some e ∧ received[k]? = some d ∧ key e ≠ key d

/-- No place holds two elements with different keys. -/
def SameKeys (key : α -> κ) (held received : List α) : Prop :=
  forall (k : Nat) (e d : α), held[k]? = some e -> received[k]? = some d -> key e = key d

/-- Elements with one key at one place are the same. -/
def KeysDecide (key : α -> κ) (held received : List α) : Prop :=
  forall (k : Nat) (e d : α), held[k]? = some e -> received[k]? = some d ->
    key e = key d -> e = d

variable {key : α -> κ} {held received : List α}

theorem SameKeys.tail {e d : α} (h : SameKeys key (e :: held) (d :: received)) :
    SameKeys key held received :=
  fun k => h (k + 1)

theorem keysDecide_cons {e d : α} :
    KeysDecide key (e :: held) (d :: received) <->
      (key e = key d -> e = d) ∧ KeysDecide key held received := by
  constructor
  · intro h
    exact ⟨h 0 e d rfl rfl, fun k => h (k + 1)⟩
  · rintro ⟨hhead, htail⟩ k
    cases k with
    | zero =>
        rintro _ _ ⟨⟩ ⟨⟩
        exact hhead
    | succ k => exact htail k

/-- Up to the first conflict the two lists are the same. -/
theorem FirstConflict.take {k : Nat} (h : FirstConflict key held received k)
    (hkeys : KeysDecide key held received) : held.take k = received.take k := by
  rcases h.here with ⟨e, d, he, hd, _⟩
  have hheld := (List.getElem?_eq_some_iff.mp he).1
  have hreceived := (List.getElem?_eq_some_iff.mp hd).1
  apply List.ext_getElem?
  intro j
  rcases Nat.lt_or_ge j k with hj | hj
  · have he := List.getElem?_eq_getElem (l := held) (show j < held.length by omega)
    have hd := List.getElem?_eq_getElem (l := received) (show j < received.length by omega)
    rw [List.getElem?_take_of_lt hj, List.getElem?_take_of_lt hj, he, hd,
      hkeys j _ _ he hd (h.before j _ _ hj he hd)]
  · rw [List.getElem?_take_eq_none hj, List.getElem?_take_eq_none hj]

/-- What a cut at the first conflict leaves is the received list. -/
theorem FirstConflict.take_append {k : Nat} (h : FirstConflict key held received k)
    (hkeys : KeysDecide key held received) :
    held.take k ++ received.drop k = received := by
  rw [h.take hkeys, List.take_append_drop]

variable [DecidableEq κ]

@[simp] theorem patch_nil_right : patch key held [] = held := by
  cases held with
  | nil => rfl
  | cons e held => rfl

@[simp] theorem patch_nil_left : patch key [] received = received := by
  cases received with
  | nil => rfl
  | cons d received => rfl

theorem length_patch : (patch key held received).length = max held.length received.length := by
  induction held generalizing received with
  | nil => simp
  | cons e held ih =>
      cases received with
      | nil => simp
      | cons d received => simp only [patch, List.length_cons, ih, Nat.succ_max_succ]

/-- Without a conflict what is held stays and what is missing is added. -/
theorem SameKeys.patch (h : SameKeys key held received) :
    patch key held received = held ++ received.drop held.length := by
  induction held generalizing received with
  | nil => simp
  | cons e held ih =>
      cases received with
      | nil => simp
      | cons d received =>
          have hkey : key e = key d := h 0 e d rfl rfl
          rw [Foundation.patch, if_pos hkey, ih h.tail]
          rfl

theorem KeysDecide.patch (h : KeysDecide key held received)
    (hlen : held.length ≤ received.length) : patch key held received = received := by
  induction held generalizing received with
  | nil => simp
  | cons e held ih =>
      cases received with
      | nil => cases hlen
      | cons d received =>
          rcases keysDecide_cons.mp h with ⟨hhead, htail⟩
          rw [Foundation.patch, ih htail (Nat.le_of_succ_le_succ hlen)]
          by_cases hkey : key e = key d
          · rw [if_pos hkey, hhead hkey]
          · rw [if_neg hkey]

/-- Either there is a first conflict or there is none. -/
theorem sameKeys_or_firstConflict (key : α -> κ) (held received : List α) :
    SameKeys key held received ∨ exists k, FirstConflict key held received k := by
  induction held generalizing received with
  | nil => exact Or.inl fun k e d he _ => by cases he
  | cons e held ih =>
      cases received with
      | nil => exact Or.inl fun k e d _ hd => by cases hd
      | cons d received =>
          by_cases hkey : key e = key d
          · rcases ih received with hsame | ⟨k, hfirst⟩
            · left
              intro k
              cases k with
              | zero =>
                  rintro _ _ ⟨⟩ ⟨⟩
                  exact hkey
              | succ k => exact hsame k
            · right
              refine ⟨k + 1, ?_, hfirst.here⟩
              intro j
              cases j with
              | zero =>
                  rintro _ _ _ ⟨⟩ ⟨⟩
                  exact hkey
              | succ j => exact fun _ _ hj => hfirst.before j _ _ (by omega)
          · exact Or.inr ⟨0, fun _ _ _ hj => absurd hj (Nat.not_lt_zero _),
              e, d, rfl, rfl, hkey⟩

end Foundation
end KVRaft
