/-!
# Checked computations

Computations that a failed check ends, with the reason of the failure.
-/

namespace KVRaft
namespace Foundation

variable {ε α β : Type}

def check (condition : Prop) [Decidable condition] (fault : ε) : Except ε Unit :=
  if condition then .ok () else .error fault

theorem check_of {condition : Prop} [Decidable condition] {fault : ε} (h : condition) :
    check condition fault = .ok () :=
  if_pos h

theorem check_of_not {condition : Prop} [Decidable condition] {fault : ε}
    (h : ¬ condition) : check condition fault = .error fault :=
  if_neg h

theorem check_eq_ok {condition : Prop} [Decidable condition] {fault : ε} {u : Unit} :
    check condition fault = .ok u <-> condition := by
  by_cases h : condition
  · simp [check, h]
  · simp [check, h]

theorem check_eq_error {condition : Prop} [Decidable condition] {fault e : ε} :
    check condition fault = .error e <-> ¬ condition ∧ e = fault := by
  by_cases h : condition
  · simp [check, h]
  · simp [check, h, eq_comm]

/-- A sequence runs through when both of its parts do. -/
theorem bind_eq_ok {x : Except ε α} {f : α -> Except ε β} {b : β} :
    (x >>= f) = .ok b <-> exists a, x = .ok a ∧ f a = .ok b := by
  cases x with
  | error e =>
      constructor
      · intro h
        cases h
      · rintro ⟨a, ha, _⟩
        cases ha
  | ok a =>
      constructor
      · intro h
        exact ⟨a, rfl, h⟩
      · rintro ⟨_, ha, h⟩
        cases ha
        exact h

/-- A sequence fails in its first part or, after that, in its second. -/
theorem bind_eq_error {x : Except ε α} {f : α -> Except ε β} {e : ε} :
    (x >>= f) = .error e <->
      x = .error e ∨ exists a, x = .ok a ∧ f a = .error e := by
  cases x with
  | error d =>
      constructor
      · intro h
        cases h
        exact Or.inl rfl
      · rintro (h | ⟨_, ha, _⟩)
        · cases h
          rfl
        · cases ha
  | ok a =>
      constructor
      · intro h
        exact Or.inr ⟨a, rfl, h⟩
      · rintro (h | ⟨_, ha, h⟩)
        · cases h
        · cases ha
          exact h

/-- A system that stands still after a fault has had none before its step. -/
theorem running_of_step {fault : Option ε} {next : Option α} {s : α}
    (h : (if fault.isSome then none else next) = some s) : fault = none ∧ next = some s := by
  cases fault with
  | none => exact ⟨rfl, h⟩
  | some e => cases h

/-- Steps that are never undefined in related states take related states through a run. -/
theorem foldlM_simulates {S T : Type} {R : S -> T -> Prop} {f : S -> α -> Option S}
    {g : T -> α -> T}
    (hstep : forall s t a, R s t -> exists s', f s a = some s' ∧ R s' (g t a)) {s : S} {t : T}
    (h : R s t) (l : List α) : exists s', l.foldlM f s = some s' ∧ R s' (l.foldl g t) := by
  induction l generalizing s t with
  | nil => exact ⟨s, rfl, h⟩
  | cons a l ih =>
      rcases hstep s t a h with ⟨next, hrun, hnext⟩
      rcases ih hnext with ⟨s', hrest, hs'⟩
      refine ⟨s', ?_, hs'⟩
      rw [List.foldlM_cons, hrun]
      exact hrest

theorem foldlM_keeps {S : Type} {P : S -> Prop} {f : S -> α -> Option S}
    (hstep : forall s a, P s -> exists s', f s a = some s' ∧ P s') {s : S} (h : P s)
    (l : List α) : exists s', l.foldlM f s = some s' ∧ P s' :=
  foldlM_simulates (g := fun (_ : Unit) _ => ()) (t := ()) (fun s _ a => hstep s a) h l

end Foundation
end KVRaft
