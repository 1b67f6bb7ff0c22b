import Mathlib.Logic.Relation
import KVRaft.Foundation.Transition

/-!
# What a system can be led to

A state leads to another one if some schedule takes the system there.  Only actions of a
certain kind may be used.
-/

namespace KVRaft
namespace Foundation
namespace TransitionSystem

variable {State Action : Type} {M : TransitionSystem State Action} {C : Action -> Prop}
  {s s' s'' : State}

/-- Some schedule of such actions takes the system from one state to the other. -/
def Leads (M : TransitionSystem State Action) (C : Action -> Prop) : State -> State -> Prop :=
  Relation.ReflTransGen fun s s' => exists a, C a ∧ M.step s a = some s'

theorem Leads.refl (s : State) : M.Leads C s s :=
  Relation.ReflTransGen.refl

theorem Leads.trans (h : M.Leads C s s') (h' : M.Leads C s' s'') : M.Leads C s s'' :=
  Relation.ReflTransGen.trans h h'

theorem Leads.single {a : Action} (ha : C a) (h : M.step s a = some s') : M.Leads C s s' :=
  Relation.ReflTransGen.single ⟨a, ha, h⟩

/-- A goal that can be got to for one element of a list after the other can be got to for
all of them. -/
theorem Leads.forall_mem {α : Type} {P : List α -> State -> Prop} {todo : List α}
    (hnext : forall done a s, a ∈ todo -> a ∉ done -> P done s ->
      exists s', M.Leads C s s' ∧ P (done ++ [a]) s')
    (hnodup : todo.Nodup) (h : P [] s) : exists s', M.Leads C s s' ∧ P todo s' := by
  have hall : forall done rest s, done ++ rest = todo -> P done s ->
      exists s', M.Leads C s s' ∧ P todo s' := by
    intro done rest
    induction rest generalizing done with
    | nil =>
        intro s htodo hdone
        rw [List.append_nil] at htodo
        rw [htodo] at hdone
        exact ⟨s, Leads.refl s, hdone⟩
    | cons a rest ih =>
        intro s htodo hdone
        have hmem : a ∈ todo := htodo ▸ List.mem_append_right done List.mem_cons_self
        have hnew : a ∉ done := by
          intro ha
          rw [← htodo] at hnodup
          exact (List.nodup_append.mp hnodup).2.2 a ha a List.mem_cons_self rfl
        rcases hnext done a s hmem hnew hdone with ⟨s', hleads, hdone'⟩
        rcases ih (done ++ [a]) s' (by rw [← htodo, List.append_assoc]; rfl) hdone' with
          ⟨s'', hleads', hgoal⟩
        exact ⟨s'', hleads.trans hleads', hgoal⟩
  exact hall [] todo s rfl h

/-- A run can be continued to whatever its last state leads to. -/
theorem Leads.run {r : M.Run} (h : M.Leads C r.state s) :
    exists r' : M.Run, r'.state = s ∧ exists later, r'.trace = r.trace ++ later ∧
      forall t, t ∈ later -> C t.action := by
  induction h with
  | refl => exact ⟨r, rfl, [], (List.append_nil _).symm, nofun⟩
  | @tail s s' _ hstep ih =>
      rcases ih with ⟨r', rfl, later, htrace, hlater⟩
      rcases hstep with ⟨a, ha, hstep⟩
      refine ⟨{ trace := _, state := s', valid := r'.valid.snoc hstep }, rfl,
        later ++ [{ before := r'.state, action := a, after := s' }], ?_, ?_⟩
      · change r'.trace ++ _ = _
        rw [htrace, List.append_assoc]
      · intro t ht
        rcases List.mem_append.mp ht with hold | hnew
        · exact hlater t hold
        · rw [List.mem_singleton.mp hnew]
          exact ha

end TransitionSystem
end Foundation
end KVRaft
