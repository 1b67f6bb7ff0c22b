import KVRaft.Foundation.Transition

/-!
# Systems that answer

Every action of a system has an answer.  What is seen of a run are its actions with their
answers, and a system that stands in for another one shows nothing that the other could not.
-/

namespace KVRaft
namespace Foundation
namespace TransitionSystem

variable {S T Action Out : Type}

/-- The actions of a trace with what they are answered. -/
def seen (answer : S -> Action -> Out) (tr : List (Transition S Action)) :
    List (Action × Out) :=
  tr.map fun t => (t.action, answer t.before t.action)

theorem seen_snoc (answer : S -> Action -> Out) (tr : List (Transition S Action))
    (t : Transition S Action) :
    seen answer (tr ++ [t]) = seen answer tr ++ [(t.action, answer t.before t.action)] :=
  List.map_append

/-- A relation that steps respect, with equal answers, lets one system stand in for the
other over whole runs. -/
theorem Trace.stands_in {M : TransitionSystem S Action} {N : TransitionSystem T Action}
    {C : Transition S Action -> Prop} {R : S -> T -> Prop} {answer : S -> Action -> Out}
    {answer' : T -> Action -> Out} (hinit : R M.init N.init)
    (hstep : forall {s s' t a}, R s t -> M.step s a = some s' ->
      C { before := s, action := a, after := s' } ->
      exists t', N.step t a = some t' ∧ R s' t' ∧ answer' t a = answer s a)
    {tr : List (Transition S Action)} {s : S} (h : M.Trace tr s)
    (hC : forall t, t ∈ tr -> C t) :
    exists tr' t, N.Trace tr' t ∧ R s t ∧ seen answer' tr' = seen answer tr := by
  refine Trace.invariant_under
    (P := fun tr s => exists tr' t, N.Trace tr' t ∧ R s t ∧ seen answer' tr' = seen answer tr)
    ⟨[], N.init, .nil, hinit, rfl⟩ ?_ h hC
  rintro tr s s' a _ _ ⟨tr', t, htr', hrel, hseen⟩ hnext hlast
  rcases hstep hrel hnext hlast with ⟨t', hnext', hrel', hanswer⟩
  refine ⟨_, t', htr'.snoc hnext', hrel', ?_⟩
  rw [seen_snoc, seen_snoc, hseen, hanswer]

end TransitionSystem
end Foundation
end KVRaft
