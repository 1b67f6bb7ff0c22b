import Mathlib.Data.Finset.Card
import Mathlib.Data.Fintype.Card

/-!
# Quorum systems

Two quorums always share a member.  Majorities of a finite set are the quorum
system in use; nothing else about counting is needed above this module.
-/

namespace KVRaft
namespace Foundation

structure QuorumSystem (S : Type) where
  IsQuorum : Finset S -> Prop
  inter : forall {Q R : Finset S}, IsQuorum Q -> IsQuorum R ->
    exists v, v ∈ Q ∧ v ∈ R

theorem exists_mem_inter_of_card_lt {S : Type} [Fintype S] [DecidableEq S]
    {Q R : Finset S} (h : Fintype.card S < Q.card + R.card) :
    exists v, v ∈ Q ∧ v ∈ R := by
  have hunion : (Q ∪ R).card ≤ Fintype.card S := Finset.card_le_univ _
  have hsum := Finset.card_union_add_card_inter Q R
  have hpos : 0 < (Q ∩ R).card := by omega
  rcases Finset.card_pos.mp hpos with ⟨v, hv⟩
  exact ⟨v, Finset.mem_inter.mp hv⟩

/-- Majorities: more than half of a finite set of servers. -/
def majority (S : Type) [Fintype S] [DecidableEq S] : QuorumSystem S where
  IsQuorum Q := Fintype.card S / 2 + 1 ≤ Q.card
  inter := by
    intro Q R hQ hR
    apply exists_mem_inter_of_card_lt
    omega

/-- A quorum is never empty: it meets itself. -/
theorem QuorumSystem.nonempty {S : Type} (q : QuorumSystem S) {Q : Finset S}
    (hQ : q.IsQuorum Q) : exists v, v ∈ Q := by
  rcases q.inter hQ hQ with ⟨v, hv, _⟩
  exact ⟨v, hv⟩

end Foundation
end KVRaft
