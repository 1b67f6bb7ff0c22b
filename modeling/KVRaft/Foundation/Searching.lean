import Mathlib.Order.Bounds.Basic

/-!
# Searching for the greatest

What a search from above finds, and when a search by one measure, started from one
value, finds what a search by another measure started from another value would.
-/

namespace KVRaft
namespace Foundation

variable {α : Type} [LinearOrder α] {own heavy covered : α -> Prop} {base old found : α}

/-- The values a search may find: where it starts, or a value of the right kind that
the measure accepts. -/
def Findable (start : α) (own measure : α -> Prop) : Set α :=
  {N | N = start ∨ (own N ∧ measure N)}

/-- The same value is the greatest by both measures exactly if they agree above the
second start, which is the first one or reached by the search. -/
theorem findable_greatest_iff (hown : forall N, own N -> base < N)
    (hheavy : forall M N, M ≤ N -> heavy N -> heavy M)
    (hcovered : forall M N, M ≤ N -> covered N -> covered M)
    (hfound : IsGreatest (Findable base own heavy) found) :
    IsGreatest (Findable old own covered) found <->
      (old = base ∨ exists N, own N ∧ old ≤ N ∧ heavy N) ∧
        forall N, own N -> old < N -> (heavy N <-> covered N) := by
  have hstart : base ≤ found := hfound.2 (Or.inl rfl)
  constructor
  · intro h
    have hold : old ≤ found := h.2 (Or.inl rfl)
    constructor
    · rcases hfound.1 with hbase | ⟨howned, hmeasure⟩
      · rcases h.1 with heq | ⟨howned, _⟩
        · exact Or.inl (heq.symm.trans hbase)
        · exact absurd (hown found howned) (not_lt.mpr hbase.le)
      · exact Or.inr ⟨found, howned, hold, hmeasure⟩
    · intro N howned hnew
      constructor
      · intro hN
        have hle : N ≤ found := hfound.2 (Or.inr ⟨howned, hN⟩)
        rcases h.1 with heq | ⟨_, hmeasure⟩
        · exact absurd (hle.trans heq.le) (not_le.mpr hnew)
        · exact hcovered N found hle hmeasure
      · intro hN
        have hle : N ≤ found := h.2 (Or.inr ⟨howned, hN⟩)
        rcases hfound.1 with heq | ⟨_, hmeasure⟩
        · exact absurd (hle.trans heq.le) (not_le.mpr (hown N howned))
        · exact hheavy N found hle hmeasure
  · rintro ⟨hreach, hagree⟩
    have hold : old ≤ found := by
      rcases hreach with rfl | ⟨N, howned, hle, hN⟩
      · exact hstart
      · exact hle.trans (hfound.2 (Or.inr ⟨howned, hN⟩))
    constructor
    · rcases hold.eq_or_lt with heq | hlt
      · exact Or.inl heq.symm
      · rcases hfound.1 with hbase | ⟨howned, hmeasure⟩
        · rcases hreach with heq | ⟨N, howned, _, hN⟩
          · exact absurd (heq.trans hbase.symm) hlt.ne
          · have hle : N ≤ found := hfound.2 (Or.inr ⟨howned, hN⟩)
            exact absurd (hle.trans hbase.le) (not_le.mpr (hown N howned))
        · exact Or.inr ⟨howned, (hagree found howned hlt).mp hmeasure⟩
    · rintro N (rfl | ⟨howned, hN⟩)
      · exact hold
      · rcases le_or_gt N old with hle | hlt
        · exact hle.trans hold
        · exact hfound.2 (Or.inr ⟨howned, (hagree N howned hlt).mpr hN⟩)

/-!
# Going down
-/

variable {bound top : α}

theorem findable_empty (hown : forall N, own N -> base < N) :
    IsGreatest (Findable base (fun N => own N ∧ N ≤ base) heavy) base := by
  constructor
  · exact Or.inl rfl
  · rintro N (rfl | ⟨⟨howned, hle⟩, _⟩)
    · exact le_refl _
    · exact absurd (hown N howned) (not_lt.mpr hle)

/-- The topmost value is found if it is of the right kind and accepted. -/
theorem findable_top (hstart : base ≤ top) (howned : own top) (hmeasure : heavy top) :
    IsGreatest (Findable base (fun N => own N ∧ N ≤ top) heavy) top := by
  constructor
  · exact Or.inr ⟨⟨howned, le_refl _⟩, hmeasure⟩
  · rintro N (rfl | ⟨⟨_, hle⟩, _⟩)
    · exact hstart
    · exact hle

/-- Otherwise the search goes on below it. -/
theorem findable_below (hle : bound ≤ top) (hnext : forall N, N ≤ top -> N = top ∨ N ≤ bound)
    (hnot : own top -> ¬ heavy top)
    (h : IsGreatest (Findable base (fun N => own N ∧ N ≤ bound) heavy) found) :
    IsGreatest (Findable base (fun N => own N ∧ N ≤ top) heavy) found := by
  constructor
  · exact h.1.imp_right fun ⟨⟨howned, hbound⟩, hmeasure⟩ =>
      ⟨⟨howned, hbound.trans hle⟩, hmeasure⟩
  · rintro N (rfl | ⟨⟨howned, htop⟩, hmeasure⟩)
    · exact h.2 (Or.inl rfl)
    · rcases hnext N htop with rfl | hbound
      · exact absurd hmeasure (hnot howned)
      · exact h.2 (Or.inr ⟨⟨howned, hbound⟩, hmeasure⟩)

end Foundation
end KVRaft
