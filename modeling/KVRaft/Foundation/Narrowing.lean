import Mathlib.Algebra.Group.Int.Defs
import Mathlib.Algebra.Group.Nat.Defs

/-!
# Narrowing to 32 bits

The conversion to a signed number of 32 bits keeps the residue.  What comes out is what
went in exactly if that fits.
-/

namespace KVRaft
namespace Foundation

def IsInt32 (v : Int) : Prop :=
  -2 ^ 31 ≤ v ∧ v < 2 ^ 31

instance : DecidablePred IsInt32 := fun v =>
  inferInstanceAs (Decidable (-2 ^ 31 ≤ v ∧ v < 2 ^ 31))

def toInt32 (v : Int) : Int :=
  Int.bmod v (2 ^ 32)

theorem isInt32_zero : IsInt32 0 := by decide

theorem isInt32_toInt32 (v : Int) : IsInt32 (toInt32 v) := by
  have hlow := @Int.le_bmod v (2 ^ 32) (by decide)
  have hhigh := @Int.bmod_lt v (2 ^ 32) (by decide)
  unfold IsInt32 toInt32
  omega

theorem toInt32_of_isInt32 {v : Int} (h : IsInt32 v) : toInt32 v = v := by
  unfold IsInt32 at h
  exact Int.bmod_eq_of_le (by omega) (by omega)

theorem toInt32_eq_self_iff {v : Int} : toInt32 v = v <-> IsInt32 v := by
  constructor
  · intro h
    rw [← h]
    exact isInt32_toInt32 v
  · exact toInt32_of_isInt32

end Foundation
end KVRaft
