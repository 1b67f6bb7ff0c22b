import Mathlib.Algebra.Group.Nat.Defs
import Mathlib.Data.List.Basic
import Mathlib.Data.List.TakeWhile

/-!
# Decimal numbers as text

The digits of a number as ASCII bytes, and the value of the digits a text begins with.
What is written is read back, whatever comes behind it, unless that is a digit.
-/

namespace KVRaft
namespace Foundation
namespace Decimal

def IsDigit (c : UInt8) : Prop :=
  48 ≤ c ∧ c ≤ 57

instance : DecidablePred IsDigit := fun c => inferInstanceAs (Decidable (48 ≤ c ∧ c ≤ 57))

/-- The digit for the last place. -/
def digit (n : Nat) : UInt8 :=
  UInt8.ofNat (48 + n % 10)

def digits (n : Nat) : List UInt8 :=
  (Nat.toDigits 10 n).map fun c => UInt8.ofNat c.toNat

/-- The value of the digits up to the first byte that is none. -/
def value : Nat -> List UInt8 -> Nat
  | k, [] => k
  | k, c :: rest => if IsDigit c then value (10 * k + (c.toNat - 48)) rest else k

theorem toNat_digit (n : Nat) : (digit n).toNat = 48 + n % 10 := by
  rw [digit, UInt8.toNat_ofNat']
  exact Nat.mod_eq_of_lt (by omega)

theorem isDigit_digit (n : Nat) : IsDigit (digit n) := by
  unfold IsDigit
  rw [UInt8.le_iff_toNat_le, UInt8.le_iff_toNat_le, toNat_digit]
  exact ⟨Nat.le_add_right _ _, Nat.add_le_add_left (Nat.le_of_lt_succ (Nat.mod_lt _ (by decide))) 48⟩

theorem digits_small {n : Nat} (h : n < 10) : digits n = [digit n] := by
  rw [digits, Nat.toDigits_of_lt_base h, List.map_singleton, digit, Nat.mod_eq_of_lt h,
    Nat.toNat_digitChar_of_lt_ten h]

theorem digits_large {n : Nat} (h : 10 ≤ n) : digits n = digits (n / 10) ++ [digit n] := by
  have hmod : n % 10 < 10 := Nat.mod_lt _ (by decide)
  rw [digits, Nat.toDigits_of_base_le (by decide) h, List.map_append, List.map_singleton, digit,
    Nat.toNat_digitChar_of_lt_ten hmod, digits]

theorem digits_ne_nil (n : Nat) : digits n ≠ [] := by
  intro h
  exact Nat.toDigits_ne_nil (List.map_eq_nil_iff.mp h)

theorem isDigit_of_mem {n : Nat} {c : UInt8} (h : c ∈ digits n) : IsDigit c := by
  induction n using Nat.strongRecOn with
  | ind n ih =>
      rcases Nat.lt_or_ge n 10 with hsmall | hlarge
      · rw [digits_small hsmall, List.mem_singleton] at h
        rw [h]
        exact isDigit_digit n
      · rw [digits_large hlarge, List.mem_append, List.mem_singleton] at h
        rcases h with hfirst | hlast
        · exact ih (n / 10) (Nat.div_lt_self (by omega) (by decide)) hfirst
        · rw [hlast]
          exact isDigit_digit n

theorem length_digits_le {n k : Nat} (hk : 0 < k) (h : n < 10 ^ k) : (digits n).length ≤ k := by
  rw [digits, List.length_map]
  exact (Nat.length_toDigits_le_iff (by decide) hk).mpr h

theorem value_append {xs : List UInt8} (hxs : forall c, c ∈ xs -> IsDigit c) (k : Nat)
    (rest : List UInt8) : value k (xs ++ rest) = value (value k xs) rest := by
  induction xs generalizing k with
  | nil => rfl
  | cons c xs ih =>
      have hc := hxs c List.mem_cons_self
      rw [List.cons_append, value, if_pos hc, value, if_pos hc]
      exact ih (fun d hd => hxs d (List.mem_cons_of_mem _ hd)) _

theorem value_digit (k n : Nat) : value k [digit n] = 10 * k + n % 10 := by
  rw [value, if_pos (isDigit_digit n), toNat_digit, Nat.add_sub_cancel_left, value]

theorem value_digits (n : Nat) : value 0 (digits n) = n := by
  induction n using Nat.strongRecOn with
  | ind n ih =>
      rcases Nat.lt_or_ge n 10 with hsmall | hlarge
      · rw [digits_small hsmall, value_digit, Nat.mul_zero, Nat.zero_add,
          Nat.mod_eq_of_lt hsmall]
      · have hfirst := ih (n / 10) (Nat.div_lt_self (by omega) (by decide))
        rw [digits_large hlarge, value_append fun c hc => isDigit_of_mem hc, hfirst,
          value_digit]
        exact Nat.div_add_mod n 10

/-- Two numbers with the same text around them are the same. -/
theorem digits_append_injective {m n : Nat} {x y : UInt8} {xs ys : List UInt8}
    (hx : ¬ IsDigit x) (hy : ¬ IsDigit y)
    (h : digits m ++ x :: xs = digits n ++ y :: ys) : m = n ∧ x :: xs = y :: ys := by
  have hread : forall (k : Nat) {z : UInt8} (zs : List UInt8), ¬ IsDigit z ->
      value 0 (digits k ++ z :: zs) = k := by
    intro k z zs hz
    rw [value_append fun c hc => isDigit_of_mem hc, value_digits, value, if_neg hz]
  have hmn : m = n := by
    rw [← hread m xs hx, h, hread n ys hy]
  refine ⟨hmn, ?_⟩
  rw [hmn] at h
  exact List.append_cancel_left h

end Decimal
end Foundation
end KVRaft
