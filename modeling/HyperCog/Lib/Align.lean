import Mathlib.Algebra.Group.Nat.Defs
import Mathlib.Data.Nat.Log

/-! Machine words that are multiples of a power of two, and rounding up to one. -/
namespace Align

open BitVec

/-- A number with no bit in common with its predecessor is a power of two. -/
theorem eq_two_pow_of_and_pred {n : ℕ} (hn : 0 < n) (h : n &&& (n - 1) = 0) : n = 2 ^ n.log2 := by
  by_contra hne
  have hle : 2 ^ n.log2 ≤ n := Nat.log2_self_le hn.ne'
  have hlt : n < 2 ^ (n.log2 + 1) := Nat.lt_log2_self
  have hpos : n - 1 ≠ 0 := by
    intro h0
    have : n = 1 := by omega
    subst this
    exact hne rfl
  have hlog : (n - 1).log2 = n.log2 := by
    rw [Nat.log2_eq_iff hpos]
    omega
  have hbit : (n &&& (n - 1)).testBit n.log2 = true := by
    rw [Nat.testBit_and, Nat.testBit_log2 hn.ne', ← hlog, Nat.testBit_log2 hpos]
    rfl
  rw [h, Nat.zero_testBit] at hbit
  cases hbit

variable {w k : ℕ} {x y m : BitVec w}

theorem and_not_and (x m : BitVec w) : x &&& ~~~m &&& m = 0#w := by
  rw [BitVec.and_assoc, BitVec.and_comm (~~~m) m, BitVec.and_not_self]
  exact and_zero

/-- Bits that are taken from two multiples make a multiple. -/
theorem or_and_eq_zero (hx : x &&& m = 0#w) (hy : y &&& m = 0#w) (c : BitVec w) :
    (x &&& c ||| y) &&& m = 0#w := by
  rw [and_or_distrib_right, hy, BitVec.and_assoc, BitVec.and_comm c m, ← BitVec.and_assoc, hx]
  simp

/-- A mask splits a word into two parts. -/
theorem toNat_and_add_and_not (x m : BitVec w) : (x &&& m).toNat + (x &&& ~~~m).toNat = x.toNat := by
  have hdisj : (x &&& m) &&& (x &&& ~~~m) = 0#w := by
    rw [BitVec.and_comm x (~~~m), ← BitVec.and_assoc, BitVec.and_assoc x m]
    simp
  have hjoin : (x &&& m) ||| (x &&& ~~~m) = x := by
    rw [← and_or_distrib_left, or_not_self, and_allOnes]
  rw [← toNat_add_of_and_eq_zero hdisj, add_eq_or_of_and_eq_zero _ _ hdisj, hjoin]

/-- The mask of the bits below a power of two. -/
theorem toNat_twoPow_sub_one (hk : k < w) : (twoPow w k - 1#w).toNat = 2 ^ k - 1 := by
  have htwo := toNat_twoPow_of_lt hk
  have hone : (1#w).toNat = 1 := by
    rw [toNat_ofNat, Nat.mod_eq_of_lt (Nat.one_lt_two_pow (by omega))]
  rw [toNat_sub_of_le, htwo, hone]
  rw [le_def, htwo, hone]
  exact Nat.one_le_two_pow

theorem dvd_of_and_eq_zero (hk : k < w) (h : x &&& (twoPow w k - 1#w) = 0#w) : 2 ^ k ∣ x.toNat := by
  have hmod := congrArg BitVec.toNat h
  rw [toNat_and, toNat_twoPow_sub_one hk, Nat.and_two_pow_sub_one_eq_mod] at hmod
  exact Nat.dvd_of_mod_eq_zero hmod

/-- The next multiple. -/
def up (x : BitVec w) (k : ℕ) : BitVec w :=
  (x + (twoPow w k - 1#w)) &&& ~~~(twoPow w k - 1#w)

theorem up_ok (hk : k < w) (hx : x.toNat + 2 ^ k ≤ 2 ^ w) :
    up x k &&& (twoPow w k - 1#w) = 0#w ∧ x.toNat ≤ (up x k).toNat ∧
      (up x k).toNat < x.toNat + 2 ^ k := by
  have hmask := toNat_twoPow_sub_one hk
  have hone : 1 ≤ 2 ^ k := Nat.one_le_two_pow
  have hsum : (x + (twoPow w k - 1#w)).toNat = x.toNat + (2 ^ k - 1) := by
    rw [toNat_add, hmask, Nat.mod_eq_of_lt (by omega)]
  have hsplit := toNat_and_add_and_not (x + (twoPow w k - 1#w)) (twoPow w k - 1#w)
  have hlow : ((x + (twoPow w k - 1#w)) &&& (twoPow w k - 1#w)).toNat ≤ 2 ^ k - 1 := by
    rw [toNat_and, hmask]
    exact Nat.and_le_right
  refine ⟨and_not_and _ _, ?_, ?_⟩ <;> rw [up] <;> omega

end Align
