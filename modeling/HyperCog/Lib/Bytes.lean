import Mathlib.Algebra.GroupWithZero.Nat

/-! Stores of bytes, and the numbers that they hold in little-endian order. -/
namespace Bytes

/-- The number in the `n` bytes from `p` on. -/
def value (m : ℕ → BitVec 8) (p : ℕ) : ℕ → ℕ
  | 0 => 0
  | n + 1 => (m p).toNat + 256 * value m (p + 1) n

/-- The store with the number `v` in the `n` bytes from `p` on. -/
def put (m : ℕ → BitVec 8) (p n v : ℕ) (q : ℕ) : BitVec 8 :=
  if p ≤ q ∧ q < p + n then BitVec.ofNat 8 (v / 256 ^ (q - p)) else m q

variable {m m' : ℕ → BitVec 8} {p q n v : ℕ}

theorem value_congr (h : ∀ q, p ≤ q → q < p + n → m' q = m q) : value m' p n = value m p n := by
  induction n generalizing p with
  | zero => rfl
  | succ n ih =>
    rw [value, value, h p (Nat.le_refl p) (by omega), ih fun q hq hlt => h q (by omega) (by omega)]

theorem put_of_not (h : q < p ∨ p + n ≤ q) : put m p n v q = m q := by
  rw [put, if_neg (by omega)]

/-- What is put in is read back. -/
theorem value_put (m : ℕ → BitVec 8) (p n v : ℕ) : value (put m p n v) p n = v % 256 ^ n := by
  induction n generalizing p v with
  | zero => rw [Nat.pow_zero, Nat.mod_one, value]
  | succ n ih =>
    have hhead : put m p (n + 1) v p = BitVec.ofNat 8 v := by
      rw [put, if_pos (by omega), Nat.sub_self, Nat.pow_zero, Nat.div_one]
    have htail : value (put m p (n + 1) v) (p + 1) n = value (put m (p + 1) n (v / 256)) (p + 1) n := by
      refine value_congr fun q hq hlt => ?_
      have hexp : q - p = q - (p + 1) + 1 := by omega
      rw [put, put, if_pos (by omega), if_pos (by omega), hexp, Nat.pow_succ', Nat.div_div_eq_div_mul]
    rw [value, hhead, htail, ih, Nat.pow_succ', Nat.mod_mul]
    rfl

end Bytes
