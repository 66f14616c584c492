import Mathlib.Data.BitVec
import Mathlib.Tactic.Ring

/-! Free-running counters of a fixed width, compared only through wrapped differences. -/
namespace Counter

open BitVec

variable {w a b n : ℕ}

/-- The wrapped difference of two counters is the wrapped true distance. -/
theorem ofNat_sub_ofNat (h : b ≤ a) :
    BitVec.ofNat w a - BitVec.ofNat w b = BitVec.ofNat w (a - b) := by
  have he : BitVec.ofNat w a = BitVec.ofNat w (a - b) + BitVec.ofNat w b := by
    rw [← ofNat_add, Nat.sub_add_cancel h]
  rw [he]
  ring

/-- While the true distance fits the width, the wrapped difference is exact. -/
theorem toNat_distance (h : b ≤ a) (hlt : a - b < 2 ^ w) :
    (BitVec.ofNat w a - BitVec.ofNat w b).toNat = a - b := by
  rw [ofNat_sub_ofNat h, toNat_ofNat, Nat.mod_eq_of_lt hlt]

theorem eq_add_distance (old e : BitVec w) : e = old + BitVec.ofNat w (e - old).toNat := by
  rw [ofNat_toNat, setWidth_eq]
  ring

/-- A counter lies in the window of `n` values from `old` on exactly when its
wrapped distance from `old` is below `n`. -/
theorem mem_window_iff (old e : BitVec w) (hn : n ≤ 2 ^ w) :
    (∃ j < n, e = old + BitVec.ofNat w j) ↔ (e - old).toNat < n := by
  constructor
  · rintro ⟨j, hj, rfl⟩
    have he : old + BitVec.ofNat w j - old = BitVec.ofNat w j := by ring
    rw [he, toNat_ofNat, Nat.mod_eq_of_lt (by omega)]
    exact hj
  · intro h
    exact ⟨_, h, eq_add_distance old e⟩

private theorem ofNat_sub_sub_one {k d : ℕ} (h : BitVec.ofNat w n = BitVec.ofNat w (k + d + 1)) :
    BitVec.ofNat w n - BitVec.ofNat w d - 1 = BitVec.ofNat w k := by
  rw [h, ofNat_add, ofNat_add]
  change _ - _ - BitVec.ofNat w 1 = _
  ring

/-- One comparison of wrapped differences decides whether advancing a counter
from `old` by `n` steps crosses the event index `e`. -/
theorem crossed_iff (old e : BitVec w) (hn : n < 2 ^ w) :
    old + BitVec.ofNat w n - e - 1 < BitVec.ofNat w n ↔ (e - old).toNat < n := by
  have hd := (e - old).isLt
  have hsub : old + BitVec.ofNat w n - e - 1 =
      BitVec.ofNat w n - BitVec.ofNat w (e - old).toNat - 1 := by
    rw [ofNat_toNat, setWidth_eq]
    ring
  rw [hsub, lt_def, toNat_ofNat, Nat.mod_eq_of_lt hn]
  generalize (e - old).toNat = d at hd ⊢
  by_cases h : d < n
  · -- the event index was passed: the left difference counts the steps made since
    rw [ofNat_sub_sub_one (k := n - d - 1) (by congr 1; omega), toNat_ofNat,
      Nat.mod_eq_of_lt (by omega)]
    omega
  · -- the event index lies ahead, so the left difference has wrapped past `n`
    have hw : BitVec.ofNat w n = BitVec.ofNat w (2 ^ w + n - d - 1 + d + 1) := by
      have hs : 2 ^ w + n - d - 1 + d + 1 = 2 ^ w + n := by omega
      apply eq_of_toNat_eq
      simp [hs]
    rw [ofNat_sub_sub_one hw, toNat_ofNat, Nat.mod_eq_of_lt (by omega)]
    omega

end Counter
