import Mathlib.Algebra.BigOperators.Ring.Finset
import Mathlib.Tactic.Ring

/-! How many members of a finite family pass a test, and what one member adds to the number. -/
namespace Tally

/-- What a member that passes adds. -/
def bit (b : Bool) : ℤ := if b then 1 else 0

@[simp] theorem bit_true : bit true = 1 := rfl

@[simp] theorem bit_false : bit false = 0 := rfl

variable {ι : Type*} [Fintype ι] {p : ι → Bool} {a : ι}

/-- How many pass. -/
def count (p : ι → Bool) : ℤ := ((Finset.univ.filter fun i => p i = true).card : ℤ)

theorem count_eq_sum (p : ι → Bool) : count p = ∑ i, bit (p i) := by
  simp only [count, bit, Finset.card_filter, Nat.cast_sum, Nat.cast_ite, Nat.cast_one, Nat.cast_zero]

theorem count_eq_zero (h : ∀ i, p i = false) : count p = 0 := by
  simp [count, h]

theorem count_pos (h : p a = true) : 0 < count p := by
  rw [count, Int.natCast_pos, Finset.card_pos]
  exact ⟨a, by simpa using h⟩

/-- Only the member that may differ changes the number. -/
theorem count_change {q : ι → Bool} (h : ∀ i, i ≠ a → q i = p i) :
    count q = count p - bit (p a) + bit (q a) := by
  classical
  rw [count_eq_sum, count_eq_sum, ← Finset.add_sum_erase _ _ (Finset.mem_univ a),
    ← Finset.add_sum_erase _ (fun i => bit (p i)) (Finset.mem_univ a)]
  have hrest : ∑ i ∈ Finset.univ.erase a, bit (q i) = ∑ i ∈ Finset.univ.erase a, bit (p i) := by
    refine Finset.sum_congr rfl fun i hi => ?_
    rw [h i (Finset.ne_of_mem_erase hi)]
  rw [hrest]
  ring

end Tally
