import Mathlib.Data.Nat.ModEq

/-! A queue stored in the slots of a ring, addressed by a free-running index. -/
namespace Ring

variable {α : Type*} {n start : ℕ} {slots : ℕ → α} {x : α} {xs : List α}

/-- The `n` slots hold `xs` in order from the index `start` on. -/
def Holds (n : ℕ) (slots : ℕ → α) (start : ℕ) (xs : List α) : Prop :=
  xs.length ≤ n ∧ ∀ i (h : i < xs.length), slots ((start + i) % n) = xs[i]

theorem holds_nil : Holds n slots start [] := ⟨Nat.zero_le n, by simp⟩

/-- Distinct offsets below the ring size fall on distinct slots. -/
theorem slot_ne {i j : ℕ} (hi : i < n) (hj : j < n) (hij : i ≠ j) :
    (start + i) % n ≠ (start + j) % n := by
  intro h
  have hm : i ≡ j [MOD n] := Nat.ModEq.add_left_cancel' start h
  exact hij (hm.eq_of_lt_of_lt hi hj)

/-- Only the residue of the start index matters. -/
theorem holds_mod : Holds n slots (start % n) xs ↔ Holds n slots start xs := by
  simp only [Holds, Nat.mod_add_mod]

/-- Writing the first free slot appends to the queue. -/
theorem holds_push (h : Holds n slots start xs) (hroom : xs.length < n) :
    Holds n (Function.update slots ((start + xs.length) % n) x) start (xs ++ [x]) := by
  refine ⟨by simp; omega, ?_⟩
  intro i hi
  by_cases hold : i < xs.length
  · have hne : (start + i) % n ≠ (start + xs.length) % n :=
      slot_ne (hold.trans hroom) hroom (Nat.ne_of_lt hold)
    rw [Function.update_of_ne hne, List.getElem_append_left hold]
    exact h.2 i hold
  · have he : i = xs.length := by simp at hi; omega
    subst he
    simp

theorem holds_head (h : Holds n slots start (x :: xs)) : slots (start % n) = x := by
  have h0 := h.2 0 (Nat.succ_pos _)
  exact h0

/-- Advancing the start index drops the head of the queue. -/
theorem holds_pop (h : Holds n slots start (x :: xs)) : Holds n slots (start + 1) xs := by
  refine ⟨by have := h.1; simp at this; omega, ?_⟩
  intro i hi
  have := h.2 (i + 1) (by simpa using hi)
  simpa [Nat.add_assoc, Nat.add_comm 1 i] using this

end Ring
