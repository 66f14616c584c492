import Mathlib.Data.Fintype.Card

/-! A pool whose slots are split between a free list and an in-use list. -/
namespace Pool

open List

variable {ι : Type*} [DecidableEq ι] {free inuse rest : List ι} {i j : ι}

/-- Every slot is on exactly one of the two lists, once. -/
def Split (free inuse : List ι) : Prop := ∀ i, (free ++ inuse).count i = 1

/-- Taking the first free slot into use. -/
theorem split_take (h : Split (i :: rest) inuse) : Split rest (i :: inuse) := by
  intro j
  have hj := h j
  simp only [cons_append, count_cons, count_append] at hj ⊢
  omega

section

variable (h : Split free inuse)

include h

/-- Giving a slot in use back. -/
theorem split_give (hi : i ∈ inuse) : Split (i :: free) (inuse.erase i) := by
  intro j
  have hj := h j
  have hpos := count_pos_iff.mpr hi
  simp only [cons_append, count_cons, count_append, count_erase] at hj ⊢
  by_cases hij : i = j
  · subst hij
    simp
    omega
  · simp [hij]
    omega

/-- Only the slots on the lists matter, not their order. -/
theorem split_perm {free' inuse' : List ι} (hf : free.Perm free')
    (hi : inuse.Perm inuse') : Split free' inuse' := by
  intro j
  rw [← (hf.append hi).count_eq j]
  exact h j

theorem mem_inuse_iff : i ∈ inuse ↔ i ∉ free := by
  have hi := h i
  rw [count_append] at hi
  rw [← count_pos_iff, ← count_eq_zero]
  omega

theorem nodup_inuse : inuse.Nodup := by
  rw [nodup_iff_count_le_one]
  intro i
  have hi := h i
  rw [count_append] at hi
  omega

/-- The two lists share out the pool. -/
theorem length_split [Fintype ι] : free.length + inuse.length = Fintype.card ι := by
  have hnodup : (free ++ inuse).Nodup := by
    rw [nodup_iff_count_le_one]
    exact fun i => (h i).le
  have hall : (free ++ inuse).toFinset = Finset.univ := by
    ext i
    have hi : i ∈ free ++ inuse := count_pos_iff.mp (by rw [h i]; exact Nat.one_pos)
    simp only [mem_toFinset, Finset.mem_univ, hi]
  rw [← length_append, ← toFinset_card_of_nodup hnodup, hall, Finset.card_univ]

end

/-- If everyone on a list is ready or waits for someone earlier, then someone is ready. -/
theorem exists_ready {κ : Type*} {l : List κ} {i : κ} {Ready : κ → Prop} (rank : κ → ℕ)
    (hw : ∀ i ∈ l, Ready i ∨ ∃ j ∈ l, rank j < rank i) (hi : i ∈ l) : ∃ j ∈ l, Ready j := by
  induction hn : rank i using Nat.strongRecOn generalizing i with
  | ind n ih =>
    rcases hw i hi with hr | ⟨j, hj, hlt⟩
    · exact ⟨i, hi, hr⟩
    · exact ih (rank j) (hn ▸ hlt) hj rfl

end Pool
