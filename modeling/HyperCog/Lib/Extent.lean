import Mathlib.Data.List.Basic

/-! Extents of addresses (half-open intervals), tables of entries that take one each, and maps set on one. -/

structure Extent where
  base : ℕ
  len : ℕ
  deriving DecidableEq, Repr

namespace Extent

def covers (r : Extent) (p : ℕ) : Bool := r.base ≤ p ∧ p < r.base + r.len

def Apart (r r' : Extent) : Prop := r.base + r.len ≤ r'.base ∨ r'.base + r'.len ≤ r.base

instance (r r' : Extent) : Decidable (r.Apart r') := inferInstanceAs (Decidable (_ ∨ _))

variable {r r' : Extent} {p : ℕ}

theorem covers_iff : r.covers p = true ↔ r.base ≤ p ∧ p < r.base + r.len := by simp [covers]

theorem covers_base (h : 0 < r.len) : r.covers r.base = true :=
  covers_iff.mpr ⟨Nat.le_refl _, Nat.lt_add_of_pos_right h⟩

theorem Apart.symm (h : r.Apart r') : r'.Apart r := Or.symm h

/-- Two extents apart have no point in common. -/
theorem Apart.not_covers (h : r.Apart r') (hp : r.covers p = true) : r'.covers p = false := by
  rw [covers_iff] at hp
  rw [← Bool.not_eq_true, covers_iff]
  rcases h with h | h <;> omega

section Table

variable {β : Type*} (f : β → Extent)

/-- The entry of a table that covers the point. -/
def lookup (t : List β) (p : ℕ) : Option β := t.find? fun e => (f e).covers p

/-- Some entry of the table is not apart from the extent. -/
def clashes (t : List β) (r : Extent) : Bool := t.any fun e => !decide ((f e).Apart r)

variable {f} {t : List β} {e : β}

/-- Where an entry is apart from the others it is the one that is found. -/
theorem lookup_of_apart (he : e ∈ t) (hp : (f e).covers p = true)
    (h : ∀ e' ∈ t, e' ≠ e → (f e').Apart (f e)) : lookup f t p = some e := by
  cases hfind : lookup f t p with
  | none =>
    have := List.find?_eq_none.mp hfind e he
    exact absurd hp this
  | some e' =>
    by_contra hne
    have hmem := List.mem_of_find?_eq_some hfind
    have hcov := List.find?_some hfind
    have happart := h e' hmem (fun he' => hne (by rw [he']))
    rw [happart.not_covers hcov] at hp
    cases hp

theorem lookup_eq_none (h : ∀ e ∈ t, (f e).Apart r) (hp : r.covers p = true) :
    lookup f t p = none := by
  rw [lookup, List.find?_eq_none]
  intro e he
  rw [(h e he).symm.not_covers hp]
  simp

theorem clashes_eq_false (h : ∀ e ∈ t, (f e).Apart r) : clashes f t r = false := by
  rw [clashes, List.any_eq_false]
  intro e he
  simp [h e he]

end Table

/-- The map with the value `c` on the extent. -/
def paint {γ : Type*} (g : ℕ → γ) (r : Extent) (c : γ) (p : ℕ) : γ := if r.covers p then c else g p

theorem paint_of_covers {γ : Type*} {g : ℕ → γ} {c : γ} (h : r.covers p = true) :
    paint g r c p = c := if_pos h

theorem paint_of_not_covers {γ : Type*} {g : ℕ → γ} {c : γ} (h : r.covers p = false) :
    paint g r c p = g p := by
  rw [paint, h]
  rfl

end Extent
