import Mathlib.Data.List.Range
import Mathlib.Data.Nat.Bitwise

/-! Banks of registers that hold one bit for each of a range of numbers. -/

/-- A bank of words of `w` bits each. -/
structure Bank (w : ℕ) where
  word : ℕ → BitVec w

namespace Bank

open List Function BitVec

variable {w v n u : ℕ} {b : Bank w} {x : BitVec w}

/-- The number of the highest bit that is set, counted from one, or zero. -/
def fls (x : BitVec w) : ℕ := if x = 0 then 0 else x.toNat.log2 + 1

def empty : Bank w := ⟨fun _ => 0⟩

def test (b : Bank w) (v : ℕ) : Bool := (b.word (v / w)).getLsbD (v % w)

def set (b : Bank w) (v : ℕ) : Bank w :=
  ⟨update b.word (v / w) (b.word (v / w) ||| twoPow w (v % w))⟩

def clear (b : Bank w) (v : ℕ) : Bank w :=
  ⟨update b.word (v / w) (b.word (v / w) &&& ~~~twoPow w (v % w))⟩

/-- The highest bit set below word `n`, looked for from the top. -/
def highest (b : Bank w) : ℕ → Option ℕ
  | 0 => none
  | i + 1 => if fls (b.word i) ≠ 0 then some (i * w + (fls (b.word i) - 1)) else b.highest i

/-- The bits set below `n`, in ascending order. -/
def members (b : Bank w) (n : ℕ) : List ℕ := (range n).filter b.test

@[simp] theorem test_empty (v : ℕ) : (empty : Bank w).test v = false := by
  simp [test, empty]

/-- Two numbers are the same when they fall in one word at one position. -/
theorem eq_iff_div_mod : u = v ↔ u / w = v / w ∧ v % w = u % w := by
  constructor
  · rintro rfl
    exact ⟨rfl, rfl⟩
  · rintro ⟨hd, hm⟩
    rw [← Nat.div_add_mod u w, ← Nat.div_add_mod v w, hd, hm]

theorem test_update (b : Bank w) (i : ℕ) (x : BitVec w) (u : ℕ) :
    test ⟨update b.word i x⟩ u = if u / w = i then x.getLsbD (u % w) else b.test u := by
  simp only [test, update_apply]
  split <;> rfl

theorem test_set (hw : 0 < w) (b : Bank w) (v u : ℕ) :
    (b.set v).test u = (decide (u = v) || b.test u) := by
  have hlt : v % w < w := Nat.mod_lt v hw
  have heq : u = v ↔ u / w = v / w ∧ v % w = u % w := eq_iff_div_mod
  rw [set, test_update, getLsbD_or]
  by_cases hd : u / w = v / w <;> simp [heq, hd, hlt, test, Bool.or_comm]

theorem test_clear (hw : 0 < w) (b : Bank w) (v u : ℕ) :
    (b.clear v).test u = (!decide (u = v) && b.test u) := by
  have hlt : v % w < w := Nat.mod_lt v hw
  have hlt' : u % w < w := Nat.mod_lt u hw
  have heq : u = v ↔ u / w = v / w ∧ v % w = u % w := eq_iff_div_mod
  rw [clear, test_update, getLsbD_and, getLsbD_not, getLsbD_twoPow]
  by_cases hd : u / w = v / w <;> simp [heq, hd, hlt, hlt', test, Bool.and_comm]

/-- What `fls` finds is set and nothing above it is. -/
theorem fls_spec (h : fls x ≠ 0) :
    fls x - 1 < w ∧ x.getLsbD (fls x - 1) = true ∧ ∀ i, fls x - 1 < i → x.getLsbD i = false := by
  unfold fls at h ⊢
  by_cases hx : x = 0
  · simp [hx] at h
  · have hne : x.toNat ≠ 0 := by
      intro h0
      exact hx (eq_of_toNat_eq (by simpa using h0))
    rw [if_neg hx]
    refine ⟨(Nat.log2_lt hne).mpr x.isLt, Nat.testBit_log2 hne, fun i hi => ?_⟩
    exact Nat.testBit_eq_false_of_lt ((Nat.log2_lt hne).mp hi)

theorem getLsbD_of_fls_eq_zero (h : fls x = 0) (i : ℕ) : x.getLsbD i = false := by
  unfold fls at h
  split_ifs at h with hx
  simp [hx]

theorem test_of_fls_eq_zero {i : ℕ} (h : fls (b.word i) = 0) (hle : i * w ≤ u)
    (hlt : u < i * w + w) : b.test u = false := by
  have hdiv : u / w = i := Nat.div_eq_of_lt_le hle (by rw [Nat.succ_mul]; exact hlt)
  rw [test, hdiv]
  exact getLsbD_of_fls_eq_zero h _

/-- A search from the top finds the highest bit. -/
theorem highest_eq_some (h : b.highest n = some v) :
    v < n * w ∧ b.test v = true ∧ ∀ u, v < u → u < n * w → b.test u = false := by
  induction n with
  | zero => cases h
  | succ i ih =>
    rw [highest] at h
    split_ifs at h with hf
    · cases h
      obtain ⟨hlt, hset, htop⟩ := fls_spec hf
      have hdiv : ∀ k, k < w → (i * w + k) / w = i := by
        intro k hk
        rw [Nat.add_comm, Nat.add_mul_div_right _ _ (Nat.zero_lt_of_lt hk), Nat.div_eq_of_lt hk,
          Nat.zero_add]
      have hmod : ∀ k, k < w → (i * w + k) % w = k := by
        intro k hk
        rw [Nat.add_comm, Nat.add_mul_mod_self_right, Nat.mod_eq_of_lt hk]
      rw [Nat.succ_mul]
      refine ⟨by omega, by rw [test, hdiv _ hlt, hmod _ hlt]; exact hset, fun u hu hlt' => ?_⟩
      obtain ⟨k, rfl⟩ : ∃ k, u = i * w + k := ⟨u - i * w, by omega⟩
      rw [test, hdiv k (by omega), hmod k (by omega)]
      exact htop k (by omega)
    · obtain ⟨hlt, hset, htop⟩ := ih h
      rw [Nat.succ_mul]
      refine ⟨by omega, hset, fun u hu hlt' => ?_⟩
      by_cases hlow : u < i * w
      · exact htop u hu hlow
      · exact test_of_fls_eq_zero (not_not.mp hf) (Nat.le_of_not_lt hlow) hlt'

theorem highest_eq_none (h : b.highest n = none) : ∀ u, u < n * w → b.test u = false := by
  induction n with
  | zero =>
    intro u hu
    omega
  | succ i ih =>
    rw [highest] at h
    split_ifs at h with hf
    intro u hu
    rw [Nat.succ_mul] at hu
    by_cases hlow : u < i * w
    · exact ih h u hlow
    · exact test_of_fls_eq_zero (not_not.mp hf) (Nat.le_of_not_lt hlow) hu

theorem mem_members : v ∈ b.members n ↔ v < n ∧ b.test v = true := by
  simp [members]

/-- The members are those below `v` when nothing from `v` on is set. -/
theorem members_eq_below (hv : v ≤ n) (htop : ∀ u, v ≤ u → u < n → b.test u = false) :
    b.members n = b.members v := by
  obtain ⟨k, rfl⟩ : ∃ k, n = v + k := ⟨n - v, by omega⟩
  rw [members, range_add, filter_append]
  have hnil : ((range k).map (v + ·)).filter b.test = [] := by
    rw [filter_eq_nil_iff]
    intro u hu
    obtain ⟨j, hj, rfl⟩ := List.mem_map.mp hu
    rw [htop _ (by omega) (by have := List.mem_range.mp hj; omega)]
    simp
  rw [hnil, append_nil, members]

/-- The members below `v`, then `v`, when nothing above `v` is set. -/
theorem members_eq_append (hv : v < n) (hset : b.test v = true)
    (htop : ∀ u, v < u → u < n → b.test u = false) :
    b.members n = b.members v ++ [v] := by
  rw [members_eq_below hv htop, members, range_succ, filter_append, filter_singleton, hset]
  rfl

theorem members_congr {c : Bank w} (h : ∀ u, u < n → b.test u = c.test u) :
    b.members n = c.members n :=
  filter_congr fun u hu => h u (List.mem_range.mp hu)

/-- A bit set above all others becomes the last member. -/
theorem members_set (hw : 0 < w) (hv : v < n) (htop : ∀ u, v ≤ u → u < n → b.test u = false) :
    (b.set v).members n = b.members n ++ [v] := by
  rw [members_eq_append hv (by simp [test_set hw]), members_eq_below (Nat.le_of_lt hv) htop,
    members_congr]
  · intro u hu
    have : u ≠ v := by omega
    simp [test_set hw, this]
  · intro u hu hun
    have : u ≠ v := by omega
    simp [test_set hw, this, htop u (by omega) hun]

/-- Clearing the highest bit takes the last member away. -/
theorem members_clear (hw : 0 < w) (hv : v < n) (hset : b.test v = true)
    (htop : ∀ u, v < u → u < n → b.test u = false) :
    b.members n = (b.clear v).members n ++ [v] := by
  rw [members_eq_append hv hset htop, members_eq_below (Nat.le_of_lt hv),
    members_congr (b := b.clear v)]
  · intro u hu
    have : u ≠ v := by omega
    simp [test_clear hw, this]
  · intro u hu hun
    by_cases h : u = v
    · simp [test_clear hw, h]
    · simp [test_clear hw, h, htop u (by omega) hun]

end Bank
