import Mathlib.Data.Nat.Digits.Lemmas

/-! Texts as C holds them: literals, numbers in decimal, and where one text occurs in another. -/
namespace Text

open List

/-- The bytes of a literal. -/
def lit (s : String) : List UInt8 := s.toByteArray.data.toList

def digit (d : ℕ) : UInt8 := UInt8.ofNat (48 + d)

def IsDigit (b : UInt8) : Prop := 48 ≤ b.toNat ∧ b.toNat ≤ 57

instance (b : UInt8) : Decidable (IsDigit b) := inferInstanceAs (Decidable (_ ∧ _))

/-- `%lu`. -/
def natText (n : ℕ) : List UInt8 :=
  if n = 0 then [digit 0] else ((Nat.digits 10 n).map digit).reverse

/-- `%d` and `%ld`. -/
def intText : ℤ → List UInt8
  | .ofNat n => natText n
  | .negSucc n => 45 :: natText (n + 1)

/-- The nearest integer to `n / d`, and the even one of two that are equally near. -/
def roundHalfEven (n d : ℕ) : ℕ :=
  if 2 * (n % d) < d then n / d
  else if d < 2 * (n % d) then n / d + 1
  else n / d + n / d % 2

/-- Exponent and mantissa of a single-precision number that is neither infinite nor a NaN: its
size is the mantissa times two to the power of the exponent, over two to the power of 150. -/
def singleParts (bits : UInt32) : ℕ × ℕ :=
  let exponent := bits.toNat / 2 ^ 23 % 2 ^ 8
  let fraction := bits.toNat % 2 ^ 23
  if exponent = 0 then (1, fraction) else (exponent, 2 ^ 23 + fraction)

/-- `%.2f` of the single-precision number with these bits. -/
def fixedTwo (bits : UInt32) : List UInt8 :=
  let minus := if 2 ^ 31 ≤ bits.toNat then lit "-" else []
  if bits.toNat / 2 ^ 23 % 2 ^ 8 = 255 then
    if bits.toNat % 2 ^ 23 = 0 then minus ++ lit "inf" else lit "nan"
  else
    let cents := roundHalfEven (100 * (singleParts bits).2 * 2 ^ (singleParts bits).1) (2 ^ 150)
    minus ++ natText (cents / 100) ++ lit "." ++ [digit (cents / 10 % 10), digit (cents % 10)]

example : fixedTwo 0x3f800000 = lit "1.00" := by decide +kernel
example : fixedTwo 0xbf51eb85 = lit "-0.82" := by decide +kernel

/-- A text that C can hold: no byte of it is the terminator. -/
@[ext]
structure CString where
  bytes : List UInt8
  noNul : 0 ∉ bytes
  deriving DecidableEq, Repr

namespace CString

def length (t : CString) : ℕ := t.bytes.length

/-- At most `k` bytes, as a bounded copy leaves them. -/
def truncate (k : ℕ) (t : CString) : CString :=
  ⟨t.bytes.take k, fun h => t.noNul (List.mem_of_mem_take h)⟩

instance : Append CString where
  append s t := ⟨s.bytes ++ t.bytes, fun h => (List.mem_append.mp h).elim s.noNul t.noNul⟩

/-- Texts one after the other. -/
def concat (ts : List CString) : CString where
  bytes := ts.flatMap bytes
  noNul := by
    rw [List.mem_flatMap]
    rintro ⟨t, -, h⟩
    exact t.noNul h

@[simp] theorem append_bytes (s t : CString) : (s ++ t).bytes = s.bytes ++ t.bytes := rfl

theorem length_concat (ts : List CString) : (concat ts).length = (ts.map length).sum :=
  length_flatMap

@[simp] theorem truncate_bytes (k : ℕ) (t : CString) : (t.truncate k).bytes = t.bytes.take k := rfl

theorem length_truncate_le (k : ℕ) (t : CString) : (t.truncate k).length ≤ k :=
  length_take_le _ _

theorem truncate_of_length_le {k : ℕ} {t : CString} (h : t.length ≤ k) : t.truncate k = t :=
  CString.ext (take_of_length_le h)

end CString

/-- `snprintf` into an array of `n` bytes. -/
def snprintf (n : ℕ) (t : CString) : CString := t.truncate (n - 1)

/-- Whether `strstr` finds the pattern. -/
def strstr (text pattern : CString) : Bool := pattern.bytes <:+: text.bytes

variable {n k d : ℕ} {b : UInt8} {v : ℤ}

theorem toNat_digit (h : d < 10) : (digit d).toNat = 48 + d := by
  rw [digit, UInt8.toNat_ofNat']
  omega

theorem isDigit_digit (h : d < 10) : IsDigit (digit d) := by
  rw [IsDigit, toNat_digit h]
  omega

theorem IsDigit.ne_zero (h : IsDigit b) : b ≠ 0 := by
  rintro rfl
  exact absurd h.1 (by decide)

theorem isDigit_of_mem_natText (h : b ∈ natText n) : IsDigit b := by
  rw [natText] at h
  split at h
  · rw [mem_singleton.mp h]
    exact isDigit_digit (by decide)
  · obtain ⟨d, hd, rfl⟩ := mem_map.mp (mem_reverse.mp h)
    exact isDigit_digit (Nat.digits_lt_base (by decide) hd)

theorem natText_ne_nil (n : ℕ) : natText n ≠ [] := by
  rw [natText]
  split
  · exact cons_ne_nil _ _
  · rename_i hn
    simpa using Nat.digits_ne_nil_iff_ne_zero.mpr hn

theorem length_natText_le (hk : 0 < k) (hn : n < 10 ^ k) : (natText n).length ≤ k := by
  rw [natText]
  split
  · exact hk
  · simpa using (Nat.digits_length_le_iff (by decide) n).mpr hn

theorem map_digit_injective {xs ys : List ℕ} (hx : ∀ d ∈ xs, d < 10) (hy : ∀ d ∈ ys, d < 10)
    (h : xs.map digit = ys.map digit) : xs = ys := by
  have hback : ∀ zs : List ℕ, (∀ d ∈ zs, d < 10) →
      (zs.map digit).map (fun b => b.toNat - 48) = zs := by
    intro zs hz
    rw [map_map]
    refine (map_congr_left fun d hd => ?_).trans (map_id zs)
    have hdig := toNat_digit (hz d hd)
    simp only [Function.comp_apply, id_eq]
    omega
  rw [← hback xs hx, ← hback ys hy, h]

theorem natText_injective : Function.Injective natText := by
  intro m n h
  have hdigits : ∀ n, ∀ d ∈ Nat.digits 10 n, d < 10 := fun n d => Nat.digits_lt_base (by decide)
  -- zero is the one number whose text starts with the digit zero
  have hzero : ∀ n, n ≠ 0 → natText n ≠ [digit 0] := by
    intro n hn he
    rw [natText, if_neg hn] at he
    have hmap : (Nat.digits 10 n).map digit = [0].map digit := by
      simpa using congrArg List.reverse he
    have hlist := map_digit_injective (hdigits n) (by simp) hmap
    exact hn (by simpa [hlist] using (Nat.ofDigits_digits 10 n).symm)
  by_cases hm : m = 0 <;> by_cases hn : n = 0
  · rw [hm, hn]
  · rw [natText, if_pos hm] at h
    exact absurd h.symm (hzero n hn)
  · rw [natText.eq_def n, if_pos hn] at h
    exact absurd h (hzero m hm)
  · rw [natText, natText, if_neg hm, if_neg hn, reverse_inj] at h
    exact Nat.digits.injective 10 (map_digit_injective (hdigits m) (hdigits n) h)

theorem mem_intText (h : b ∈ intText v) : b = 45 ∨ IsDigit b := by
  cases v with
  | ofNat n => exact .inr (isDigit_of_mem_natText h)
  | negSucc n => exact (mem_cons.mp h).imp_right isDigit_of_mem_natText

theorem intText_injective : Function.Injective intText := by
  have hminus : ∀ m n : ℕ, natText m ≠ 45 :: natText (n + 1) := by
    intro m n h
    have hmem : 45 ∈ natText m := h ▸ mem_cons_self
    exact absurd (isDigit_of_mem_natText hmem).1 (by decide)
  intro v w h
  cases v with
  | ofNat m =>
    cases w with
    | ofNat n => exact congrArg Int.ofNat (natText_injective h)
    | negSucc n => exact absurd h (hminus m n)
  | negSucc m =>
    cases w with
    | ofNat n => exact absurd h.symm (hminus n m)
    | negSucc n => exact congrArg Int.negSucc (Nat.succ.inj (natText_injective (List.cons.inj h).2))

theorem length_intText_le (hk : 0 < k) (hv : v.natAbs < 10 ^ k) : (intText v).length ≤ k + 1 := by
  cases v with
  | ofNat n => exact Nat.le_succ_of_le (length_natText_le hk hv)
  | negSucc n => exact Nat.succ_le_succ (length_natText_le hk hv)

theorem zero_not_mem_intText (v : ℤ) : 0 ∉ intText v := fun h =>
  (mem_intText h).elim (by decide) fun hd => hd.ne_zero rfl

theorem roundHalfEven_le (n d : ℕ) : roundHalfEven n d ≤ n / d + 1 := by
  rw [roundHalfEven]
  split
  · omega
  · split <;> omega

theorem zero_not_mem_fixedTwo (bits : UInt32) : 0 ∉ fixedTwo bits := by
  have hminus : 0 ∉ (if 2 ^ 31 ≤ bits.toNat then lit "-" else []) := by
    split <;> decide
  have hnat : ∀ n, 0 ∉ natText n := fun n h => (isDigit_of_mem_natText h).ne_zero rfl
  have hdigit : ∀ d, d < 10 → 0 ≠ digit d := fun d hd he =>
    (isDigit_digit hd).ne_zero he.symm
  have hinf : 0 ∉ lit "inf" := by decide
  have hnan : 0 ∉ lit "nan" := by decide
  have hdot : 0 ∉ lit "." := by decide
  rw [fixedTwo]
  split
  · split
    · exact fun h => (mem_append.mp h).elim hminus hinf
    · exact hnan
  · simp only [mem_append, mem_cons, not_mem_nil, or_false, not_or]
    exact ⟨⟨⟨hminus, hnat _⟩, hdot⟩, hdigit _ (Nat.mod_lt _ (by decide)),
      hdigit _ (Nat.mod_lt _ (by decide))⟩

/-- A single-precision number is less than two to the power of 128. -/
theorem length_fixedTwo_le (bits : UInt32) : (fixedTwo bits).length ≤ 43 := by
  have hminus : (if 2 ^ 31 ≤ bits.toNat then lit "-" else []).length ≤ 1 := by
    split <;> decide
  rw [fixedTwo]
  split
  · split
    · rw [length_append]
      exact Nat.le_trans (Nat.add_le_add hminus (show (lit "inf").length ≤ 3 by decide)) (by decide)
    · decide
  · have hparts : (singleParts bits).1 ≤ 254 ∧ (singleParts bits).2 < 2 ^ 24 := by
      rw [singleParts]
      split
      all_goals
        omega
    have hcents := roundHalfEven_le (100 * (singleParts bits).2 * 2 ^ (singleParts bits).1) (2 ^ 150)
    have hprod : 100 * (singleParts bits).2 * 2 ^ (singleParts bits).1 / 2 ^ 150 ≤
        100 * 2 ^ 24 * 2 ^ 254 / 2 ^ 150 :=
      Nat.div_le_div_right (Nat.mul_le_mul (Nat.mul_le_mul_left _ (Nat.le_of_lt hparts.2))
        (Nat.pow_le_pow_right (by decide) hparts.1))
    have hwhole : roundHalfEven (100 * (singleParts bits).2 * 2 ^ (singleParts bits).1) (2 ^ 150) / 100 <
        10 ^ 39 := by omega
    have hlen := length_natText_le (by decide) hwhole
    have hdot : (lit ".").length = 1 := by decide
    simp only [length_append, length_cons, length_nil, hdot]
    omega

theorem not_mem_intText (hminus : b ≠ 45) (hdigit : ¬ IsDigit b) : b ∉ intText v := by
  intro h
  exact (mem_intText h).elim hminus hdigit

namespace CString

def ofNat (n : ℕ) : CString := ⟨natText n, fun h => (isDigit_of_mem_natText h).ne_zero rfl⟩

def ofInt (v : ℤ) : CString := ⟨intText v, zero_not_mem_intText v⟩

def ofSingle (bits : UInt32) : CString := ⟨fixedTwo bits, zero_not_mem_fixedTwo bits⟩

@[simp] theorem ofNat_bytes (n : ℕ) : (ofNat n).bytes = natText n := rfl

@[simp] theorem ofInt_bytes (v : ℤ) : (ofInt v).bytes = intText v := rfl

end CString

section Occurs

variable {c : UInt8} {p a a' b k k' : List UInt8}

/-- A pattern occurs nowhere in a text that lacks one of its bytes. -/
theorem not_infix_of_not_mem (hp : c ∈ p) (ha : c ∉ a) : ¬ p <:+: a :=
  fun h => ha (h.subset hp)

/-- An occurrence starts where its first byte is. -/
theorem infix_append_of_not_mem (h : c ∉ a) : c :: p <:+: a ++ b ↔ c :: p <:+: b := by
  rw [infix_append_iff]
  constructor
  · rintro (hin | hin | ⟨l₁, l₂, he, hl₁, hl₂⟩)
    · exact absurd hin (not_infix_of_not_mem mem_cons_self h)
    · exact hin
    · cases l₁ with
      | nil => exact he ▸ hl₂.isInfix
      | cons x l₁ =>
        obtain ⟨rfl, -⟩ := List.cons.inj he
        exact absurd (hl₁.subset mem_cons_self) h
  · exact fun hin => .inr (.inl hin)

/-- What stands before the first separator is compared as a whole. -/
theorem append_cons_prefix_iff (ha : c ∉ a) (ha' : c ∉ a') :
    a ++ c :: k <+: a' ++ c :: k' ↔ a = a' ∧ k <+: k' := by
  induction a generalizing a' with
  | nil =>
    cases a' with
    | nil => simp
    | cons y a' =>
      have hne : c ≠ y := fun he => ha' (he ▸ mem_cons_self)
      simp [hne]
  | cons x a ih =>
    cases a' with
    | nil =>
      have hne : x ≠ c := fun he => ha (he ▸ mem_cons_self)
      simp [hne]
    | cons y a' =>
      have ih := ih (fun h => ha (mem_cons_of_mem _ h))
        (fun h => ha' (mem_cons_of_mem _ h))
      simp [ih, and_assoc]

end Occurs

end Text
