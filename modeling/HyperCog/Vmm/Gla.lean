import HyperCog.Vmm.TaskSwitch
import Mathlib.Tactic.SplitIfs

/-! Segment checks of an emulated access, against the bounds of the segment. -/
namespace HyperCog.Task

open BitVec

/-- What the type of a code or data segment allows. -/
def allowed (access : BitVec 32) (read write : Bool) : Bool :=
  (!read || !access.getLsbD 3 || access.getLsbD 1) && (!write || !access.getLsbD 3 && access.getLsbD 1)

def expandDown (access : BitVec 32) : Bool := !access.getLsbD 3 && access.getLsbD 2

def upperBound (access : BitVec 32) : ℕ := if segDescDef32 access then 0xffffffff else 0xffff

/-- The offset lies in the segment, as the architecture has it. -/
def InSegment (desc : SegDesc) (off : ℕ) : Prop :=
  if expandDown desc.access then desc.limit.toNat < off ∧ off ≤ upperBound desc.access
  else off ≤ desc.limit.toNat

/-- The offset of a byte of the operand. -/
def byteOffset (offset : BitVec 64) (addrsize i : ℕ) : ℕ := (offset.toNat + i) % 2 ^ (8 * addrsize)

structure Access where
  mode : CpuMode
  seg : Reg
  desc : SegDesc
  offset : BitVec 64
  length : ℕ
  addrsize : ℕ
  read : Bool
  write : Bool

namespace Access

def gla (a : Access) : Option (BitVec 64) :=
  calculateGla a.mode a.seg a.desc a.offset a.length a.addrsize a.read a.write

/-- The assertions of `vie_calculate_gla`, and a segment that can be used. -/
structure Valid (a : Access) : Prop where
  size : if a.mode = .bits64 then a.addrsize = 4 ∨ a.addrsize = 8 else a.addrsize = 2 ∨ a.addrsize = 4
  length : a.length = 1 ∨ a.length = 2 ∨ a.length = 4 ∨ a.length = 8
  usable : segDescUnusable a.desc.access = false
  present : segDescPresent a.desc.access
  codeOrData : a.desc.access.getLsbD 4

def Permitted (a : Access) : Prop :=
  allowed a.desc.access a.read a.write ∧
    (a.mode ≠ .bits64 → ∀ i < a.length, InSegment a.desc (byteOffset a.offset a.addrsize i))

def linear (a : Access) : ℕ :=
  ((if a.mode = .bits64 ∧ a.seg ≠ .fs ∧ a.seg ≠ .gs then 0 else a.desc.base.toNat) +
    byteOffset a.offset a.addrsize 0) % 2 ^ (if a.mode = .bits64 then 64 else 32)

/-- The access goes through exactly when it is permitted, and then to the right address. -/
def Matches (a : Access) : Prop :=
  (a.gla.isSome ↔ a.Permitted) ∧ ∀ gla, a.gla = some gla → gla.toNat = a.linear

/-- Past the last of all offsets there is no segment to expand into, and in 64-bit mode the code
does not look at the type. -/
def Unwrapped (a : Access) : Prop :=
  if a.mode = .bits64 then allowed a.desc.access a.read a.write = true
  else ¬ (allowed a.desc.access a.read a.write ∧ expandDown a.desc.access ∧
    a.desc.limit.toNat = 2 ^ 32 - 1 ∧
      ∀ i < a.length, byteOffset a.offset a.addrsize i ≤ upperBound a.desc.access)

end Access

variable {a : ℕ}

theorem toNat_and_size2mask (x : BitVec 64) (ha : a ≤ 8) :
    (x &&& size2mask a).toNat = x.toNat % 2 ^ (8 * a) := by
  have hle : 2 ^ (8 * a) ≤ 2 ^ 64 := Nat.pow_le_pow_right (by decide) (by omega)
  rw [toNat_and, size2mask, toNat_ofNat, Nat.mod_eq_of_lt (by omega), Nat.and_two_pow_sub_one_eq_mod]

theorem byteOffset_next (x : BitVec 64) (ha : a = 2 ∨ a = 4 ∨ a = 8) (i : ℕ) :
    byteOffset ((x &&& size2mask a) + 1) a i = byteOffset x a (i + 1) := by
  rw [byteOffset, byteOffset, toNat_add, toNat_and_size2mask x (by omega)]
  rcases ha with rfl | rfl | rfl <;> simp <;> omega

/-- The loop looks at each byte of the operand. -/
theorem bytesInside_iff (low high : BitVec 64) (ha : a = 2 ∨ a = 4 ∨ a = 8) (n : ℕ) (x : BitVec 64) :
    bytesInside low high (size2mask a) n x ↔
      ∀ i < n, low.toNat ≤ byteOffset x a i ∧ byteOffset x a i ≤ high.toNat := by
  induction n generalizing x with
  | zero => simp [bytesInside]
  | succ n ih =>
    have h0 : byteOffset x a 0 = (x &&& size2mask a).toNat :=
      (toNat_and_size2mask x (by omega)).symm
    rw [Nat.forall_lt_succ_left, bytesInside, h0]
    simp only [← byteOffset_next x ha, ← ih]
    simp [lt_def]

/-- The masks that the checks apply to the type, bit by bit. -/
theorem segDescType_bits (access : BitVec 32) (read write : Bool) :
    (read && segDescType access &&& 0xA == 0x8 ||
        write && (segDescType access &&& 0x8 != 0 || segDescType access &&& 0xA == 0)) =
      !allowed access read write ∧ (segDescType access &&& 0xC == 0x4) = expandDown access := by
  have hbit (i : ℕ) (hi : i < 5) : access.getLsbD i = (access.setWidth 5).getLsbD i := by simp [hi]
  have htype : segDescType access = (access.setWidth 5).setWidth 32 := by
    apply eq_of_toNat_eq
    rw [segDescType, toNat_setWidth]
    refine (Nat.and_two_pow_sub_one_eq_mod access.toNat 5).trans (Nat.mod_eq_of_lt ?_).symm
    omega
  rw [allowed, expandDown, htype, hbit 1 (by decide), hbit 2 (by decide), hbit 3 (by decide)]
  generalize access.setWidth 5 = t
  revert read write t
  decide

theorem segmentAdmits_iff {desc : SegDesc} {x : BitVec 64} {n a : ℕ} {read write : Bool}
    (hu : segDescUnusable desc.access = false) (ha : a = 2 ∨ a = 4 ∨ a = 8) :
    segmentAdmits desc x n a read write ↔ allowed desc.access read write ∧ ∀ i < n,
        if expandDown desc.access then
          (desc.limit.toNat + 1) % 2 ^ 32 ≤ byteOffset x a i ∧ byteOffset x a i ≤ upperBound desc.access
        else byteOffset x a i ≤ desc.limit.toNat := by
  obtain ⟨hkind, hdown⟩ := segDescType_bits desc.access read write
  have hwide (l : BitVec 32) : (l.setWidth 64).toNat = l.toNat := toNat_setWidth_of_le (by decide)
  simp only [segmentAdmits, hu, hkind, hdown, upperBound]
  cases allowed desc.access read write with
  | false => simp
  | true =>
    cases expandDown desc.access with
    | false => simp [bytesInside_iff _ _ ha, hwide, - toNat_setWidth]
    | true =>
      cases segDescDef32 desc.access with
      | false | true => simp [bytesInside_iff _ _ ha, hwide, - toNat_setWidth]

theorem gla_linear {a : Access} (h : a.Valid) {g : BitVec 64} (hg : a.gla = some g) :
    g.toNat = a.linear := by
  have hsize := h.size
  rw [Access.gla, calculateGla] at hg
  split at hg
  · cases hg
  · cases hg
    rw [Access.linear, byteOffset, toNat_and_size2mask _ (by split <;> omega), toNat_add,
      toNat_and_size2mask _ (by split at hsize <;> omega)]
    split_ifs <;> simp

/-- Only the wrap of an expand-down limit, and in 64-bit mode the type, can be in the way. -/
theorem matches_iff (a : Access) (h : a.Valid) : a.Matches ↔ a.Unwrapped := by
  have hlinear : a.Matches ↔ (a.gla.isSome ↔ a.Permitted) :=
    and_iff_left fun g hg => gla_linear h hg
  have hsize := h.size
  rw [hlinear, Access.Permitted, Access.Unwrapped]
  split_ifs at hsize ⊢ with hm
  · simp [Access.gla, calculateGla, hm]
  · have hgla : a.gla.isSome ↔ segmentAdmits a.desc a.offset a.length a.addrsize a.read a.write := by
      rw [Access.gla, calculateGla]
      split_ifs <;> simp_all
    rw [hgla, segmentAdmits_iff h.usable (by omega)]
    cases ha : allowed a.desc.access a.read a.write with
    | false => simp
    | true =>
      cases hd : expandDown a.desc.access with
      | false => simp [InSegment, hd, hm]
      | true =>
        simp only [InSegment, hd, if_true, true_and, ne_eq, hm, not_false_eq_true, forall_const]
        have hupper : upperBound a.desc.access ≤ 2 ^ 32 - 1 := by
          unfold upperBound
          split <;> simp
        by_cases hmax : a.desc.limit.toNat = 2 ^ 32 - 1
        · have hempty : ¬ ∀ i < a.length, a.desc.limit.toNat < byteOffset a.offset a.addrsize i ∧
              byteOffset a.offset a.addrsize i ≤ upperBound a.desc.access := by
            intro hall
            have hfirst := hall 0 (by have := h.length; omega)
            omega
          rw [iff_false_intro hempty, hmax]
          simp
        · have hnext : (a.desc.limit.toNat + 1) % 2 ^ 32 = a.desc.limit.toNat + 1 := by omega
          simp only [hnext, Nat.succ_le_iff, hmax, iff_self, false_and, not_false_eq_true]

/-- A stack of four gigabytes that grows down from its top: one byte at offset 0 of it. -/
def downAccess (limit : BitVec 32) : Access where
  mode := .protect
  seg := .ss
  desc := { base := 0, limit, access := 0x4097 }
  offset := 0
  length := 1
  addrsize := 4
  read := true
  write := false

theorem matches_at_zero : (downAccess 0).Matches :=
  (matches_iff (downAccess 0) ⟨.inr rfl, .inl rfl, rfl, rfl, rfl⟩).mpr fun h => absurd h.2.2.1 (by decide)

/-- An empty segment lets the byte through. -/
theorem empty_segment_admits :
    (downAccess 0xffffffff).gla = some 0 ∧ ¬ (downAccess 0xffffffff).Matches := by
  refine ⟨by decide, fun h => ?_⟩
  have hin := (h.1.mp (by decide)).2 (by decide) 0 (by decide)
  revert hin
  unfold InSegment
  decide

end HyperCog.Task
