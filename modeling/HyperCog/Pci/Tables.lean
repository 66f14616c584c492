import HyperCog.Lib.Align
import HyperCog.Pci.Basic
import Mathlib.Data.Fintype.Basic

/-! What the tables hold, and what the registration of a BAR that is apart from the others adds to it. -/
namespace HyperCog.Pci

open Extent

variable {ι : Type} {i : ι} {j : ℕ} {s : World ι} {P : ι → ℕ → Prop}

/-- What is registered besides the BARs. -/
structure Fixed (ι : Type) where
  mem : List (MemRange ι)
  io : ℕ → Bool

def barSpace (devs : ι → Devinst) (i : ι) (j : ℕ) : Option Space := ((devs i).bar j).type.space

/-- The BAR decodes a range of the address space: it has one, and the device's bit for it is set. -/
def Decodes (devs : ι → Devinst) (i : ι) (j : ℕ) : Prop :=
  j ≤ pciBarmax ∧ ∃ sp, barSpace devs i j = some sp ∧ (devs i).enabled sp = true

instance (devs : ι → Devinst) (i : ι) (j : ℕ) : Decidable (Decodes devs i j) :=
  decidable_of_iff (j ≤ pciBarmax ∧ (barSpace devs i j).any (devs i).enabled = true) <| by
    rw [Decodes, Option.any_eq_true]

/-- The BAR is apart from what else is decoded in its space. -/
structure Free (fx : Fixed ι) (devs : ι → Devinst) (P : ι → ℕ → Prop) (i : ι) (j : ℕ) : Prop where
  bars : ∀ i' j', P i' j' → barSpace devs i' j' = barSpace devs i j → (i', j') ≠ (i, j) →
    (barExtent devs i' j').Apart (barExtent devs i j)
  mem : barSpace devs i j = some .mem → ∀ r ∈ fx.mem, r.extent.Apart (barExtent devs i j)
  io : barSpace devs i j = some .io → ∀ p, (barExtent devs i j).covers p = true → fx.io p = false

/-- The decoded ranges are apart from each other and from what else is registered. -/
def Apart (fx : Fixed ι) (devs : ι → Devinst) : Prop :=
  ∀ i j, Decodes devs i j → Free fx devs (Decodes devs) i j

variable {fx : Fixed ι} {devs : ι → Devinst} {b : Pcibar} {r : MemRange ι} {p : ℕ}

/-- All that is to be checked is bounded. -/
theorem free_iff : Free fx devs (Decodes devs) i j ↔
    (∀ i', ∀ j' ≤ pciBarmax, Decodes devs i' j' → barSpace devs i' j' = barSpace devs i j →
      (i', j') ≠ (i, j) → (barExtent devs i' j').Apart (barExtent devs i j)) ∧
    (barSpace devs i j = some .mem → ∀ r ∈ fx.mem, r.extent.Apart (barExtent devs i j)) ∧
    (barSpace devs i j = some .io → ∀ k < (barExtent devs i j).len,
      fx.io ((barExtent devs i j).base + k) = false) := by
  constructor
  · intro h
    refine ⟨fun i' j' _ => h.bars i' j', h.mem, fun hsp k hk => h.io hsp _ ?_⟩
    exact covers_iff.mpr ⟨Nat.le_add_right _ _, Nat.add_lt_add_left hk _⟩
  · rintro ⟨hbars, hmem, hio⟩
    refine ⟨fun i' j' hd => hbars i' j' hd.1 hd, hmem, fun hsp p hp => ?_⟩
    obtain ⟨hle, hlt⟩ := covers_iff.mp hp
    have := hio hsp (p - (barExtent devs i j).base) (by omega)
    rwa [Nat.add_sub_cancel' hle] at this

theorem apart_iff : Apart fx devs ↔
    ∀ i, ∀ j ≤ pciBarmax, Decodes devs i j → Free fx devs (Decodes devs) i j :=
  ⟨fun h i j _ => h i j, fun h i j hd => h i j hd.1 hd⟩

instance [Fintype ι] [DecidableEq ι] (i : ι) (j : ℕ) : Decidable (Free fx devs (Decodes devs) i j) :=
  decidable_of_iff _ free_iff.symm

instance [Fintype ι] [DecidableEq ι] : Decidable (Apart fx devs) := decidable_of_iff _ apart_iff.symm

/-- The tables hold the ranges of the BARs in `P`, and what else is registered. -/
structure Holds (fx : Fixed ι) (s : World ι) (P : ι → ℕ → Prop) : Prop where
  mem : ∀ r, r ∈ s.mem ↔ r ∈ fx.mem ∨
    ∃ i j, P i j ∧ barSpace s.devs i j = some .mem ∧ r = memRange s.devs i j
  fixed : ∀ p, fx.io p = true → s.io p = .fixed
  device : ∀ i j p, P i j → barSpace s.devs i j = some .io →
    (barExtent s.devs i j).covers p = true → s.io p = .device i
  default : ∀ p, fx.io p = false → (∀ i j, P i j → barSpace s.devs i j = some .io →
    (barExtent s.devs i j).covers p = false) → s.io p = .default

/-- The tables hold exactly what the BARs describe. -/
def Faithful (fx : Fixed ι) (s : World ι) : Prop := Holds fx s (Decodes s.devs)

/-- A BAR as `pci_emul_alloc_pbar` makes it: its size is a power of two and its address a multiple. -/
structure Aligned (b : Pcibar) : Prop where
  size : ∃ k < 64, b.size = BitVec.twoPow 64 k
  addr : b.addr &&& (b.size - 1) = 0
  io : b.type = .io → b.addr.toNat < maxIoports ∧ b.size.toNat ≤ maxIoports

/-- The BARs of a device. -/
structure Devinst.Wf (d : Devinst) : Prop where
  aligned : ∀ j, (d.bar j).type.space ≠ none → Aligned (d.bar j)
  pair : ∀ j, (d.bar j).type = .memhi64 → 0 < j ∧ (d.bar (j - 1)).type = .mem64

theorem Aligned.size_pos (h : Aligned b) : 0 < b.size.toNat := by
  obtain ⟨k, hk, hs⟩ := h.size
  rw [hs, BitVec.toNat_twoPow_of_lt hk]
  exact Nat.two_pow_pos k

theorem Aligned.dvd (h : Aligned b) : b.size.toNat ∣ b.addr.toNat := by
  obtain ⟨k, hk, hs⟩ := h.size
  have haddr := h.addr
  rw [hs] at haddr
  rw [hs, BitVec.toNat_twoPow_of_lt hk]
  exact Align.dvd_of_and_eq_zero hk haddr

/-- The ports of an I/O BAR are in the table. -/
theorem Aligned.verifyIoport (h : Aligned b) (hio : b.type = .io) : verifyIoport b.extent = true := by
  obtain ⟨ha, hs⟩ := h.io hio
  obtain ⟨k, hk, hpow⟩ := h.size
  have hdvd : b.size.toNat ∣ maxIoports := by
    rw [hpow, BitVec.toNat_twoPow_of_lt hk] at hs ⊢
    exact Nat.pow_dvd_pow 2 ((Nat.pow_le_pow_iff_right (by omega)).mp hs : k ≤ 16)
  obtain ⟨m, hm⟩ := h.dvd
  obtain ⟨n, hn⟩ := hdvd
  have hpos := h.size_pos
  have hlt : m < n := by
    rw [hm, hn] at ha
    exact Nat.lt_of_mul_lt_mul_left ha
  have hle : b.size.toNat * (m + 1) ≤ b.size.toNat * n := Nat.mul_le_mul_left _ hlt
  refine decide_eq_true ⟨hpos, ?_⟩
  rw [Nat.mul_add, Nat.mul_one, ← hm, ← hn] at hle
  exact hle

theorem type_eq_io (h : barSpace s.devs i j = some .io) : ((s.devs i).bar j).type = .io := by
  rw [barSpace] at h
  cases ht : ((s.devs i).bar j).type <;> simp_all [BarType.space]

theorem covers_base (hw : Aligned ((s.devs i).bar j)) :
    (barExtent s.devs i j).covers (barExtent s.devs i j).base = true :=
  Extent.covers_base hw.size_pos

theorem registerMem_of_apart {t : List (MemRange ι)}
    (h : ∀ e ∈ t, e.extent.Apart r.extent) (hpos : 0 < r.extent.len) :
    registerMem true t r = (none, r :: t) := by
  rw [registerMem, if_neg (by decide), Extent.lookup_eq_none h (Extent.covers_base hpos),
    clashes_eq_false h]
  rfl

/-- The memory ranges of other BARs are apart from one that is free. -/
theorem Holds.apart_mem (h : Holds fx s P) (hsp : barSpace s.devs i j = some .mem)
    (hfree : Free fx s.devs P i j) (hr : r ∈ s.mem)
    (hne : P i j → r ≠ memRange s.devs i j) : r.extent.Apart (barExtent s.devs i j) := by
  rcases (h.mem r).mp hr with hfix | ⟨i', j', hP, hsp', rfl⟩
  · exact hfree.mem hsp r hfix
  · refine hfree.bars i' j' hP (hsp'.trans hsp.symm) ?_
    intro heq
    cases heq
    exact hne hP rfl

/-- No other BAR decodes a port of one that is free. -/
theorem Free.not_covers (hfree : Free fx s.devs P i j) (hsp : barSpace s.devs i j = some .io)
    (hp : (barExtent s.devs i j).covers p = true) {i' : ι} {j' : ℕ} (hP : P i' j')
    (hsp' : barSpace s.devs i' j' = some .io) (hne : (i', j') ≠ (i, j)) :
    (barExtent s.devs i' j').covers p = false :=
  (hfree.bars i' j' hP (hsp'.trans hsp.symm) hne).symm.not_covers hp

/-- Nor is one registered for something else. -/
theorem Free.not_fixed (hfree : Free fx s.devs P i j) (hsp : barSpace s.devs i j = some .io)
    (hp : fx.io p = true) : (barExtent s.devs i j).covers p = false := by
  rw [← Bool.not_eq_true]
  intro hcov
  rw [hfree.io hsp p hcov] at hp
  cases hp

section

variable (h : Holds fx s P)

include h

/-- Adding a range to one table leaves what the other one holds. -/
theorem Holds.insert_mem (hsp : barSpace s.devs i j = some .mem) :
    Holds fx { s with mem := memRange s.devs i j :: s.mem }
      fun i' j' => P i' j' ∨ (i', j') = (i, j) where
  mem r := by
    rw [List.mem_cons, h.mem r]
    constructor
    · rintro (rfl | hfix | ⟨i', j', hP, hrest⟩)
      · exact .inr ⟨i, j, .inr rfl, hsp, rfl⟩
      · exact .inl hfix
      · exact .inr ⟨i', j', .inl hP, hrest⟩
    · rintro (hfix | ⟨i', j', hP | heq, hrest⟩)
      · exact .inr (.inl hfix)
      · exact .inr (.inr ⟨i', j', hP, hrest⟩)
      · cases heq
        exact .inl hrest.2
  fixed := h.fixed
  device := by
    rintro i' j' p (hP | heq) hsp' hp
    · exact h.device i' j' p hP hsp' hp
    · cases heq
      cases hsp.symm.trans hsp'
  default p hp hnone := h.default p hp fun i' j' hP => hnone i' j' (.inl hP)

theorem Holds.insert_io (hsp : barSpace s.devs i j = some .io) (hnew : ¬ P i j)
    (hfree : Free fx s.devs P i j) :
    Holds fx { s with io := paint s.io (barExtent s.devs i j) (.device i) }
      fun i' j' => P i' j' ∨ (i', j') = (i, j) where
  mem r := by
    rw [h.mem r]
    constructor
    · rintro (hfix | ⟨i', j', hP, hrest⟩)
      · exact .inl hfix
      · exact .inr ⟨i', j', .inl hP, hrest⟩
    · rintro (hfix | ⟨i', j', hP | heq, hrest⟩)
      · exact .inl hfix
      · exact .inr ⟨i', j', hP, hrest⟩
      · cases heq
        cases hsp.symm.trans hrest.1
  fixed p hp := (paint_of_not_covers (hfree.not_fixed hsp hp)).trans (h.fixed p hp)
  device := by
    rintro i' j' p (hP | heq) hsp' hp
    · have hne : (i', j') ≠ (i, j) := by
        intro heq
        cases heq
        exact hnew hP
      have hout := (hfree.bars i' j' hP (hsp'.trans hsp.symm) hne).not_covers hp
      exact (paint_of_not_covers hout).trans (h.device i' j' p hP hsp' hp)
    · cases heq
      exact paint_of_covers hp
  default p hp hnone := (paint_of_not_covers (hnone i j (.inr rfl) hsp)).trans
    (h.default p hp fun i' j' hP => hnone i' j' (.inl hP))

theorem Holds.remove_mem [DecidableEq ι] (hsp : barSpace s.devs i j = some .mem)
    (hfix : memRange s.devs i j ∉ fx.mem) :
    Holds fx { s with mem := s.mem.filter fun e => e ≠ memRange s.devs i j }
      fun i' j' => P i' j' ∧ (i', j') ≠ (i, j) where
  mem r := by
    simp only [List.mem_filter, h.mem r, decide_eq_true_eq]
    constructor
    · rintro ⟨hr | ⟨i', j', hP, hsp', rfl⟩, hne⟩
      · exact .inl hr
      · refine .inr ⟨i', j', ⟨hP, ?_⟩, hsp', rfl⟩
        intro heq
        cases heq
        exact hne rfl
    · rintro (hr | ⟨i', j', ⟨hP, hne⟩, hsp', rfl⟩)
      · exact ⟨.inl hr, fun heq => hfix (heq ▸ hr)⟩
      · refine ⟨.inr ⟨i', j', hP, hsp', rfl⟩, fun heq => hne ?_⟩
        injection heq with hi hj
        cases hi
        cases hj
        rfl
  fixed := h.fixed
  device i' j' p hP := h.device i' j' p hP.1
  default p hp hnone := by
    refine h.default p hp fun i' j' hP hsp' => ?_
    refine hnone i' j' ⟨hP, ?_⟩ hsp'
    intro heq
    cases heq
    cases hsp.symm.trans hsp'

theorem Holds.remove_io (hsp : barSpace s.devs i j = some .io) (hfree : Free fx s.devs P i j) :
    Holds fx { s with io := paint s.io (barExtent s.devs i j) .default }
      fun i' j' => P i' j' ∧ (i', j') ≠ (i, j) where
  mem r := by
    rw [h.mem r]
    constructor
    · rintro (hfix | ⟨i', j', hP, hsp', rfl⟩)
      · exact .inl hfix
      · refine .inr ⟨i', j', ⟨hP, ?_⟩, hsp', rfl⟩
        intro heq
        cases heq
        cases hsp.symm.trans hsp'
    · rintro (hfix | ⟨i', j', hP, hrest⟩)
      · exact .inl hfix
      · exact .inr ⟨i', j', hP.1, hrest⟩
  fixed p hp := (paint_of_not_covers (hfree.not_fixed hsp hp)).trans (h.fixed p hp)
  device i' j' p hP hsp' hp := by
    have hout := (hfree.bars i' j' hP.1 (hsp'.trans hsp.symm) hP.2).not_covers hp
    exact (paint_of_not_covers hout).trans (h.device i' j' p hP.1 hsp' hp)
  default p hp hnone := by
    by_cases hcov : (barExtent s.devs i j).covers p = true
    · exact paint_of_covers hcov
    · rw [Bool.not_eq_true] at hcov
      refine (paint_of_not_covers hcov).trans (h.default p hp fun i' j' hP hsp' => ?_)
      by_cases heq : (i', j') = (i, j)
      · cases heq
        exact hcov
      · exact hnone i' j' ⟨hP, heq⟩ hsp'

end

section Registration

variable [DecidableEq ι] {malloc : ℕ → Bool}

theorem modifyBarRegistration_mem (h : barSpace s.devs i j = some .mem) (registration : Bool) :
    modifyBarRegistration s i malloc j registration =
      if registration then assertMem s (registerMem (malloc j) s.mem (memRange s.devs i j))
      else unregisterMem s.mem (memRange s.devs i j) >>= assertMem s := by
  rw [modifyBarRegistration]
  rw [barSpace] at h
  cases ht : ((s.devs i).bar j).type <;> simp_all [BarType.space]

theorem modifyBarRegistration_io (h : barSpace s.devs i j = some .io) (registration : Bool) :
    modifyBarRegistration s i malloc j registration =
      if registration then registerInout s.io i (barExtent s.devs i j) >>= assertIo s
      else unregisterInout s.io i (barExtent s.devs i j) >>= assertIo s := by
  rw [modifyBarRegistration, type_eq_io h]

/-- A free BAR can be registered, and its range is then held too. -/
theorem registerBar_ok (h : Holds fx s P) (hw : Aligned ((s.devs i).bar j))
    (hsp : barSpace s.devs i j ≠ none) (hnew : ¬ P i j) (hfree : Free fx s.devs P i j)
    (hm : malloc j = true) :
    ∃ s', registerBar s i malloc j = .ok s' ∧ s'.devs = s.devs ∧
      Holds fx s' fun i' j' => P i' j' ∨ (i', j') = (i, j) := by
  cases hspace : barSpace s.devs i j with
  | none => exact absurd hspace hsp
  | some sp =>
    cases sp with
    | mem =>
      have happart : ∀ r ∈ s.mem, r.extent.Apart (memRange s.devs i j).extent :=
        fun r hr => h.apart_mem hspace hfree hr fun hP => absurd hP hnew
      rw [registerBar, modifyBarRegistration_mem hspace, hm, registerMem_of_apart happart hw.size_pos]
      exact ⟨_, rfl, rfl, h.insert_mem hspace⟩
    | io =>
      have hdefault : ∀ k < (barExtent s.devs i j).len,
          s.io ((barExtent s.devs i j).base + k) = .default := by
        intro k hk
        have hcov : (barExtent s.devs i j).covers ((barExtent s.devs i j).base + k) = true :=
          covers_iff.mpr ⟨Nat.le_add_right _ _, Nat.add_lt_add_left hk _⟩
        refine h.default _ (hfree.io hspace _ hcov) fun i' j' hP hsp' => ?_
        refine hfree.not_covers hspace hcov hP hsp' fun heq => ?_
        cases heq
        exact hnew hP
      have hreg : registerInout s.io i (barExtent s.devs i j) =
          .ok (none, paint s.io (barExtent s.devs i j) (.device i)) := by
        have hverify : verifyIoport (barExtent s.devs i j) = true :=
          hw.verifyIoport (type_eq_io hspace)
        rw [registerInout, hverify, if_neg (by simp)]
        simpa using hdefault
      rw [registerBar, modifyBarRegistration_io hspace, hreg]
      exact ⟨_, rfl, rfl, h.insert_io hspace hnew hfree⟩

/-- A registered BAR can be unregistered, and the others are then held. -/
theorem unregisterBar_ok (malloc : ℕ → Bool) (h : Holds fx s P) (hw : Aligned ((s.devs i).bar j))
    (hsp : barSpace s.devs i j ≠ none) (hP : P i j) (hfree : Free fx s.devs P i j) :
    ∃ s', unregisterBar s i malloc j = .ok s' ∧ s'.devs = s.devs ∧
      Holds fx s' fun i' j' => P i' j' ∧ (i', j') ≠ (i, j) := by
  cases hspace : barSpace s.devs i j with
  | none => exact absurd hspace hsp
  | some sp =>
    cases sp with
    | mem =>
      have hmem : memRange s.devs i j ∈ s.mem := (h.mem _).mpr (.inr ⟨i, j, hP, hspace, rfl⟩)
      have hfound : lookup MemRange.extent s.mem (memRange s.devs i j).extent.base =
          some (memRange s.devs i j) :=
        lookup_of_apart hmem (covers_base hw)
          fun r hr hne => h.apart_mem hspace hfree hr fun _ => hne
      have hfix : memRange s.devs i j ∉ fx.mem := by
        intro hr
        -- a range is not apart from itself
        have hself := (hfree.mem hspace _ hr).not_covers (covers_base hw)
        rw [covers_base hw] at hself
        cases hself
      have hreg : unregisterMem s.mem (memRange s.devs i j) =
          .ok (none, s.mem.filter fun e => e ≠ memRange s.devs i j) := by
        rw [unregisterMem, hfound]
        simp [memRange]
      rw [unregisterBar, modifyBarRegistration_mem hspace, hreg]
      exact ⟨_, rfl, rfl, h.remove_mem hspace hfix⟩
    | io =>
      have hreg : unregisterInout s.io i (barExtent s.devs i j) =
          .ok (none, paint s.io (barExtent s.devs i j) .default) := by
        have hverify : verifyIoport (barExtent s.devs i j) = true :=
          hw.verifyIoport (type_eq_io hspace)
        rw [unregisterInout, hverify, if_neg (by simp),
          if_neg (not_not.mpr (h.device i j _ hP hspace (covers_base hw)))]
      rw [unregisterBar, modifyBarRegistration_io hspace, hreg]
      exact ⟨_, rfl, rfl, h.remove_io hspace hfree⟩

end Registration

end HyperCog.Pci
