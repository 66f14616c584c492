import HyperCog.Lib.Bank
import HyperCog.Pci.Decode

/-! The allocation of the BARs before the guest runs, and the guest's writes after it. -/
namespace HyperCog.Pci

open Machine Function BitVec

attribute [local simp] Devinst.setBarReg

def pciEmulIobase : BitVec 64 := 0x2000
def pciEmulIolimit : BitVec 64 := 0x10000
def pciEmulMemlimit32 : BitVec 64 := 0xE0000000
def pciEmulMembase64 : BitVec 64 := 0xD000000000
def pciEmulMemlimit64 : BitVec 64 := 0xFD00000000
def pcimBarIoBase : BitVec 64 := 0xfffffffc
def pcimBarMemBase : BitVec 64 := 0xfffffffffffffff0
def pcimCmdBusmasteren : BitVec 16 := 0x0004
def maxbuses : ℕ := 256
def busioRoundup : BitVec 64 := 32
def busmemRoundup : BitVec 64 := 1024 * 1024
def pciEmulEcfgBase : ℕ := 0xE0000000
def pciEmulEcfgSize : ℕ := maxbuses * 1024 * 1024

/-- Where the next BAR of each kind goes. -/
structure Bases where
  iobase : BitVec 64
  membase32 : BitVec 64
  membase64 : BitVec 64

structure Setup (ι : Type) where
  world : World ι
  bases : Bases
  /-- the buses that are done -/
  bus : ℕ

/-- Why the setup fails. -/
inductive SetupStop
  | noSpace
  | abort (a : Abort)
  /-- no BAR register is left for the high half -/
  | barMax
  /-- the extended config space cannot be registered -/
  | ecfg
  deriving DecidableEq, Repr

def roundup2 (x y : BitVec 64) : BitVec 64 := (x + (y - 1)) &&& ~~~(y - 1)

/-- Gives back the address and the new base. -/
def allocResource (base limit size : BitVec 64) : Except SetupStop (BitVec 64 × BitVec 64) :=
  let base := roundup2 base size
  if base + size ≤ limit then .ok (base, base + size) else .error .noSpace

/-- The size rounded up to a power of two. -/
def roundSize (size : BitVec 64) : BitVec 64 :=
  if size &&& (size - 1) ≠ 0 then (1 : BitVec 64) <<< Bank.fls size else size

/-- At least the minimum of the PCI standard. -/
def barSize (type : BarType) (size : BitVec 64) : BitVec 64 :=
  let size := roundSize size
  if type = .io then if size < 4 then 4 else size
  else if size < 16 then 16 else size

def allocIo (b : Bases) (size : BitVec 64) : Except SetupStop (BitVec 64 × Bases) :=
  (allocResource b.iobase pciEmulIolimit size).map fun (addr, base) => (addr, { b with iobase := base })

def allocMem32 (b : Bases) (size : BitVec 64) : Except SetupStop (BitVec 64 × Bases) :=
  (allocResource b.membase32 pciEmulMemlimit32 size).map
    fun (addr, base) => (addr, { b with membase32 := base })

def allocMem64 (b : Bases) (size : BitVec 64) : Except SetupStop (BitVec 64 × Bases) :=
  (allocResource b.membase64 pciEmulMemlimit64 size).map
    fun (addr, base) => (addr, { b with membase64 := base })

/-- Some drivers do not work with a small 64-bit BAR above 4 GiB. -/
def allocAddr (b : Bases) (hostbase : BitVec 64) (type : BarType) (size : BitVec 64) :
    Except SetupStop (BitVec 64 × Bases) :=
  match type with
  | .none => .ok (0, b)
  | .io => allocIo b size
  | .mem32 => allocMem32 b size
  | .mem64 =>
    if size > 32 * 1024 * 1024 then
      if size = 0x100000000 then
        (allocResource hostbase pciEmulMemlimit64 size).map fun (addr, _) => (addr, b)
      else allocMem64 b size
    else allocMem32 b size
  | .memhi64 => .error (.abort .barType)

/-- The bits of the BAR register that are the address, and those that tell the type. -/
def barBits (size : BitVec 64) : BarType → BitVec 64 × BitVec 64
  | .none | .memhi64 => (0, 0)
  | .io => (pcimBarIoBase, pcimBarIoSpace)
  | .mem32 => (pcimBarMemBase, pcimBarMemSpace ||| pcimBarMem32)
  | .mem64 =>
    (pcimBarMemBase, if size > 32 * 1024 * 1024 then
      pcimBarMemSpace ||| pcimBarMem64 ||| pcimBarMemPrefetch
      else pcimBarMemSpace ||| pcimBarMem64)

def Devinst.setBar (d : Devinst) (idx : ℕ) (b : Pcibar) : Devinst :=
  { d with bar := Function.update d.bar idx b }

attribute [local simp] Devinst.setBar

/-- The device with the BAR, and with the register of the high half for one of 64 bits. -/
def placeBar (d : Devinst) (idx : ℕ) (b : Pcibar) : Devinst :=
  let (mask, lobits) := barBits b.size b.type
  let bar := b.addr &&& mask ||| lobits
  let d := (d.setBar idx b).setBarReg idx (bar.setWidth 32)
  if b.type = .mem64 then
    (d.setBar (idx + 1) { d.bar (idx + 1) with type := .memhi64 }).setBarReg (idx + 1)
      ((bar >>> 32).setWidth 32)
  else d

/-- What a device asks for when it is set up. -/
structure Request (ι : Type) where
  dev : ι
  idx : ℕ
  hostbase : BitVec 64
  type : BarType
  size : BitVec 64
  malloc : Bool

def allocPbar {ι : Type} [DecidableEq ι] (w : Setup ι) (q : Request ι) :
    Except SetupStop (Setup ι) := do
  let size := barSize q.type q.size
  let (addr, bases) ← allocAddr w.bases q.hostbase q.type size
  if q.type = .mem64 ∧ ¬ q.idx + 1 ≤ pciBarmax then .error .barMax
  else
    let d := placeBar (w.world.devs q.dev) q.idx ⟨q.type, size, addr⟩
    match registerBar (w.world.setDev q.dev d) q.dev (fun _ => q.malloc) q.idx with
    | .ok world => .ok ⟨world, bases, w.bus⟩
    | .error a => .error (.abort a)

/-- The slop after the devices of a bus. The mask for the ports is 32 bits wide. -/
def Bases.nextBus (b : Bases) : Bases where
  iobase := roundup2 (b.iobase + busioRoundup) busioRoundup &&& 0xffffffff
  membase32 := roundup2 (b.membase32 + busmemRoundup) busmemRoundup
  membase64 := roundup2 (b.membase64 + busmemRoundup) busmemRoundup

/-- What `init_pci` does in its loop over the buses. -/
inductive SetupAction (ι : Type)
  | alloc (q : Request ι)
  | nextBus

def setupStep {ι : Type} [DecidableEq ι] (w : Setup ι) : SetupAction ι → Except SetupStop (Setup ι)
  | .alloc q => allocPbar w q
  | .nextBus => .ok { w with bases := w.bases.nextBus, bus := w.bus + 1 }

def ecfg : Extent := ⟨pciEmulEcfgBase, pciEmulEcfgSize⟩

def ecfgRange {ι : Type} : MemRange ι := ⟨none, 0, ecfg, true⟩

/-- The end of `init_pci`. -/
def registerEcfg {ι : Type} [DecidableEq ι] (malloc : Bool) (s : World ι) : Except SetupStop (World ι) :=
  match registerMem malloc s.mem ecfgRange with
  | (none, t) => .ok { s with mem := t }
  | (some _, _) => .error .ecfg

variable {size x addr : BitVec 64} {k bus j n : ℕ} {lowmem : BitVec 32} {ι : Type}

theorem roundSize_eq (hn : n < 64) (hs : size.toNat ≤ 2 ^ n) :
    roundSize size = 0 ∨ ∃ k ≤ n, roundSize size = twoPow 64 k := by
  by_cases h0 : size = 0
  · exact .inl (by rw [h0]; rfl)
  have hpos : 0 < size.toNat := by
    rw [Nat.pos_iff_ne_zero]
    intro hz
    exact h0 (eq_of_toNat_eq hz)
  have hsub : (size - 1).toNat = size.toNat - 1 := toNat_sub_of_le hpos
  refine .inr ?_
  rw [roundSize]
  split_ifs with hand
  · have hne : size.toNat ≠ 2 ^ n := by
      intro heq
      refine hand (eq_of_toNat_eq ?_)
      rw [toNat_and, hsub, heq, Nat.and_two_pow_sub_one_eq_mod, Nat.mod_self]
      rfl
    have hlog : size.toNat.log2 < n := by
      rw [Nat.log2_lt hpos.ne']
      exact Nat.lt_of_le_of_ne hs hne
    refine ⟨size.toNat.log2 + 1, hlog, ?_⟩
    rw [Bank.fls, if_neg h0]
    rfl
  · have hpow := congrArg BitVec.toNat (not_not.mp hand)
    rw [toNat_and, hsub] at hpow
    have hlog : size.toNat.log2 < n + 1 := by
      rw [Nat.log2_lt hpos.ne']
      exact Nat.lt_of_le_of_lt hs (Nat.pow_lt_pow_right (by decide) (Nat.lt_succ_self n))
    refine ⟨size.toNat.log2, Nat.le_of_lt_succ hlog, eq_of_toNat_eq ?_⟩
    rw [toNat_twoPow_of_lt (by omega)]
    exact Align.eq_two_pow_of_and_pred hpos hpow

/-- The size of a BAR is a power of two. -/
theorem barSize_eq (hmin : 4 ≤ n) (type : BarType)
    (hround : roundSize size = 0 ∨ ∃ k ≤ n, roundSize size = twoPow 64 k) :
    ∃ k ≤ n, barSize type size = twoPow 64 k := by
  rw [barSize]
  generalize roundSize size = m at hround
  have hlarge : ∀ m' : BitVec 64, 0 < m' → ¬ m < m' → ∃ k ≤ n, m = twoPow 64 k := by
    intro m' hm hn
    refine hround.resolve_left fun h0 => hn ?_
    rw [h0]
    exact hm
  split_ifs with hio hsmall hsmall
  · exact ⟨2, by omega, by decide⟩
  · exact hlarge 4 (by decide) hsmall
  · exact ⟨4, hmin, by decide⟩
  · exact hlarge 16 (by decide) hsmall

theorem toNat_twoPow_le (hk : k ≤ 62) : (twoPow 64 k).toNat = 2 ^ k ∧ 2 ^ k ≤ 2 ^ 62 :=
  ⟨toNat_twoPow_of_lt (by omega), Nat.pow_le_pow_right (by decide) hk⟩

/-- The next multiple of a power of two. -/
theorem roundup2_ok (hk : k ≤ 62) (hx : x.toNat ≤ 2 ^ 41) :
    roundup2 x (twoPow 64 k) &&& (twoPow 64 k - 1) = 0 ∧ x.toNat ≤ (roundup2 x (twoPow 64 k)).toNat ∧
      (roundup2 x (twoPow 64 k)).toNat < x.toNat + 2 ^ k := by
  obtain ⟨-, hpow⟩ := toNat_twoPow_le hk
  exact Align.up_ok (by omega) (by omega)

/-- What is allocated is a multiple of its size, from the base on and below the limit. -/
theorem allocResource_ok {limit next : BitVec 64} (hk : k ≤ 62) (hx : x.toNat ≤ 2 ^ 41)
    (h : allocResource x limit (twoPow 64 k) = .ok (addr, next)) :
    addr &&& (twoPow 64 k - 1) = 0 ∧ x.toNat ≤ addr.toNat ∧ addr.toNat < x.toNat + 2 ^ k ∧
      next.toNat = addr.toNat + 2 ^ k ∧ next.toNat ≤ limit.toNat := by
  obtain ⟨htwo, hpow⟩ := toNat_twoPow_le hk
  obtain ⟨hmul, hle, hlt⟩ := roundup2_ok hk hx
  rw [allocResource] at h
  split_ifs at h with hfits
  cases h
  have hnext : (roundup2 x (twoPow 64 k) + twoPow 64 k).toNat =
      (roundup2 x (twoPow 64 k)).toNat + 2 ^ k := by
    rw [toNat_add, htwo, Nat.mod_eq_of_lt (by omega)]
  exact ⟨hmul, hle, hlt, hnext, le_def.mp hfits⟩

/-- The ranges of addresses that BARs are placed in. -/
inductive Arena
  | io
  | low
  | high

variable {ar : Arena}

namespace Arena

def space : Arena → Space
  | .io => .io
  | .low | .high => .mem

def first (lowmem : BitVec 32) : Arena → BitVec 64
  | .io => pciEmulIobase
  | .low => lowmem.setWidth 64
  | .high => pciEmulMembase64

def limit : Arena → BitVec 64
  | .io => pciEmulIolimit
  | .low => pciEmulMemlimit32
  | .high => pciEmulMemlimit64

/-- The next address of an arena is not beyond this after the slop of so many buses. -/
def bound (bus : ℕ) : Arena → ℕ
  | .io => 0x10000 + bus * 2 ^ 21
  | .low => 2 ^ 32 + bus * 2 ^ 21
  | .high => 2 ^ 40 + bus * 2 ^ 21

theorem limit_le_bound (ar : Arena) (bus : ℕ) : ar.limit.toNat ≤ ar.bound bus := by
  refine Nat.le_trans (m := ar.bound 0) ?_ ?_
  · cases ar <;> decide
  · cases ar <;> simp [bound]

theorem bound_le (ar : Arena) (h : bus ≤ maxbuses) : ar.bound bus ≤ 2 ^ 40 + 2 ^ 30 := by
  rw [maxbuses] at h
  cases ar <;> rw [bound] <;> omega

theorem bound_succ (ar : Arena) (bus : ℕ) : ar.bound (bus + 1) = ar.bound bus + 2 ^ 21 := by
  cases ar <;> simp only [bound] <;> omega

theorem eq_io (h : ar.space = .io) : ar = .io := by
  cases ar with
  | io => rfl
  | low | high => cases h

end Arena

def Bases.next (b : Bases) : Arena → BitVec 64
  | .io => b.iobase
  | .low => b.membase32
  | .high => b.membase64

def Bases.withNext (b : Bases) (base : BitVec 64) : Arena → Bases
  | .io => { b with iobase := base }
  | .low => { b with membase32 := base }
  | .high => { b with membase64 := base }

/-- The extent is in the part of the arena that is given out. -/
structure Inside (lowmem : BitVec 32) (b : Bases) (ar : Arena) (r : Extent) : Prop where
  first : (ar.first lowmem).toNat ≤ r.base
  next : r.base + r.len ≤ (b.next ar).toNat
  limit : r.base + r.len ≤ ar.limit.toNat

variable {b b' : Bases} {ar' : Arena} {r r' : Extent}

theorem Inside.mono (h : Inside lowmem b ar r) (hle : ∀ ar, (b.next ar).toNat ≤ (b'.next ar).toNat) :
    Inside lowmem b' ar r :=
  ⟨h.first, Nat.le_trans h.next (hle ar), h.limit⟩

/-- What is placed from the next address of an arena on is apart from what is already given out. -/
theorem Inside.apart (h : Inside lowmem b ar r) (h' : Inside lowmem b' ar' r')
    (hsp : ar.space = ar'.space) (hnext : (b.next ar').toNat ≤ r'.base) : r.Apart r' := by
  have hfar : Arena.limit .low ≤ pciEmulMembase64 := by decide
  cases ar <;> cases ar'
  case io.io | low.low | high.high => exact .inl (Nat.le_trans h.next hnext)
  case io.low | io.high | low.io | high.io => cases hsp
  case low.high => exact .inl (Nat.le_trans h.limit (Nat.le_trans hfar h'.first))
  case high.low => exact .inr (Nat.le_trans h'.limit (Nat.le_trans hfar h.first))

theorem next_withNext (b : Bases) (base : BitVec 64) (ar ar' : Arena) :
    (b.withNext base ar).next ar' = base ∧ ar' = ar ∨ (b.withNext base ar).next ar' = b.next ar' := by
  cases ar <;> cases ar' <;> simp [Bases.withNext, Bases.next]

/-- A bus adds less than two megabytes. -/
theorem slop_ok (hk : k ≤ 20) (hx : x.toNat ≤ 2 ^ 40 + 2 ^ 30) :
    x.toNat ≤ (roundup2 (x + twoPow 64 k) (twoPow 64 k)).toNat ∧
      (roundup2 (x + twoPow 64 k) (twoPow 64 k)).toNat ≤ x.toNat + 2 ^ 21 := by
  obtain ⟨htwo, -⟩ := toNat_twoPow_le (Nat.le_trans hk (by decide))
  have hpow : 2 ^ k ≤ 2 ^ 20 := Nat.pow_le_pow_right (by decide) hk
  have hsum : (x + twoPow 64 k).toNat = x.toNat + 2 ^ k := by
    rw [toNat_add, htwo, Nat.mod_eq_of_lt (by omega)]
  obtain ⟨-, hle, hlt⟩ := roundup2_ok (x := x + twoPow 64 k) (k := k) (by omega) (by omega)
  omega

theorem nextBus_ok (hbus : bus < maxbuses) (h : ∀ ar : Arena, (b.next ar).toNat ≤ ar.bound bus)
    (ar : Arena) : (b.next ar).toNat ≤ (b.nextBus.next ar).toNat ∧
      (b.nextBus.next ar).toNat ≤ ar.bound (bus + 1) := by
  have hbound := Nat.le_trans (h ar) (ar.bound_le (Nat.le_of_lt hbus))
  have har := h ar
  rw [Arena.bound_succ]
  cases ar with
  | io =>
    obtain ⟨hle, hlt⟩ := slop_ok (k := 5) (by decide) hbound
    have hsmall : (roundup2 (b.iobase + busioRoundup) busioRoundup).toNat < 2 ^ 32 := by
      refine Nat.lt_of_le_of_lt (Nat.le_trans hlt (Nat.add_le_add_right har _)) ?_
      rw [Arena.bound]
      rw [maxbuses] at hbus
      omega
    have hmask : (b.nextBus.next .io).toNat =
        (roundup2 (b.iobase + busioRoundup) busioRoundup).toNat := by
      refine (toNat_and _ _).trans ?_
      exact (Nat.and_two_pow_sub_one_eq_mod _ 32).trans (Nat.mod_eq_of_lt hsmall)
    rw [hmask]
    exact ⟨hle, Nat.le_trans hlt (Nat.add_le_add_right har _)⟩
  | low | high =>
    obtain ⟨hle, hlt⟩ := slop_ok (k := 20) (by decide) hbound
    exact ⟨hle, Nat.le_trans hlt (Nat.add_le_add_right har _)⟩

/-- The arena that a BAR is placed in. -/
theorem allocAddr_eq {type : BarType} {sp : Space} (htype : type.space = some sp)
    (hsize : size ≠ 0x100000000) : ∃ ar : Arena, ar.space = sp ∧ ∀ b hostbase,
      allocAddr b hostbase type size = (allocResource (b.next ar) ar.limit size).map
        fun r => (r.1, b.withNext r.2 ar) := by
  cases type with
  | none => cases htype
  | io =>
    cases htype
    exact ⟨.io, rfl, fun _ _ => rfl⟩
  | mem32 =>
    cases htype
    exact ⟨.low, rfl, fun _ _ => rfl⟩
  | mem64 =>
    cases htype
    by_cases hbig : size > 32 * 1024 * 1024
    · refine ⟨.high, rfl, fun b hostbase => ?_⟩
      rw [allocAddr, if_pos hbig, if_neg hsize]
      rfl
    · refine ⟨.low, rfl, fun b hostbase => ?_⟩
      rw [allocAddr, if_neg hbig]
      rfl
  | memhi64 => cases htype

section Placing

variable {d : Devinst} {idx : ℕ} {b : Pcibar}

theorem bar_placeBar (d : Devinst) (idx : ℕ) (b : Pcibar) (j : ℕ) :
    (placeBar d idx b).bar j = if j = idx then b
      else if j = idx + 1 ∧ b.type = .mem64 then { d.bar j with type := .memhi64 } else d.bar j := by
  rw [placeBar]
  by_cases hj : j = idx
  · subst hj
    by_cases ht : b.type = .mem64 <;> simp [ht]
  · by_cases ht : b.type = .mem64
    · by_cases hj' : j = idx + 1
      · subst hj'
        simp [ht]
      · simp [ht, hj, hj']
    · simp [ht, hj]

theorem enabled_placeBar (d : Devinst) (idx : ℕ) (b : Pcibar) :
    (placeBar d idx b).enabled = d.enabled := by
  rw [placeBar]
  split_ifs <;> rfl

/-- The registers that the BAR takes are free. -/
@[mk_iff]
structure Devinst.Vacant (d : Devinst) (idx : ℕ) (type : BarType) : Prop where
  low : (d.bar idx).type = .none
  high : type = .mem64 → (d.bar (idx + 1)).type = .none

/-- The other BARs stay as they are. -/
theorem bar_placeBar_of_space (hv : d.Vacant idx b.type) (hj : (d.bar j).type ≠ .none) :
    (placeBar d idx b).bar j = d.bar j := by
  rw [bar_placeBar, if_neg, if_neg]
  · rintro ⟨rfl, ht⟩
    exact hj (hv.high ht)
  · rintro rfl
    exact hj hv.low

theorem wf_placeBar (hd : d.Wf) (hv : d.Vacant idx b.type) (hsp : b.type.space ≠ none)
    (hb : Aligned b) : (placeBar d idx b).Wf := by
  constructor
  · intro j hj
    rw [bar_placeBar] at hj ⊢
    split_ifs at hj ⊢
    · exact hb
    · exact absurd rfl hj
    · exact hd.aligned j hj
  · intro j hj
    have hj' := hj
    rw [bar_placeBar] at hj'
    split_ifs at hj' with hidx hhi
    · rw [hj'] at hsp
      exact absurd rfl hsp
    · obtain ⟨rfl, ht⟩ := hhi
      refine ⟨Nat.succ_pos idx, ?_⟩
      rw [Nat.add_sub_cancel, bar_placeBar, if_pos rfl]
      exact ht
    · obtain ⟨hpos, hlow⟩ := hd.pair j hj'
      refine ⟨hpos, ?_⟩
      rw [bar_placeBar_of_space hv (by rw [hlow]; decide)]
      exact hlow

end Placing

variable {fx : Fixed ι} {s : World ι} {devs' devs : ι → Devinst} {i i' : ι} {j' : ℕ}

/-- Two sets of devices of which the second decodes one more BAR, that is apart from the others. -/
structure Adds (fx : Fixed ι) (devs devs' : ι → Devinst) (i : ι) (j : ℕ) : Prop where
  old : ∀ i' j', Decodes devs i' j' → (devs' i').bar j' = (devs i').bar j'
  decodes : ∀ i' j', Decodes devs' i' j' ↔ Decodes devs i' j' ∨ (i', j') = (i, j)
  new : ¬ Decodes devs i j
  free : Free fx devs' (Decodes devs) i j

section

variable (h : Adds fx devs devs' i j)

include h

theorem Adds.barSpace (hd : Decodes devs i' j') : barSpace devs' i' j' = barSpace devs i' j' := by
  rw [Pci.barSpace, h.old i' j' hd, Pci.barSpace]

theorem Adds.barExtent (hd : Decodes devs i' j') : barExtent devs' i' j' = barExtent devs i' j' := by
  rw [Pci.barExtent, h.old i' j' hd, Pci.barExtent]

theorem Adds.apart (hold : Apart fx devs) : Apart fx devs' := by
  intro i₁ j₁ hd₁
  rcases (h.decodes i₁ j₁).mp hd₁ with hd | heq
  · have hfree := hold i₁ j₁ hd
    constructor
    · intro i₂ j₂ hd₂ hsp hne
      rcases (h.decodes i₂ j₂).mp hd₂ with hd' | heq
      · rw [h.barSpace hd, h.barSpace hd'] at hsp
        rw [h.barExtent hd, h.barExtent hd']
        exact hfree.bars i₂ j₂ hd' hsp hne
      · cases heq
        exact (h.free.bars i₁ j₁ hd hsp.symm hne.symm).symm
    · rw [h.barSpace hd, h.barExtent hd]
      exact hfree.mem
    · rw [h.barSpace hd, h.barExtent hd]
      exact hfree.io
  · cases heq
    refine ⟨fun i₂ j₂ hd₂ hsp hne => ?_, h.free.mem, h.free.io⟩
    exact h.free.bars i₂ j₂ (((h.decodes i₂ j₂).mp hd₂).resolve_right hne) hsp hne

end

/-- The registration of one more BAR. -/
theorem Settled.register [DecidableEq ι] (h : Settled fx s) (hadds : Adds fx s.devs devs' i j)
    (hwf : ∀ i, (devs' i).Wf) (malloc : ℕ → Bool) (hm : malloc j = true) :
    ∃ t, registerBar { s with devs := devs' } i malloc j = .ok t ∧ t.devs = devs' ∧ Settled fx t := by
  have hsp : barSpace devs' i j ≠ none := by
    obtain ⟨-, sp, hsp, -⟩ := (hadds.decodes i j).mpr (.inr rfl)
    rw [hsp]
    exact Option.some_ne_none sp
  have hholds : Holds fx { s with devs := devs' } (Decodes s.devs) :=
    Holds.withDevs h.faithful (fun _ _ hd => hadds.barSpace hd) fun _ _ hd => hadds.barExtent hd
  obtain ⟨t, ht, hdevs, hholds'⟩ :=
    registerBar_ok hholds ((hwf i).aligned j hsp) hsp hadds.new hadds.free hm
  refine ⟨t, ht, hdevs, by rw [hdevs]; exact hwf, by rw [hdevs]; exact hadds.apart h.apart, ?_⟩
  rw [Faithful, hdevs]
  exact hholds'.of_iff fun i' j' => (hadds.decodes i' j').symm

section Setup

/-- What is registered besides the BARs, before and after the extended config space. -/
def before (ports : ℕ → Bool) : Fixed ι := ⟨[], ports⟩

@[inherit_doc before]
def platform (ports : ℕ → Bool) : Fixed ι := ⟨[ecfgRange], ports⟩

/-- A device asks once for each of its BARs. -/
@[mk_iff]
structure Fresh (s : World ι) (q : Request ι) : Prop where
  idx : q.idx ≤ pciBarmax
  vacant : (s.devs q.dev).Vacant q.idx q.type
  type : q.type.space ≠ none
  size : q.size.toNat ≤ 2 ^ 31
  malloc : q.malloc = true

def Proper (w : Setup ι) : SetupAction ι → Prop
  | .alloc q => Fresh w.world q
  | .nextBus => w.bus < maxbuses

instance (d : Devinst) (idx : ℕ) (type : BarType) : Decidable (d.Vacant idx type) :=
  decidable_of_iff _ (Devinst.vacant_iff d idx type).symm

instance (w : Setup ι) : (a : SetupAction ι) → Decidable (Proper w a)
  | .alloc q => decidable_of_iff _ (fresh_iff w.world q).symm
  | .nextBus => inferInstanceAs (Decidable (_ < _))

/-- The BARs are placed one after the other in each arena. -/
structure Placed (ports : ℕ → Bool) (lowmem : BitVec 32) (w : Setup ι) : Prop where
  settled : Settled (before ports) w.world
  enabled : ∀ i sp, (w.world.devs i).enabled sp = true
  inside : ∀ i j sp, Decodes w.world.devs i j → barSpace w.world.devs i j = some sp →
    ∃ ar : Arena, ar.space = sp ∧ Inside lowmem w.bases ar (barExtent w.world.devs i j)
  first : ∀ ar : Arena, (ar.first lowmem).toNat ≤ (w.bases.next ar).toNat
  bound : ∀ ar : Arena, (w.bases.next ar).toNat ≤ ar.bound w.bus
  bus : w.bus ≤ maxbuses

variable [DecidableEq ι] {ports : ℕ → Bool} {w w' : Setup ι} {q : Request ι}

theorem allocPbar_eq_ok (h : allocPbar w q = .ok w') :
    ∃ addr bases, allocAddr w.bases q.hostbase q.type (barSize q.type q.size) = .ok (addr, bases) ∧
      (q.type = .mem64 → q.idx + 1 ≤ pciBarmax) ∧
      registerBar (w.world.setDev q.dev (placeBar (w.world.devs q.dev) q.idx
        ⟨q.type, barSize q.type q.size, addr⟩)) q.dev (fun _ => q.malloc) q.idx = .ok w'.world ∧
      w'.bases = bases ∧ w'.bus = w.bus := by
  rw [allocPbar, bind_eq_ok] at h
  obtain ⟨⟨addr, bases⟩, haddr, h⟩ := h
  dsimp only at h
  split_ifs at h with hmax
  refine ⟨addr, bases, haddr, fun ht => by_contra fun hle => hmax ⟨ht, hle⟩, ?_⟩
  split at h
  · rename_i world hreg
    cases h
    exact ⟨hreg, rfl, rfl⟩
  · cases h

/-- Where a BAR is placed. -/
structure Place (lowmem : BitVec 32) (b b' : Bases) (bar : Pcibar) (ar : Arena) : Prop where
  space : bar.type.space = some ar.space
  size : ∃ k < 64, bar.size = twoPow 64 k
  addr : bar.addr &&& (bar.size - 1) = 0
  next : (b.next ar).toNat ≤ bar.addr.toNat
  inside : Inside lowmem b' ar bar.extent
  mono : ∀ ar' : Arena, (b.next ar').toNat ≤ (b'.next ar').toNat

variable {bar : Pcibar}

omit [DecidableEq ι] in
theorem Placed.place (hp : Placed ports lowmem w) (hq : Fresh w.world q)
    (h : allocAddr w.bases q.hostbase q.type (barSize q.type q.size) = .ok (addr, b)) :
    (∃ ar, Place lowmem w.bases b ⟨q.type, barSize q.type q.size, addr⟩ ar) ∧
      ∀ ar : Arena, (b.next ar).toNat ≤ ar.bound w.bus := by
  obtain ⟨k, hk, hsize⟩ := barSize_eq (by decide) q.type (roundSize_eq (by decide) hq.size)
  obtain ⟨sp, hsp⟩ := Option.ne_none_iff_exists'.mp hq.type
  have htwo : (twoPow 64 k).toNat = 2 ^ k := (toNat_twoPow_le (by omega)).1
  have hne : twoPow 64 k ≠ 0x100000000 := by
    intro heq
    have hpow : 2 ^ k ≤ 2 ^ 31 := Nat.pow_le_pow_right (by decide) hk
    have := congrArg BitVec.toNat heq
    rw [htwo] at this
    exact absurd (this ▸ hpow) (by decide)
  obtain ⟨ar, har, halloc⟩ := allocAddr_eq hsp (hsize ▸ hne)
  rw [halloc, hsize] at h
  cases hres : allocResource (w.bases.next ar) ar.limit (twoPow 64 k) with
  | error e =>
    rw [hres] at h
    cases h
  | ok r =>
    obtain ⟨addr', next⟩ := r
    rw [hres] at h
    cases h
    have hbase : (w.bases.next ar).toNat ≤ 2 ^ 41 :=
      Nat.le_trans (Nat.le_trans (hp.bound ar) (ar.bound_le hp.bus)) (by decide)
    obtain ⟨hmul, hle, -, hnext, hlimit⟩ := allocResource_ok (by omega) hbase hres
    have hself : (w.bases.withNext next ar).next ar = next := by cases ar <;> rfl
    refine ⟨⟨ar, ?_⟩, fun ar' => ?_⟩
    · refine ⟨by rw [har]; exact hsp, ⟨k, by omega, hsize⟩, by rw [hsize]; exact hmul, hle, ?_, ?_⟩
      · refine ⟨Nat.le_trans (hp.first ar) hle, ?_, ?_⟩
        · rw [hself, hnext, hsize, Pcibar.extent, htwo]
        · rw [hsize, Pcibar.extent, htwo, ← hnext]
          exact hlimit
      · intro ar'
        rcases next_withNext w.bases next ar ar' with ⟨heq, rfl⟩ | heq
        · rw [heq]
          omega
        · rw [heq]
    · rcases next_withNext w.bases next ar ar' with ⟨heq, rfl⟩ | heq
      · rw [heq]
        exact Nat.le_trans hlimit (ar'.limit_le_bound w.bus)
      · rw [heq]
        exact hp.bound ar'

theorem Place.aligned (h : Place lowmem b b' bar ar) : Aligned bar := by
  refine ⟨h.size, h.addr, fun hio => ?_⟩
  have hsp := h.space
  rw [hio] at hsp
  obtain rfl := Arena.eq_io (Option.some.inj hsp).symm
  have hlimit : bar.addr.toNat + bar.size.toNat ≤ maxIoports := h.inside.limit
  obtain ⟨k, hk, hsize⟩ := h.size
  have hpos : 0 < bar.size.toNat := by
    rw [hsize, toNat_twoPow_of_lt hk]
    exact Nat.two_pow_pos k
  omega

/-- The devices with one more BAR. -/
def placed (devs : ι → Devinst) (q : Request ι) (bar : Pcibar) : ι → Devinst :=
  Function.update devs q.dev (placeBar (devs q.dev) q.idx bar)

theorem bar_placed_self (devs : ι → Devinst) (q : Request ι) (bar : Pcibar) :
    ((placed devs q bar) q.dev).bar q.idx = bar := by
  rw [placed, update_self, bar_placeBar, if_pos rfl]

theorem enabled_placed (devs : ι → Devinst) (q : Request ι) (bar : Pcibar) (i : ι) :
    ((placed devs q bar) i).enabled = (devs i).enabled := by
  by_cases hi : i = q.dev
  · subst hi
    rw [placed, update_self, enabled_placeBar]
  · rw [placed, update_of_ne hi]

/-- A BAR of the new devices is the new one, or one of the old devices, or describes no range. -/
theorem bar_placed (devs : ι → Devinst) (q : Request ι) (bar : Pcibar) (i : ι) (j : ℕ) :
    (i, j) = (q.dev, q.idx) ∨ ((placed devs q bar) i).bar j = (devs i).bar j ∨
      (((placed devs q bar) i).bar j).type = .memhi64 := by
  by_cases hi : i = q.dev
  · subst hi
    rw [placed, update_self, bar_placeBar]
    split_ifs with hj
    · exact .inl (by rw [hj])
    · exact .inr (.inr rfl)
    · exact .inr (.inl rfl)
  · rw [placed, update_of_ne hi]
    exact .inr (.inl rfl)

theorem bar_placed_of_decodes (hv : (devs q.dev).Vacant q.idx bar.type) (hd : Decodes devs i j) :
    ((placed devs q bar) i).bar j = (devs i).bar j := by
  by_cases hi : i = q.dev
  · subst hi
    rw [placed, update_self]
    refine bar_placeBar_of_space hv fun hnone => ?_
    obtain ⟨-, sp, hsp, -⟩ := hd
    rw [barSpace, hnone] at hsp
    cases hsp
  · rw [placed, update_of_ne hi]

theorem Placed.adds (hp : Placed ports lowmem w) (hq : Fresh w.world q)
    (hports : ∀ p, ports p = true → p < pciEmulIobase.toNat) (htype : bar.type = q.type)
    (hplace : Place lowmem w.bases b bar ar) :
    Adds (before ports) w.world.devs (placed w.world.devs q bar) q.dev q.idx := by
  have hspace : barSpace (placed w.world.devs q bar) q.dev q.idx = some ar.space := by
    rw [barSpace, bar_placed_self]
    exact hplace.space
  have hextent : barExtent (placed w.world.devs q bar) q.dev q.idx = bar.extent := by
    rw [barExtent, bar_placed_self]
  have hold := fun {i j} => bar_placed_of_decodes (i := i) (j := j) (htype ▸ hq.vacant)
  refine ⟨fun i j => hold, fun i j => ⟨fun hd => ?_, ?_⟩, ?_, ?_⟩
  · obtain ⟨hj, sp, hsp, hen⟩ := hd
    rcases bar_placed w.world.devs q bar i j with heq | hbar | hhi
    · exact .inr heq
    · refine .inl ⟨hj, sp, ?_, hp.enabled i sp⟩
      rw [barSpace, ← hbar]
      exact hsp
    · rw [barSpace, hhi] at hsp
      cases hsp
  · rintro (hd | heq)
    · obtain ⟨hj, sp, hsp, hen⟩ := id hd
      refine ⟨hj, sp, ?_, by rw [enabled_placed]; exact hen⟩
      rw [barSpace, hold hd]
      exact hsp
    · cases heq
      exact ⟨hq.idx, ar.space, hspace, by rw [enabled_placed]; exact hp.enabled _ _⟩
  · rintro ⟨-, sp, hsp, -⟩
    rw [barSpace, hq.vacant.low] at hsp
    cases hsp
  · refine ⟨fun i j hd hsp _ => ?_, fun _ r hr => absurd hr List.not_mem_nil, fun hio p hcov => ?_⟩
    · rw [hspace, barSpace, hold hd] at hsp
      obtain ⟨ar', har', hin⟩ := hp.inside i j _ hd hsp
      rw [hextent, barExtent, hold hd]
      exact hin.apart hplace.inside har' hplace.next
    · rw [hspace] at hio
      obtain rfl := Arena.eq_io (Option.some.inj hio)
      rw [hextent, Extent.covers_iff] at hcov
      rw [← Bool.not_eq_true]
      intro hp'
      exact absurd (hports p hp') (Nat.not_lt.mpr (Nat.le_trans hplace.inside.first hcov.1))

/-- One more BAR. -/
theorem Placed.alloc (hp : Placed ports lowmem w) (hq : Fresh w.world q)
    (hports : ∀ p, ports p = true → p < pciEmulIobase.toNat) (h : allocPbar w q = .ok w') :
    Placed ports lowmem w' := by
  obtain ⟨addr, bases, haddr, -, hreg, rfl, hbus⟩ := allocPbar_eq_ok h
  obtain ⟨⟨ar, hplace⟩, hbound⟩ := hp.place hq haddr
  have hadds := hp.adds hq hports rfl hplace
  have hwf : ∀ i, ((placed w.world.devs q ⟨q.type, barSize q.type q.size, addr⟩) i).Wf := by
    intro i
    by_cases hi : i = q.dev
    · subst hi
      rw [placed, update_self]
      exact wf_placeBar (hp.settled.wf q.dev) hq.vacant hq.type hplace.aligned
    · rw [placed, update_of_ne hi]
      exact hp.settled.wf i
  obtain ⟨t, ht, hdevs, hsettled⟩ := hp.settled.register hadds hwf (fun _ => q.malloc) hq.malloc
  obtain rfl : t = w'.world := Except.ok.inj (ht.symm.trans hreg)
  refine ⟨hsettled, fun i sp => ?_, fun i j sp hd hsp => ?_, fun ar' => ?_, ?_, ?_⟩
  · rw [hdevs, enabled_placed]
    exact hp.enabled i sp
  · rw [hdevs] at hd hsp ⊢
    rcases (hadds.decodes i j).mp hd with hold | heq
    · rw [hadds.barSpace hold] at hsp
      rw [hadds.barExtent hold]
      obtain ⟨ar', har', hin⟩ := hp.inside i j sp hold hsp
      exact ⟨ar', har', hin.mono hplace.mono⟩
    · cases heq
      rw [barSpace, bar_placed_self, hplace.space] at hsp
      rw [barExtent, bar_placed_self]
      exact ⟨ar, Option.some.inj hsp, hplace.inside⟩
  · exact Nat.le_trans (hp.first ar') (hplace.mono ar')
  · rw [hbus]
    exact hbound
  · rw [hbus]
    exact hp.bus

omit [DecidableEq ι] in
theorem Placed.nextBus (hp : Placed ports lowmem w) (hbus : w.bus < maxbuses) :
    Placed ports lowmem { w with bases := w.bases.nextBus, bus := w.bus + 1 } where
  settled := hp.settled
  enabled := hp.enabled
  inside i j sp hd hsp := by
    obtain ⟨ar, har, hin⟩ := hp.inside i j sp hd hsp
    exact ⟨ar, har, hin.mono fun ar => (nextBus_ok hbus hp.bound ar).1⟩
  first ar := Nat.le_trans (hp.first ar) (nextBus_ok hbus hp.bound ar).1
  bound ar := (nextBus_ok hbus hp.bound ar).2
  bus := hbus

theorem Placed.setupStep (hp : Placed ports lowmem w)
    (hports : ∀ p, ports p = true → p < pciEmulIobase.toNat) {a : SetupAction ι} (hc : Proper w a)
    (h : setupStep w a = .ok w') : Placed ports lowmem w' := by
  cases a with
  | alloc q => exact hp.alloc hc hports h
  | nextBus =>
    cases h
    exact hp.nextBus hc

/-- A device as `pci_emul_init` makes it. -/
structure Blank (d : Devinst) : Prop where
  bar : ∀ j, (d.bar j).type = .none
  command : d.command = pcimCmdPorten ||| pcimCmdMemen ||| pcimCmdBusmasteren

/-- Before the first device is set up. -/
def start (devs : ι → Devinst) (ports : ℕ → Bool) (lowmem : BitVec 32) : Setup ι where
  world := ⟨devs, [], fun p => if ports p then .fixed else .default⟩
  bases := ⟨pciEmulIobase, lowmem.setWidth 64, pciEmulMembase64⟩
  bus := 0

omit [DecidableEq ι] in
/-- Nothing is decoded. -/
theorem settled_start (hblank : ∀ i, Blank (devs i)) (ports : ℕ → Bool) (lowmem : BitVec 32) :
    Settled (before ports) (start devs ports lowmem).world ∧ ∀ i j, ¬ Decodes devs i j := by
  have hnone : ∀ i j, barSpace devs i j = none := by
    intro i j
    rw [barSpace, (hblank i).bar]
    rfl
  have hnot : ∀ i j, ¬ Decodes devs i j := by
    rintro i j ⟨-, sp, hsp, -⟩
    cases (hnone i j).symm.trans hsp
  refine ⟨⟨fun i => ⟨fun j hj => absurd (hnone i j) hj, fun j hj => ?_⟩,
    fun i j hd => absurd hd (hnot i j), ?_⟩, hnot⟩
  · cases ((hblank i).bar j).symm.trans hj
  · refine ⟨fun r => ⟨fun hr => ?_, ?_⟩, fun p hp => if_pos hp,
      fun i j _ hd => absurd hd (hnot i j), fun p hp _ => if_neg (Bool.not_eq_true _ ▸ hp)⟩
    · cases hr
    · rintro (hr | ⟨i, j, hd, -⟩)
      · cases hr
      · exact absurd hd (hnot i j)

omit [DecidableEq ι] in
theorem placed_start (hblank : ∀ i, Blank (devs i)) :
    Placed ports lowmem (start devs ports lowmem) := by
  obtain ⟨hsettled, hnot⟩ := settled_start hblank ports lowmem
  have henabled : ∀ i sp, (devs i).enabled sp = true := by
    intro i sp
    rw [enabled_eq, (hblank i).command]
    cases sp <;> decide
  have hlow : (lowmem.setWidth 64).toNat ≤ 2 ^ 32 := by
    exact Nat.le_of_lt lowmem.isLt
  refine ⟨hsettled, henabled, fun i j _ hd => absurd hd (hnot i j), fun ar => ?_, fun ar => ?_,
    Nat.zero_le _⟩
  · cases ar <;> exact Nat.le_refl _
  · cases ar with
    | io => exact (by decide : pciEmulIobase.toNat ≤ Arena.bound 0 .io)
    | low => exact Nat.le_trans hlow (by decide : 2 ^ 32 ≤ Arena.bound 0 .low)
    | high => exact (by decide : pciEmulMembase64.toNat ≤ Arena.bound 0 .high)

omit [DecidableEq ι] in
/-- The extended config space lies between the arenas for memory. -/
theorem Placed.apart_ecfg (hp : Placed ports lowmem w) (hd : Decodes w.world.devs i j)
    (hsp : barSpace w.world.devs i j = some .mem) :
    ecfg.Apart (barExtent w.world.devs i j) := by
  obtain ⟨ar, har, hin⟩ := hp.inside i j .mem hd hsp
  cases ar with
  | io => cases har
  | low => exact .inr hin.limit
  | high => exact .inl (Nat.le_trans (by decide : _ ≤ pciEmulMembase64.toNat) hin.first)

/-- At the end of the setup the guest can start. -/
theorem Placed.registerEcfg (hp : Placed ports lowmem w) :
    ∃ s, registerEcfg true w.world = .ok s ∧ Settled (platform ports) s := by
  obtain ⟨hwf, happart, hfaith⟩ := hp.settled
  have hout : ∀ r ∈ w.world.mem, r.extent.Apart ecfg := by
    intro r hr
    rcases (hfaith.mem r).mp hr with hfix | ⟨i, j, hd, hsp, rfl⟩
    · cases hfix
    · exact (hp.apart_ecfg hd hsp).symm
  rw [Pci.registerEcfg, registerMem_of_apart hout (by decide : 0 < ecfg.len)]
  refine ⟨_, rfl, hwf, fun i j hd => ⟨(happart i j hd).bars, fun hsp r hr => ?_, (happart i j hd).io⟩,
    fun r => ?_, hfaith.fixed, hfaith.device, hfaith.default⟩
  · rw [List.mem_singleton.mp hr]
    exact hp.apart_ecfg hd hsp
  · have hmem := hfaith.mem r
    simp only [before, List.not_mem_nil, false_or] at hmem
    simp only [platform, List.mem_cons, List.not_mem_nil, or_false, hmem]

/-- The tables hold exactly what the BARs of the decoding devices describe, from the setup on and in
every run of writes that leave these ranges apart, and the next such write meets no failed assertion. -/
theorem bars_registered {devs : ι → Devinst} {setup : List (SetupAction ι)} {as : List (Action ι)}
    {s t : World ι} {malloc : Bool} (hblank : ∀ i, Blank (devs i))
    (hports : ∀ p, ports p = true → p < pciEmulIobase.toNat)
    (hsetup : Run setupStep Proper (start devs ports lowmem) setup w)
    (hecfg : registerEcfg malloc w.world = .ok s) (hrun : Run step (Clear (platform ports)) s as t) :
    Faithful (platform ports) t ∧ ∀ a, Clear (platform ports) t a → ∃ u, step t a = .ok u := by
  have hplaced : Placed ports lowmem w :=
    hsetup.invariant (fun w a w' hc hs hp => hp.setupStep hports hc hs)
      (placed_start hblank)
  obtain rfl : malloc = true := by
    cases malloc with
    | false => cases hecfg
    | true => rfl
  obtain ⟨s', hs', hstart⟩ := hplaced.registerEcfg
  cases hecfg.symm.trans hs'
  have hend := hstart.run hrun
  refine ⟨hend.faithful, fun a ha => ?_⟩
  obtain ⟨u, hu, -⟩ := step_ok hend ha
  exact ⟨u, hu⟩

end Setup

section Sample

/-- The ports of the config mechanism are registered, and nothing else. -/
def samplePorts (p : ℕ) : Bool := 0xcf8 ≤ p ∧ p ≤ 0xcff

/-- Two devices, with a BAR of each kind. -/
def sampleSetup : List (SetupAction Bool) :=
  [.alloc ⟨false, 0, 0, .mem32, 0x1000, true⟩, .alloc ⟨false, 1, 0, .io, 0x20, true⟩,
    .alloc ⟨true, 0, 0, .mem32, 0x1000, true⟩, .alloc ⟨true, 1, 0, .io, 0x20, true⟩, .nextBus]

def sampleStart : Setup Bool :=
  start (fun _ => ⟨fun _ => ⟨.none, 0, 0⟩, fun _ => 0, 0x7⟩) samplePorts 0xc0000000

def sampleWorld : World Bool :=
  (registerEcfg true ((exec setupStep sampleStart sampleSetup).toOption.getD sampleStart).world).toOption.getD
    sampleStart.world

theorem sample_setup : ∃ w, Run setupStep Proper sampleStart sampleSetup w ∧
    registerEcfg true w.world = .ok sampleWorld := by
  have hsetup : Run setupStep Proper sampleStart sampleSetup _ :=
    run_of_checked (d := sampleStart) rfl
  exact ⟨_, hsetup, eq_ok_of_isOk rfl⟩

/-- A BAR moves to where another one was, after the other device stops to decode it. -/
def moves : List (Action Bool) :=
  [⟨true, 0x10, 4, 0xc0010000, fun _ => true⟩, ⟨false, 0x04, 2, 0, fun _ => true⟩,
    ⟨true, 0x10, 4, 0xc0000000, fun _ => true⟩]

theorem bars_registered_moved : ∃ t, Run step (Clear (platform samplePorts)) sampleWorld
    moves t ∧
    Faithful (platform samplePorts) t ∧
    ∀ a, Clear (platform samplePorts) t a → ∃ u, step t a = .ok u := by
  obtain ⟨w, hsetup, hecfg⟩ := sample_setup
  have hrun : Run step (Clear (platform samplePorts)) sampleWorld
      moves _ :=
    run_of_checked (d := sampleWorld) rfl
  refine ⟨_, hrun, bars_registered (fun _ => ⟨fun _ => rfl, by decide⟩) (fun p hp => ?_) hsetup hecfg
    hrun⟩
  exact Nat.lt_of_le_of_lt (of_decide_eq_true hp).2 (by decide)

/-- A guest that moves one BAR onto another: a memory range is then not registered though it is decoded,
and for a range of ports the assertion fails. -/
theorem overlap_not_registered : (∃ w, Run setupStep Proper sampleStart sampleSetup w ∧
      registerEcfg true w.world = .ok sampleWorld) ∧
    (∃ t, Run step Any sampleWorld [⟨true, 0x10, 4, 0xc0000000, fun _ => true⟩] t ∧
      ¬ Faithful (platform samplePorts) t) ∧
    step sampleWorld ⟨true, 0x14, 4, 0x2000, fun _ => true⟩ = .error .registration := by
  refine ⟨sample_setup, ?_, ?_⟩
  · have hrun : Run step Any sampleWorld [⟨true, 0x10, 4, 0xc0000000, fun _ => true⟩] _ :=
      run_of_isOk (d := sampleWorld) rfl
    refine ⟨_, hrun, fun h => ?_⟩
    have hmem := (h.mem _).mpr (.inr ⟨true, 0, by decide +kernel, by decide +kernel, rfl⟩)
    exact absurd hmem (by decide +kernel)
  · obtain ⟨e, he, heq⟩ := exists_of_stopsIn (p := fun e => decide (e = Abort.registration))
      (x := step sampleWorld ⟨true, 0x14, 4, 0x2000, fun _ => true⟩) rfl
    rw [he, of_decide_eq_true heq]

end Sample

end HyperCog.Pci
