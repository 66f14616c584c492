import HyperCog.Virtio.Memory

/-!
Guest RAM as the hypervisor lays it out, and the two ways from a guest-physical address to the
host: the segment table that page walks use, and the two blocks that devices use.
-/
namespace HyperCog.Segments

open Option
open Virtio (highmemBase mapGpa)

def xhyvePageSize : ℕ := 4096
def vmMaxMemorySegments : ℕ := 2
def defaultLowmemLimit : UInt32 := 3 * 2 ^ 30

structure MemSeg where
  gpa : ℕ
  len : ℕ
  object : ℕ
  deriving DecidableEq, Repr

/-- A block that the host allocates and maps: it lies in the user half of the address space. -/
structure HostBlock (len : ℕ) where
  addr : ℕ
  pos : 0 < addr
  fits : addr + len ≤ 2 ^ 47

/-- What the allocations for the two segments give. -/
structure Host where
  low : ∀ len, Option (HostBlock len)
  high : ∀ len, Option (HostBlock len)

/-- Errors of the setup; a failed allocation aborts. -/
inductive SetupError
  | einval
  | e2big
  | abort
  deriving DecidableEq, Repr

def vmMemAllocated (segs : List MemSeg) (gpa : ℕ) : Bool :=
  segs.any fun seg => seg.gpa ≤ gpa && gpa < (seg.gpa + seg.len) % 2 ^ 64

/-- The pages of a range. -/
def pages (gpa len : ℕ) : List ℕ :=
  (List.range (len / xhyvePageSize)).map fun k => gpa + xhyvePageSize * k

def vmMalloc (segs : List MemSeg) (gpa len : ℕ) (block : Option (HostBlock len)) :
    Except SetupError (List MemSeg) :=
  if gpa % xhyvePageSize ≠ 0 ∨ len % xhyvePageSize ≠ 0 ∨ len = 0 then .error .einval
  else
    let allocated := (pages gpa len).countP (vmMemAllocated segs)
    let available := (pages gpa len).countP fun g => !vmMemAllocated segs g
    if allocated ≠ 0 ∧ available ≠ 0 then .error .einval
    else if allocated ≠ 0 ∧ available = 0 then .ok segs
    else if vmMaxMemorySegments ≤ segs.length then .error .e2big
    else match block with
      | none => .error .abort
      | some b => .ok (segs ++ [⟨gpa, len, b.addr⟩])

/-- The test that `vm_get_memobj` makes of one segment. -/
def covers (gpa len : ℕ) (seg : MemSeg) : Bool :=
  seg.object ≠ 0 && seg.gpa ≤ gpa && (gpa + len) % 2 ^ 64 ≤ (seg.gpa + seg.len) % 2 ^ 64

/-- Offset and object, or `none` for EINVAL. -/
def vmGetMemobj (segs : List MemSeg) (gpa len : ℕ) : Option (ℕ × ℕ) :=
  (segs.find? (covers gpa len)).map fun seg => (gpa - seg.gpa, seg.object)

/-- `none` is the null pointer returned where no segment was found. -/
def vmGpa2hva (segs : List MemSeg) (gpa len : ℕ) : Option ℕ :=
  (vmGetMemobj segs gpa len).map fun (offset, base) => (base + offset) % 2 ^ 64

def setupMemorySegment (segs : List MemSeg) (gpa len : ℕ) (block : Option (HostBlock len)) :
    Except SetupError (ℕ × List MemSeg) :=
  match vmMalloc segs gpa len block with
  | .error e => .error e
  | .ok segs =>
    match vmGetMemobj segs gpa len with
    | none => .error .einval
    | some (offset, object) => .ok ((object + offset) % 2 ^ 64, segs)

/-- The segment table of the virtual machine and the variables of the user-space side. -/
structure GuestMemory where
  segs : List MemSeg
  lowmem : ℕ
  highmem : ℕ
  lowmemAddr : ℕ
  highmemAddr : ℕ
  deriving DecidableEq, Repr

/-- `xh_vm_setup_memory` in a fresh machine, with every segment mapped. Its caller exits on an
error. -/
def xhVmSetupMemory (limit : UInt32) (host : Host) (len : UInt64) : Except SetupError GuestMemory :=
  let lowmem := if limit.toNat < len.toNat then limit.toNat else len.toNat
  let highmem := if limit.toNat < len.toNat then len.toNat - lowmem else 0
  match if 0 < lowmem then setupMemorySegment [] 0 lowmem (host.low lowmem) else .ok (0, []) with
  | .error e => .error e
  | .ok (lowmemAddr, segs) =>
    match if 0 < highmem then setupMemorySegment segs highmemBase highmem (host.high highmem)
      else .ok (0, segs) with
    | .error e => .error e
    | .ok (highmemAddr, segs) => .ok { segs, lowmem, highmem, lowmemAddr, highmemAddr }

def xhVmMapGpa (g : GuestMemory) (gpa len : ℕ) : Option ℕ :=
  mapGpa g.lowmem g.highmem g.lowmemAddr g.highmemAddr gpa len

variable {gpa len addr : ℕ} {g : GuestMemory} {segs segs' : List MemSeg}
  {block : Option (HostBlock len)}

/-- A successful allocation of a range apart from the segments so far adds a segment for it. -/
theorem vmMalloc_fresh (hfresh : ∀ g ∈ pages gpa len, vmMemAllocated segs g = false)
    (h : vmMalloc segs gpa len block = .ok segs') :
    ∃ b : HostBlock len, segs' = segs ++ [⟨gpa, len, b.addr⟩] := by
  have hnone : (pages gpa len).countP (vmMemAllocated segs) = 0 :=
    List.countP_eq_zero.mpr fun g hg => by rw [hfresh g hg]; exact Bool.false_ne_true
  simp only [vmMalloc, hnone, ne_eq, not_true_eq_false, false_and, if_false] at h
  split_ifs at h
  cases block with
  | none => cases h
  | some b =>
    cases h
    exact ⟨b, rfl⟩

theorem covers_iff {seg : MemSeg} (hobject : 0 < seg.object) (hend : seg.gpa + seg.len < 2 ^ 64) :
    covers gpa len seg = true ↔ seg.gpa ≤ gpa ∧ (gpa + len) % 2 ^ 64 ≤ seg.gpa + seg.len := by
  rw [covers, Nat.mod_eq_of_lt hend]
  simp [Nat.ne_of_gt hobject]

section Fresh

variable (hgpa : gpa ≤ highmemBase) (hfresh : ∀ g ∈ pages gpa len, vmMemAllocated segs g = false)
  (hcovers : ∀ seg ∈ segs, len ≤ 2 ^ 47 → covers gpa len seg = false)

include hgpa hfresh hcovers

/-- The segment that was added is the one that is found. -/
theorem setupMemorySegment_fresh (h : setupMemorySegment segs gpa len block = .ok (addr, segs')) :
    segs' = segs ++ [⟨gpa, len, addr⟩] ∧ 0 < addr ∧ addr + len ≤ 2 ^ 47 := by
  have hbase : highmemBase = 2 ^ 32 := rfl
  rw [setupMemorySegment] at h
  cases hmalloc : vmMalloc segs gpa len block with
  | error e =>
    rw [hmalloc] at h
    cases h
  | ok segs₁ =>
    obtain ⟨b, rfl⟩ := vmMalloc_fresh hfresh hmalloc
    have hpos := b.pos
    have hfits := b.fits
    have hself : covers gpa len ⟨gpa, len, b.addr⟩ = true := by
      rw [covers_iff hpos (show gpa + len < 2 ^ 64 by omega)]
      exact ⟨Nat.le_refl _, Nat.mod_le _ _⟩
    have hfind : (segs ++ [(⟨gpa, len, b.addr⟩ : MemSeg)]).find? (covers gpa len) =
        some ⟨gpa, len, b.addr⟩ := by
      have hnone : segs.find? (covers gpa len) = none := List.find?_eq_none.mpr fun seg hseg => by
        rw [hcovers seg hseg (by omega)]
        exact Bool.false_ne_true
      rw [List.find?_append, hnone, List.find?_cons_of_pos hself]
      rfl
    have haddr : (b.addr + (gpa - gpa)) % 2 ^ 64 = b.addr := by
      rw [Nat.sub_self, Nat.add_zero, Nat.mod_eq_of_lt (by omega)]
    simp only [hmalloc, vmGetMemobj, hfind, map_some, haddr] at h
    cases h
    exact ⟨rfl, hpos, hfits⟩

/-- The same of a segment that is set up only if it is not empty. -/
theorem setup_nonempty
    (h : (if 0 < len then setupMemorySegment segs gpa len block else .ok (0, segs)) =
      .ok (addr, segs')) :
    segs' = segs ++ (if 0 < len then [⟨gpa, len, addr⟩] else []) ∧
      (0 < len → 0 < addr ∧ addr + len ≤ 2 ^ 47) := by
  by_cases hpos : 0 < len
  · rw [if_pos hpos] at h ⊢
    obtain ⟨hsegs, haddr⟩ := setupMemorySegment_fresh hgpa hfresh hcovers h
    exact ⟨hsegs, fun _ => haddr⟩
  · rw [if_neg hpos] at h
    cases h
    exact ⟨by rw [if_neg hpos, List.append_nil], fun h => absurd h hpos⟩

end Fresh

/-- Guest RAM as the setup leaves it: a low segment from 0 on and a high one from 4 GiB on, each
at the host address that the user-space side keeps. -/
structure Laid (g : GuestMemory) : Prop where
  low_lt : g.lowmem < 2 ^ 32
  segs_eq : g.segs = (if 0 < g.lowmem then [⟨0, g.lowmem, g.lowmemAddr⟩] else []) ++
    (if 0 < g.highmem then [⟨highmemBase, g.highmem, g.highmemAddr⟩] else [])
  low_addr : 0 < g.lowmem → 0 < g.lowmemAddr ∧ g.lowmemAddr + g.lowmem ≤ 2 ^ 47
  high_addr : 0 < g.highmem → 0 < g.highmemAddr ∧ g.highmemAddr + g.highmem ≤ 2 ^ 47

theorem le_of_mem_pages {g : ℕ} (hg : g ∈ pages gpa len) : gpa ≤ g := by
  obtain ⟨k, -, rfl⟩ := List.mem_map.mp hg
  exact Nat.le_add_right _ _

theorem laid_setup {limit : UInt32} {host : Host} {size : UInt64}
    (h : xhVmSetupMemory limit host size = .ok g) : Laid g := by
  have hbase : highmemBase = 2 ^ 32 := rfl
  have hlimit := limit.toNat_lt
  rw [xhVmSetupMemory] at h
  generalize hlow : (if limit.toNat < size.toNat then limit.toNat else size.toNat) = lowmem at h
  generalize hhigh : (if limit.toNat < size.toNat then size.toNat - lowmem else 0) = highmem at h
  have hlt : lowmem < 2 ^ 32 := by
    split at hlow <;> omega
  split at h
  · cases h
  rename_i lowAddr segs₁ hfirst
  split at h
  · cases h
  rename_i highAddr segs₂ hsecond
  cases h
  obtain ⟨rfl, haddr₁⟩ := setup_nonempty (Nat.zero_le _) (fun _ _ => rfl)
    (List.forall_mem_nil _) hfirst
  have hmem : ∀ seg ∈ (if 0 < lowmem then [(⟨0, lowmem, lowAddr⟩ : MemSeg)] else []),
      seg = ⟨0, lowmem, lowAddr⟩ := by
    intro seg hseg
    split at hseg
    · exact List.mem_singleton.mp hseg
    · cases hseg
  have hfresh : ∀ p ∈ pages highmemBase highmem, vmMemAllocated
      (if 0 < lowmem then [⟨0, lowmem, lowAddr⟩] else []) p = false := by
    intro p hp
    have hle := le_of_mem_pages hp
    rw [vmMemAllocated, List.any_eq_false]
    intro seg hseg
    rw [hmem seg hseg]
    simp only [Bool.and_eq_true, decide_eq_true_eq]
    omega
  obtain ⟨rfl, haddr₂⟩ := setup_nonempty (Nat.le_refl _) hfresh
    (by
      intro seg hseg hlen
      rw [hmem seg hseg, covers]
      simp only [Bool.and_eq_false_iff, decide_eq_false_iff_not]
      omega) hsecond
  exact ⟨hlt, rfl, haddr₁, haddr₂⟩

/-- The interval lies inside one segment of guest RAM. -/
def InOneSegment (g : GuestMemory) (gpa len : ℕ) : Prop :=
  ∃ seg ∈ g.segs, seg.gpa ≤ gpa ∧ gpa + len ≤ seg.gpa + seg.len

/-- The interval runs past the end of the 64-bit space, and its wrapped end is no later than
that of a segment which starts at or below the interval. -/
def WrapsInto (g : GuestMemory) (gpa len : ℕ) : Prop :=
  2 ^ 64 ≤ gpa + len ∧ ∃ seg ∈ g.segs, seg.gpa ≤ gpa ∧ gpa + len - 2 ^ 64 ≤ seg.gpa + seg.len

/-- Both translations give the same, and an address exactly for what lies in one segment. -/
structure Agree (g : GuestMemory) (gpa len : ℕ) : Prop where
  same : vmGpa2hva g.segs gpa len = xhVmMapGpa g gpa len
  exact_iff : (vmGpa2hva g.segs gpa len).isSome = true ↔ InOneSegment g gpa len

theorem Laid.exists_seg_iff (h : Laid g) (p : MemSeg → Prop) : (∃ seg ∈ g.segs, p seg) ↔
    (0 < g.lowmem ∧ p ⟨0, g.lowmem, g.lowmemAddr⟩) ∨
      (0 < g.highmem ∧ p ⟨highmemBase, g.highmem, g.highmemAddr⟩) := by
  rw [h.segs_eq]
  by_cases hlow : 0 < g.lowmem <;> by_cases hhigh : 0 < g.highmem <;> simp [hlow, hhigh]

theorem find?_segment {c : Prop} [Decidable c] (p : MemSeg → Bool) (seg : MemSeg) :
    (if c then [seg] else []).find? p = if c ∧ p seg = true then some seg else none := by
  by_cases hc : c <;> cases hp : p seg <;> simp [hc, hp]

/-- What the segment table gives, with the sums as the code wraps them. -/
theorem Laid.vmGpa2hva_eq (h : Laid g) : vmGpa2hva g.segs gpa len =
    if 0 < g.lowmem ∧ (gpa + len) % 2 ^ 64 ≤ g.lowmem then some ((g.lowmemAddr + gpa) % 2 ^ 64)
    else if 0 < g.highmem ∧ highmemBase ≤ gpa ∧ (gpa + len) % 2 ^ 64 ≤ highmemBase + g.highmem then
      some ((g.highmemAddr + (gpa - highmemBase)) % 2 ^ 64)
    else none := by
  have hbase : highmemBase = 2 ^ 32 := rfl
  have hlt := h.low_lt
  have hlow : 0 < g.lowmem ∧ covers gpa len ⟨0, g.lowmem, g.lowmemAddr⟩ = true ↔
      0 < g.lowmem ∧ (gpa + len) % 2 ^ 64 ≤ g.lowmem := by
    refine and_congr_right fun hpos => ?_
    rw [covers_iff (h.low_addr hpos).1 (show 0 + g.lowmem < 2 ^ 64 by omega)]
    simp
  have hhigh : 0 < g.highmem ∧ covers gpa len ⟨highmemBase, g.highmem, g.highmemAddr⟩ = true ↔
      0 < g.highmem ∧ highmemBase ≤ gpa ∧ (gpa + len) % 2 ^ 64 ≤ highmemBase + g.highmem := by
    refine and_congr_right fun hpos => ?_
    have haddr := h.high_addr hpos
    exact covers_iff haddr.1 (show highmemBase + g.highmem < 2 ^ 64 by omega)
  rw [vmGpa2hva, vmGetMemobj, h.segs_eq, List.find?_append, find?_segment, find?_segment,
    if_congr hlow rfl rfl, if_congr hhigh rfl rfl]
  split_ifs <;> rfl

/-- The device side accepts what lies inside one segment: its tests on the length keep the sums
from wrapping. -/
theorem Laid.xhVmMapGpa_eq (h : Laid g) (hlen : 1 ≤ len) : xhVmMapGpa g gpa len =
    if gpa + len ≤ g.lowmem then some (g.lowmemAddr + gpa)
    else if highmemBase ≤ gpa ∧ gpa + len ≤ highmemBase + g.highmem then
      some (g.highmemAddr + (gpa - highmemBase))
    else none := by
  have hlt := h.low_lt
  have hhigh : g.highmem ≤ 2 ^ 47 := by
    by_cases hpos : 0 < g.highmem
    · have haddr := h.high_addr hpos
      omega
    · omega
  have hlow : (gpa < g.lowmem ∧ len ≤ g.lowmem ∧ (gpa + len) % 2 ^ 64 ≤ g.lowmem) ↔
      gpa + len ≤ g.lowmem := by omega
  have hhi : (gpa - highmemBase < g.highmem ∧ len ≤ g.highmem ∧
      (gpa - highmemBase + len) % 2 ^ 64 ≤ g.highmem) ↔
      gpa - highmemBase + len ≤ g.highmem := by omega
  rw [xhVmMapGpa, mapGpa]
  simp only [hlow, hhi]
  by_cases hge : highmemBase ≤ gpa
  · have hsum : gpa - highmemBase + len ≤ g.highmem ↔ gpa + len ≤ highmemBase + g.highmem := by omega
    simp only [hge, if_true, true_and, hsum]
  · simp only [hge, if_false, false_and]

/-- After the setup the two translations agree, on exactly the intervals inside a segment, if and
only if the interval does not wrap into a segment. -/
theorem translators_agree_iff {limit : UInt32} {host : Host} {size : UInt64}
    (hsetup : xhVmSetupMemory limit host size = .ok g) (gpa len : UInt64) (hlen : 1 ≤ len.toNat) :
    Agree g gpa.toNat len.toNat ↔ ¬ WrapsInto g gpa.toNat len.toNat := by
  have hlaid := laid_setup hsetup
  have hbase : highmemBase = 2 ^ 32 := rfl
  have hgpa := gpa.toNat_lt
  have hlt := len.toNat_lt
  have hladdr := hlaid.low_addr
  have hhaddr := hlaid.high_addr
  generalize gpa.toNat = a at *
  generalize len.toNat = l at *
  simp only [WrapsInto, hlaid.exists_seg_iff, Nat.zero_add, Nat.zero_le, true_and]
  constructor
  · intro hagree hwraps
    -- the table finds a segment, the devices find none
    have hsame := hagree.same
    rw [hlaid.vmGpa2hva_eq, hlaid.xhVmMapGpa_eq hlen] at hsame
    split_ifs at hsame <;> omega
  · intro hno
    have hfound : 0 < g.lowmem ∧ (a + l) % 2 ^ 64 ≤ g.lowmem ↔ a + l ≤ g.lowmem := by omega
    have hfound' : 0 < g.highmem ∧ highmemBase ≤ a ∧ (a + l) % 2 ^ 64 ≤ highmemBase + g.highmem ↔
        highmemBase ≤ a ∧ a + l ≤ highmemBase + g.highmem := by omega
    have heq : vmGpa2hva g.segs a l = xhVmMapGpa g a l := by
      rw [hlaid.vmGpa2hva_eq, hlaid.xhVmMapGpa_eq hlen, if_congr hfound rfl rfl,
        if_congr hfound' rfl rfl]
      split_ifs
      any_goals rw [Nat.mod_eq_of_lt (by omega)]
      rfl
    refine ⟨heq, ?_⟩
    rw [heq, hlaid.xhVmMapGpa_eq hlen]
    simp only [InOneSegment, hlaid.exists_seg_iff, Nat.zero_add, Nat.zero_le, true_and]
    split_ifs
    · exact iff_of_true rfl (by omega)
    · exact iff_of_true rfl (by omega)
    · exact iff_of_false Bool.false_ne_true (by omega)

/-- A host that allocates every block at the same high address. -/
def roomyHost : Host :=
  let block := fun len => if h : 2 ^ 33 + len ≤ 2 ^ 47 then some ⟨2 ^ 33, by decide, h⟩ else none
  ⟨block, block⟩

/-- Two pages of RAM. -/
def twoPages : GuestMemory := ⟨[⟨0, 0x2000, 2 ^ 33⟩], 0x2000, 0, 2 ^ 33, 0⟩

theorem setup_twoPages : xhVmSetupMemory defaultLowmemLimit roomyHost 0x2000 = .ok twoPages := by
  rfl

theorem translators_agree_second_page : 1 ≤ (0x1000 : UInt64).toNat ∧
    Agree twoPages (0x1000 : UInt64).toNat (0x1000 : UInt64).toNat := by
  refine ⟨by decide, (translators_agree_iff setup_twoPages 0x1000 0x1000 (by decide)).mpr ?_⟩
  rintro ⟨hwrap, -⟩
  exact absurd hwrap (by decide)

/-- The last page of the address space is found in the table, below the start of the RAM block,
and refused by the devices' translation. -/
theorem last_page_translates : xhVmSetupMemory defaultLowmemLimit roomyHost 0x2000 = .ok twoPages ∧
      vmGpa2hva twoPages.segs 0xfffffffffffff000 0x1000 = some (2 ^ 33 - 0x1000) ∧
      xhVmMapGpa twoPages 0xfffffffffffff000 0x1000 = none ∧
      ¬ Agree twoPages 0xfffffffffffff000 0x1000 := by
  have hhva : vmGpa2hva twoPages.segs 0xfffffffffffff000 0x1000 = some (2 ^ 33 - 0x1000) := by
    decide +kernel
  have hmap : xhVmMapGpa twoPages 0xfffffffffffff000 0x1000 = none := rfl
  refine ⟨setup_twoPages, hhva, hmap, fun hagree => ?_⟩
  have hsame := hagree.same
  cases hsame

end HyperCog.Segments
