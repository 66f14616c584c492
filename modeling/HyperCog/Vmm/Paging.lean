import HyperCog.Lib.Bytes
import HyperCog.Lib.Hoare

/-! Guest memory as seen from an instruction that is emulated: page walks, and copies through them. -/
namespace HyperCog.Task

open Machine List BitVec

inductive Reg where
  | rax | rcx | rdx | rbx | rsp | rbp | rsi | rdi
  | es | cs | ss | ds | fs | gs | ldtr | tr | gdtr
  | rflags | rip | cr0 | cr2 | cr3
  | pdpte (i : Fin 4)
  deriving DecidableEq, Repr

structure SegDesc where
  base : BitVec 64
  limit : BitVec 32
  access : BitVec 32
  deriving DecidableEq, Repr

/-- An exception that waits for its delivery; all of those raised here have an error code. -/
structure Exception where
  vector : ℕ
  errcode : BitVec 32
  deriving DecidableEq, Repr

/-- One virtual CPU and the memory of its guest, `lowmem` bytes from 0 and `highmem` bytes from 4 GiB on. -/
structure State where
  mem : ℕ → BitVec 8
  lowmem : ℕ
  highmem : ℕ
  regs : Reg → BitVec 64
  descs : Reg → SegDesc
  /-- The exceptions that were injected. The first of them is pending, and stands in the way of any other. -/
  injected : List Exception
  exitintinfo : BitVec 64
  /-- A helper has asked for memory that the guest does not have. Nothing reads this. -/
  unmapped : Bool

/-- How a function is left early. -/
inductive Exit where
  /-- A helper returns an error number. -/
  | ret (code : ℕ) (s : State)
  /-- A helper returns 0 with `*faultptr` set. -/
  | fault (s : State)
  /-- The handler returns VMEXIT_CONTINUE after a fault. -/
  | cont (s : State)
  /-- The handler returns VMEXIT_ABORT. -/
  | abort (s : State)
  /-- An assertion fails, or a null pointer is read. -/
  | died

abbrev M := StateT State (Except Exit)

def efault : ℕ := 14

def idtTs : ℕ := 10
def idtNp : ℕ := 11
def idtSs : ℕ := 12
def idtGp : ℕ := 13
def idtPf : ℕ := 14
def idtAc : ℕ := 17

variable {α : Type}

def leave (how : State → Exit) : M α := fun s => .error (how s)

/-- A helper finds no memory at an address and returns EFAULT. -/
def unbacked : M α := leave fun s => .ret efault { s with unmapped := true }

def die : M α := fun _ => .error .died

/-- C's `assert`; no build of the repository turns it off. -/
def assert (c : Bool) : M Unit := if c then pure () else die

def unlessM (c : Bool) (m : M Unit) : M Unit := if c then pure () else m

/-- xh_vm_inject_fault and vm_inject_fault, with the way in which the function that raised it is left. -/
def raise (how : State → Exit) (vector : ℕ) (errcode : BitVec 32) : M α := fun s =>
  match s.injected with
  | [] => .error (how { s with injected := [⟨vector, errcode⟩] })
  | _ :: _ => .error .died

def State.setReg (s : State) (r : Reg) (v : BitVec 64) : State :=
  { s with regs := fun r' => if r' = r then v else s.regs r' }

def State.setDesc (s : State) (r : Reg) (d : SegDesc) : State :=
  { s with descs := fun r' => if r' = r then d else s.descs r' }

def getReg (r : Reg) : M (BitVec 64) := fun s => .ok (s.regs r, s)

def setReg (r : Reg) (v : BitVec 64) : M Unit := fun s => .ok ((), s.setReg r v)

def getDesc (r : Reg) : M SegDesc := fun s => .ok (s.descs r, s)

def setDesc (r : Reg) (d : SegDesc) : M Unit := fun s => .ok ((), s.setDesc r d)

def GB : ℕ := 2 ^ 30

def pageSize : ℕ := 4096

/-- xh_vm_map_gpa returns an address; vm_gpa2hva finds the same two segments. -/
def State.mapped (s : State) (gpa len : ℕ) : Bool :=
  gpa < s.lowmem ∧ gpa + len ≤ s.lowmem ∨
    4 * GB ≤ gpa ∧ gpa - 4 * GB < s.highmem ∧ gpa - 4 * GB + len ≤ s.highmem

section Walk

def pgV : BitVec 64 := 0x1
def pgRw : BitVec 64 := 0x2
def pgU : BitVec 64 := 0x4
def pgA : BitVec 64 := 0x20
def pgM : BitVec 64 := 0x40
def pgPs : BitVec 64 := 0x80

inductive CpuMode where
  | real | protect | compatibility | bits64
  deriving DecidableEq, Repr

inductive PagingMode where
  | flat | bits32 | pae | bits64
  deriving DecidableEq, Repr

/-- struct vm_guest_paging -/
structure Paging where
  cr3 : BitVec 64
  cpl : ℕ
  cpuMode : CpuMode
  pagingMode : PagingMode
  deriving DecidableEq, Repr

def Paging.usermode (pg : Paging) : Bool := pg.cpl == 3

def vieCanonicalCheck (mode : CpuMode) (gla : BitVec 64) : Bool :=
  let mask : BitVec 64 := 0xffff000000000000
  mode == .bits64 && (if gla.getLsbD 47 then gla &&& mask != mask else gla &&& mask != 0)

def pfErrorCode (usermode write rsvd : Bool) (pte : BitVec 64) : BitVec 32 :=
  (if pte &&& pgV = 0 then 0 else 1) ||| (if write then 2 else 0) ||| (if usermode then 4 else 0) |||
    (if rsvd then 8 else 0)

def vmInjectPf (errorCode : BitVec 32) (gla : BitVec 64) : M α := do
  setReg .cr2 gla
  raise .fault idtPf errorCode

/-- One kind of page table: the bytes and the index bits of an entry, the table an address names, and the page
that an entry names at the level with this shift. -/
structure Tables where
  size : ℕ
  bits : ℕ
  table : BitVec 64 → BitVec 64
  page : BitVec 64 → ℕ → BitVec 64

def tables32 : Tables where
  size := 4
  bits := 10
  table ptpphys := ptpphys &&& ~~~0xfff
  page pte shift := pte >>> shift <<< shift

def tables64 : Tables where
  size := 8
  bits := 9
  table ptpphys := ptpphys >>> 12 <<< 24 >>> 12
  page pte shift := pte >>> shift <<< (shift + 12) >>> 12

namespace Tables

variable (t : Tables) (usermode write : Bool) (gla : BitVec 64)

def shift (level : ℕ) : ℕ := 12 + level * t.bits

/-- The address of the entry that translates `gla` at this level. -/
def entry (level : ℕ) (ptpphys : BitVec 64) : ℕ :=
  (t.table ptpphys).toNat + t.size * ((gla >>> t.shift level).toNat % 2 ^ t.bits)

/-- Sets a bit of an entry. A compare-and-set that fails starts the walk again, which only happens when the same
walk has just set PG_A; the second round then finds that bit and gets through. -/
def mark (p : ℕ) (bit : BitVec 64) : M Unit := fun s =>
  .ok ((), { s with mem := Bytes.put s.mem p t.size (Bytes.value s.mem p t.size ||| bit.toNat) })

def refused (pte : BitVec 64) : Bool :=
  pte &&& pgV = 0 || (usermode && pte &&& pgU = 0) || (write && pte &&& pgRw = 0)

/-- Reads the entry at one level and marks it as accessed. -/
def visit (level : ℕ) (ptpphys : BitVec 64) : M (BitVec 64) := fun s =>
  if s.mapped (t.table ptpphys).toNat pageSize then
    let pte := BitVec.ofNat 64 (Bytes.value s.mem (t.entry gla level ptpphys) t.size)
    if refused usermode write pte then vmInjectPf (pfErrorCode usermode write false pte) gla s
    else (do t.mark (t.entry gla level ptpphys) pgA; return pte : M (BitVec 64)) s
  else unbacked s

/-- The end of a walk, at the entry of the page. -/
def arrive (level : ℕ) (ptpphys pte : BitVec 64) : M (BitVec 64) := do
  unlessM (!write) (t.mark (t.entry gla level ptpphys) pgM)
  return t.page pte (t.shift level) ||| gla &&& BitVec.ofNat 64 (2 ^ t.shift level - 1)

/-- The loop over the levels, counted down as `nlevels` is. -/
def walk : ℕ → BitVec 64 → M (BitVec 64)
  | 0, ptpphys => do
    let pte ← t.visit usermode write gla 0 ptpphys
    t.arrive write gla 0 ptpphys pte
  | level + 1, ptpphys => do
    let pte ← t.visit usermode write gla (level + 1) ptpphys
    if pte &&& pgPs = 0 then walk level pte
    else if GB < 2 ^ t.shift (level + 1) then vmInjectPf (pfErrorCode usermode write true pte) gla
    else t.arrive write gla (level + 1) ptpphys pte

end Tables

/-- The entry of the page-directory-pointer table, which has no access bits. -/
def pdpte (pg : Paging) (write : Bool) (gla : BitVec 64) : M (BitVec 64) := fun s =>
  let ptpphys := (pg.cr3 &&& 0xffffffe0).toNat
  if s.mapped ptpphys 32 then
    let pte := BitVec.ofNat 64 (Bytes.value s.mem (ptpphys + 8 * ((gla >>> 30).toNat % 4)) 8)
    if pte &&& pgV = 0 then vmInjectPf (pfErrorCode pg.usermode write false pte) gla s
    else .ok (pte, s)
  else unbacked s

def vmGla2gpa (pg : Paging) (write : Bool) (gla : BitVec 64) : M (BitVec 64) :=
  if vieCanonicalCheck pg.cpuMode gla then raise .fault idtGp 0
  else match pg.pagingMode with
    | .flat => pure gla
    | .bits32 => tables32.walk pg.usermode write gla 1 pg.cr3
    | .pae => do
      let pte ← pdpte pg write gla
      tables64.walk pg.usermode write gla 1 pte
    | .bits64 => tables64.walk pg.usermode write gla 3 pg.cr3

end Walk

section Copy

/-- struct iovec, with the guest-physical address in the place of the host's. -/
structure Iov where
  base : ℕ
  len : ℕ
  deriving DecidableEq, Repr

def mapGpa (gpa n : ℕ) : M Unit := fun s => if s.mapped gpa n then .ok ((), s) else unbacked s

def xhVmCopySetup (pg : Paging) (write : Bool) : (iovcnt : ℕ) → (gla : BitVec 64) → (len : ℕ) → M (List Iov)
  | _, _, 0 => pure []
  | 0, _, _ + 1 => die
  | iovcnt + 1, gla, len + 1 => do
    let gpa ← vmGla2gpa pg write gla
    let n := min (len + 1) (pageSize - gpa.toNat % pageSize)
    mapGpa gpa.toNat n
    let iov ← xhVmCopySetup pg write iovcnt (gla + BitVec.ofNat 64 n) (len + 1 - n)
    return ⟨gpa.toNat, n⟩ :: iov

def Iov.bytes (v : Iov) : List ℕ := (range v.len).map fun i => v.base + i

/-- The bytes of the guest that the vector names. -/
def gather (mem : ℕ → BitVec 8) (iov : List Iov) : List (BitVec 8) := (iov.flatMap Iov.bytes).map mem

/-- What xh_vm_copyin and xh_vm_copyout go through of the vector, an assertion for each part. -/
def takeIov : List Iov → ℕ → M (List Iov)
  | _, 0 => pure []
  | [], _ + 1 => die
  | v :: iov, len + 1 => do
    assert (v.len != 0)
    let rest ← takeIov iov (len + 1 - min (len + 1) v.len)
    return { v with len := min (len + 1) v.len } :: rest

def xhVmCopyin (iov : List Iov) (len : ℕ) : M (ℕ → BitVec 8) := do
  let iov ← takeIov iov len
  let s ← get
  return fun i => (gather s.mem iov).getD i 0

/-- The memory with the bytes of `src` from `off` on put where the vector says. -/
def scatter (src : ℕ → BitVec 8) : List Iov → ℕ → (ℕ → BitVec 8) → (ℕ → BitVec 8)
  | [], _, mem => mem
  | v :: iov, off, mem => scatter src iov (off + v.len) fun p =>
    if v.base ≤ p ∧ p < v.base + v.len then src (off + (p - v.base)) else mem p

def xhVmCopyout (src : ℕ → BitVec 8) (iov : List Iov) (len : ℕ) : M Unit := do
  let iov ← takeIov iov len
  modify fun s => { s with mem := scatter src iov 0 s.mem }

end Copy

variable {s : State} {vector len : ℕ} {errcode : BitVec 32} {iov : List Iov} {gla : BitVec 64}

/-- A helper leaves either with one exception and its fault flag set, or with EFAULT and no exception, for want of
memory. -/
def HelperExit : Exit → Prop
  | .fault s => s.injected.length = 1
  | .ret code s => code = efault ∧ s.injected = [] ∧ s.unmapped = true
  | _ => False

theorem raise_eq {how : State → Exit} (hs : s.injected = []) :
    (raise how vector errcode : M α) s = .error (how { s with injected := [⟨vector, errcode⟩] }) := by
  rw [raise, hs]

section Flat

/-- Protected mode without paging: addresses are not translated. -/
structure Paging.Flat (pg : Paging) : Prop where
  cpuMode : pg.cpuMode = .protect
  pagingMode : pg.pagingMode = .flat

/-- The address of byte `i` of the range from `gla` on. -/
def byteAt (gla : BitVec 64) (i : ℕ) : ℕ := (gla + BitVec.ofNat 64 i).toNat

/-- The `len` bytes from `gla` on. -/
def window (mem : ℕ → BitVec 8) (gla : BitVec 64) (len i : ℕ) : BitVec 8 :=
  if i < len then mem (byteAt gla i) else 0

/-- The vector names the bytes of the range in their order, and has no empty part. -/
structure Covers (gla : BitVec 64) (len : ℕ) (iov : List Iov) : Prop where
  parts : ∀ v ∈ iov, v.len ≠ 0
  bytes : iov.flatMap Iov.bytes = (range len).map (byteAt gla)

/-- Within a page addresses do not wrap around. -/
theorem byteAt_page {i : ℕ} (h : gla.toNat % pageSize + i < pageSize) : byteAt gla i = gla.toNat + i := by
  have hgla := gla.isLt
  rw [byteAt, toNat_add, toNat_ofNat]
  simp only [pageSize] at h
  omega

theorem covers_cons {n : ℕ} (hn : n ≠ 0) (hpage : gla.toNat % pageSize + n ≤ pageSize)
    (h : Covers (gla + BitVec.ofNat 64 n) len iov) : Covers gla (n + len) (⟨gla.toNat, n⟩ :: iov) := by
  refine ⟨fun v hv => ?_, ?_⟩
  · rcases mem_cons.mp hv with rfl | hv
    · exact hn
    · exact h.parts v hv
  · rw [flatMap_cons, h.bytes, range_add, map_append, map_map]
    congr 1
    · refine map_congr_left fun i hi => ?_
      have hlt : i < n := mem_range.mp hi
      exact (byteAt_page (by omega)).symm
    · refine map_congr_left fun i _ => ?_
      rw [Function.comp, byteAt, byteAt, BitVec.ofNat_add, BitVec.add_assoc]

/-- The vector has room for the pages that the range touches. -/
theorem ends_copySetup_pages {pg : Paging} (hpg : pg.Flat) (hs : s.injected = []) (write : Bool) (iovcnt : ℕ)
    (gla : BitVec 64) (len : ℕ) (h : len = 0 ∨ gla.toNat % pageSize + len ≤ pageSize * iovcnt) :
    Ends (fun iov s' => s' = s ∧ Covers gla len iov) HelperExit (xhVmCopySetup pg write iovcnt gla len s) := by
  -- A part ends at the end of the range or at the end of a page, where the next part starts at offset 0.
  induction iovcnt generalizing gla len with
  | zero =>
    obtain rfl : len = 0 := by omega
    exact ⟨rfl, fun _ h => absurd h not_mem_nil, rfl⟩
  | succ iovcnt ih =>
    cases len with
    | zero => exact ⟨rfl, fun _ h => absurd h not_mem_nil, rfl⟩
    | succ len =>
      have hgpa : vmGla2gpa pg write gla = pure gla := by
        rw [vmGla2gpa, vieCanonicalCheck, hpg.cpuMode, hpg.pagingMode]
        rfl
      have hoff : gla.toNat % pageSize < pageSize := Nat.mod_lt _ (by decide)
      rw [xhVmCopySetup, hgpa, pure_bind]
      generalize hn : min (len + 1) (pageSize - gla.toNat % pageSize) = n
      have hrest : len + 1 - n = 0 ∨
          (gla + BitVec.ofNat 64 n).toNat % pageSize + (len + 1 - n) ≤ pageSize * iovcnt := by
        rw [toNat_add, toNat_ofNat]
        simp only [pageSize] at *
        omega
      have hmap : Ends (fun _ s' => s' = s) HelperExit (mapGpa gla.toNat n s) := by
        rw [mapGpa]
        split
        · rfl
        · exact ⟨rfl, hs, rfl⟩
      refine ends_bind hmap ?_
      rintro _ _ rfl
      refine ends_bind (ih _ _ hrest) ?_
      rintro iov _ ⟨rfl, hiov⟩
      have hlen : n + (len + 1 - n) = len + 1 := by omega
      exact ⟨rfl, hlen ▸ covers_cons (by omega) (by omega) hiov⟩

theorem ends_xhVmCopySetup {pg : Paging} (hpg : pg.Flat) (hs : s.injected = []) (write : Bool) (gla : BitVec 64)
    (h : len ≤ pageSize) :
    Ends (fun iov s' => s' = s ∧ Covers gla len iov) HelperExit (xhVmCopySetup pg write 2 gla len s) := by
  refine ends_copySetup_pages hpg hs write 2 gla len (.inr ?_)
  have hoff : gla.toNat % pageSize < pageSize := Nat.mod_lt _ (by decide)
  omega

theorem takeIov_eq (hparts : ∀ v ∈ iov, v.len ≠ 0) (hlen : (iov.flatMap Iov.bytes).length = len) :
    takeIov iov len s = .ok (iov, s) := by
  induction iov generalizing len with
  | nil =>
    subst hlen
    rfl
  | cons v iov ih =>
    have hv := hparts v mem_cons_self
    rw [flatMap_cons, length_append, Iov.bytes, length_map, length_range] at hlen
    cases len with
    | zero => omega
    | succ len =>
      have hmin : min (len + 1) v.len = v.len := by omega
      have hrest : takeIov iov (len + 1 - v.len) s = .ok (iov, s) :=
        ih (fun w hw => hparts w (mem_cons_of_mem _ hw)) (by omega)
      rw [takeIov, hmin, bne_iff_ne.mpr hv]
      change (takeIov iov (len + 1 - v.len) s >>= fun r => _) = _
      rw [hrest]
      rfl

theorem Covers.takeIov (h : Covers gla len iov) : takeIov iov len s = .ok (iov, s) :=
  takeIov_eq h.parts (by rw [h.bytes, length_map, length_range])

theorem xhVmCopyin_eq (h : Covers gla len iov) : xhVmCopyin iov len s = .ok (window s.mem gla len, s) := by
  change (takeIov iov len s >>= fun r => _) = _
  rw [h.takeIov]
  refine congrArg (fun w => Except.ok (w, s)) (funext fun i => ?_)
  rw [gather, h.bytes, map_map, window]
  split
  · simp [*]
  · simp [*]

theorem ends_xhVmCopyout {E : Exit → Prop} (h : Covers gla len iov) (hs : s.injected = []) (src : ℕ → BitVec 8) :
    Ends (fun _ s' => s'.injected = []) E (xhVmCopyout src iov len s) := by
  change Ends _ _ (takeIov iov len s >>= fun r => _)
  rw [h.takeIov]
  exact hs

end Flat

end HyperCog.Task
