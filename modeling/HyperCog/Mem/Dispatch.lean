import HyperCog.Mem.Cache
import HyperCog.Pci.Tables

/-! The accesses of an emulated instruction, served by the handler of the range that its address falls in. -/
namespace HyperCog.Mem

open Machine Pci BitVec

inductive Opsize
  | one
  | two
  | four
  | eight
  deriving DecidableEq, Repr

def Opsize.bytes : Opsize → ℕ
  | .one => 1
  | .two => 2
  | .four => 4
  | .eight => 8

/-- A call of `mem_read` or `mem_write`. -/
structure Access where
  /-- what is written -/
  val : Option (BitVec 64)
  gpa : BitVec 64
  size : Opsize
  deriving DecidableEq, Repr

/-- What an instruction asks of the memory that its fault is about. -/
inductive Insn
  | load (size : Opsize)
  | store (size : Opsize) (val : BitVec 64)
  /-- a read, then a write -/
  | update (size : Opsize) (val : BitVec 64)
  /-- MOVS with both operands outside of the guest's memory -/
  | movs (size : Opsize) (val : BitVec 64) (srcgpa dstgpa : BitVec 64)
  deriving DecidableEq, Repr

/-- The calls that `vmm_emulate_instruction` makes. -/
def Insn.accesses (paddr : BitVec 64) : Insn → List Access
  | .load size => [⟨none, paddr, size⟩]
  | .store size val => [⟨some val, paddr, size⟩]
  | .update size val => [⟨none, paddr, size⟩, ⟨some val, paddr, size⟩]
  | .movs size val srcgpa dstgpa => [⟨none, srcgpa, size⟩, ⟨some val, dstgpa, size⟩]

/-- A call of `pe_barread`, or of `pe_barwrite` with a value. -/
structure BarAccess where
  bidx : ℕ
  offset : BitVec 64
  size : ℕ
  val : Option (BitVec 64)
  deriving DecidableEq, Repr

/-- The assertions of `pci_emul_mem_handler`. -/
inductive Assertion
  | barMax
  | barType
  /-- the access is inside the BAR -/
  | containment
  deriving DecidableEq, Repr

/-- `pci_emul_mem_handler`. -/
def memHandler (pdi : Devinst) (bidx : ℕ) (a : Access) : Except Assertion (List BarAccess) :=
  let bar := pdi.bar bidx
  if ¬ bidx ≤ pciBarmax then .error .barMax
  else if ¬ (bar.type = .mem32 ∨ bar.type = .mem64) then .error .barType
  else if ¬ (bar.addr ≤ a.gpa ∧ a.gpa + BitVec.ofNat 64 a.size.bytes ≤ bar.addr + bar.size) then
    .error .containment
  else
    let offset := a.gpa - bar.addr
    if a.size = .eight then
      .ok [⟨bidx, offset, 4, a.val.map fun (x : BitVec 64) => x &&& 0xffffffff⟩,
        ⟨bidx, offset + 4, 4, a.val.map fun (x : BitVec 64) => x >>> 32⟩]
    else .ok [⟨bidx, offset, a.size.bytes, a.val⟩]

section Emulate

variable {ι : Type} (devs : ι → Devinst)

/-- The handlers that are not a BAR's take any access. -/
def Entry.handler (e : Entry ι) (a : Access) : Except Assertion (List BarAccess) :=
  match e.param.name with
  | none => .ok []
  | some i => memHandler (devs i) e.param.arg2 a

/-- The accesses that the handler is called with, and the assertion that failed in the last of them. -/
def Entry.serve (e : Entry ι) : List Access → List Access × Option Assertion
  | [] => ([], none)
  | a :: as =>
    match e.handler devs a with
    | .error err => ([a], some err)
    | .ok _ => (a :: (e.serve as).1, (e.serve as).2)

/-- The range, the calls of its handler and the assertion that failed, or `ESRCH`. -/
def emulateMem (s : State ι) (v : VcpuId) (paddr : BitVec 64) (insn : Insn) :
    Option (Entry ι × List Access × Option Assertion) :=
  (s.choose v paddr.toNat).1.map fun e => (e, e.serve devs (insn.accesses paddr))

end Emulate

variable {ι : Type}

/-- The access lies wholly inside the range. -/
def Entry.Contains (e : Entry ι) (a : Access) : Prop :=
  e.mrBase ≤ a.gpa.toNat ∧ a.gpa.toNat + a.size.bytes ≤ e.mrEnd + 1

instance (e : Entry ι) (a : Access) : Decidable (e.Contains a) := inferInstanceAs (Decidable (_ ∧ _))

/-- The handler of a range is called inside of it only, and no assertion fails. -/
def Respected (devs : ι → Devinst) (s : State ι) (v : VcpuId) (paddr : BitVec 64) (insn : Insn) : Prop :=
  ∀ e calls failed, emulateMem devs s v paddr insn = some (e, calls, failed) →
    (∀ a ∈ calls, e.Contains a) ∧ failed = none

/-- The ranges of BARs are those of the devices' BARs. -/
def Mirrored (devs : ι → Devinst) (s : State ι) : Prop :=
  ∀ e, s.Live e → ∀ i, e.param.name = some i → e.param.arg2 ≤ pciBarmax ∧
    (((devs i).bar e.param.arg2).type = .mem32 ∨ ((devs i).bar e.param.arg2).type = .mem64) ∧
    e.param.extent = ((devs i).bar e.param.arg2).extent

/-- No access of the instruction leaves the range that its address falls in, and in a BAR that ends with
the last address of all, each access ends there too. -/
def Fits (s : State ι) (paddr : BitVec 64) (insn : Insn) : Prop :=
  ∀ e, s.freshLookup paddr.toNat = some e → ∀ a ∈ insn.accesses paddr, e.Contains a ∧
    (e.param.name.isSome = true → e.mrEnd + 1 < 2 ^ 64 ∨ a.gpa.toNat + a.size.bytes = 2 ^ 64)

variable {devs : ι → Devinst} {s s' : State ι} {e e' : Entry ι} {t t' : SearchTree (Entry ι)} {addr : ℕ}

section Table

/-- The tree holds the ranges of the table that stands for it in the model of the PCI devices. -/
def Lists (l : List (MemRange ι)) (t : SearchTree (Entry ι)) : Prop :=
  ∀ r, r ∈ l ↔ ∃ e ∈ t.toList, e.param = r

theorem covers_param : e.param.extent.covers addr = true ↔ e.mrBase ≤ addr ∧ addr ≤ e.mrEnd := by
  have := e.proper.1
  rw [Extent.covers_iff, Entry.mrBase, Entry.mrEnd]
  omega

theorem apart_param : e.param.extent.Apart e'.param.extent ↔ Before e e' ∨ Before e' e := by
  have := e.proper.1
  have := e'.proper.1
  unfold Extent.Apart Before Entry.mrEnd Entry.mrBase
  omega

variable {l : List (MemRange ι)} {shape : SearchTree (Entry ι)} {err : Option Errno}

section

variable (hs : t.Sorted Before)
include hs

/-- Two entries of a tree for one range are one. -/
theorem eq_of_param (he : e ∈ t.toList) (he' : e' ∈ t.toList) (hp : e'.param = e.param) : e' = e := by
  by_contra hne
  have hord := apart_param.mpr (hs.before_or_after he' he hne)
  have := e.proper.1
  rw [hp] at hord
  unfold Extent.Apart at hord
  omega

variable (h : Lists l t)
include h

theorem lookup_lists (addr : ℕ) :
    Extent.lookup MemRange.extent l addr = (rbLookup t addr).map Entry.param := by
  cases hfind : Extent.lookup MemRange.extent l addr with
  | none =>
    cases hrb : rbLookup t addr with
    | none => rfl
    | some e =>
      obtain ⟨he, hc⟩ := (rbLookup_eq_some hs).mp hrb
      exact absurd (covers_param.mpr hc) (List.find?_eq_none.mp hfind _ ((h _).mpr ⟨e, he, rfl⟩))
  | some r =>
    obtain ⟨e, he, rfl⟩ := (h r).mp (List.mem_of_find?_eq_some hfind)
    have hc := List.find?_some (p := fun r : MemRange ι => r.extent.covers addr) hfind
    rw [(rbLookup_eq_some hs).mpr ⟨he, covers_param.mp hc⟩]
    rfl

/-- An entry with a free base clashes where it cannot be added. -/
theorem clashes_lists (hfree : rbLookup t e.mrBase = none) :
    Extent.clashes MemRange.extent l e.param.extent = (rbAdd t e).isNone := by
  cases hadd : rbAdd t e with
  | none =>
    obtain ⟨y, hy, heq⟩ := SearchTree.insert_none hadd
    rw [rangeCompare_eq] at heq
    have hnot : ¬ y.param.extent.Apart e.param.extent := by
      rw [apart_param, Before, Before]
      omega
    exact List.any_eq_true.mpr ⟨y.param, (h _).mpr ⟨y, hy, rfl⟩, by simpa using hnot⟩
  | some t' =>
    refine Extent.clashes_eq_false fun r hr => ?_
    obtain ⟨y, hy, rfl⟩ := (h r).mp hr
    have hne : y ≠ e := by
      rintro rfl
      rw [(rbLookup_eq_some hs).mpr ⟨hy, Nat.le_refl _, y.base_le_end⟩] at hfree
      cases hfree
    exact apart_param.mpr ((sorted_rbAdd hs hadd).before_or_after
      ((SearchTree.mem_insert hadd).mpr (.inr hy)) ((SearchTree.mem_insert hadd).mpr (.inl rfl)) hne)

/-- A registration returns the same for the table and the tree, and they stay in step. -/
theorem registerMemInt_lists [DecidableEq ι] {malloc : Bool}
    (hreg : registerMemInt malloc t e shape = .ok (err, t')) :
    ∃ l', registerMem malloc l e.param = (err, l') ∧ Lists l' t' := by
  unfold registerMemInt at hreg
  rw [registerMem, lookup_lists hs h, Option.isSome_map, show e.param.extent.base = e.mrBase from rfl]
  by_cases hm : malloc = false
  · rw [if_pos hm] at hreg ⊢
    cases hreg
    exact ⟨l, rfl, h⟩
  rw [if_neg hm] at hreg ⊢
  by_cases hfound : (rbLookup t e.mrBase).isSome = true
  · rw [if_pos hfound] at hreg
    cases hreg
    exact ⟨l, if_pos hfound, h⟩
  rw [if_neg hfound] at hreg
  rw [if_neg hfound, clashes_lists hs h (Option.not_isSome_iff_eq_none.mp hfound)]
  cases hadd : rbAdd t e with
  | none =>
    rw [hadd] at hreg
    cases hreg
    exact ⟨l, rfl, h⟩
  | some u =>
    rw [hadd] at hreg
    dsimp only at hreg
    split_ifs at hreg with hshape
    cases hreg
    refine ⟨e.param :: l, rfl, fun r => ?_⟩
    simp only [hshape, SearchTree.mem_insert hadd, List.mem_cons, h r, or_and_right, exists_or, exists_eq_left]
    rw [eq_comm]

end

/-- So does the end of one. -/
theorem unregisterMem_lists [DecidableEq ι] {r : MemRange ι} (hs : s.root.Sorted Before) (h : Lists l s.root)
    (hun : s.unregisterMem r shape = .ok (err, s')) :
    ∃ l', unregisterMem l r = .ok (err, l') ∧ Lists l' s'.root := by
  unfold State.unregisterMem at hun
  rw [unregisterMem, lookup_lists hs h]
  cases hfind : rbLookup s.root r.extent.base with
  | none =>
    rw [hfind] at hun
    cases hun
    exact ⟨l, rfl, h⟩
  | some e =>
    rw [hfind] at hun
    dsimp only [Option.map_some] at hun ⊢
    split_ifs at hun ⊢ with hname hrange himm hshape
    cases hun
    refine ⟨_, rfl, fun r' => ?_⟩
    have he := ((rbLookup_eq_some hs).mp hfind).1
    simp only [not_not.mp hshape, List.mem_filter, decide_eq_true_eq, h r']
    constructor
    · rintro ⟨⟨e', he', rfl⟩, hne⟩
      exact ⟨e', ⟨he', fun heq => hne (congrArg _ heq)⟩, rfl⟩
    · rintro ⟨e', ⟨he', hne⟩, rfl⟩
      exact ⟨⟨e', he', rfl⟩, fun heq => hne (eq_of_param hs he he' heq)⟩

/-- The ranges of BARs are as the BARs describe them while the tables of the PCI devices are. -/
theorem mirrored_of_faithful {fx : Fixed ι} {w : World ι} (h : Faithful fx w)
    (hfx : ∀ r ∈ fx.mem, r.name = none) (hl : Lists w.mem s.root)
    (hfallback : ∀ e ∈ s.fallback.toList, e.param.name = none) : Mirrored w.devs s := by
  intro e he i hi
  have hmem : e.param ∈ w.mem := by
    rcases he with he | he
    · exact (hl _).mpr ⟨e, he, rfl⟩
    · cases (hfallback e he).symm.trans hi
  rcases (h.mem e.param).mp hmem with hfixed | ⟨i', j, hd, hsp, heq⟩
  · rw [hfx _ hfixed] at hi
    cases hi
  · rw [heq] at hi ⊢
    cases hi
    refine ⟨hd.1, ?_, rfl⟩
    unfold barSpace at hsp
    change ((w.devs i).bar j).type = _ ∨ ((w.devs i).bar j).type = _
    cases htype : ((w.devs i).bar j).type <;> simp_all [BarType.space]

end Table

theorem serve_iff {P : Access → Prop} (as : List Access) :
    ((∀ a ∈ (e.serve devs as).1, P a) ∧ (e.serve devs as).2 = none) ↔
      ∀ a ∈ as, P a ∧ ∃ bs, e.handler devs a = .ok bs := by
  induction as with
  | nil => simp [Entry.serve]
  | cons a as ih =>
    rw [List.forall_mem_cons, ← ih, Entry.serve]
    cases e.handler devs a with
    | error err => simp
    | ok bs =>
      simp only [List.forall_mem_cons, Except.ok.injEq, exists_eq', and_true]
      exact and_assoc

/-- The sum of the assertion wraps where the BAR ends with the last address. -/
theorem containment_iff (bar : Pcibar) (a : Access) (hle : bar.addr.toNat ≤ a.gpa.toNat)
    (hend : a.gpa.toNat + a.size.bytes ≤ bar.addr.toNat + bar.size.toNat)
    (htop : bar.addr.toNat + bar.size.toNat ≤ 2 ^ 64) :
    (bar.addr ≤ a.gpa ∧ a.gpa + BitVec.ofNat 64 a.size.bytes ≤ bar.addr + bar.size) ↔
      bar.addr.toNat + bar.size.toNat < 2 ^ 64 ∨ a.gpa.toNat + a.size.bytes = 2 ^ 64 := by
  have hsize : a.size.bytes < 2 ^ 64 ∧ 0 < a.size.bytes := by
    cases a.size <;> decide
  rw [le_def, le_def, toNat_add, toNat_add, toNat_ofNat]
  omega

/-- Inside a BAR the handler fails only at the end of the address space. -/
theorem handler_ok_iff {a : Access} (hm : Mirrored devs s) (hlive : s.Live e) (hc : e.Contains a) :
    (∃ bs, e.handler devs a = .ok bs) ↔
      (e.param.name.isSome = true → e.mrEnd + 1 < 2 ^ 64 ∨ a.gpa.toNat + a.size.bytes = 2 ^ 64) := by
  unfold Entry.handler
  cases hname : e.param.name with
  | none => simp
  | some i =>
    obtain ⟨hmax, htype, hextent⟩ := hm e hlive i hname
    have hend : e.mrEnd + 1 = ((devs i).bar e.param.arg2).addr.toNat + ((devs i).bar e.param.arg2).size.toNat := by
      have hpos := e.proper.1
      rw [Entry.mrEnd]
      rw [hextent] at hpos ⊢
      simp only [Pcibar.extent] at hpos ⊢
      omega
    have hbase : e.mrBase = ((devs i).bar e.param.arg2).addr.toNat := by
      rw [Entry.mrBase, hextent]
      rfl
    have htop := e.proper.2
    rw [hextent] at htop
    have hiff := containment_iff ((devs i).bar e.param.arg2) a (by rw [← hbase]; exact hc.1)
      (by rw [← hend]; exact hc.2) htop
    simp only [memHandler, hmax, htype, not_true_eq_false, if_false, Option.isSome_some, forall_const, hend, ← hiff]
    split_ifs with hcon
    all_goals simpa using hcon

/-- For every set of registered ranges, vCPU, address and instruction. -/
theorem respected_iff {ι : Type} [DecidableEq ι] {devs : ι → Devinst} {as : List (Action ι)} {s : State ι}
    (h : Run step Any initMem as s) (hm : Mirrored devs s) (v : VcpuId) (paddr : BitVec 64) (insn : Insn) :
    Respected devs s v paddr insn ↔ Fits s paddr insn := by
  have hinv : Inv s := h.invariant (fun _ _ _ _ hs hi => hi.step hs) inv_initMem
  unfold Respected Fits emulateMem
  rw [hinv.choose_eq]
  cases hfresh : s.freshLookup paddr.toNat with
  | none => simp
  | some e =>
    have hlive : s.Live e := hinv.live_choose (hinv.choose_eq v paddr.toNat ▸ hfresh)
    simp only [Option.map_some, Option.some.injEq, Prod.mk.injEq]
    constructor
    · intro hresp e' he' a ha
      cases he'
      obtain ⟨hc, hok⟩ := serve_iff _ |>.mp (hresp e _ _ ⟨rfl, rfl⟩) a ha
      exact ⟨hc, (handler_ok_iff hm hlive hc).mp hok⟩
    · rintro hfits e' calls failed ⟨he', hserve⟩
      cases he'
      have hall := serve_iff (insn.accesses paddr) |>.mpr
        fun a ha => ⟨(hfits e rfl a ha).1, (handler_ok_iff hm hlive (hfits e rfl a ha).1).mpr (hfits e rfl a ha).2⟩
      rw [hserve] at hall
      exact hall

/-- A device with one BAR of 4 KiB at 3 GiB, registered. -/
def sampleDevs (_ : Unit) : Devinst := ⟨fun _ => ⟨.mem32, 0x1000, 0xc0000000⟩, fun _ => 0, 0⟩

def barRange : MemRange Unit := ⟨some (), 0, ⟨0xc0000000, 0x1000⟩, false⟩

def barRun : List (Action Unit) :=
  [.registerMem true barRange (by decide) (.node .nil ⟨0, barRange, by decide⟩ .nil)]

def barState : State Unit := ⟨.node .nil ⟨0, barRange, by decide⟩ .nil, .nil, fun _ => none, fun _ => none,
    1, []⟩

theorem run_barRun : Run step Any initMem barRun barState := .stepL trivial rfl .refl

theorem mirrored_barState : Mirrored sampleDevs barState := by
  rintro e (he | he) i hi
  · simp only [barState, SearchTree.toList, List.nil_append, List.mem_singleton] at he
    subst he
    exact ⟨by decide, .inl rfl, rfl⟩
  · simp [barState, SearchTree.toList] at he

theorem respected_iff_last : Respected sampleDevs barState 0 0xc0000ffc (.load .four) := by
  refine (respected_iff run_barRun mirrored_barState 0 0xc0000ffc (.load .four)).mpr fun e he a ha => ?_
  obtain rfl : ⟨0, barRange, by decide⟩ = e := Option.some.inj he
  obtain rfl := List.mem_singleton.mp ha
  exact ⟨by decide, fun _ => .inl (by decide)⟩

/-- Four bytes read from the last two of the BAR, and a MOVS that begins in the BAR and ends elsewhere. -/
theorem straddling_access_asserts :
    Run step Any initMem barRun barState ∧ Mirrored sampleDevs barState ∧
    (∃ e, emulateMem sampleDevs barState 0 0xc0000ffe (.load .four) =
      some (e, [⟨none, 0xc0000ffe, .four⟩], some .containment) ∧ ¬ e.Contains ⟨none, 0xc0000ffe, .four⟩) ∧
    ¬ Respected sampleDevs barState 0 0xc0000ffe (.load .four) ∧
    ¬ Respected sampleDevs barState 0 0xc0000000 (.movs .four 0 0xc0000000 0xd0000000) := by
  refine ⟨run_barRun, mirrored_barState, ⟨⟨0, barRange, by decide⟩, by decide +kernel, by decide⟩,
    fun h => ?_,
    fun h => ?_⟩
  · have := h ⟨0, barRange, by decide⟩ [⟨none, 0xc0000ffe, .four⟩] (some .containment) rfl
    cases this.2
  · have := h ⟨0, barRange, by decide⟩ [⟨none, 0xc0000000, .four⟩, ⟨some 0, 0xd0000000, .four⟩]
      (some .containment)
      rfl
    cases this.2

end HyperCog.Mem
