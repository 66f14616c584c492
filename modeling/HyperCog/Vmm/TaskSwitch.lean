import HyperCog.Vmm.Paging

/-! The emulation of task switches. -/
namespace HyperCog.Task

open Machine

section Descriptors

def sdtSys286tss : BitVec 32 := 1
def sdtSysldt : BitVec 32 := 2
def sdtSys286bsy : BitVec 32 := 3
def sdtSys386tss : BitVec 32 := 9
def sdtSys386bsy : BitVec 32 := 11

def isLdt (sel : BitVec 16) : Bool := sel &&& 4 != 0

def idxSel (sel : BitVec 16) : BitVec 16 := sel >>> 3

def selRpl (sel : BitVec 16) : BitVec 16 := sel &&& 3

def selStart (sel : BitVec 16) : BitVec 16 := sel &&& ~~~7

def selLimit (sel : BitVec 16) : BitVec 32 := (sel ||| 7).setWidth 32

def segDescType (access : BitVec 32) : BitVec 32 := access &&& 0x1f

def segDescPresent (access : BitVec 32) : Bool := access.getLsbD 7

def segDescDef32 (access : BitVec 32) : Bool := access.getLsbD 14

def segDescUnusable (access : BitVec 32) : Bool := access.getLsbD 16

/-- struct user_segment_descriptor, as the word that its bit fields share. -/
structure Usd where
  bits : BitVec 64
  deriving DecidableEq, Repr

namespace Usd

variable (usd : Usd)

def lolimit : BitVec 32 := (usd.bits.extractLsb' 0 16).setWidth 32
def lobase : BitVec 32 := (usd.bits.extractLsb' 16 24).setWidth 32
def type : BitVec 32 := (usd.bits.extractLsb' 40 5).setWidth 32
def dpl : BitVec 32 := (usd.bits.extractLsb' 45 2).setWidth 32
def p : BitVec 32 := (usd.bits.extractLsb' 47 1).setWidth 32
def hilimit : BitVec 32 := (usd.bits.extractLsb' 48 4).setWidth 32
def xx : BitVec 32 := (usd.bits.extractLsb' 52 1).setWidth 32
def def32 : BitVec 32 := (usd.bits.extractLsb' 54 1).setWidth 32
def gran : BitVec 32 := (usd.bits.extractLsb' 55 1).setWidth 32
def hibase : BitVec 32 := (usd.bits.extractLsb' 56 8).setWidth 32

def limit : BitVec 32 := usd.lolimit ||| usd.hilimit <<< 16

/-- The descriptor with bit 1 of its type, the busy bit of a TSS, cleared or set. -/
def setBusy (busy : Bool) : Usd :=
  ⟨if busy then usd.bits ||| 0x20000000000 else usd.bits &&& ~~~0x20000000000⟩

end Usd

def usdToSegDesc (usd : Usd) : SegDesc where
  base := (usd.lobase ||| usd.hibase <<< 24).setWidth 64
  limit := if usd.gran != 0 then usd.limit <<< 12 ||| 0xfff else usd.limit
  access := usd.type ||| usd.dpl <<< 5 ||| usd.p <<< 7 ||| usd.xx <<< 12 ||| usd.def32 <<< 14 ||| usd.gran <<< 15

def codeDesc (type : BitVec 32) : Bool := type &&& 0x18 == 0x18

def stackDesc (type : BitVec 32) : Bool := type &&& 0x1A == 0x12

def dataDesc (type : BitVec 32) : Bool := type &&& 0x18 == 0x10 || type &&& 0x1A == 0x1A

def ldtDesc (type : BitVec 32) : Bool := type == sdtSysldt

end Descriptors

inductive Reason where
  | call | iret | jmp | idtGate
  deriving DecidableEq, Repr

/-- struct vm_task_switch, with the rip and inst_length of its exit. An error code only comes with an event that
a task gate of the IDT delivers. -/
structure TaskSwitch where
  tsssel : BitVec 16
  ext : Bool
  errcode : BitVec 32
  errcodeValid : Bool
  reason : Reason
  paging : Paging
  rip : BitVec 64
  instLength : BitVec 64
  errcode_event : errcodeValid = true → ext = true ∧ reason = .idtGate

/-- Accesses to descriptor tables and task state segments are implicitly supervisor mode. -/
def TaskSwitch.supPaging (ts : TaskSwitch) : Paging := { ts.paging with cpl := 0 }

variable {α β : Type}

def selException (how : State → Exit) (vector : ℕ) (sel : BitVec 16) (ext : Bool) : M α :=
  raise how vector ((sel &&& ~~~3 ||| if ext then 1 else 0).setWidth 32)

section Tables

def tableOf (sel : BitVec 16) : Reg := if isLdt sel then .ldtr else .gdtr

/-- The selector is within the limits of its table: desc_table_limit_check returns 0. -/
def State.inTable (s : State) (sel : BitVec 16) : Bool :=
  let d := s.descs (tableOf sel)
  !(isLdt sel && (segDescUnusable d.access || !segDescPresent d.access)) && !(d.limit < selLimit sel)

def descTableLimitCheck (sel : BitVec 16) : M Bool := fun s => .ok (s.inTable sel, s)

/-- desc_table_rw up to the copy. -/
def descTableSetup (pg : Paging) (sel : BitVec 16) (write : Bool) : M (List Iov) := do
  let d ← getDesc (tableOf sel)
  assert (!(d.limit < selLimit sel))
  xhVmCopySetup pg write 2 (d.base + (selStart sel).setWidth 64) 8

def descTableRead (pg : Paging) (sel : BitVec 16) : M Usd := do
  let iov ← descTableSetup pg sel false
  let buf ← xhVmCopyin iov 8
  return ⟨BitVec.ofNat 64 (Bytes.value buf 0 8)⟩

def descTableWrite (pg : Paging) (sel : BitVec 16) (desc : Usd) : M Unit := do
  let iov ← descTableSetup pg sel true
  xhVmCopyout (Bytes.put (fun _ => 0) 0 8 desc.bits.toNat) iov 8

def readTssDescriptor (ts : TaskSwitch) (sel : BitVec 16) : M Usd := do
  assert (!isLdt sel)
  assert (idxSel sel != 0)
  let within ← descTableLimitCheck sel
  unlessM within (selException (.ret 1) (if ts.reason = .iret then idtTs else idtGp) sel ts.ext)
  descTableRead ts.supPaging sel

/-- The checks of validate_seg_desc on a descriptor that was read, with the vector of the one that fails. -/
def segFault (segment : Reg) (usd : Usd) (sel cs : BitVec 16) : Option ℕ :=
  let ldtseg := segment = .ldtr
  let codeseg := segment = .cs
  let stackseg := segment = .ss
  let dataseg := segment = .ds ∨ segment = .es ∨ segment = .fs ∨ segment = .gs
  let cpl := (selRpl cs).setWidth 32
  let rpl := (selRpl sel).setWidth 32
  if ldtseg ∧ ¬ ldtDesc usd.type ∨ codeseg ∧ ¬ codeDesc usd.type ∨ dataseg ∧ ¬ dataDesc usd.type ∨
      stackseg ∧ ¬ stackDesc usd.type then some idtTs
  else if usd.p = 0 then some (if ldtseg then idtTs else if stackseg then idtSs else idtNp)
  else if stackseg ∧ (rpl ≠ cpl ∨ usd.dpl ≠ cpl) then some idtTs
  else if codeseg ∧ (if usd.type &&& 4 ≠ 0 then cpl < usd.dpl else cpl ≠ usd.dpl) then some idtTs
  else if dataseg ∧ ¬ (codeDesc usd.type ∧ usd.type &&& 4 ≠ 0) ∧
    (usd.dpl < rpl ∨ usd.dpl < cpl) then some idtTs
  else none

/-- The checks of validate_seg_desc on the selector alone; all of them raise #TS. -/
def State.selRefused (s : State) (segment : Reg) (sel : BitVec 16) : Bool :=
  segment = .ldtr ∧ isLdt sel ∨ ¬ s.inTable sel ∨ idxSel sel = 0 ∧ (segment = .cs ∨ segment = .ss)

def unusable : SegDesc := ⟨0, 0, 0x10000⟩

def orSegFault (ts : TaskSwitch) (sel : BitVec 16) (usd : Usd) : Option ℕ → M SegDesc
  | some vector => selException (.ret 1) vector sel ts.ext
  | none => pure (usdToSegDesc usd)

def validateSegDesc (ts : TaskSwitch) (segment : Reg) : M SegDesc := do
  let s ← get
  let sel := (s.regs segment).setWidth 16
  if s.selRefused segment sel then selException (.ret 1) idtTs sel ts.ext
  else if idxSel sel = 0 then pure unusable
  else do
    let usd ← descTableRead ts.supPaging sel
    let cs ← getReg .cs
    orSegFault ts sel usd (segFault segment usd sel (cs.setWidth 16))

def updateSegDesc (r : Reg) (sd : SegDesc) : M Unit := setDesc r sd

end Tables

section Tss

def pslNt : BitVec 64 := 0x4000
def pslAc : BitVec 64 := 0x40000
def cr0Ts : BitVec 64 := 0x8
def cr0Am : BitVec 64 := 0x40000

/-- struct tss32, as its bytes. -/
abbrev Tss := ℕ → BitVec 8

/-- Offset and bytes of the field that holds a register, the ones that are saved and loaded alike. -/
def tssRegs : List (Reg × ℕ × ℕ) :=
  [(.rax, 40, 4), (.rcx, 44, 4), (.rdx, 48, 4), (.rbx, 52, 4), (.rsp, 56, 4), (.rbp, 60, 4), (.rsi, 64, 4),
    (.rdi, 68, 4), (.es, 72, 2), (.cs, 76, 2), (.ss, 80, 2), (.ds, 84, 2), (.fs, 88, 2), (.gs, 92, 2)]

namespace Tss

variable (tss : Tss)

def word (off n : ℕ) : BitVec 64 := BitVec.ofNat 64 (Bytes.value tss off n)

def cr3 : BitVec 64 := tss.word 28 4
def eip : BitVec 64 := tss.word 32 4
def eflags : BitVec 64 := tss.word 36 4
def cs : BitVec 64 := tss.word 76 2
def ldt : BitVec 64 := tss.word 96 2

def setLink (sel : BitVec 16) : Tss := Bytes.put tss 0 2 sel.toNat
def setEip (eip : BitVec 32) : Tss := Bytes.put tss 32 4 eip.toNat
def setEflags (eflags : BitVec 64) : Tss := Bytes.put tss 36 4 eflags.toNat

def save (regs : Reg → BitVec 64) : Tss := tssRegs.foldl (fun t f => Bytes.put t f.2.1 f.2.2 (regs f.1).toNat) tss

end Tss

def tss32Save (ts : TaskSwitch) (eip : BitVec 32) (tss : Tss) (iov : List Iov) : M Unit := do
  let s ← get
  let eflags := s.regs .rflags &&& (if ts.reason = .iret then ~~~pslNt else ~~~0)
  xhVmCopyout (((tss.save s.regs).setEflags eflags).setEip eip) iov 104

/-- The four entries that a new CR3 brings along, none of them with a reserved bit set. -/
def pdpteReserved (pdpte : BitVec 64) : Bool := pdpte &&& 1 != 0 && pdpte &&& 0xfffffff0000001E6 != 0

def State.pdptes (s : State) (cr3 : BitVec 64) (i : Fin 4) : BitVec 64 :=
  BitVec.ofNat 64 (Bytes.value s.mem ((cr3 &&& 0xffffffe0).toNat + 8 * i.val) 8)

/-- The part of tss32_restore that sets CR3; a null pointer from paddr_guest2host is read from at once. -/
def loadPdptes (cr3 : BitVec 64) : M Unit := fun s =>
  if s.mapped (cr3 &&& 0xffffffe0).toNat 32 then
    if (List.finRange 4).any fun i => pdpteReserved (s.pdptes cr3 i) then raise (.ret 1) idtGp 0 s
    else .ok ((), { s with regs := fun r => match r with
      | .pdpte i => s.pdptes cr3 i
      | r => s.regs r })
  else .error .died

def loadCr3 (ts : TaskSwitch) (tss : Tss) : M TaskSwitch :=
  if ts.paging.pagingMode = .flat then pure ts
  else do
    unlessM (ts.paging.pagingMode ≠ .pae) (loadPdptes tss.cr3)
    setReg .cr3 tss.cr3
    return { ts with paging := { ts.paging with cr3 := tss.cr3 } }

def loadRegs (eflags : BitVec 64) (tss : Tss) : M Unit := modify fun s =>
  tssRegs.foldl (fun s f => s.setReg f.1 (tss.word f.2.1 f.2.2)) ((s.setReg .rflags eflags).setReg .rip tss.eip)

def nested (ts : TaskSwitch) : Bool := ts.reason ≠ .iret ∧ ts.reason ≠ .jmp

/-- tss32_restore up to the validation of the segments. -/
def loadTask (ts : TaskSwitch) (otSel : BitVec 16) (tss : Tss) (iov : List Iov) : M TaskSwitch := do
  let tss' := if nested ts then tss.setLink otSel else tss
  setReg .ldtr tss'.ldt
  let ts' ← loadCr3 ts tss'
  loadRegs (tss'.eflags ||| if nested ts then pslNt else 0) tss'
  unlessM (!nested ts) (xhVmCopyout tss' iov 104)
  return ts'

def loadSegment (ts : TaskSwitch) (segment : Reg) : M Unit := do
  let sd ← validateSegDesc ts segment
  updateSegDesc segment sd

def loadCodeAndStack (ts : TaskSwitch) : M Unit := do
  let sd ← validateSegDesc ts .cs
  let sd2 ← validateSegDesc ts .ss
  updateSegDesc .cs sd
  updateSegDesc .ss sd2

def loadSegments (ts : TaskSwitch) : List Reg → M Unit
  | [] => pure ()
  | r :: rs => do
    loadSegment ts r
    loadSegments ts rs

def dataSegments : List Reg := [.ds, .es, .fs, .gs]

def tss32Restore (ts : TaskSwitch) (otSel : BitVec 16) (tss : Tss) (iov : List Iov) : M TaskSwitch := do
  let ts' ← loadTask ts otSel tss iov
  loadSegment ts' .ldtr
  loadCodeAndStack ts'
  loadSegments ts' dataSegments
  return { ts' with paging := { ts'.paging with cpl := (tss.cs &&& 3).toNat } }

end Tss

section Push

def size2mask (size : ℕ) : BitVec 64 := BitVec.ofNat 64 (2 ^ (8 * size) - 1)

/-- The loop of `vie_calculate_gla` over the bytes of the operand. -/
def bytesInside (low high mask : BitVec 64) : (length : ℕ) → (offset : BitVec 64) → Bool
  | 0, _ => true
  | length + 1, offset =>
    let offset := offset &&& mask
    if offset < low || high < offset then false else bytesInside low high mask length (offset + 1)

/-- The checks that are made outside of 64-bit mode. -/
def segmentAdmits (desc : SegDesc) (offset : BitVec 64) (length addrsize : ℕ) (read write : Bool) :
    Bool :=
  let type := segDescType desc.access
  if segDescUnusable desc.access then false
  else if read && type &&& 0xA == 0x8 || write && (type &&& 0x8 != 0 || type &&& 0xA == 0) then false
  else if type &&& 0xC == 0x4 then
    bytesInside ((desc.limit + 1).setWidth 64)
      (if segDescDef32 desc.access then 0xffffffff else 0xffff) (size2mask addrsize) length offset
  else bytesInside 0 (desc.limit.setWidth 64) (size2mask addrsize) length offset

/-- `vie_calculate_gla` past its assertions; `prot` is a read, a write or both. -/
def calculateGla (mode : CpuMode) (seg : Reg) (desc : SegDesc) (offset : BitVec 64)
    (length addrsize : ℕ) (read write : Bool) : Option (BitVec 64) :=
  if mode ≠ .bits64 ∧ ¬ segmentAdmits desc offset length addrsize read write then none
  else
    let segbase := if mode = .bits64 ∧ seg ≠ .fs ∧ seg ≠ .gs then 0 else desc.base
    some ((segbase + (offset &&& size2mask addrsize)) &&& size2mask (if mode = .bits64 then 8 else 4))

/-- The push is a write to the stack in protected mode, which the handler asserts. -/
def vieCalculateGla (desc : SegDesc) (offset : BitVec 64) (length addrsize : ℕ) : M (Option (BitVec 64)) :=
  if segDescUnusable desc.access then pure none
  else do
    assert (segDescPresent desc.access)
    assert (16 ≤ segDescType desc.access)
    return calculateGla .protect .ss desc offset length addrsize false true

def vieAlignmentCheck (cpl size : ℕ) (cr0 rf gla : BitVec 64) : Bool :=
  cpl == 3 && cr0 &&& cr0Am != 0 && rf &&& pslAc != 0 && gla.toNat % size != 0

def pushAt (pg : Paging) (bytes : ℕ) (errcode esp : BitVec 32) (gla : BitVec 64) : M Unit := do
  let iov ← xhVmCopySetup pg true 2 gla bytes
  xhVmCopyout (Bytes.put (fun _ => 0) 0 4 errcode.toNat) iov bytes
  setReg .rsp (esp.setWidth 64)

def pushErrcode (pg : Paging) (taskType : BitVec 32) (errcode : BitVec 32) : M Unit := do
  let s ← get
  let bytes := if taskType = sdtSys386bsy ∨ taskType = sdtSys386tss then 4 else 2
  let stacksize := if segDescDef32 (s.descs .ss).access then 4 else 2
  let esp := (s.regs .rsp).setWidth 32 - BitVec.ofNat 32 bytes
  let r ← vieCalculateGla (s.descs .ss) (esp.setWidth 64) bytes stacksize
  match r with
  | none => selException .fault idtSs ((s.regs .ss).setWidth 16) true
  | some gla =>
    if vieAlignmentCheck pg.cpl bytes (s.regs .cr0) (s.regs .rflags) gla then raise .fault idtAc 1
    else pushAt pg bytes errcode esp gla

end Push

section Handler

/-- CHKERR: the assertion on the error number, and the return to the run loop. -/
def chkerr (m : M α) : M α := fun s =>
  match m s with
  | .ok r => .ok r
  | .error (.ret code s') => .error (if code = efault then .abort s' else .died)
  | .error (.fault s') => .error (.cont s')
  | .error e => .error e

def isTss386 (type : BitVec 32) : Bool := type = sdtSys386bsy ∨ type = sdtSys386tss

def isTss286 (type : BitVec 32) : Bool := type = sdtSys286bsy ∨ type = sdtSys286tss

def tssBusy (type : BitVec 32) : Bool := type &&& 2 != 0

def minlimit (type : BitVec 32) : ℕ := if isTss386 type then 104 - 1 else if isTss286 type then 44 - 1 else 0

/-- The checks on the descriptor of the new TSS; each of them goes to `done`. -/
def verifyNewTss (ts : TaskSwitch) (nt : SegDesc) : M Unit := do
  let ntType := segDescType nt.access
  unlessM (isTss386 ntType || isTss286 ntType) (selException .cont idtTs ts.tsssel ts.ext)
  unlessM (segDescPresent nt.access) (selException .cont idtNp ts.tsssel ts.ext)
  assert (0 < minlimit ntType)
  unlessM (minlimit ntType ≤ nt.limit.toNat) (selException .cont idtTs ts.tsssel ts.ext)
  unlessM (ts.reason ≠ .iret ∨ tssBusy ntType) (selException .cont idtTs ts.tsssel ts.ext)
  unlessM (ts.reason = .iret ∨ ¬ tssBusy ntType) (selException .cont idtGp ts.tsssel ts.ext)

/-- A task state segment of the guest that was fetched, with what names it. -/
structure Fetched where
  sel : BitVec 16
  desc : Usd
  iov : List Iov
  tss : Tss

def fetchTss (ts : TaskSwitch) (base : BitVec 64) (len : ℕ) : M (List Iov × Tss) := do
  let iov ← chkerr (xhVmCopySetup ts.supPaging true 2 base len)
  let tss ← xhVmCopyin iov len
  return (iov, tss)

/-- The type of the new TSS, from its descriptor. -/
def ntType (desc : Usd) : BitVec 32 := segDescType (usdToSegDesc desc).access

def fetchNew (ts : TaskSwitch) : M Fetched := do
  let desc ← chkerr (readTssDescriptor ts ts.tsssel)
  verifyNewTss ts (usdToSegDesc desc)
  let r ← fetchTss ts (usdToSegDesc desc).base (minlimit (ntType desc) + 1)
  return ⟨ts.tsssel, desc, r.1, r.2⟩

/-- The task that the task register holds, which the processor has marked as busy. -/
def fetchBusy (ts : TaskSwitch) (sel : BitVec 16) (len : ℕ) : M Fetched := do
  let d ← getDesc .tr
  assert (!segDescUnusable d.access && segDescPresent d.access)
  assert (segDescType d.access = sdtSys386bsy ∨ segDescType d.access = sdtSys286bsy)
  let desc ← chkerr (readTssDescriptor ts sel)
  let r ← fetchTss ts d.base len
  return ⟨sel, desc, r.1, r.2⟩

def fetchOld (ts : TaskSwitch) (len : ℕ) : M Fetched := do
  let tr ← getReg .tr
  let sel := tr.setWidth 16
  unlessM (!isLdt sel && idxSel sel != 0) (selException .cont idtTs sel ts.ext)
  fetchBusy ts sel len

/-- From the busy bit of the old TSS to the point where the switch is committed. -/
def commit (ts : TaskSwitch) (nt ot : Fetched) : M Unit := do
  unlessM (ts.reason ≠ .iret ∧ ts.reason ≠ .jmp)
    (chkerr (descTableWrite ts.supPaging ot.sel (ot.desc.setBusy false)))
  unlessM (!isTss286 (ntType nt.desc)) (leave .abort)
  tss32Save ts ((ts.rip + ts.instLength).setWidth 32) ot.tss ot.iov
  unlessM (ts.reason = .iret) (chkerr (descTableWrite ts.supPaging nt.sel (nt.desc.setBusy true)))
  setReg .tr (nt.sel.setWidth 64)
  updateSegDesc .tr (usdToSegDesc (if ts.reason = .iret then nt.desc else nt.desc.setBusy true))
  let cr0 ← getReg .cr0
  setReg .cr0 (cr0 ||| cr0Ts)
  setReg .rip nt.tss.eip

/-- The error code of the event, and the end of the event. -/
def finish (ts : TaskSwitch) (type : BitVec 32) : M Unit := do
  unlessM (!ts.errcodeValid) do
    assert ts.ext
    assert (ts.reason = .idtGate)
    chkerr (pushErrcode ts.paging type ts.errcode)
  unlessM (ts.reason ≠ .idtGate) (modify fun s => { s with exitintinfo := 0 })

/-- The handler; to run to its end is to return VMEXIT_CONTINUE with the switch done. -/
def vmexitTaskSwitch (ts : TaskSwitch) : M Unit := do
  assert (ts.paging.cpuMode = .protect)
  let nt ← fetchNew ts
  let ot ← fetchOld ts (minlimit (ntType nt.desc) + 1)
  commit ts nt ot
  let ts' ← chkerr (tss32Restore ts ot.sel nt.tss nt.iov)
  finish ts' (ntType nt.desc)

end Handler

end HyperCog.Task
