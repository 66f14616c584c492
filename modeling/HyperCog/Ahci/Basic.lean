import HyperCog.Blockif.Queue

/-! Registers, command tables and request elements of the AHCI controller. -/
namespace HyperCog.Ahci

open Virtio Blockif BitVec

abbrev maxPorts : ℕ := 6
abbrev ahciMaxSlots : ℕ := 32

/-- `blockif_queuesz`, the number of request elements of a port. -/
def ioqsz : ℕ := blockifMaxreq - 1

instance : NeZero maxPorts := ⟨by decide⟩
instance : NeZero ahciMaxSlots := ⟨by decide⟩

abbrev PortId := Fin maxPorts
abbrev Slot := Fin ahciMaxSlots
abbrev IoreqId := Fin ioqsz

def ataSError : BitVec 32 := 0x01
def ataSDrq : BitVec 32 := 0x08
def ataSDsc : BitVec 32 := 0x10
def ataSDma : BitVec 32 := 0x20
def ataSReady : BitVec 32 := 0x40
def ataSBusy : BitVec 32 := 0x80
def ataEAbort : BitVec 32 := 0x04
def ataSenseIllegalRequest : BitVec 32 := 0x05

def ahciPIxDhr : BitVec 32 := 0x00000001
def ahciPIxPs : BitVec 32 := 0x00000002
def ahciPIxSdb : BitVec 32 := 0x00000008
def ahciPIxTfe : BitVec 32 := 0x40000000

def ahciPCmdSt : BitVec 32 := 0x00000001
def ahciPCmdSud : BitVec 32 := 0x00000002
def ahciPCmdPod : BitVec 32 := 0x00000004
def ahciPCmdClo : BitVec 32 := 0x00000008
def ahciPCmdFre : BitVec 32 := 0x00000010
def ahciPCmdCcsMask : BitVec 32 := 0x00001f00
def ahciPCmdFr : BitVec 32 := 0x00004000
def ahciPCmdCr : BitVec 32 := 0x00008000
def ahciPCmdCps : BitVec 32 := 0x00010000
def ahciPCmdApste : BitVec 32 := 0x00800000
def ahciPCmdAtapi : BitVec 32 := 0x01000000
def ahciPCmdDlae : BitVec 32 := 0x02000000
def ahciPCmdAlpe : BitVec 32 := 0x04000000
def ahciPCmdAsp : BitVec 32 := 0x08000000
def ahciPCmdIccMask : BitVec 32 := 0xf0000000

def ahciGhcHr : BitVec 32 := 0x00000001
def ahciGhcIe : BitVec 32 := 0x00000002
def ahciGhcAe : BitVec 32 := 0x80000000

def ataSsDetNoDevice : BitVec 32 := 0
def ataSsDetPhyOnline : BitVec 32 := 0x3
def ataSsSpdGen3 : BitVec 32 := 0x30
def ataSsIpmActive : BitVec 32 := 0x100
def ataScDetReset : BitVec 32 := 0x1
def ataScSpdMask : BitVec 32 := 0xf0
def pxSigAta : BitVec 32 := 0x00000101
def pxSigAtapi : BitVec 32 := 0xeb140101

/-- `struct ahci_prdt_entry`, with the byte count decoded. -/
structure PrdtEntry where
  dba : UInt64
  size : ℕ
  deriving DecidableEq, Repr

/-- A command table as the device reads it: where it lies, its first 0x80 bytes (the command
FIS, and the packet from 0x40 on) and its scatter list. -/
structure Command where
  addr : ℕ
  bytes : List UInt8
  prdt : List PrdtEntry
  deriving DecidableEq, Repr

def Command.cfis (c : Command) (k : ℕ) : UInt8 := c.bytes.getD k 0
def Command.acmd (c : Command) (k : ℕ) : UInt8 := c.bytes.getD (0x40 + k) 0

/-- With the interrupt reason of packet commands in place. -/
def Command.withReason (c : Command) : Command :=
  { c with bytes := c.bytes.set 4 ((c.cfis 4 &&& 0xf8) ||| 0x03) }

def dbcmask : ℕ := 0x3fffff

def PrdtEntry.read (m : HostMem) (a : ℕ) : PrdtEntry where
  dba := .ofNat (leValue (bytesAt m a 8))
  size := (leValue (bytesAt m (a + 12) 4) &&& dbcmask) + 1

def Command.read (m : HostMem) (a prdtl : ℕ) : Command where
  addr := a
  bytes := bytesAt m a 0x80
  prdt := (List.range prdtl).map fun j => PrdtEntry.read m (a + 0x80 + 16 * j)

/-- The part of `struct ahci_ioreq` around its block request. -/
structure AhciIoreq where
  cfis : ℕ
  len : UInt32
  done : UInt32
  slot : Slot
  more : Bool
  deriving DecidableEq, Repr

/-- `struct ahci_port`. The context behind `bctx` is kept where it is used; a null pointer
is `none`. -/
structure AhciPort where
  bctx : Option BlockifCtxt
  prSc : Bool
  cmdLst : Option ℕ
  rfis : Option ℕ
  atapi : Bool
  reset : Bool
  waitforclear : Bool
  ccs : Slot
  pending : BitVec 32
  clb : BitVec 32
  clbu : BitVec 32
  fb : BitVec 32
  fbu : BitVec 32
  is : BitVec 32
  ie : BitVec 32
  cmd : BitVec 32
  tfd : BitVec 32
  sig : BitVec 32
  ssts : BitVec 32
  sctl : BitVec 32
  serr : BitVec 32
  sact : BitVec 32
  ci : BitVec 32
  ioreq : IoreqId → AhciIoreq
  iofhd : List IoreqId
  iobhd : List IoreqId

inductive FisType
  | regh2d
  | regd2h
  | dmaact
  | dmasetup
  | data
  | bist
  | piosetup
  | setdevbits
  deriving DecidableEq, Repr

/-- How a command can be completed. -/
inductive Completion
  | d2h
  | sdb
  deriving DecidableEq, Repr

/-- What a port does, in order. Only `post` and `request` are visible outside; the others mark
where a function is entered or a slot changes hands. -/
inductive Event
  /-- `ahci_handle_slot` is entered -/
  | slot (i : PortId) (t : Slot)
  /-- `ahci_handle_cmd` is entered -/
  | cmd (i : PortId) (t : Slot) (c : Command)
  /-- `ahci_generate_intr` is entered for a port -/
  | intr (i : PortId)
  /-- a FIS is stored at an address -/
  | post (i : PortId) (a : ℕ) (fis : List UInt8)
  /-- a queued command is acknowledged -/
  | ack (i : PortId) (t : Slot)
  /-- a command is completed; an error sticks only while FIS receive is on -/
  | complete (i : PortId) (t : Slot) (how : Completion) (ok fisOn : Bool)
  | request (i : PortId) (t : Slot) (op : Blockop) (br : BlockifReq)
  | cancel (i : PortId) (t : Slot)
  deriving DecidableEq, Repr

/-- `struct pci_ahci_softc` with the block context of its disk. -/
structure Hba where
  ghc : BitVec 32
  is : BitVec 32
  lintr : Bool
  port : PortId → AhciPort
  blk : World IoreqId
  log : List Event

/-- What a call finds around it: guest memory at each of its looks at the command list, what
an uninitialised buffer holds, whether MSI is enabled, and for how many turns of the issue loop
it is watched. -/
structure Guest where
  ram : GuestRam
  mem : ℕ → HostMem
  stack : ℕ → UInt8
  msi : Bool
  turns : ℕ

inductive Fault
  /-- a null pointer is used -/
  | segfault
  /-- `aior != NULL` -/
  | noIoreq (i : PortId)
  /-- `err == 0` after a block request -/
  | refused (i : PortId)
  /-- `todo > 0` in `ahci_build_iov` -/
  | partialSector
  /-- `buf[done]` past the end of the trim buffer -/
  | overread
  /-- the assertion on a register access -/
  | badAccess
  /-- not a fault: the issue loop still runs -/
  | spinning
  /-- not a fault: the thread waits for the worker -/
  | blocked
  /-- an assertion of the block queues -/
  | queue
  | disk (f : Blockif.Fault)
  deriving DecidableEq, Repr

/-- How a call ended early, and what it had done by then. -/
structure Crash where
  fault : Fault
  log : List Event
  deriving DecidableEq, Repr

abbrev AhciM := StateT Hba (Except Crash)

def crash {α : Type} (f : Fault) : AhciM α := fun s => .error ⟨f, s.log⟩

def orCrash {α : Type} : Except Fault α → AhciM α
  | .ok a => pure a
  | .error f => crash f

def Hba.setPort (s : Hba) (i : PortId) (p : AhciPort) : Hba :=
  { s with port := Function.update s.port i p }

def getPort (i : PortId) : AhciM AhciPort := fun s => .ok (s.port i, s)

def modifyPort (i : PortId) (f : AhciPort → AhciPort) : AhciM Unit :=
  fun s => .ok ((), s.setPort i (f (s.port i)))

def logEvent (e : Event) : AhciM Unit := fun s => .ok ((), { s with log := s.log ++ [e] })

/-- `v | 1 << t` -/
def setSlot (v : BitVec 32) (t : Slot) : BitVec 32 := v ||| twoPow 32 t

/-- `v & ~(1 << t)` -/
def clearSlot (v : BitVec 32) (t : Slot) : BitVec 32 := v &&& ~~~twoPow 32 t

/-- `v & 1 << t` -/
def hasSlot (v : BitVec 32) (t : Slot) : Bool := v.getLsbD t

@[simp] theorem hasSlot_setSlot (v : BitVec 32) (t u : Slot) :
    hasSlot (setSlot v t) u = (decide (t = u) || hasSlot v u) := by
  have ht : t.val < 32 := t.isLt
  simp only [hasSlot, setSlot, getLsbD_or, getLsbD_twoPow, Fin.ext_iff, ht, decide_true, Bool.true_and]
  exact Bool.or_comm _ _

@[simp] theorem hasSlot_clearSlot (v : BitVec 32) (t u : Slot) :
    hasSlot (clearSlot v t) u = (!decide (t = u) && hasSlot v u) := by
  have ht : t.val < 32 := t.isLt
  have hu : u.val < 32 := u.isLt
  simp only [hasSlot, clearSlot, getLsbD_and, getLsbD_not, getLsbD_twoPow,
    Fin.ext_iff, ht, hu, decide_true, Bool.true_and]
  exact Bool.and_comm _ _

theorem hasSlot_and_not (v w : BitVec 32) (t : Slot) :
    hasSlot (v &&& ~~~w) t = (hasSlot v t && !hasSlot w t) := by
  have ht : t.val < 32 := t.isLt
  simp [hasSlot, ht]

/-- A word without slots is zero. -/
theorem eq_zero_iff_hasSlot {v : BitVec 32} : v = 0 ↔ ∀ t, hasSlot v t = false := by
  constructor
  · rintro rfl t
    simp [hasSlot]
  · intro h
    apply eq_of_getLsbD_eq
    intro i hi
    simpa [hasSlot] using h ⟨i, hi⟩

end HyperCog.Ahci
