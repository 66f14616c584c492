import HyperCog.Ahci.Port

/-! The controller: register writes, resets, and the worker that completes requests. -/
namespace HyperCog.Ahci

open Virtio Blockif

def ahciOffset : ℕ := 0x100
def ahciStep : ℕ := 0x80

/-- The bits of `PxCMD` that the guest writes. -/
def cmdWritable : BitVec 32 :=
  ahciPCmdSt ||| ahciPCmdSud ||| ahciPCmdPod ||| ahciPCmdClo ||| ahciPCmdFre ||| ahciPCmdApste |||
    ahciPCmdAtapi ||| ahciPCmdDlae ||| ahciPCmdAlpe ||| ahciPCmdAsp ||| ahciPCmdIccMask

section Writes

variable (g : Guest) (i : PortId)

/-- `ST` stops or starts the port; starting it maps the command list. -/
def cmdStart (value : BitVec 32) : AhciM Unit :=
  if value &&& ahciPCmdSt = 0 then ahciPortStop i (g.mem 0)
  else modifyPort i fun p =>
    { p with
      cmd := p.cmd ||| ahciPCmdCr
      cmdLst := paddrGuest2host g.ram (.ofNat (p.clbu.toNat * 2 ^ 32 + p.clb.toNat)) 1024 }

/-- The other bits of a write to `PxCMD`. -/
def cmdBits (value : BitVec 32) (p : AhciPort) : AhciPort :=
  let p :=
    if value &&& ahciPCmdFre ≠ 0 then
      { p with
        cmd := p.cmd ||| ahciPCmdFr
        rfis := paddrGuest2host g.ram (.ofNat (p.fbu.toNat * 2 ^ 32 + p.fb.toNat)) 256 }
    else { p with cmd := p.cmd &&& ~~~ahciPCmdFr }
  let p :=
    if value &&& ahciPCmdClo ≠ 0 then
      { p with
        tfd := p.tfd &&& ~~~(ataSBusy ||| ataSDrq)
        cmd := p.cmd &&& ~~~ahciPCmdClo }
    else p
  if value &&& ahciPCmdIccMask ≠ 0 then { p with cmd := p.cmd &&& ~~~ahciPCmdIccMask } else p

/-- A write to `PxCMD` up to `ahci_handle_port`. -/
def setCmd (value : BitVec 32) : AhciM Unit := do
  modifyPort i fun p => { p with cmd := (p.cmd &&& ~~~cmdWritable) ||| (cmdWritable &&& value) }
  cmdStart g i value
  modifyPort i (cmdBits g value)

def writeCmd (value : BitVec 32) : AhciM Unit := do
  setCmd g i value
  ahciHandlePort g i

def writeSctl (value : BitVec 32) : AhciM Unit := do
  modifyPort i fun p => { p with sctl := value }
  let p ← getPort i
  if p.cmd &&& ahciPCmdSt = 0 ∧ value &&& ataScDetReset ≠ 0 then ahciPortReset g i else pure ()

def pciAhciPortWrite (offset : ℕ) (value : BitVec 32) : AhciM Unit :=
  if offset = 0x00 then modifyPort i fun p => { p with clb := value }
  else if offset = 0x04 then modifyPort i fun p => { p with clbu := value }
  else if offset = 0x08 then modifyPort i fun p => { p with fb := value }
  else if offset = 0x0c then modifyPort i fun p => { p with fbu := value }
  else if offset = 0x10 then modifyPort i fun p => { p with is := p.is &&& ~~~value }
  else if offset = 0x14 then do
    modifyPort i fun p => { p with ie := value &&& 0xfdc000ff }
    raiseIntr g
  else if offset = 0x18 then writeCmd g i value
  else if offset = 0x2c then writeSctl g i value
  else if offset = 0x30 then modifyPort i fun p => { p with serr := p.serr &&& ~~~value }
  else if offset = 0x34 then modifyPort i fun p => { p with sact := p.sact ||| value }
  else if offset = 0x38 then do
    modifyPort i fun p => { p with ci := p.ci ||| value }
    ahciHandlePort g i
  else pure ()

/-- The turn of a port in `ahci_reset`. -/
def resetPort : AhciM Unit := do
  modifyPort i fun p =>
    { p with
      ie := 0
      is := 0
      cmd := (ahciPCmdSud ||| ahciPCmdPod) ||| (if p.bctx.isSome then ahciPCmdCps else 0)
      sctl := 0 }
  ahciPortReset g i

def resetPorts : List PortId → AhciM Unit
  | [] => pure ()
  | j :: js => do
    resetPort g j
    resetPorts js

def ahciReset : AhciM Unit := do
  modify fun s => { s with ghc := ahciGhcAe, is := 0, lintr := false }
  resetPorts g (List.finRange maxPorts)

def pciAhciHostWrite (offset : ℕ) (value : BitVec 32) : AhciM Unit :=
  if offset = 0x04 then
    if value &&& ahciGhcHr ≠ 0 then ahciReset g
    else if value &&& ahciGhcIe ≠ 0 then do
      modify fun s => { s with ghc := s.ghc ||| ahciGhcIe }
      raiseIntr g
    else pure ()
  else if offset = 0x08 then do
    modify fun s => { s with is := s.is &&& ~~~value }
    raiseIntr g
  else pure ()

/-- `pci_ahci_write`; all ports can be written, whether or not they have a disk. -/
def pciAhciWrite (offset size : ℕ) (value : BitVec 32) : AhciM Unit :=
  if offset % 4 = 0 ∧ size = 4 then
    if offset < ahciOffset then pciAhciHostWrite g offset value
    else if h : (offset - ahciOffset) / ahciStep < maxPorts then
      pciAhciPortWrite g ⟨_, h⟩ ((offset - ahciOffset) % ahciStep) value
    else pure ()
  else crash .badAccess

end Writes

section System

variable (b : Build)

/-- The worker calls back into the port that the request belongs to. -/
def workerCalls (g : Guest) (be : ElemId) (err : Option Errno) : AhciM Unit := fun s =>
  match (s.blk.q.bcReqs be).beReq with
  | none => crash .queue s
  | some aior => ioreqCb g 0 (g.mem 0) aior err { s with blk := workerCallback s.blk be }

/-- One step of the worker of the disk. -/
def workerStep (h : Host) (g : Guest) : AhciM Unit := fun s =>
  match s.blk.worker with
  | .callback be err => workerCalls g be err s
  | _ =>
    match (s.port 0).bctx with
    | none => crash .segfault s
    | some bc =>
      match blockifThr b bc h s.blk with
      | .error e => crash (stopFault e) s
      | .ok blk => .ok ((), { s with blk := blk })

/-- What the guest and the worker do, one at a time under the controller's mutex. -/
inductive Action
  | write (g : Guest) (offset size : ℕ) (value : BitVec 32)
  | worker (h : Host) (g : Guest)
  /-- the worker wakes without a signal -/
  | wake

def act : Action → AhciM Unit
  | .write g offset size value => pciAhciWrite g offset size value
  | .worker h g => workerStep b h g
  | .wake => modify fun s => { s with blk := { s.blk with worker := s.blk.worker.signal } }

def step (s : Hba) (a : Action) : Except Crash Hba := (act b a s).map Prod.snd

/-- A port without a disk before the first reset. -/
def emptyPort : AhciPort where
  bctx := none
  prSc := false
  cmdLst := none
  rfis := none
  atapi := false
  reset := false
  waitforclear := false
  ccs := 0
  pending := 0
  clb := 0
  clbu := 0
  fb := 0
  fbu := 0
  is := 0
  ie := 0
  cmd := 0
  tfd := 0
  sig := 0
  ssts := 0
  sctl := 0
  serr := 0
  sact := 0
  ci := 0
  ioreq := fun _ => ⟨0, 0, 0, 0, false⟩
  iofhd := []
  iobhd := []

/-- Only port 0 has a disk. -/
def Hba.init (bc : BlockifCtxt) (atapi : Bool) : Hba where
  ghc := 0
  is := 0
  lintr := false
  port := fun i =>
    if i = 0 then
      { emptyPort with
        bctx := some bc
        prSc := true
        atapi := atapi
        iofhd := List.finRange ioqsz }
    else emptyPort
  blk := World.start fun _ => ⟨[], 0, 0⟩
  log := []

/-- Nothing in memory, and no time for the issue loop. -/
def noGuest : Guest := ⟨⟨0, 0⟩, fun _ _ => 0, fun _ => 0, false, 0⟩

/-- `pci_ahci_init` -/
def Hba.start (bc : BlockifCtxt) (atapi : Bool) : Hba :=
  match ahciReset noGuest (Hba.init bc atapi) with
  | .ok (_, s) => s
  | .error _ => Hba.init bc atapi

end System

end HyperCog.Ahci
