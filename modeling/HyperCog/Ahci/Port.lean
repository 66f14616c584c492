import HyperCog.Ahci.Command

/-! A port at work: the FISes it posts, the commands it starts, completes and stops. -/
namespace HyperCog.Ahci

open Virtio Blockif List

section Fis

variable (g : Guest) (i : PortId)

/-- `ahci_generate_intr` on the controller itself. -/
def Hba.raise (s : Hba) (msi : Bool) : Hba :=
  let is := (finRange maxPorts).foldl (fun v j =>
    if (s.port j).is &&& (s.port j).ie ≠ 0 then v ||| BitVec.twoPow 32 j else v) s.is
  if is ≠ 0 ∧ s.ghc &&& ahciGhcIe ≠ 0 then { s with is := is, lintr := s.lintr || !msi }
  else { s with is := is, lintr := false }

def raiseIntr : AhciM Unit := fun s => .ok ((), s.raise g.msi)

/-- `ahci_generate_intr(p->pr_sc)` -/
def ahciGenerateIntr : AhciM Unit := do
  logEvent (.intr i)
  let p ← getPort i
  if p.prSc then raiseIntr g else crash .segfault

/-- Where a FIS goes, and the interrupt it may raise. -/
def FisType.area : FisType → Option (ℕ × BitVec 32)
  | .regd2h => some (0x40, ahciPIxDhr)
  | .setdevbits => some (0x58, ahciPIxSdb)
  | .piosetup => some (0x20, ahciPIxPs)
  | .regh2d | .dmaact | .dmasetup | .data | .bist => none

def AhciPort.fisOn (p : AhciPort) : Bool := p.rfis.isSome && p.cmd &&& ahciPCmdFre ≠ 0

/-- `fis[2] & ATA_S_ERROR` -/
def fisError (fis : List UInt8) : Bool := decide (fis.getD 2 0 &&& 0x01 ≠ 0)

/-- The interrupts of a FIS: its own if bit 6 of `fis[1]` asks for it, and that of an error. -/
def fisIrq (ix : BitVec 32) (fis : List UInt8) : BitVec 32 :=
  (if fis.getD 1 0 &&& 0x40 ≠ 0 then ix else 0) ||| (if fisError fis then ahciPIxTfe else 0)

def ahciWriteFis (ft : FisType) (fis : List UInt8) : AhciM Unit := do
  let p ← getPort i
  match p.rfis, ft.area with
  | some rfis, some (offset, ix) =>
    if p.cmd &&& ahciPCmdFre = 0 then pure ()
    else do
      modifyPort i fun p =>
        { p with
          waitforclear := p.waitforclear || fisError fis
          is := p.is ||| fisIrq ix fis }
      logEvent (.post i (rfis + offset) fis)
      if fisIrq ix fis ≠ 0 then ahciGenerateIntr g i else pure ()
  | _, _ => pure ()

def byte (v : BitVec 32) (k : ℕ) : UInt8 := .ofNat (v.toNat / 2 ^ (8 * k))

def ahciWriteFisPiosetup : AhciM Unit :=
  ahciWriteFis g i .piosetup (0x5f :: replicate 19 0)

/-- `tfd` keeps its error byte, of its status only the bits of 0x77. -/
def ahciWriteFisSdb (t : Slot) (tfd : BitVec 32) : AhciM Unit := do
  let p ← getPort i
  let status := tfd &&& 0x77
  let failed := decide (status &&& ataSError ≠ 0)
  modifyPort i fun p =>
    { p with
      sact := if failed then p.sact else clearSlot p.sact t
      tfd := (p.tfd &&& ~~~0x77) ||| status }
  logEvent (.complete i t .sdb (!failed) p.fisOn)
  let done : BitVec 32 := if failed then 0 else BitVec.twoPow 32 t
  ahciWriteFis g i .setdevbits ([0xa1, 0x40, byte status 0, byte tfd 1] ++ (range 4).map (byte done))

def ahciWriteFisD2h (t : Slot) (c : Command) (tfd : BitVec 32) : AhciM Unit := do
  let p ← getPort i
  let failed := decide (tfd &&& ataSError ≠ 0)
  modifyPort i fun p =>
    { p with ci := if failed then p.ci else clearSlot p.ci t, tfd := tfd }
  logEvent (.complete i t .d2h (!failed) p.fisOn)
  ahciWriteFis g i .regd2h ([0x34, 0x40, byte tfd 0, byte tfd 1] ++
    (range 10).map (fun k => c.cfis (4 + k)) ++ replicate 6 0)

def ahciWriteFisD2hNcq (t : Slot) : AhciM Unit := do
  let tfd := ataSReady ||| ataSDsc
  modifyPort i fun p => { p with ci := clearSlot p.ci t, tfd := tfd }
  logEvent (.ack i t)
  ahciWriteFis g i .regd2h ([0x34, 0, byte tfd 0] ++ replicate 17 0)

def ahciWriteResetFisD2h : AhciM Unit := do
  let p ← getPort i
  ahciWriteFis g i .regd2h ([0x34, 0, 0, 1, 1] ++ (if p.atapi then [0x14, 0xeb] else [0, 0]) ++
    [0, 0, 0, 0, 0, 1] ++ replicate 7 0)

/-- After a reset, with a device in place. -/
def AhciPort.renewed (p : AhciPort) : AhciPort :=
  { p with
    serr := 0
    sact := 0
    ssts := ataSsDetPhyOnline ||| ataSsIpmActive |||
      (if p.sctl &&& ataScSpdMask ≠ 0 then p.sctl &&& ataScSpdMask else ataSsSpdGen3)
    tfd := ((1 : BitVec 32) <<< 8) ||| ataSDsc ||| ataSDma ||| (if p.atapi then 0 else ataSReady)
    sig := if p.atapi then pxSigAtapi else pxSigAta }

def ahciPortReset : AhciM Unit := do
  let p ← getPort i
  if p.bctx.isNone then
    modifyPort i fun p =>
      { p with serr := 0, sact := 0, ssts := ataSsDetNoDevice, sig := 0xffffffff, tfd := 0x7f }
  else do
    modifyPort i AhciPort.renewed
    ahciWriteResetFisD2h g i

end Fis

section Disk

variable (g : Guest) (i : PortId)

/-- `blockif_sectsz(p->bctx)` -/
def blockifSectsz : AhciM ℕ := do
  let p ← getPort i
  match p.bctx with
  | none => crash .segfault
  | some bc => pure bc.bcSectsz

def stopFault : Stop → Fault
  | .blocked => .blocked
  | .assertion => .queue
  | .fault f => .disk f

/-- `STAILQ_FIRST` and `STAILQ_REMOVE_HEAD` on the free list. -/
def pullIoreq : AhciM IoreqId := do
  let p ← getPort i
  match p.iofhd with
  | [] => crash (.noIoreq i)
  | aior :: rest => do
    modifyPort i fun p => { p with iofhd := rest }
    pure aior

def fillRequest (aior : IoreqId) (f : BlockifReq → BlockifReq) : AhciM Unit :=
  fun s => .ok ((), { s with blk := s.blk.fill aior (f (s.blk.reqs aior)) })

/-- `blockif_read` and its kin, with the assertion on their result. -/
def blockRequest (t : Slot) (aior : IoreqId) (op : Blockop) : AhciM Unit := fun s =>
  if (s.port i).bctx.isNone then crash .segfault s
  else
    match blockifRequest s.blk aior op with
    | .error e => crash (stopFault e) s
    | .ok (_, some _) => crash (.refused i) s
    | .ok (blk, none) =>
      .ok ((), { s with blk := blk, log := s.log ++ [.request i t op (s.blk.reqs aior)] })

/-- The end of every handler that starts a request: the element is filled in, its slot is
marked in flight, it goes to the busy list, and the request to the disk. -/
def submit (t : Slot) (aior : IoreqId) (io : AhciIoreq) (f : BlockifReq → BlockifReq)
    (op : Blockop) (ack : Bool) : AhciM Unit := do
  fillRequest aior f
  modifyPort i fun p =>
    { p with
      ioreq := Function.update p.ioreq aior io
      pending := setSlot p.pending t
      iobhd := aior :: p.iobhd }
  if ack then ahciWriteFisD2hNcq g i t else pure ()
  blockRequest i t aior op

def ahciHandleRw (t : Slot) (c : Command) (done : UInt32) : AhciM Unit := do
  let sectsz ← blockifSectsz i
  let len := c.rwLen sectsz
  let aior ← pullIoreq i
  let part ← orCrash (ahciBuildIov g.ram sectsz c.prdt len done)
  submit g i t aior ⟨c.addr, len, part.done, t, part.more⟩
    (fun _ => ⟨part.iov, (c.rwOffset sectsz + done.toUInt64).toInt64, part.todo⟩)
    (if c.isWrite then .write else .read) (c.isFpdma && done = 0)

/-- The request keeps the offset and segments of its last use. -/
def ahciHandleFlush (t : Slot) (c : Command) : AhciM Unit := do
  let aior ← pullIoreq i
  submit g i t aior ⟨c.addr, 0, 0, t, false⟩ id .flush false

def AhciPort.checkStopped (p : AhciPort) : AhciPort :=
  if p.cmd &&& ahciPCmdSt = 0 ∧ p.pending = 0 then
    { p with
      ccs := 0
      cmd := p.cmd &&& ~~~(ahciPCmdCr ||| ahciPCmdCcsMask)
      ci := 0
      sact := 0
      waitforclear := false }
  else p

def ahciCheckStopped : AhciM Unit := modifyPort i AhciPort.checkStopped

/-- This command is now complete. -/
def retire (t : Slot) : AhciM Unit := do
  modifyPort i fun p => { p with pending := clearSlot p.pending t }
  ahciCheckStopped i

/-- The answer to a trim without another entry. -/
def trimAnswer (t : Slot) (c : Command) (first ncq : Bool) : AhciM Unit :=
  if ncq then do
    if first then ahciWriteFisD2hNcq g i t else pure ()
    ahciWriteFisSdb g i t (ataSReady ||| ataSDsc)
  else ahciWriteFisD2h g i t c (ataSReady ||| ataSDsc)

def trimDone (t : Slot) (c : Command) (first ncq : Bool) : AhciM Unit := do
  trimAnswer g i t c first ncq
  retire i t

/-- The next entry of a trim list that is not empty; the list is read anew every time. -/
def trimNext (m : HostMem) (c : Command) (done : UInt32) : Except Fault (Option TrimEntry) := do
  let buf ← readPrdt g.ram m c.prdt 0 512 g.stack
  trimScan buf c.trimLen 65 done

/-- `cfis[2] == ATA_DATA_SET_MANAGEMENT` tells the two kinds of trim apart. -/
def Command.trimNcq (c : Command) : Bool := decide (c.cfis 2 ≠ ataDataSetManagement)

/-- Returns whether the trim ended here after a continuation, in which case the caller goes on
to `ahci_handle_port`. -/
def ahciHandleDsmTrim (m : HostMem) (t : Slot) (c : Command) (done : UInt32) : AhciM Bool := do
  match ← orCrash (trimNext g m c done) with
  | none => do
    trimDone g i t c (done = 0) c.trimNcq
    pure (done ≠ 0)
  | some e => do
    let aior ← pullIoreq i
    let sectsz ← blockifSectsz i
    submit g i t aior ⟨c.addr, c.trimLen, e.done, t, c.trimLen ≠ e.done⟩
      (fun br =>
        { br with
          brOffset := (e.elba * .ofNat sectsz).toInt64
          brResid := (e.elen * .ofNat sectsz).toNat })
      .delete (c.trimNcq && done = 0)
    pure false

/-- With a count of zero the command is answered and then started all the same. -/
def atapiRead (t : Slot) (c : Command) (done : UInt32) : AhciM Unit := do
  if c.readSectors = 0 then
    ahciWriteFisD2h g i t c.withReason (ataSReady ||| ataSDsc) else pure ()
  let len := c.readLen
  let aior ← pullIoreq i
  let sectsz ← blockifSectsz i
  let part ← orCrash (ahciBuildIov g.ram sectsz c.prdt len done)
  submit g i t aior ⟨c.addr, len, part.done, t, part.more⟩
    (fun _ => ⟨part.iov, (c.readOffset + done.toUInt64).toInt64, part.todo⟩) .read false

end Disk

section Issue

variable (g : Guest) (i : PortId)

/-- The data of an answer go where the scatter list says. -/
def Reply.deliver (r : Reply) (c : Command) : Except Fault Unit :=
  match r.payload with
  | none => .ok ()
  | some n => writePrdt g.ram c.prdt n

/-- An answer given at once. -/
def reply (t : Slot) (c : Command) (r : Reply) : AhciM Unit := do
  let p ← getPort i
  if r.usesDisk && p.bctx.isNone then crash .segfault
  else do
    if r.pio then ahciWriteFisPiosetup g i else pure ()
    orCrash (r.deliver g c)
    ahciWriteFisD2h g i t (if r.reason then c.withReason else c) r.answer.tfd

def ahciHandleCmd (m : HostMem) (t : Slot) (c : Command) : AhciM Unit := do
  logEvent (.cmd i t c)
  let p ← getPort i
  modifyPort i fun p => { p with tfd := p.tfd ||| ataSBusy }
  match commandHandler p.atapi c with
  | .reply r => reply g i t c r
  | .rw => ahciHandleRw g i t c 0
  | .flush => ahciHandleFlush g i t c
  | .trim => do
    let _ ← ahciHandleDsmTrim g i m t c 0
    pure ()
  | .read => atapiRead g i t c 0

/-- `struct ahci_cmd_hdr` of a slot: its `prdtl`. -/
def hdrPrdtl (m : HostMem) (cmdLst : ℕ) (t : Slot) : ℕ :=
  leValue (bytesAt m (cmdLst + 32 * t + 2) 2)

def hdrCtba (m : HostMem) (cmdLst : ℕ) (t : Slot) : UInt64 :=
  .ofNat (leValue (bytesAt m (cmdLst + 32 * t + 8) 8))

/-- The command in a slot; null pointers on the way are used all the same. -/
def slotCommand (m : HostMem) (cmdLst : Option ℕ) (t : Slot) : Except Fault Command :=
  match cmdLst with
  | none => .error .segfault
  | some a =>
    let prdtl := hdrPrdtl m a t
    match paddrGuest2host g.ram (hdrCtba m a t) (0x80 + prdtl * 16) with
    | none => .error .segfault
    | some cfis => .ok (Command.read m cfis prdtl)

/-- The part for a FIS that updates the control register. -/
def controlFis (t : Slot) (c : Command) : AhciM Unit := do
  let p ← getPort i
  if c.cfis 15 &&& 0x04 ≠ 0 then modifyPort i fun p => { p with reset := true }
  else if p.reset then do
    modifyPort i fun p => { p with reset := false }
    ahciPortReset g i
  else pure ()
  modifyPort i fun p => { p with ci := clearSlot p.ci t }

def ahciHandleSlot (m : HostMem) (t : Slot) : AhciM Unit := do
  logEvent (.slot i t)
  let p ← getPort i
  let c ← orCrash (slotCommand g m p.cmdLst t)
  if c.cfis 0 ≠ 0x27 then pure ()
  else if c.cfis 1 &&& 0x80 ≠ 0 then ahciHandleCmd g i m t c
  else controlFis g i t c

/-- One turn of the issue loop on the slot that `ccs` names. -/
def issueTurn (k : ℕ) (p : AhciPort) : AhciM Unit := do
  if hasSlot (p.ci &&& ~~~p.pending) p.ccs then do
    modifyPort i fun p =>
      { p with cmd := (p.cmd &&& ~~~ahciPCmdCcsMask) ||| (BitVec.ofNat 32 p.ccs <<< 8) }
    ahciHandleSlot g i (g.mem k) p.ccs
  else pure ()
  modifyPort i fun p => { p with ccs := p.ccs + 1 }

/-- The issue loop, watched for `fuel` turns, each with the memory of its own look. -/
def issueLoop : ℕ → ℕ → AhciM Unit
  | 0, _ => crash .spinning
  | fuel + 1, k => do
    let p ← getPort i
    if p.ci &&& ~~~p.pending = 0 ∨ p.tfd &&& (ataSBusy ||| ataSDrq) ≠ 0 ∨ p.waitforclear then
      pure ()
    else do
      issueTurn g i k p
      issueLoop fuel (k + 1)

def ahciHandlePort : AhciM Unit := do
  let p ← getPort i
  if p.cmd &&& ahciPCmdSt = 0 then pure () else issueLoop g i g.turns 1

end Issue

section Callback

variable (g : Guest) (i : PortId)

/-- The element goes from the busy list to the end of the free list. -/
def releaseIoreq (aior : IoreqId) : AhciM Unit :=
  modifyPort i fun p =>
    { p with iobhd := p.iobhd.erase aior, iofhd := p.iofhd ++ [aior] }

/-- The command of a request in flight, through the pointer kept in its element and the
command list of the moment. -/
def flightCommand (m : HostMem) (p : AhciPort) (io : AhciIoreq) : Command :=
  Command.read m io.cfis ((p.cmdLst.map fun a => hdrPrdtl m a io.slot).getD 0)

/-- `hdr->prdbc = aior->done`, through a pointer that may be null. -/
def storePrdbc (p : AhciPort) : AhciM Unit :=
  if p.cmdLst.isNone then crash .segfault else pure ()

/-- The next part of a command on an ATA port. -/
def ataContinue (m : HostMem) (c : Command) (io : AhciIoreq) : AhciM Bool :=
  if c.isDsm then ahciHandleDsmTrim g i m io.slot c io.done
  else do
    ahciHandleRw g i io.slot c io.done
    pure false

/-- The completion of a command on an ATA port. -/
def ataFinish (c : Command) (io : AhciIoreq) (answer : Answer) : AhciM Bool := do
  if c.isNcq then ahciWriteFisSdb g i io.slot answer.tfd
  else ahciWriteFisD2h g i io.slot c answer.tfd
  retire i io.slot
  pure true

def atapiContinue (c : Command) (io : AhciIoreq) : AhciM Bool := do
  atapiRead g i io.slot c io.done
  pure false

def atapiFinish (c : Command) (io : AhciIoreq) (answer : Answer) : AhciM Bool := do
  ahciWriteFisD2h g i io.slot c.withReason answer.tfd
  retire i io.slot
  pure true

/-- `ata_ioreq_cb` up to `ahci_handle_port`; returns whether that is reached. -/
def ataIoreqDone (m : HostMem) (aior : IoreqId) (err : Option Errno) : AhciM Bool := do
  let p ← getPort i
  let io := p.ioreq aior
  let c := flightCommand m p io
  releaseIoreq i aior
  if err.isNone then storePrdbc p else pure ()
  if err.isNone && io.more then ataContinue g i m c io
  else ataFinish g i c io (if err.isNone then .good else .abort)

/-- `atapi_ioreq_cb` up to `ahci_handle_port`. -/
def atapiIoreqDone (m : HostMem) (aior : IoreqId) (err : Option Errno) : AhciM Bool := do
  let p ← getPort i
  let io := p.ioreq aior
  let c := flightCommand m p io
  releaseIoreq i aior
  if err.isNone then storePrdbc p else pure ()
  if err.isNone && io.more then atapiContinue g i c io
  else atapiFinish g i c io (if err.isNone then .good else .illegalRequest)

/-- The callback of a request, chosen by the kind of the port. -/
def ioreqDone (m : HostMem) (aior : IoreqId) (err : Option Errno) : AhciM Bool := do
  let p ← getPort i
  if p.atapi then atapiIoreqDone g i m aior err else ataIoreqDone g i m aior err

def ioreqCb (m : HostMem) (aior : IoreqId) (err : Option Errno) : AhciM Unit := do
  let again ← ioreqDone g i m aior err
  if again then ahciHandlePort g i else pure ()

end Callback

section Stop

variable (i : PortId)

/-- `blockif_cancel` on the disk of the controller. -/
def cancelRequest (aior : IoreqId) : AhciM (Option Errno) := fun s =>
  match blockifCancel s.blk aior with
  | .error e => crash (stopFault e) s
  | .ok (blk, err) => .ok (err, { s with blk := blk })

/-- The command in the slot is taken back, and the element with it. -/
def cancelled (t : Slot) (aior : IoreqId) (ncq : Bool) : AhciM Unit := do
  modifyPort i fun p =>
    { p with
      sact := if ncq then clearSlot p.sact t else p.sact
      ci := if ncq then p.ci else clearSlot p.ci t
      pending := clearSlot p.pending t }
  releaseIoreq i aior
  logEvent (.cancel i t)

/-- The loop of `ahci_port_stop` over the busy list as it was at the start. Once a queued
command was met, the flag stays for the rest. -/
def stopLoop (m : HostMem) : List IoreqId → Bool → AhciM Unit
  | [], _ => pure ()
  | aior :: rest, ncq => do
    match ← cancelRequest aior with
    | some _ => stopLoop m rest ncq
    | none => do
      let p ← getPort i
      let ncq := ncq || (Command.read m (p.ioreq aior).cfis 0).isNcq
      cancelled i (p.ioreq aior).slot aior ncq
      stopLoop m rest ncq

def ahciPortStop (m : HostMem) : AhciM Unit := do
  let p ← getPort i
  stopLoop i m p.iobhd false
  ahciCheckStopped i

end Stop

end HyperCog.Ahci
