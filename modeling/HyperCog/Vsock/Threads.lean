import HyperCog.Vsock.Device

/-!
The two threads of the device and the guest. One action is one critical section
of the source; the order of actions is arbitrary, which includes every
interleaving that the list lock and the sock locks permit.
-/
namespace HyperCog.Vsock

open Virtio

inductive TxPc
  /-- head of the loop -/
  | top
  /-- walking the in-use list, these socks still to visit -/
  | scan (todo : List SockId)
  | select
  /-- listeners reported readable, as the cid and port they connect to -/
  | connect (pending : List (UInt64 × UInt32))
  | drain (todo : List SockId)
  | packets
  deriving DecidableEq, Repr

structure TxThread where
  pc : TxPc
  queue : List SockId
  wfd : List Int
  kickRxClosing : Bool
  deriving DecidableEq, Repr

inductive RxPc
  | top
  | scan (todo : List SockId)
  /-- returning the socks of the closing queue to the free list -/
  | closing
  | select
  /-- emptying the reply ring into the guest's buffers -/
  | replies (didSomeWork : Bool)
  | socks (todo : List SockId) (nrDataRx : ℕ) (didSomeWork : Bool)
  deriving DecidableEq, Repr

structure RxThread where
  pc : RxPc
  pollSocks : Bool
  queue : List SockId
  closingQueue : List SockId
  rfd : List Int
  deriving DecidableEq, Repr

structure System where
  sc : PciVtsockSoftc
  tx : TxThread
  rx : RxThread

/-- What the guest may do to its own memory and to the queue registers. -/
inductive GuestAction
  | store (mem : HostMem)
  | rings (txDesc : ℕ → VirtioDesc) (txAvail : VringAvail) (txUsed : VringUsed)
      (rxDesc : ℕ → VirtioDesc) (rxAvail : VringAvail) (rxUsed : VringUsed)
  | initQueues
  | reset

inductive Action
  | guest (g : GuestAction)
  | txTop
  | txScan (now : Int) (rc : ShutdownResult)
  | txSelect (ok : Bool) (writable : List Int) (connectReady : Bool) (fwdReady : UInt32 → Bool)
  | txConnect (h : AcceptHost)
  | txDrain (now : Int) (res : WriteResult) (rc : ShutdownResult)
  | txPacket (h : TxHost)
  | rxTop
  | rxScan
  | rxFree
  | rxSelect (ok : Bool) (readable : List Int) (woken : Bool)
  | rxReply
  | rxSock (h : RxHost)

/-- The action is not the thread's next one, or the process is gone. -/
inductive Stop
  | blocked
  | fault (f : Fault)
  deriving DecidableEq, Repr

def orFault {α : Type} : Except Fault α → Except Stop α
  | .ok a => .ok a
  | .error f => .error (.fault f)

theorem orFault_eq_ok {β : Type} {x : Except Fault β} {b : β} : orFault x = .ok b ↔ x = .ok b := by
  cases x <;> simp [orFault]

theorem orFault_eq_error {β : Type} {x : Except Fault β} {w : Stop} :
    orFault x = .error w ↔ ∃ e, w = .fault e ∧ x = .error e := by
  cases x with
  | ok b => simp [orFault]
  | error e => simp [orFault, eq_comm]

/-- The socks and the reply ring survive a device reset. -/
def guestStep (sc : PciVtsockSoftc) : GuestAction → PciVtsockSoftc
  | .store mem => { sc with mem }
  | .rings txDesc txAvail txUsed rxDesc rxAvail rxUsed =>
    { sc with
      vqTx := { sc.vqTx with vqDesc := txDesc, vqAvail := txAvail, vqUsed := txUsed }
      vqRx := { sc.vqRx with vqDesc := rxDesc, vqAvail := rxAvail, vqUsed := rxUsed } }
  | .initQueues => { sc with vqTx := viVqInit sc.vqTx, vqRx := viVqInit sc.vqRx }
  | .reset =>
    { sc with
      vqTx := viResetQueue sc.vqTx
      vqRx := viResetQueue sc.vqRx
      vs := { sc.vs with vsNegotiatedCaps := 0, vsIsr := 0 } }

/-- What the transmit thread decides about one sock of the in-use list. -/
inductive TxVisit
  | skip
  | closing
  | queue
  deriving DecidableEq, Repr

/-- The part of the visit shared by connected socks and closing socks that still buffer. -/
def txVisitOpen (now : Int) (rc : ShutdownResult) (sc : PciVtsockSoftc) (i : SockId) :
    Except Fault (TxVisit × PciVtsockSoftc) :=
  let s := sc.socks i
  if s.fd < 0 then .error .badFd
  else if s.localShutdown = shutdownAll ∧ s.rstDeadline < now then do
    let sc ← sendResponseSock sc virtioVsockOpRst 0 i
    let sc ← closeSock rc sc (some i)
    return (.skip, sc)
  else if s.localShutdown &&& shutdownRx ≠ 0 then .ok (.skip, sc)
  else if sockIsBuffering s then .ok (.queue, sc)
  else .ok (.skip, sc)

def txVisit (now : Int) (rc : ShutdownResult) (sc : PciVtsockSoftc) (i : SockId) :
    Except Fault (TxVisit × PciVtsockSoftc) :=
  let s := sc.socks i
  match s.state with
  | .closingTx =>
    if sockIsBuffering s then txVisitOpen now rc sc i
    else if s.localShutdown ≠ shutdownAll ∧ s.peerShutdown ≠ shutdownAll then .error .notShutdown
    else .ok (.closing, sc.setState i .closingRx)
  | .connected => txVisitOpen now rc sc i
  | .free | .connecting | .closingRx => .ok (.skip, sc)

/-- The end of one turn of the transmit loop. -/
def txFinish (sc : PciVtsockSoftc) : PciVtsockSoftc :=
  let sc :=
    if vqRingReady sc.vqTx then
      { sc with vs := (vqEndchains sc.vs sc.vqTx true).1
                vqTx := (vqEndchains sc.vs sc.vqTx true).2 }
    else sc
  if sc.rxKickPending then kickRx sc else sc

/-- Listeners in the order the loop tests them. -/
def listeners (sc : PciVtsockSoftc) (connectReady : Bool) (fwdReady : UInt32 → Bool) :
    List (UInt64 × UInt32) :=
  (if connectReady then [(vmaddrCidAny, 0)] else []) ++
    (sc.fwds.filter fwdReady).map fun port => (sc.guestCid, port)

def endRx (sc : PciVtsockSoftc) (usedAllAvail : Bool) : PciVtsockSoftc :=
  { sc with vs := (vqEndchains sc.vs sc.vqRx usedAllAvail).1
            vqRx := (vqEndchains sc.vs sc.vqRx usedAllAvail).2 }

/-- The poll decision of the receive thread for a connected sock. -/
def rxPolling (s : PciVtsockSock) : Bool :=
  s.localShutdown &&& shutdownTx = 0 && s.peerShutdown &&& shutdownRx = 0 && peerFree s ≠ 0

/-- The host hands out only descriptors that no sock in use holds. -/
def freshFd (sc : PciVtsockSoftc) (fd : Int) : Bool :=
  fd < 0 || sc.inuseList.all fun i => (sc.socks i).fd ≠ fd

section Steps

variable (s : System)

def txTopStep : Except Stop System :=
  match s.tx.pc with
  | .top => .ok { s with tx :=
      { pc := .scan s.sc.inuseList, queue := [], wfd := [], kickRxClosing := false } }
  | _ => .error .blocked

def txScanStep (now : Int) (rc : ShutdownResult) : Except Stop System :=
  match s.tx.pc with
  | .scan [] =>
    let sc := if s.tx.kickRxClosing then kickRx s.sc else s.sc
    .ok { s with sc, tx := { s.tx with pc := .select } }
  | .scan (i :: todo) => do
    let (visit, sc) ← orFault (txVisit now rc s.sc i)
    let tx := { s.tx with pc := .scan todo }
    match visit with
    | .skip => return { s with sc, tx }
    | .closing => return { s with sc, tx := { tx with kickRxClosing := true } }
    | .queue =>
      return { s with sc, tx := { tx with
        queue := i :: s.tx.queue, wfd := (s.sc.socks i).fd :: s.tx.wfd } }
  | _ => .error .blocked

def txSelectStep (ok : Bool) (writable : List Int) (connectReady : Bool)
    (fwdReady : UInt32 → Bool) : Except Stop System :=
  match s.tx.pc with
  | .select =>
    if !ok then .ok { s with tx := { s.tx with pc := .top } }
    else .ok { s with tx := { s.tx with
      pc := .connect (listeners s.sc connectReady fwdReady)
      wfd := s.tx.wfd.filter (· ∈ writable) } }
  | _ => .error .blocked

def txConnectStep (h : AcceptHost) : Except Stop System :=
  match s.tx.pc with
  | .connect [] => .ok { s with tx := { s.tx with pc := .drain s.tx.queue } }
  | .connect ((cid, port) :: pending) =>
    if !freshFd s.sc h.accept then .error .blocked
    else do
      let sc ← orFault (handleConnectFd h s.sc cid port)
      return { s with sc, tx := { s.tx with pc := .connect pending } }
  | _ => .error .blocked

def txDrainStep (now : Int) (res : WriteResult) (rc : ShutdownResult) : Except Stop System :=
  match s.tx.pc with
  | .drain [] => .ok { s with tx := { s.tx with pc := .packets } }
  | .drain (i :: todo) =>
    let next := { s.tx with pc := .drain todo }
    let sock := s.sc.socks i
    if (sock.state = .connected ∨ sock.state = .closingTx) ∧ sock.fd ∈ s.tx.wfd then do
      let sc ← orFault (bufferDrain now res rc s.sc i)
      return { s with sc, tx := next }
    else .ok { s with tx := next }
  | _ => .error .blocked

def txPacketStep (h : TxHost) : Except Stop System :=
  match s.tx.pc with
  | .packets =>
    if !freshFd s.sc h.connect.socket then .error .blocked
    else if vqHasDescs s.sc.vqTx then do
      let sc ← orFault (pciVtsockProcTx h s.sc)
      return { s with sc }
    else .ok { s with sc := txFinish s.sc, tx := { s.tx with pc := .top } }
  | _ => .error .blocked

def rxTopStep : Except Stop System :=
  match s.rx.pc with
  | .top => .ok { s with rx := { s.rx with
      pc := .scan s.sc.inuseList, queue := [], closingQueue := [], rfd := [] } }
  | _ => .error .blocked

/-- A closing sock loses its descriptor now; the lists may not change under the read lock. -/
def rxScanStep : Except Stop System :=
  match s.rx.pc with
  | .scan [] => .ok { s with rx := { s.rx with pc := .closing } }
  | .scan (i :: todo) =>
    let sock := s.sc.socks i
    let rx := { s.rx with pc := .scan todo }
    if sock.state = .closingRx then
      if sock.localShutdown ≠ shutdownAll ∧ sock.peerShutdown ≠ shutdownAll then
        .error (.fault .notShutdown)
      else
        .ok { s with
          sc := (s.sc.closeFd sock.fd).setSock i { sock with fd := -1 }
          rx := { rx with closingQueue := i :: s.rx.closingQueue } }
    else if sock.state ≠ .connected ∨ !s.rx.pollSocks then .ok { s with rx }
    else if sock.fd < 0 then .error (.fault .badFd)
    else
      let rfd := if rxPolling sock then sock.fd :: s.rx.rfd else s.rx.rfd
      let queue :=
        if rxPolling sock || sock.creditUpdateRequired then i :: s.rx.queue else s.rx.queue
      .ok { s with rx := { rx with rfd, queue } }
  | _ => .error .blocked

def rxFreeStep : Except Stop System :=
  match s.rx.pc with
  | .closing =>
    match s.rx.closingQueue with
    | [] => .ok { s with rx := { s.rx with pc := .select } }
    | i :: rest => .ok { s with sc := freeSock s.sc i, rx := { s.rx with closingQueue := rest } }
  | _ => .error .blocked

def rxSelectStep (ok : Bool) (readable : List Int) (woken : Bool) : Except Stop System :=
  match s.rx.pc with
  | .select =>
    if !ok then .ok { s with rx := { s.rx with pc := .top } }
    else
      let rx := { s.rx with
        rfd := s.rx.rfd.filter (· ∈ readable), pollSocks := woken || s.rx.pollSocks }
      if vqHasDescs s.sc.vqRx then .ok { s with rx := { rx with pc := .replies false } }
      else .ok { s with rx := { rx with pc := .top, pollSocks := false } }
  | _ => .error .blocked

def rxReplyStep : Except Stop System :=
  match s.rx.pc with
  | .replies didSomeWork =>
    if vqHasDescs s.sc.vqRx then do
      let (more, sc) ← orFault (rxDoOneReply s.sc)
      return { s with sc, rx := { s.rx with
        pc := if more then .replies true else .socks s.rx.queue 0 didSomeWork } }
    else
      .ok { s with sc := endRx s.sc true, rx := { s.rx with pc := .top, pollSocks := false } }
  | _ => .error .blocked

/-- The end of one pass over the receive queue. -/
def rxPassDone (didSomeWork : Bool) : System :=
  if didSomeWork then { s with rx := { s.rx with pc := .replies false } }
  else { s with sc := endRx s.sc false, rx := { s.rx with pc := .top } }

/-- Out of descriptors in the middle of a pass. -/
def rxStarved (sc : PciVtsockSoftc) : System :=
  { s with sc := endRx sc true, rx := { s.rx with pc := .top } }

def rxSockStep (h : RxHost) : Except Stop System :=
  match s.rx.pc with
  | .socks [] _ didSomeWork => .ok (rxPassDone s didSomeWork)
  | .socks (i :: todo) nrDataRx didSomeWork =>
    let sock := s.sc.socks i
    let pc := RxPc.socks todo (nrDataRx + 1) didSomeWork
    if 8 ≤ nrDataRx ∧ !replyRingEmpty s.sc then .ok (rxPassDone s didSomeWork)
    else if sock.state ≠ .connected then
      .ok { s with rx := { s.rx with pc, queue := s.rx.queue.erase i } }
    else if sock.fd < 0 then .error (.fault .badFd)
    else if sock.fd ∈ s.rx.rfd then do
      let (bytes, sc) ← orFault (pciVtsockProcRx h s.sc i)
      if bytes = -1 then return rxStarved s sc
      else if (sc.socks i).creditUpdateRequired then
        .error (.fault .creditPending)
      else if bytes = 0 then
        return { s with sc, rx := { s.rx with
          pc, queue := s.rx.queue.erase i, rfd := s.rx.rfd.filter (· ≠ sock.fd) } }
      else
        return { s with sc, rx := { s.rx with pc := .socks todo (nrDataRx + 1) true } }
    else if sock.creditUpdateRequired then do
      let (sent, sc) ← orFault (sendCreditUpdate s.sc i)
      if sent then
        let sc := sc.setSock i { sc.socks i with creditUpdateRequired := false }
        return { s with sc, rx := { s.rx with pc } }
      else return rxStarved s sc
    else .ok { s with rx := { s.rx with pc, queue := s.rx.queue.erase i } }
  | _ => .error .blocked

end Steps

def step (s : System) : Action → Except Stop System
  | .guest g => .ok { s with sc := guestStep s.sc g }
  | .txTop => txTopStep s
  | .txScan now rc => txScanStep s now rc
  | .txSelect ok writable connectReady fwdReady => txSelectStep s ok writable connectReady fwdReady
  | .txConnect h => txConnectStep s h
  | .txDrain now res rc => txDrainStep s now res rc
  | .txPacket h => txPacketStep s h
  | .rxTop => rxTopStep s
  | .rxScan => rxScanStep s
  | .rxFree => rxFreeStep s
  | .rxSelect ok readable woken => rxSelectStep s ok readable woken
  | .rxReply => rxReplyStep s
  | .rxSock h => rxSockStep s h

/-- `calloc` leaves a sock zeroed; the initialiser then sets state, descriptor and generation. -/
def initSock : PciVtsockSock where
  state := .free
  fd := -1
  portGeneration := 0
  localShutdown := 0
  peerShutdown := 0
  rstDeadline := 0
  localAddr := ⟨0, 0⟩
  peerAddr := ⟨0, 0⟩
  bufAlloc := 0
  fwdCnt := 0
  creditUpdateRequired := false
  rxCnt := 0
  peerBufAlloc := 0
  peerFwdCnt := 0
  writeBuf := fun _ => 0
  writeBufHead := 0
  writeBufTail := 0

/-- A queue of the vsock device before the guest has placed it. -/
def initQueue : VqueueInfo where
  vqQsize := .ofNat vtsockRingsz
  vqFlags := 0
  vqLastAvail := 0
  vqSaveUsed := 0
  vqMsixIdx := virtioMsiNoVector
  vqDesc := fun _ => ⟨0, 0, 0, 0⟩
  vqAvail := ⟨0, 0, fun _ => 0⟩
  vqUsed := ⟨0, 0, fun _ => ⟨0, 0⟩⟩

/-- The free list after the first `n` socks have each been inserted at its head. -/
def freeSocks : (n : ℕ) → n ≤ vtsockMaxsocks → List SockId
  | 0, _ => []
  | n + 1, h => ⟨n, h⟩ :: freeSocks n (Nat.le_of_succ_le h)

/-- The device `pci_vtsock_init` builds for a guest cid, its RAM and the forwarded ports. -/
def initSoftc (guestCid : UInt64) (ram : GuestRam) (fwds : List UInt32) (msix : Bool) :
    PciVtsockSoftc where
  vs := { vcHvCaps := 0, vsNegotiatedCaps := 0, vsIsr := 0, msixEnabled := msix, raised := [] }
  ram := ram
  mem := fun _ => 0
  vqRx := initQueue
  vqTx := initQueue
  guestCid := guestCid
  fwds := fwds
  freeList := freeSocks vtsockMaxsocks (Nat.le_refl _)
  inuseList := []
  socks := fun _ => initSock
  rxKickPending := false
  replyRing := fun _ => ⟨0, 0, 0, 0, 0, 0, 0, 0, 0, 0⟩
  replyProd := 0
  replyCons := 0
  queued := []
  delivered := []
  closed := []
  written := []
  moves := []

def initSystem (guestCid : UInt64) (ram : GuestRam) (fwds : List UInt32) (msix : Bool) : System where
  sc := initSoftc guestCid ram fwds msix
  tx := ⟨.top, [], [], false⟩
  rx := ⟨.top, true, [], [], []⟩

end HyperCog.Vsock
