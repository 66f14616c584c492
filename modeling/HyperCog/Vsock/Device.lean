import HyperCog.Lib.Run
import HyperCog.Virtio.Queue
import HyperCog.Vsock.Sock

/-!
The vsock device: socket table, reply ring and the packet handlers of both
directions. Results of host calls are arguments; a failed assertion is an error.
-/
namespace HyperCog.Vsock

open Virtio

abbrev SockId := Fin vtsockMaxsocks

instance : NeZero vtsockMaxsocks := ⟨by decide⟩

structure PciVtsockSoftc where
  vs : VirtioSoftc
  ram : GuestRam
  mem : HostMem
  vqRx : VqueueInfo
  vqTx : VqueueInfo
  guestCid : UInt64
  fwds : List UInt32
  freeList : List SockId
  inuseList : List SockId
  socks : SockId → PciVtsockSock
  rxKickPending : Bool
  replyRing : ℕ → VirtioSockHdr
  replyProd : ℕ
  replyCons : ℕ
  /-- every reply queued so far, oldest first -/
  queued : List VirtioSockHdr
  /-- every reply taken by the receive thread so far, oldest first -/
  delivered : List VirtioSockHdr
  /-- every `close(2)` so far, oldest first -/
  closed : List Int
  /-- every transfer to a host descriptor so far, oldest first -/
  written : List (Int × List UInt8)
  /-- every assignment to a sock's state so far, with the old and the new state -/
  moves : List (SockId × SockState × SockState)

/-- The reply ring with its history. -/
structure Replies where
  ring : ℕ → VirtioSockHdr
  prod : ℕ
  cons : ℕ
  queued : List VirtioSockHdr
  delivered : List VirtioSockHdr

namespace PciVtsockSoftc

def replies (sc : PciVtsockSoftc) : Replies :=
  ⟨sc.replyRing, sc.replyProd, sc.replyCons, sc.queued, sc.delivered⟩

def setSock (sc : PciVtsockSoftc) (i : SockId) (s : PciVtsockSock) : PciVtsockSoftc :=
  { sc with socks := Function.update sc.socks i s }

def setState (sc : PciVtsockSoftc) (i : SockId) (state : SockState) : PciVtsockSoftc :=
  { sc.setSock i { sc.socks i with state } with
    moves := sc.moves ++ [(i, (sc.socks i).state, state)] }

def closeFd (sc : PciVtsockSoftc) (fd : Int) : PciVtsockSoftc :=
  { sc with closed := sc.closed ++ [fd] }

def logWrite (sc : PciVtsockSoftc) (fd : Int) (bs : List UInt8) : PciVtsockSoftc :=
  { sc with written := sc.written ++ [(fd, bs)] }

def relTx (sc : PciVtsockSoftc) (idx : UInt16) (iolen : UInt32) : PciVtsockSoftc :=
  { sc with vqTx := vqRelchain sc.vqTx idx iolen }

def relRx (sc : PciVtsockSoftc) (idx : UInt16) (iolen : UInt32) : PciVtsockSoftc :=
  { sc with vqRx := vqRelchain sc.vqRx idx iolen }

variable (sc : PciVtsockSoftc) (i : SockId) (s : PciVtsockSock)

@[simp] theorem setSock_socks_self : (sc.setSock i s).socks i = s := by
  simp [setSock]

@[simp] theorem setState_socks_self (state : SockState) :
    (sc.setState i state).socks i = { sc.socks i with state } := by
  simp [setState]

@[simp] theorem setSock_vqTx : (sc.setSock i s).vqTx = sc.vqTx := rfl
@[simp] theorem setState_vqTx (st : SockState) : (sc.setState i st).vqTx = sc.vqTx := rfl
@[simp] theorem closeFd_vqTx (fd : Int) : (sc.closeFd fd).vqTx = sc.vqTx := rfl

@[simp] theorem relTx_vqTx (idx : UInt16) (iolen : UInt32) :
    (sc.relTx idx iolen).vqTx = vqRelchain sc.vqTx idx iolen := rfl

@[simp] theorem setSock_replies : (sc.setSock i s).replies = sc.replies := rfl
@[simp] theorem setState_replies (st : SockState) : (sc.setState i st).replies = sc.replies := rfl
@[simp] theorem logWrite_replies (fd : Int) (bs : List UInt8) :
    (sc.logWrite fd bs).replies = sc.replies := rfl
@[simp] theorem relTx_replies (idx : UInt16) (iolen : UInt32) :
    (sc.relTx idx iolen).replies = sc.replies := rfl
@[simp] theorem closeFd_replies (fd : Int) : (sc.closeFd fd).replies = sc.replies := rfl

@[simp] theorem setSock_mem : (sc.setSock i s).mem = sc.mem := rfl

@[simp] theorem setSock_written : (sc.setSock i s).written = sc.written := rfl

@[simp] theorem logWrite_socks (fd : Int) (bs : List UInt8) :
    (sc.logWrite fd bs).socks = sc.socks := rfl

@[simp] theorem logWrite_mem (fd : Int) (bs : List UInt8) : (sc.logWrite fd bs).mem = sc.mem := rfl

end PciVtsockSoftc

def replyRingEmpty (sc : PciVtsockSoftc) : Bool := sc.replyCons == sc.replyProd

/-- The sock answers to this pair of addresses. -/
def sockMatches (localAddr peerAddr : VsockAddr) (s : PciVtsockSock) : Bool :=
  (s.state = .connected || s.state = .connecting) && (s.peerAddr = peerAddr && s.localAddr = localAddr)

def lookupSock (sc : PciVtsockSoftc) (localAddr peerAddr : VsockAddr) : Option SockId :=
  sc.inuseList.find? fun i => sockMatches localAddr peerAddr (sc.socks i)

def allocSock (sc : PciVtsockSoftc) : Option (SockId × PciVtsockSoftc) :=
  match sc.freeList with
  | [] => none
  | i :: rest =>
    let sc := { sc with freeList := rest, inuseList := i :: sc.inuseList }.setState i .connecting
    some (i, sc.setSock i (resetSock (sc.socks i)))

def freeSock (sc : PciVtsockSoftc) (i : SockId) : PciVtsockSoftc :=
  { sc.setState i .free with
    inuseList := sc.inuseList.erase i
    freeList := i :: sc.freeList }

@[simp] theorem freeSock_vqTx (sc : PciVtsockSoftc) (i : SockId) : (freeSock sc i).vqTx = sc.vqTx := by
  simp only [freeSock, PciVtsockSoftc.setState_vqTx]

@[simp] theorem freeSock_replies (sc : PciVtsockSoftc) (i : SockId) :
    (freeSock sc i).replies = sc.replies := by
  rw [← PciVtsockSoftc.setState_replies sc i .free]
  rfl

/-- Results of the host calls of `connect_sock`, in call order. -/
structure ConnectHost where
  snprintf : Bool
  socket : Int
  connect : Bool
  fcntl : Bool
  opts : SockoptHost
  deriving DecidableEq, Repr

def connectSock (h : ConnectHost) (sc : PciVtsockSoftc) (localAddr peerAddr : VsockAddr)
    (peerBufAlloc peerFwdCnt : UInt32) : Option SockId × PciVtsockSoftc :=
  match allocSock sc with
  | none => (none, sc)
  | some (i, sc) =>
    if !h.snprintf || h.socket < 0 then (none, freeSock sc i)
    else if fdSetsize ≤ h.socket || !h.connect || !h.fcntl then
      (none, freeSock (sc.closeFd h.socket) i)
    else
      let s := { sc.socks i with
        fd := h.socket, peerAddr, localAddr, peerBufAlloc, peerFwdCnt }
      match setSocketOptions h.opts s with
      | (false, s) => (none, freeSock ((sc.setSock i s).closeFd h.socket) i)
      | (true, s) => (some i, (sc.setSock i s).setState i .connected)

variable {sc sc' : PciVtsockSoftc} {i : SockId} {localAddr peerAddr : VsockAddr} {h : ConnectHost}
  {peerBufAlloc peerFwdCnt flags bufAlloc fwdCnt : UInt32} {o : Option SockId} {op type : UInt16}

/-- The sock just taken off the free list. -/
def allocated (sc : PciVtsockSoftc) (i : SockId) (rest : List SockId) : PciVtsockSoftc :=
  let sc := { sc with freeList := rest, inuseList := i :: sc.inuseList }.setState i .connecting
  sc.setSock i (resetSock (sc.socks i))

theorem allocSock_cases (h : allocSock sc = some (i, sc')) :
    ∃ rest, sc.freeList = i :: rest ∧ sc' = allocated sc i rest := by
  unfold allocSock at h
  split at h
  · cases h
  · rename_i j rest hfree
    cases h
    exact ⟨rest, hfree, rfl⟩

@[simp] theorem allocated_socks_self (rest : List SockId) :
    (allocated sc i rest).socks i = resetSock { sc.socks i with state := .connecting } := by
  simp [allocated, PciVtsockSoftc.setState]

/-- A sock with its descriptor, its addresses and the peer's first credit. -/
def boundSock (s : PciVtsockSock) (fd : Int) (localAddr peerAddr : VsockAddr)
    (peerBufAlloc peerFwdCnt alloc : UInt32) : PciVtsockSock :=
  { s with fd, peerAddr, localAddr, peerBufAlloc, peerFwdCnt, bufAlloc := alloc }

/-- The allocated sock filled in by `connect_sock`. -/
def bound (sc : PciVtsockSoftc) (i : SockId) (rest : List SockId) (fd : Int)
    (localAddr peerAddr : VsockAddr) (peerBufAlloc peerFwdCnt alloc : UInt32) : PciVtsockSoftc :=
  (allocated sc i rest).setSock i (boundSock ((allocated sc i rest).socks i) fd localAddr peerAddr
    peerBufAlloc peerFwdCnt alloc)

/-- The ways out of `connect_sock`: no sock left, given up before or after the sock
was filled in, or connected. -/
theorem connectSock_cases
    (he : connectSock h sc localAddr peerAddr peerBufAlloc peerFwdCnt = (o, sc')) :
    (sc.freeList = [] ∧ o = none ∧ sc' = sc) ∨
    ∃ i rest, sc.freeList = i :: rest ∧
      ((o = none ∧ ∃ closed, sc' = freeSock { allocated sc i rest with closed } i) ∨
        (0 ≤ h.socket ∧ ∃ alloc, alloc.toNat ≤ writeBufLength.toNat ∧
          ((h.opts.ok = false ∧ o = none ∧ sc' = freeSock
              ((bound sc i rest h.socket localAddr peerAddr peerBufAlloc peerFwdCnt
                alloc).closeFd h.socket) i) ∨
            (h.opts.ok ∧ o = some i ∧ sc' =
              (bound sc i rest h.socket localAddr peerAddr peerBufAlloc peerFwdCnt
                alloc).setState i .connected)))) := by
  unfold connectSock at he
  split at he
  · rename_i hnone
    cases he
    refine .inl ⟨?_, rfl, rfl⟩
    unfold allocSock at hnone
    split at hnone
    · rename_i hfree
      exact hfree
    · cases hnone
  · rename_i i sc₁ halloc
    obtain ⟨rest, hfree, rfl⟩ := allocSock_cases halloc
    refine .inr ⟨i, rest, hfree, ?_⟩
    split_ifs at he with hfd
    any_goals
      cases he
      exact .inl ⟨rfl, _, rfl⟩
    · have hpos : 0 ≤ h.socket := by
        simp only [Bool.or_eq_true, not_or, decide_eq_true_eq] at hfd
        omega
      dsimp only at he
      split at he
      all_goals
        rename_i s hopts
        obtain ⟨hok, alloc, rfl, hle⟩ := setSocketOptions_cases hopts
        cases he
        refine .inr ⟨hpos, alloc, by simpa [resetSock] using hle, ?_⟩
      · exact .inl ⟨hok.symm, rfl, rfl⟩
      · exact .inr ⟨hok.symm, rfl, rfl⟩

@[simp] theorem allocated_vqTx (rest : List SockId) : (allocated sc i rest).vqTx = sc.vqTx := by
  simp [allocated]

@[simp] theorem allocated_replies (rest : List SockId) :
    (allocated sc i rest).replies = sc.replies := by
  rfl

/-- Opening a connection leaves the transmit queue and the reply ring alone. -/
theorem connectSock_frame
    (he : connectSock h sc localAddr peerAddr peerBufAlloc peerFwdCnt = (o, sc')) :
    sc'.vqTx = sc.vqTx ∧ sc'.replies = sc.replies := by
  rcases connectSock_cases he with ⟨-, -, rfl⟩ | ⟨i, rest, -, ⟨-, closed, rfl⟩ |
    ⟨-, alloc, -, ⟨-, -, rfl⟩ | ⟨-, -, rfl⟩⟩⟩
  · exact ⟨rfl, rfl⟩
  · rw [freeSock_replies]
    have htx : (allocated sc i rest).vqTx = sc.vqTx := allocated_vqTx rest
    have hrep : (allocated sc i rest).replies = sc.replies := allocated_replies rest
    exact ⟨htx, hrep⟩
  all_goals simp [bound]

/-- The kick is a byte in a pipe; what it wakes is chosen by the scheduler. -/
def kickRx (sc : PciVtsockSoftc) : PciVtsockSoftc := { sc with rxKickPending := false }

@[simp] theorem kickRx_replies (sc : PciVtsockSoftc) : (kickRx sc).replies = sc.replies := rfl

def closeSock (rc : ShutdownResult) (sc : PciVtsockSoftc) : Option SockId → Except Fault PciVtsockSoftc
  | none => .ok sc
  | some i => do
    let s ← shutdownPeerLocalFd rc (sc.socks i) shutdownAll
    return (sc.setSock i s).setState i .closingTx

def setCreditUpdateRequired (sc : PciVtsockSoftc) (i : SockId) : PciVtsockSoftc :=
  if (sc.socks i).creditUpdateRequired then sc
  else { sc.setSock i { sc.socks i with creditUpdateRequired := true } with rxKickPending := true }

section

variable (sc : PciVtsockSoftc) (i : SockId)

@[simp] theorem setCreditUpdateRequired_socks_self :
    (setCreditUpdateRequired sc i).socks i = { sc.socks i with creditUpdateRequired := true } := by
  unfold setCreditUpdateRequired
  split
  · rename_i hset
    rw [← hset]
  · simp

@[simp] theorem setCreditUpdateRequired_written :
    (setCreditUpdateRequired sc i).written = sc.written := by
  unfold setCreditUpdateRequired
  split <;> simp

@[simp] theorem setCreditUpdateRequired_replies :
    (setCreditUpdateRequired sc i).replies = sc.replies := by
  unfold setCreditUpdateRequired
  split
  · rfl
  · rfl

@[simp] theorem setCreditUpdateRequired_vqTx : (setCreditUpdateRequired sc i).vqTx = sc.vqTx := by
  unfold setCreditUpdateRequired
  split <;> simp

end

/-- Both indices of the reply ring advance and wrap by this rule. -/
def nextSlot (slot : ℕ) : ℕ := if slot + 1 = vtsockReplyringsz then 0 else slot + 1

/-- The slot the producer stands on takes the reply. -/
def queueReply (sc : PciVtsockSoftc) (hdr : VirtioSockHdr) : PciVtsockSoftc :=
  { sc with
    replyProd := nextSlot sc.replyProd
    replyRing := Function.update sc.replyRing sc.replyProd hdr
    queued := sc.queued ++ [hdr]
    rxKickPending := true }

/-- The assertion runs with the producer already advanced, so a ring that looks
empty has overflowed. -/
def sendResponseCommon (sc : PciVtsockSoftc) (localAddr peerAddr : VsockAddr) (op type : UInt16)
    (flags bufAlloc fwdCnt : UInt32) : Except Fault PciVtsockSoftc :=
  if op = virtioVsockOpRw ∨ ¬ (flags = 0 ∨ op = virtioVsockOpShutdown) then .error .replyArgs
  else if sc.replyCons = nextSlot sc.replyProd then .error .replyRingOverflow
  else
    .ok (queueReply sc
      { srcCid := localAddr.cid, srcPort := localAddr.port
        dstCid := peerAddr.cid, dstPort := peerAddr.port
        len := 0, type, op, flags, bufAlloc, fwdCnt })

def sendResponseSock (sc : PciVtsockSoftc) (op : UInt16) (flags : UInt32) (i : SockId) :
    Except Fault PciVtsockSoftc :=
  let s := sc.socks i
  sendResponseCommon sc s.localAddr s.peerAddr op virtioVsockTypeStream flags s.bufAlloc s.fwdCnt

def sendResponseNosock (sc : PciVtsockSoftc) (op type : UInt16) (localAddr peerAddr : VsockAddr) :
    Except Fault PciVtsockSoftc :=
  sendResponseCommon sc localAddr peerAddr op type 0 0 0

/-- The reply ring has no slot left that keeps producer and consumer apart. -/
def replyRingFull (sc : PciVtsockSoftc) : Prop := sc.replyCons = nextSlot sc.replyProd

theorem replyRingFull_congr (h : sc'.replies = sc.replies) : replyRingFull sc' ↔ replyRingFull sc := by
  have hcons : sc'.replyCons = sc.replyCons := congrArg Replies.cons h
  have hprod : sc'.replyProd = sc.replyProd := congrArg Replies.prod h
  rw [replyRingFull, replyRingFull, hcons, hprod]

theorem sendResponseCommon_cases
    (h : sendResponseCommon sc localAddr peerAddr op type flags bufAlloc fwdCnt = .ok sc') :
    ¬ replyRingFull sc ∧ ∃ hdr, sc' = queueReply sc hdr := by
  unfold sendResponseCommon at h
  split_ifs at h with _ hroom
  cases h
  exact ⟨hroom, _, rfl⟩

theorem sendResponseCommon_ok_iff
    (hargs : op ≠ virtioVsockOpRw ∧ (flags = 0 ∨ op = virtioVsockOpShutdown)) :
    (∃ sc', sendResponseCommon sc localAddr peerAddr op type flags bufAlloc fwdCnt = .ok sc') ↔
      ¬ replyRingFull sc := by
  have hguard : ¬ (op = virtioVsockOpRw ∨ ¬ (flags = 0 ∨ op = virtioVsockOpShutdown)) := by
    tauto
  unfold sendResponseCommon replyRingFull
  rw [if_neg hguard]
  split <;> simp_all

theorem closeSock_cases {rc : ShutdownResult} (h : closeSock rc sc (some i) = .ok sc') :
    ∃ l, sc' = (sc.setSock i { sc.socks i with
      localShutdown := l
      peerShutdown := shutdownAll ||| (sc.socks i).peerShutdown }).setState i .closingTx := by
  simp only [closeSock, Machine.bind_eq_ok] at h
  obtain ⟨s, hs, h⟩ := h
  cases h
  obtain ⟨l, rfl, -⟩ := shutdownPeerLocalFd_cases hs
  exact ⟨l, rfl⟩

theorem sendResponseSock_cases (h : sendResponseSock sc op flags i = .ok sc') :
    ¬ replyRingFull sc ∧ ∃ hdr, sc' = queueReply sc hdr :=
  sendResponseCommon_cases h

/-- `buffer_drain` on the sock that `select` reported writable. A guest SHUTDOWN_TX
that arrived while buffering was deferred until the buffer is empty. -/
def bufferDrain (now : Int) (res : WriteResult) (rc : ShutdownResult) (sc : PciVtsockSoftc)
    (i : SockId) : Except Fault PciVtsockSoftc :=
  let s := sc.socks i
  if !sockIsBuffering s || s.writeBufTail ≤ s.writeBufHead then .error .notBuffering
  else match res with
    | .epipe => do
      let s ← shutdownLocalSock now s shutdownRx
      sendResponseSock (sc.setSock i s) virtioVsockOpShutdown s.localShutdown i
    | .eagain => .ok sc
    | .error => do
      let sc ← sendResponseSock sc virtioVsockOpRst 0 i
      closeSock rc sc (some i)
    | .wrote n =>
      let nr := min n (s.writeBufTail - s.writeBufHead).toNat
      let sc := sc.logWrite s.fd ((buffered s).take nr)
      let head := s.writeBufHead + .ofNat nr
      if head < s.writeBufTail then .ok (sc.setSock i { s with writeBufHead := head })
      else
        let s := { s with fwdCnt := s.fwdCnt + head, writeBufHead := 0, writeBufTail := 0 }
        if s.peerShutdown &&& shutdownTx ≠ 0 ∧ s.localShutdown &&& shutdownRx = 0 then
          if rc = .failed then .error .shutdownFailed
          else
            let s := { s with localShutdown := s.localShutdown ||| shutdownRx }
            .ok (setCreditUpdateRequired (sc.setSock i s) i)
        else .ok (setCreditUpdateRequired (sc.setSock i s) i)

/-- What `handle_write` returns: 1, 0 or -1. -/
inductive WriteVerdict
  | credit
  | quiet
  | reject
  deriving DecidableEq, Repr

def WriteVerdict.ofBuffered : Bool → WriteVerdict
  | true => .quiet
  | false => .reject

/-- The calls of `buffer_write` in `handle_write`: what is kept decides the verdict. -/
def bufferRest (sc : PciVtsockSoftc) (i : SockId) (s : PciVtsockSock) (len : UInt32)
    (iov : List Iovec) : Except Fault (WriteVerdict × PciVtsockSoftc) := do
  let (fits, s) ← bufferWrite sc.mem s len iov
  return (.ofBuffered fits, sc.setSock i s)

/-- The direct path of `handle_write` once `num` bytes are known to be written. -/
def acceptWritten (sc : PciVtsockSoftc) (i : SockId) (len : UInt32) (iov : List Iovec) (num : ℕ) :
    Except Fault (WriteVerdict × PciVtsockSoftc) :=
  let s := { sc.socks i with fwdCnt := (sc.socks i).fwdCnt + .ofNat num }
  if num = len.toNat then .ok (.credit, sc.setSock i s)
  else do
    let p ← iovecPull sc.mem false iov num
    if p.res ≠ num then .error .pulledShort
    else bufferRest sc i s (len - .ofNat num) p.iov

def handleWrite (now : Int) (res : WriteResult) (sc : PciVtsockSoftc) (i : SockId) (len : UInt32)
    (iov : List Iovec) : Except Fault (WriteVerdict × PciVtsockSoftc) :=
  let s := sc.socks i
  if sockIsBuffering s then bufferRest sc i s len iov
  else match res with
    | .epipe => do
      let s ← shutdownLocalSock now s shutdownRx
      let sc ← sendResponseSock (sc.setSock i s) virtioVsockOpShutdown s.localShutdown i
      return (.quiet, sc)
    | .eagain => acceptWritten sc i len iov 0
    | .error => .ok (.reject, sc)
    | .wrote n =>
      let num := min n (iovTotal iov)
      acceptWritten (sc.logWrite s.fd ((iovBytes sc.mem iov).take num)) i len iov num

/-- Results of the host calls of one `pci_vtsock_proc_tx`. -/
structure TxHost where
  connect : ConnectHost
  writev : WriteResult
  shutdown : ShutdownResult
  now : Int
  deriving DecidableEq, Repr

section ProcTx

variable (h : TxHost) (sc : PciVtsockSoftc) (idx : UInt16) (hdr : VirtioSockHdr)

/-- The RST for a packet goes to the sock's peer, or back to the sender. -/
def sendRst : Option SockId → Except Fault PciVtsockSoftc
  | some i => sendResponseSock sc virtioVsockOpRst 0 i
  | none => sendResponseNosock sc virtioVsockOpRst hdr.type hdr.dstAddr hdr.srcAddr

/-- The `do_rst` exit of `pci_vtsock_proc_tx`: an abort of `close_sock` comes after the release. -/
def doRst (sock : Option SockId) : Except Fault PciVtsockSoftc := do
  let sc ← sendRst sc hdr sock
  (closeSock h.shutdown (sc.relTx idx 0) sock).mapError fun _ => .abortReleased idx

def opRequest : Option SockId → Except Fault PciVtsockSoftc
  | some i => doRst h sc idx hdr (some i)
  | none =>
    if hdr.dstCid = sc.guestCid then doRst h sc idx hdr none
    else match connectSock h.connect sc hdr.dstAddr hdr.srcAddr hdr.bufAlloc hdr.fwdCnt with
      | (none, sc) => doRst h sc idx hdr none
      | (some i, sc) => do
        let sc ← sendResponseSock sc virtioVsockOpResponse 0 i
        return sc.relTx idx 0

def opResponse : Option SockId → Except Fault PciVtsockSoftc
  | none => doRst h sc idx hdr none
  | some i =>
    if (sc.socks i).state ≠ .connecting then doRst h sc idx hdr (some i)
    else .ok (kickRx ((sc.setState i .connected).relTx idx 0))

def opRst (sock : Option SockId) : Except Fault PciVtsockSoftc := do
  let sc ← closeSock h.shutdown sc sock
  return sc.relTx idx 0

/-- Once the peer is done in both directions a RST finalises the shutdown. -/
def opShutdown : Option SockId → Except Fault PciVtsockSoftc
  | none => doRst h sc idx hdr none
  | some i =>
    if (sc.socks i).state ≠ .connected ∨ hdr.flags &&& ~~~shutdownAll ≠ 0 ∨
        hdr.flags &&& shutdownAll = 0 then
      doRst h sc idx hdr (some i)
    else do
      let s ← shutdownPeerLocalFd h.shutdown (sc.socks i) hdr.flags
      let sc := sc.setSock i s
      if s.peerShutdown = shutdownAll then doRst h sc idx hdr (some i)
      else return sc.relTx idx 0

/-- Payload is accepted: connected, and neither end has closed this direction. -/
def rwOpen (s : PciVtsockSock) : Bool :=
  s.state = .connected && s.peerShutdown &&& shutdownTx = 0 && s.localShutdown &&& shutdownRx = 0

def opRw (iov : List Iovec) : Option SockId → Except Fault PciVtsockSoftc
  | none => doRst h sc idx hdr none
  | some i =>
    if !rwOpen (sc.socks i) then doRst h sc idx hdr (some i)
    else do
      let (verdict, sc) ← handleWrite h.now h.writev sc i hdr.len iov
      match verdict with
      | .reject => doRst h sc idx hdr (some i)
      | .credit => return setCreditUpdateRequired (sc.relTx idx 0) i
      | .quiet => return sc.relTx idx 0

def opCreditUpdate : Option SockId → Except Fault PciVtsockSoftc
  | none => doRst h sc idx hdr none
  | some i =>
    if (sc.socks i).state ≠ .connected then doRst h sc idx hdr (some i)
    else .ok { sc.relTx idx 0 with rxKickPending := true }

def opCreditRequest : Option SockId → Except Fault PciVtsockSoftc
  | none => doRst h sc idx hdr none
  | some i =>
    if (sc.socks i).state ≠ .connected then doRst h sc idx hdr (some i)
    else .ok (setCreditUpdateRequired (sc.relTx idx 0) i)

/-- The `switch (hdr.op)`, which has no default case. -/
def procOp (iov : List Iovec) (sock : Option SockId) : Except Fault PciVtsockSoftc :=
  if hdr.op = virtioVsockOpInvalid then doRst h sc idx hdr sock
  else if hdr.op = virtioVsockOpRequest then opRequest h sc idx hdr sock
  else if hdr.op = virtioVsockOpResponse then opResponse h sc idx hdr sock
  else if hdr.op = virtioVsockOpRst then opRst h sc idx sock
  else if hdr.op = virtioVsockOpShutdown then opShutdown h sc idx hdr sock
  else if hdr.op = virtioVsockOpRw then opRw h sc idx hdr iov sock
  else if hdr.op = virtioVsockOpCreditUpdate then opCreditUpdate h sc idx hdr sock
  else if hdr.op = virtioVsockOpCreditRequest then opCreditRequest h sc idx hdr sock
  else .ok sc

/-- From this guest to the host, and a stream. -/
def addressed : Bool :=
  hdr.srcCid = sc.guestCid && hdr.dstCid = vmaddrCidHost && hdr.type = virtioVsockTypeStream

/-- The header of every packet for a live sock refreshes the credit of that sock. -/
def applyCredit (sock : Option SockId) : PciVtsockSoftc :=
  match sock with
  | none => sc
  | some i => sc.setSock i (creditUpdate hdr (sc.socks i))

/-- `pci_vtsock_proc_tx` once the header has been pulled off the chain. -/
def procPacket (iov : List Iovec) : Except Fault PciVtsockSoftc :=
  if !addressed sc hdr then do
    let sc ← sendResponseNosock sc virtioVsockOpRst hdr.type hdr.dstAddr hdr.srcAddr
    return sc.relTx idx 0
  else
    let sock := lookupSock sc hdr.dstAddr hdr.srcAddr
    procOp h (applyCredit sc hdr sock) idx hdr iov sock

end ProcTx

def pciVtsockProcTx (h : TxHost) (sc : PciVtsockSoftc) : Except Fault PciVtsockSoftc :=
  match vqGetchain sc.vs sc.ram sc.mem sc.vqTx with
  | (.empty, _) => .error .shortHeader
  | (.stop .segfault, _) => .error .segfault
  | (.stop (.invalid _), vq) => .ok { sc with vqTx := vq }
  | (.descs idx vds, vq) =>
    if vtsockMaxsegs < vds.length then .error .chainTooLong
    else do
      let p ← iovecPull sc.mem true (vds.map (vqRecord sc.ram)) sizeofHdr
      if p.res ≠ sizeofHdr then .error .shortHeader
      else procPacket h { sc with vqTx := vq } idx (.ofBytes p.data) p.iov

theorem doRst_eq_ok {h : TxHost} {sc sc' : PciVtsockSoftc} {idx : UInt16} {hdr : VirtioSockHdr}
    {sock : Option SockId} : doRst h sc idx hdr sock = .ok sc' ↔ ∃ sc₁, sendRst sc hdr sock = .ok sc₁ ∧
        closeSock h.shutdown (sc₁.relTx idx 0) sock = .ok sc' := by
  simp only [doRst, Machine.bind_eq_ok, Machine.mapError_eq_ok]

/-- A packet taken from the transmit queue: its head, header and payload. -/
structure TxPacket where
  idx : UInt16
  hdr : VirtioSockHdr
  iov : List Iovec
  vq : VqueueInfo

/-- The next transmit chain, if it is a packet: at most VTSOCK_MAXSEGS segments that
hold at least a header. -/
def nextPacket (sc : PciVtsockSoftc) : Option TxPacket :=
  match vqGetchain sc.vs sc.ram sc.mem sc.vqTx with
  | (.descs idx vds, vq) =>
    if vtsockMaxsegs < vds.length then none
    else match iovecPull sc.mem true (vds.map (vqRecord sc.ram)) sizeofHdr with
      | .error _ => none
      | .ok p => if p.res ≠ sizeofHdr then none else some ⟨idx, .ofBytes p.data, p.iov, vq⟩
  | _ => none

/-- `pci_vtsock_proc_tx` handles the next packet, drops an invalid chain, or dies. -/
theorem procTx_cases (h : TxHost) (sc : PciVtsockSoftc) : (∃ k, nextPacket sc = some k ∧
      pciVtsockProcTx h sc = procPacket h { sc with vqTx := k.vq } k.idx k.hdr k.iov) ∨
    (nextPacket sc = none ∧ ∃ vq, pciVtsockProcTx h sc = .ok { sc with vqTx := vq }) ∨
    (nextPacket sc = none ∧ ∃ f, pciVtsockProcTx h sc = .error f ∧
      (f = .segfault ∨ f = .shortHeader ∨ f = .chainTooLong)) := by
  unfold pciVtsockProcTx nextPacket
  obtain ⟨chain, vq⟩ := vqGetchain sc.vs sc.ram sc.mem sc.vqTx
  cases chain with
  | empty => exact .inr (.inr ⟨rfl, _, rfl, .inr (.inl rfl)⟩)
  | stop w =>
    cases w with
    | segfault => exact .inr (.inr ⟨rfl, _, rfl, .inl rfl⟩)
    | invalid e => exact .inr (.inl ⟨rfl, _, rfl⟩)
  | descs idx vds =>
    by_cases hlong : vtsockMaxsegs < vds.length
    · simp only [if_pos hlong]
      exact .inr (.inr ⟨trivial, _, rfl, .inr (.inr rfl)⟩)
    · simp only [if_neg hlong]
      cases hpull : iovecPull sc.mem true (vds.map (vqRecord sc.ram)) sizeofHdr with
      | error f =>
        have hf := iovecPull_error hpull
        exact .inr (.inr ⟨rfl, f, rfl, .inl hf⟩)
      | ok p =>
        by_cases hres : p.res ≠ sizeofHdr
        · refine .inr (.inr ⟨by simp [hres], .shortHeader, ?_, .inr (.inl rfl)⟩)
          simp [bind, Except.bind, hres]
        · refine .inl ⟨⟨idx, .ofBytes p.data, p.iov, vq⟩, by simp [hres], ?_⟩
          simp [bind, Except.bind, hres]

theorem procTx_of_nextPacket {h : TxHost} {k : TxPacket} (hk : nextPacket sc = some k) :
    pciVtsockProcTx h sc = procPacket h { sc with vqTx := k.vq } k.idx k.hdr k.iov := by
  rcases procTx_cases h sc with ⟨k', hk', he⟩ | ⟨hnone, -⟩ | ⟨hnone, -⟩
  · rw [hk] at hk'
    cases hk'
    exact he
  all_goals
    rw [hk] at hnone
    cases hnone

/-- Results of the host calls of one `handle_connect_fd`. The request is what
reading and scanning the `cid.port` line gave, if it gave anything. -/
structure AcceptHost where
  accept : Int
  request : Option (UInt64 × UInt32)
  opts : SockoptHost
  deriving DecidableEq, Repr

/-- The synthesized port of a host-initiated connection: slot and generation. -/
def hostPort (i : SockId) (generation : UInt16) : UInt32 :=
  (UInt32.ofNat (i.val + 1) <<< 16) + generation.toUInt32

/-- Where the accepted connection wants to go: the wildcard listener reads it from the client. -/
def connectTarget (h : AcceptHost) (cid : UInt64) (port : UInt32) : Option (UInt64 × UInt32) :=
  if cid = vmaddrCidAny then h.request else some (cid, port)

def handleConnectFd (h : AcceptHost) (sc : PciVtsockSoftc) (cid : UInt64) (port : UInt32) :
    Except Fault PciVtsockSoftc :=
  if h.accept < 0 then .ok sc
  else if fdSetsize ≤ h.accept then .ok ((sc.closeFd h.accept).closeFd h.accept)
  else match connectTarget h cid port with
    | none => .ok (sc.closeFd h.accept)
    | some (cid, port) =>
      if vmaddrCidMax ≤ cid ∨ cid ≠ sc.guestCid then .ok (sc.closeFd h.accept)
      else match allocSock sc with
        | none => .ok (sc.closeFd h.accept)
        | some (i, sc) =>
          let generation := (sc.socks i).portGeneration + 1
          let s := { sc.socks i with
            fd := h.accept
            peerAddr := ⟨cid, port⟩
            portGeneration := generation
            localAddr := ⟨vmaddrCidHost, hostPort i generation⟩ }
          match setSocketOptions h.opts s with
          | (false, s) => .ok ((freeSock (sc.setSock i s) i).closeFd h.accept)
          | (true, s) => sendResponseSock (sc.setSock i s) virtioVsockOpRequest 0 i

/-- The sock of a host-initiated connection. -/
def acceptedSock (i : SockId) (s : PciVtsockSock) (fd : Int) (cid : UInt64) (port alloc : UInt32) :
    PciVtsockSock :=
  { s with
    fd
    peerAddr := ⟨cid, port⟩
    portGeneration := s.portGeneration + 1
    localAddr := ⟨vmaddrCidHost, hostPort i (s.portGeneration + 1)⟩
    bufAlloc := alloc }

/-- The allocated sock filled in by `handle_connect_fd`. -/
def accepted (sc : PciVtsockSoftc) (i : SockId) (rest : List SockId) (fd : Int) (cid : UInt64)
    (port alloc : UInt32) : PciVtsockSoftc :=
  (allocated sc i rest).setSock i
    (acceptedSock i ((allocated sc i rest).socks i) fd cid port alloc)

/-- The ways out of `handle_connect_fd`: declined, given up, or a REQUEST to the guest. -/
theorem handleConnectFd_cases (h : AcceptHost) (sc : PciVtsockSoftc) (cid : UInt64) (port : UInt32) :
    (∃ closed, handleConnectFd h sc cid port = .ok { sc with closed }) ∨
    ∃ i rest port' alloc, sc.freeList = i :: rest ∧ 0 ≤ h.accept ∧
      connectTarget h cid port = some (sc.guestCid, port') ∧
      ((h.opts.ok = false ∧ handleConnectFd h sc cid port =
          .ok ((freeSock (accepted sc i rest h.accept sc.guestCid port' alloc) i).closeFd
            h.accept)) ∨
        (h.opts.ok ∧ handleConnectFd h sc cid port =
          sendResponseSock (accepted sc i rest h.accept sc.guestCid port' alloc)
            virtioVsockOpRequest 0 i)) := by
  unfold handleConnectFd
  split
  · exact .inl ⟨_, rfl⟩
  split
  · exact .inl ⟨_, rfl⟩
  split
  · exact .inl ⟨_, rfl⟩
  rename_i cid' port' htarget
  split
  · exact .inl ⟨_, rfl⟩
  rename_i hcid
  have hguest : cid' = sc.guestCid := by
    by_contra hne
    exact hcid (.inr hne)
  subst hguest
  split
  · exact .inl ⟨_, rfl⟩
  rename_i i sc₁ halloc
  obtain ⟨rest, hfree, rfl⟩ := allocSock_cases halloc
  refine .inr ⟨i, rest, port', ?_⟩
  dsimp only
  split
  · rename_i s hopts
    obtain ⟨hok, alloc, rfl, -⟩ := setSocketOptions_cases hopts
    refine ⟨alloc, hfree, by omega, htarget, .inl ⟨hok.symm, ?_⟩⟩
    simp [accepted, acceptedSock, resetSock]
  · rename_i s hopts
    obtain ⟨hok, alloc, rfl, -⟩ := setSocketOptions_cases hopts
    refine ⟨alloc, hfree, by omega, htarget, .inr ⟨hok.symm, ?_⟩⟩
    simp [accepted, acceptedSock, resetSock]

/-- Result of `readv`; no bytes is end of file. -/
inductive ReadResult
  | read (bs : List UInt8)
  | eagain
  | error
  deriving DecidableEq, Repr

structure RxHost where
  readv : ReadResult
  shutdown : ShutdownResult
  now : Int
  deriving DecidableEq, Repr

/-- The data header `pci_vtsock_proc_rx` prepares, before the length is known. -/
def rxHeader (s : PciVtsockSock) : VirtioSockHdr :=
  { srcCid := s.localAddr.cid, srcPort := s.localAddr.port
    dstCid := s.peerAddr.cid, dstPort := s.peerAddr.port
    len := 0, type := virtioVsockTypeStream, op := virtioVsockOpRw, flags := 0
    bufAlloc := s.bufAlloc, fwdCnt := s.fwdCnt }

def peerFree (s : PciVtsockSock) : UInt32 := s.peerBufAlloc - (s.rxCnt - s.peerFwdCnt)

/-- The local iovec array of a receive function: the chain's first entries. -/
def rxArray (sc : PciVtsockSoftc) (vds : List VirtioDesc) : List Iovec :=
  (vds.map (vqRecord sc.ram)).take vtsockMaxsegs

section ProcRx

variable (h : RxHost) (sc : PciVtsockSoftc) (i : SockId) (idx : UInt16) (base : ℕ)

/-- Hand the chain back with only the header filled in. -/
def rxFinish (hdr : VirtioSockHdr) (s : PciVtsockSock) (data : ℕ) : PciVtsockSoftc :=
  ({ sc.setSock i { s with creditUpdateRequired := false } with
      mem := storeBytes sc.mem base hdr.toBytes }).relRx idx (.ofNat (sizeofHdr + data))

/-- The `credit_update` exit of `pci_vtsock_proc_rx`. -/
def rxCreditUpdate : PciVtsockSoftc :=
  let s := sc.socks i
  let hdr := rxHeader s
  if s.creditUpdateRequired then
    rxFinish sc i idx base { hdr with op := virtioVsockOpCreditUpdate } s 0
  else { sc with mem := storeBytes sc.mem base hdr.toBytes, vqRx := vqRetchain sc.vqRx }

def rxReadError : Except Fault (Int × PciVtsockSoftc) := do
  let s := sc.socks i
  let sc := rxFinish sc i idx base { rxHeader s with op := virtioVsockOpRst } s 0
  let sc ← closeSock h.shutdown sc (some i)
  return (0, sc)

def rxEof : Except Fault (Int × PciVtsockSoftc) := do
  let s ← shutdownLocalSock h.now (sc.socks i) shutdownTx
  let hdr := { rxHeader s with op := virtioVsockOpShutdown, flags := s.localShutdown }
  return (0, rxFinish sc i idx base hdr s 0)

/-- Bytes arrived and were scattered over the chain. -/
def rxData (mem : HostMem) (len : ℕ) : Int × PciVtsockSoftc :=
  let s := sc.socks i
  let hdr := { rxHeader s with len := .ofNat len }
  (len, rxFinish { sc with mem } i idx base hdr { s with rxCnt := s.rxCnt + .ofNat len } len)

/-- `pci_vtsock_proc_rx` from the point where a chain is in hand. -/
def rxChain (vds : List VirtioDesc) : Except Fault (Int × PciVtsockSoftc) :=
  let s := sc.socks i
  if peerFree s = 0 then .ok (0, rxCreditUpdate sc i idx base)
  else do
    let p ← iovecPush sc.mem vds.length (rxArray sc vds) (rxHeader s).toBytes
    let iov ← iovecClip p.iovLen p.iov (peerFree s).toNat
    match h.readv with
    | .eagain => return (0, rxCreditUpdate sc i idx base)
    | .error => rxReadError h sc i idx base
    | .read bs =>
      let data := bs.take (iovTotal iov)
      if data = [] then rxEof h sc i idx base
      else match iovecPush p.mem iov.length iov data with
        | .error _ => rxReadError h sc i idx base
        | .ok q => return rxData sc i idx base q.mem data.length

end ProcRx

/-- Returns -1 without descriptors, else the number of bytes forwarded. -/
def pciVtsockProcRx (h : RxHost) (sc : PciVtsockSoftc) (i : SockId) :
    Except Fault (Int × PciVtsockSoftc) :=
  if (sc.socks i).fd < 0 then .error .badFd
  else if !vqHasDescs sc.vqRx then .ok (-1, sc)
  else match vqGetchain sc.vs sc.ram sc.mem sc.vqRx with
    | (.stop .segfault, _) => .error .segfault
    | (.empty, _) | (.stop (.invalid _), _) => .error .noChain
    | (.descs idx vds, vq) =>
      match rxArray sc vds with
      | [] => .error .noChain
      | v :: _ =>
        if v.iovLen < sizeofHdr then .error .shortHeader
        else match v.iovBase with
          | none => .error .segfault
          | some base => rxChain h { sc with vqRx := vq } i idx base vds

section Receive

variable {h : RxHost} {idx : UInt16} {base : ℕ} {vds : List VirtioDesc} {n : Int}

/-- What a receive may do to its sock, and the state changes it makes. -/
inductive Received (h : RxHost) (s : PciVtsockSock) :
    Int → PciVtsockSock → List (SockState × SockState) → Prop
  | idle {n : Int} (hn : n ≤ 0) : Received h s n s []
  | creditSent : Received h s 0 { s with creditUpdateRequired := false } []
  | reset (l : UInt32) : Received h s 0
      { s with
        creditUpdateRequired := false
        localShutdown := l
        peerShutdown := shutdownAll ||| s.peerShutdown
        state := .closingTx } [(s.state, .closingTx)]
  | eof {s' : PciVtsockSock} (hs : shutdownLocalSock h.now s shutdownTx = .ok s') :
      Received h s 0 { s' with creditUpdateRequired := false } []
  | data {len : ℕ} (hpos : 0 < len) (hfree : len ≤ (peerFree s).toNat) : Received h s len
        { s with rxCnt := s.rxCnt + .ofNat len, creditUpdateRequired := false } []

/-- Apart from its sock a receive touches guest memory and the receive queue only. -/
def ReceivedAs (h : RxHost) (sc : PciVtsockSoftc) (i : SockId) (n : Int)
    (sc' : PciVtsockSoftc) : Prop :=
  ∃ s' ms, Received h (sc.socks i) n s' ms ∧ sc' = { sc with
    socks := Function.update sc.socks i s'
    moves := sc.moves ++ ms.map fun m => (i, m)
    mem := sc'.mem
    vqRx := sc'.vqRx }

theorem received_creditUpdate : ReceivedAs h sc i 0 (rxCreditUpdate sc i idx base) := by
  unfold rxCreditUpdate
  dsimp only
  split
  · exact ⟨_, _, .creditSent, by simp [rxFinish, PciVtsockSoftc.setSock, PciVtsockSoftc.relRx]⟩
  · exact ⟨_, _, .idle (Int.le_refl 0), by simp⟩

theorem received_readError (hr : rxReadError h sc i idx base = .ok (n, sc')) :
    ReceivedAs h sc i n sc' := by
  simp only [rxReadError, Machine.bind_eq_ok] at hr
  obtain ⟨sc₂, hclose, hr⟩ := hr
  cases hr
  obtain ⟨l, rfl⟩ := closeSock_cases hclose
  refine ⟨_, _, .reset l, ?_⟩
  simp [rxFinish, PciVtsockSoftc.setState, PciVtsockSoftc.setSock, PciVtsockSoftc.relRx]

theorem received_eof (hr : rxEof h sc i idx base = .ok (n, sc')) : ReceivedAs h sc i n sc' := by
  simp only [rxEof, Machine.bind_eq_ok] at hr
  obtain ⟨s, hs, hr⟩ := hr
  cases hr
  exact ⟨_, _, .eof hs, by simp [rxFinish, PciVtsockSoftc.setSock, PciVtsockSoftc.relRx]⟩

theorem received_chain (hr : rxChain h sc i idx base vds = .ok (n, sc')) :
    ReceivedAs h sc i n sc' := by
  unfold rxChain at hr
  dsimp only at hr
  split at hr
  · cases hr
    exact received_creditUpdate
  · rw [Machine.bind_eq_ok] at hr
    obtain ⟨p, -, hr⟩ := hr
    rw [Machine.bind_eq_ok] at hr
    obtain ⟨iov, hclip, hr⟩ := hr
    split at hr
    · cases hr
      exact received_creditUpdate
    · exact received_readError hr
    · split at hr
      · exact received_eof hr
      · rename_i hdata
        split at hr
        · exact received_readError hr
        · cases hr
          have hkept := iovTotal_clip_le hclip
          have hpos := List.length_pos_iff.mpr hdata
          refine ⟨_, _, .data hpos ?_, ?_⟩
          · rw [List.length_take]
            omega
          · simp [rxFinish, PciVtsockSoftc.setSock, PciVtsockSoftc.relRx]

/-- Every successful `pci_vtsock_proc_rx` is one of these receives. -/
theorem received_procRx (hr : pciVtsockProcRx h sc i = .ok (n, sc')) : ReceivedAs h sc i n sc' := by
  unfold pciVtsockProcRx at hr
  split_ifs at hr
  · cases hr
    exact ⟨_, _, .idle (by decide), by simp⟩
  · split at hr
    any_goals cases hr
    split at hr
    any_goals cases hr
    split_ifs at hr
    split at hr
    any_goals cases hr
    obtain ⟨s', ms, hrec, he⟩ := received_chain hr
    exact ⟨s', ms, hrec, he⟩

end Receive

/-- True if there is more to do. -/
def rxDoOneReply (sc : PciVtsockSoftc) : Except Fault (Bool × PciVtsockSoftc) :=
  if replyRingEmpty sc then .ok (false, sc)
  else
    let slot := sc.replyCons
    let hdr := sc.replyRing slot
    let sc := { sc with
      replyCons := nextSlot slot
      delivered := sc.delivered ++ [hdr] }
    match vqGetchain sc.vs sc.ram sc.mem sc.vqRx with
    | (.stop .segfault, _) => .error .segfault
    | (.empty, _) | (.stop (.invalid _), _) => .error .noChain
    | (.descs idx vds, vq) => do
      let p ← iovecPush sc.mem vds.length (rxArray sc vds) hdr.toBytes
      if p.res ≠ sizeofHdr then .error .shortHeader
      else
        let sc := ({ sc with vqRx := vq, mem := p.mem }).relRx idx (.ofNat sizeofHdr)
        return (!replyRingEmpty sc, sc)

/-- True on success, false if there is no descriptor. -/
def sendCreditUpdate (sc : PciVtsockSoftc) (i : SockId) : Except Fault (Bool × PciVtsockSoftc) :=
  let s := sc.socks i
  if s.fd < 0 then .error .badFd
  else if !vqHasDescs sc.vqRx then .ok (false, sc)
  else match vqGetchain sc.vs sc.ram sc.mem sc.vqRx with
    | (.stop .segfault, _) => .error .segfault
    | (.empty, _) | (.stop (.invalid _), _) => .error .noChain
    | (.descs idx vds, vq) =>
      match rxArray sc vds with
      | [] => .error .noChain
      | v :: _ =>
        if v.iovLen < sizeofHdr then .error .shortHeader
        else match v.iovBase with
          | none => .error .segfault
          | some base =>
            let hdr := { rxHeader s with op := virtioVsockOpCreditUpdate }
            .ok (true, ({ sc with vqRx := vq, mem := storeBytes sc.mem base hdr.toBytes }).relRx
              idx (.ofNat sizeofHdr))

end HyperCog.Vsock
