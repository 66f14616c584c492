import HyperCog.Virtio.Memory

/-! Constants, packet header, addresses and the assertions of the vsock backend. -/
namespace HyperCog.Vsock

open Virtio

def vtsockRingsz : ℕ := 256
def vtsockMaxsegs : ℕ := 32
def vtsockMaxsocks : ℕ := 1024
def vtsockReplyringsz : ℕ := 2 * vtsockRingsz
def writeBufLength : UInt32 := 128 * 1024
def shutdownRstDelay : Int := 30
def fdSetsize : Int := 1024

def vmaddrCidAny : UInt64 := 0xffffffff
def vmaddrCidHost : UInt64 := 2
def vmaddrCidMax : UInt64 := 0xffffffff

def virtioVsockTypeStream : UInt16 := 1

def virtioVsockOpInvalid : UInt16 := 0
def virtioVsockOpRequest : UInt16 := 1
def virtioVsockOpResponse : UInt16 := 2
def virtioVsockOpRst : UInt16 := 3
def virtioVsockOpShutdown : UInt16 := 4
def virtioVsockOpRw : UInt16 := 5
def virtioVsockOpCreditUpdate : UInt16 := 6
def virtioVsockOpCreditRequest : UInt16 := 7

/-- The peer will receive nothing more. -/
def shutdownRx : UInt32 := 1
/-- The peer will transmit nothing more. -/
def shutdownTx : UInt32 := 2
def shutdownAll : UInt32 := 3

structure VsockAddr where
  cid : UInt64
  port : UInt32
  deriving DecidableEq, Repr

structure VirtioSockHdr where
  srcCid : UInt64
  dstCid : UInt64
  srcPort : UInt32
  dstPort : UInt32
  len : UInt32
  type : UInt16
  op : UInt16
  flags : UInt32
  bufAlloc : UInt32
  fwdCnt : UInt32
  deriving DecidableEq, Repr

def sizeofHdr : ℕ := 44

/-- The packed little-endian layout of the header. -/
def VirtioSockHdr.ofBytes (bs : List UInt8) : VirtioSockHdr where
  srcCid := .ofNat (leValue (bs.take 8))
  dstCid := .ofNat (leValue ((bs.drop 8).take 8))
  srcPort := .ofNat (leValue ((bs.drop 16).take 4))
  dstPort := .ofNat (leValue ((bs.drop 20).take 4))
  len := .ofNat (leValue ((bs.drop 24).take 4))
  type := .ofNat (leValue ((bs.drop 28).take 2))
  op := .ofNat (leValue ((bs.drop 30).take 2))
  flags := .ofNat (leValue ((bs.drop 32).take 4))
  bufAlloc := .ofNat (leValue ((bs.drop 36).take 4))
  fwdCnt := .ofNat (leValue ((bs.drop 40).take 4))

def VirtioSockHdr.toBytes (h : VirtioSockHdr) : List UInt8 :=
  leDigits h.srcCid.toNat 8 ++ leDigits h.dstCid.toNat 8 ++ leDigits h.srcPort.toNat 4 ++
    leDigits h.dstPort.toNat 4 ++ leDigits h.len.toNat 4 ++ leDigits h.type.toNat 2 ++
    leDigits h.op.toNat 2 ++ leDigits h.flags.toNat 4 ++ leDigits h.bufAlloc.toNat 4 ++
    leDigits h.fwdCnt.toNat 4

def VirtioSockHdr.srcAddr (h : VirtioSockHdr) : VsockAddr := ⟨h.srcCid, h.srcPort⟩
def VirtioSockHdr.dstAddr (h : VirtioSockHdr) : VsockAddr := ⟨h.dstCid, h.dstPort⟩

/-- Every way the backend process dies: a failed `assert`, an `abort`, a wild access. -/
inductive Fault
  | segfault
  /-- an index past the local iovec array -/
  | iovOverrun
  /-- `iovec_len <= VTSOCK_MAXSEGS` -/
  | chainTooLong
  /-- `iovec_len >= 1` -/
  | noChain
  /-- the header was not copied whole, or the first buffer cannot hold one -/
  | shortHeader
  /-- the arguments of `send_response_common` -/
  | replyArgs
  /-- `!REPLY_RING_EMPTY(sc)` after queueing a reply -/
  | replyRingOverflow
  /-- the mode arguments of the shutdown functions -/
  | shutdownMode
  /-- `shutdown` failed with anything but ENOTCONN -/
  | shutdownFailed
  /-- the same, after the transmit chain with this head was handed back -/
  | abortReleased (idx : UInt16)
  /-- `local_shutdown != VIRTIO_VSOCK_FLAG_SHUTDOWN_ALL` -/
  | alreadyShutdown
  /-- `pulled == num` -/
  | pulledShort
  /-- `nr == len` -/
  | bufferedShort
  /-- `iov_len == 0` -/
  | bufferLeftover
  /-- `sock_is_buffering` and `head < tail` on entry to a drain -/
  | notBuffering
  /-- `s->fd >= 0` -/
  | badFd
  /-- a closing sock has been shut down in full on one side -/
  | notShutdown
  /-- `credit_update_required == false` after a receive -/
  | creditPending
  deriving DecidableEq, Repr

end HyperCog.Vsock
