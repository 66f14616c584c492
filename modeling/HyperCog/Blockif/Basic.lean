import HyperCog.Virtio.Memory
import Mathlib.Data.Int.Basic

/-! Requests, contexts and error numbers of the block interface. -/
namespace HyperCog.Blockif

open Virtio

def blockifNumthr : ℕ := 1
def blockifMaxreq : ℕ := 128 + blockifNumthr
def blockifIovMax : ℕ := 128 - 2

/-- `OFF_MAX`, what a flush waits behind. -/
def offMax : Int64 := Int64.maxValue

inductive Blockop
  | read
  | write
  | flush
  | delete
  deriving DecidableEq, Repr

/-- The error numbers that the block code names; a failed call may report any other. -/
inductive Errno
  | eopnotsupp
  | enosys
  | erofs
  | e2big
  | einval
  | ebusy
  | other (n : ℕ)
  deriving DecidableEq, Repr

/-- `struct blockif_req`. The iovec count is the length of the list. -/
structure BlockifReq where
  brIov : List Iovec
  brOffset : Int64
  brResid : ℤ
  deriving DecidableEq, Repr

/-- What `blockif_open` fixes for the life of a context. -/
structure BlockifCtxt where
  bcFd : ℤ
  bcMbh : ℤ
  bcIschr : Bool
  bcIsgeom : Bool
  bcCandelete : Bool
  bcRdonly : Bool
  bcSize : Int64
  bcSectsz : ℕ
  bcDeleteAlignment : UInt64
  deriving DecidableEq, Repr

/-- The branches of the preprocessor that `block_delete` is compiled with. -/
inductive Platform
  | freebsd
  | apple
  | other
  deriving DecidableEq, Repr

structure Build where
  platform : Platform
  haveOcamlQcow : Bool
  maxphys : ℕ
  maxphys_pos : 0 < maxphys

/-- Every way the block code kills the process. -/
inductive Fault
  /-- `abort` on a context without a handle -/
  | noHandle
  /-- `res == offset` after a seek -/
  | seekFailed
  /-- the assertions of `block_delete` on its range -/
  | deleteRange
  /-- an index past the segments of the request -/
  | iovOverrun
  | segfault
  deriving DecidableEq, Repr

/-- Bytes in the data segments of a request. -/
def iovecLen (iov : List Iovec) : ℕ := (iov.map Iovec.iovLen).sum

@[simp] theorem iovecLen_nil : iovecLen [] = 0 := rfl

@[simp] theorem iovecLen_cons (v : Iovec) (vs : List Iovec) :
    iovecLen (v :: vs) = v.iovLen + iovecLen vs := by
  simp [iovecLen]

end HyperCog.Blockif
