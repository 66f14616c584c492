import HyperCog.Blockif.Basic

/-!
The backing store: what `block_preadv`, `block_pwritev`, `block_delete` and `block_flush`
ask of the host, and how `blockif_proc` serves one request with them.
-/
namespace HyperCog.Blockif

open Virtio

/-- A call on the file, the character device or the qcow image behind a context. -/
inductive StoreCall
  | readv (offset : Int64) (iov : List Iovec)
  | writev (offset : Int64) (iov : List Iovec)
  | miragePreadv (offset : Int64) (iov : List Iovec)
  | miragePwritev (offset : Int64) (iov : List Iovec)
  /-- zeroes from `bc_delete_zero_buf` -/
  | pwrite (offset : UInt64) (len : UInt64)
  | punchhole (offset : UInt64) (len : UInt64)
  | diocgdelete (offset : Int64) (len : ℤ)
  | mirageDelete (offset : Int64) (len : ℤ)
  | fsync
  | synchronizeCache
  | mirageFlush
  deriving DecidableEq, Repr

/-- The call can change what the store holds. -/
def StoreCall.modifies : StoreCall → Bool
  | .writev _ _ | .miragePwritev _ _ | .pwrite _ _ | .punchhole _ _ | .diocgdelete _ _
  | .mirageDelete _ _ => true
  | .readv _ _ | .miragePreadv _ _ | .fsync | .synchronizeCache | .mirageFlush => false

/-- The bytes a transfer asks for. -/
def StoreCall.size : StoreCall → ℕ
  | .readv _ iov | .writev _ iov | .miragePreadv _ iov | .miragePwritev _ iov => iovecLen iov
  | .pwrite _ len | .punchhole _ len => len.toNat
  | .diocgdelete _ _ | .mirageDelete _ _ | .fsync | .synchronizeCache | .mirageFlush => 0

/-- A call fails and sets `errno`, or returns a count. -/
inductive StoreResult
  | fail (e : Errno)
  | count (n : ℕ)
  deriving DecidableEq, Repr

/-- The host's answers while one request is served. No transfer moves more than was asked. -/
structure Host where
  seek : Int64 → Int64
  answer : StoreCall → StoreResult
  count_le : ∀ c n, answer c = .count n → n ≤ c.size

/-- The calls made so far with their answers, and the thread's `errno`. -/
structure Store where
  log : List (StoreCall × StoreResult)
  errno : Option Errno
  deriving DecidableEq, Repr

abbrev StoreM := StateT Store (Except Fault)

def fault {α : Type} (f : Fault) : StoreM α := fun _ => .error f

/-- One call; `none` is the return value -1. -/
def issue (h : Host) (c : StoreCall) : StoreM (Option ℕ) := fun s =>
  match h.answer c with
  | .fail e => .ok (none, ⟨s.log ++ [(c, .fail e)], some e⟩)
  | .count n => .ok (some n, ⟨s.log ++ [(c, .count n)], s.errno⟩)

def getErrno : StoreM (Option Errno) := fun s => .ok (s.errno, s)

def setErrno (e : Errno) : StoreM Unit := fun s => .ok ((), { s with errno := some e })

/-- `_preadv` and `_pwritev`: seek, then transfer. -/
def seekThen (h : Host) (offset : Int64) (c : StoreCall) : StoreM (Option ℕ) :=
  if h.seek offset = offset then issue h c else fault .seekFailed

def blockPreadv (b : Build) (bc : BlockifCtxt) (h : Host) (iov : List Iovec) (offset : Int64) :
    StoreM (Option ℕ) :=
  if 0 ≤ bc.bcFd then seekThen h offset (.readv offset iov)
  else if b.haveOcamlQcow ∧ 0 ≤ bc.bcMbh then issue h (.miragePreadv offset iov)
  else fault .noHandle

def blockPwritev (b : Build) (bc : BlockifCtxt) (h : Host) (iov : List Iovec) (offset : Int64) :
    StoreM (Option ℕ) :=
  if 0 ≤ bc.bcFd then seekThen h offset (.writev offset iov)
  else if b.haveOcamlQcow ∧ 0 ≤ bc.bcMbh then issue h (.miragePwritev offset iov)
  else fault .noHandle

def alignup (x a : UInt64) : UInt64 := ((x - 1) &&& ~~~(a - 1)) + a
def aligndown (x a : UInt64) : UInt64 := (0 - a) &&& x

/-- What is left of a range as `block_delete` works through it; `none` is `goto out`. -/
abbrev Rest := Option (UInt64 × UInt64)

/-- The next stage of `block_delete`, unless the one before went out. -/
def unlessOut {α β : Type} (m : StoreM (Option α)) (f : α → StoreM (Option β)) :
    StoreM (Option β) := do
  match ← m with
  | none => pure none
  | some a => f a

/-- Zeroes up to the first aligned offset. -/
def zeroHead (h : Host) (a : UInt64) (fpOffset fpLength : UInt64) : StoreM Rest :=
  let alignedOffset := alignup fpOffset a
  if alignedOffset ≠ fpOffset then
    let lenToZero := min fpLength (alignedOffset - fpOffset)
    if lenToZero < a then
      unlessOut (issue h (.pwrite fpOffset lenToZero)) fun _ =>
        pure (some (fpOffset + lenToZero, fpLength - lenToZero))
    else fault .deleteRange
  else pure (some (fpOffset, fpLength))

/-- Punches the aligned middle out. -/
def punchMiddle (h : Host) (a : UInt64) (fpOffset fpLength : UInt64) : StoreM Rest :=
  let alignedLength := aligndown fpLength a
  if a ≤ alignedLength then
    if fpOffset % a = 0 then
      unlessOut (issue h (.punchhole fpOffset alignedLength)) fun _ =>
        pure (some (fpOffset + alignedLength, fpLength - alignedLength))
    else fault .deleteRange
  else pure (some (fpOffset, fpLength))

/-- Zeroes what is left after the last aligned offset. -/
def zeroTail (h : Host) (a : UInt64) (fpOffset fpLength : UInt64) : StoreM (Option ℕ) :=
  if 0 < fpLength then
    if fpLength < a ∧ fpOffset % a = 0 then
      unlessOut (issue h (.pwrite fpOffset fpLength)) fun _ => pure (some 0)
    else fault .deleteRange
  else pure (some 0)

/-- The `__APPLE__` branch of `block_delete` on a descriptor. -/
def blockDeleteApple (bc : BlockifCtxt) (h : Host) (offset : Int64) (len : ℤ) : StoreM (Option ℕ) :=
  if 0 ≤ offset.toInt ∧ 0 ≤ len then
    unlessOut (zeroHead h bc.bcDeleteAlignment offset.toUInt64 (.ofNat len.toNat)) fun mid =>
      unlessOut (punchMiddle h bc.bcDeleteAlignment mid.1 mid.2) fun tail =>
        zeroTail h bc.bcDeleteAlignment tail.1 tail.2
  else fault .deleteRange

/-- The platform branch of `block_delete`, after the branch for qcow images. -/
def blockDeletePlatform (b : Build) (bc : BlockifCtxt) (h : Host) (offset : Int64) (len : ℤ) :
    StoreM (Option ℕ) :=
  match b.platform with
  | .freebsd =>
    if 0 ≤ bc.bcFd ∧ bc.bcIschr then do
      let ret ← issue h (.diocgdelete offset len)
      setErrno .eopnotsupp
      pure ret
    else pure none
  | .apple => if 0 ≤ bc.bcFd then blockDeleteApple bc h offset len else pure none
  | .other => do
    setErrno .eopnotsupp
    pure none

/-- The tests at the head of `block_delete`. They only choose an `errno`. -/
def deleteErrno (bc : BlockifCtxt) : StoreM Unit :=
  if !bc.bcCandelete then setErrno .eopnotsupp
  else if bc.bcRdonly then setErrno .erofs
  else pure ()

def blockDelete (b : Build) (bc : BlockifCtxt) (h : Host) (offset : Int64) (len : ℤ) :
    StoreM (Option ℕ) := do
  deleteErrno bc
  if b.haveOcamlQcow ∧ 0 ≤ bc.bcMbh then issue h (.mirageDelete offset len)
  else blockDeletePlatform b bc h offset len

def blockFlush (b : Build) (bc : BlockifCtxt) (h : Host) : StoreM (Option Errno) :=
  let sync (c : StoreCall) : StoreM (Option Errno) := do
    match ← issue h c with
    | none => getErrno
    | some _ => pure none
  if 0 ≤ bc.bcFd then
    if bc.bcIschr then sync .synchronizeCache else sync .fsync
  else if b.haveOcamlQcow ∧ 0 ≤ bc.bcMbh then sync .mirageFlush
  else fault .noHandle

/-- The inner loop of `blockif_proc`: `n` bytes move between the bounce buffer and the
segments, from `voff` bytes into the first. Returns where the next chunk starts. -/
def copyChunk : List Iovec → ℕ → ℕ → Except Fault (List Iovec × ℕ)
  | [], _, _ => .error .iovOverrun
  | v :: vs, voff, n =>
    let clen := min n (v.iovLen - voff)
    if clen ≠ 0 ∧ v.iovBase = none then .error .segfault
    else if clen < v.iovLen - voff then .ok (v :: vs, voff + clen)
    else if clen < n then copyChunk vs 0 (n - clen)
    else .ok (vs, 0)

def copyChunkM (iov : List Iovec) (voff n : ℕ) : StoreM (List Iovec × ℕ) := fun s =>
  match copyChunk iov voff n with
  | .error f => .error f
  | .ok p => .ok (p, s)

/-- The bounce buffer as a segment; its address plays no part. -/
def bounce (n : ℕ) : List Iovec := [⟨some 0, n⟩]

/-- The buffered read loop. Every turn moves a byte at least, so `fuel` is the residue. -/
def readLoop (b : Build) (bc : BlockifCtxt) (h : Host) :
    ℕ → List Iovec → ℕ → ℕ → BlockifReq → StoreM (Option Errno × BlockifReq)
  | 0, _, _, _, br => pure (none, br)
  | fuel + 1, iov, voff, off, br =>
    if br.brResid ≤ 0 then pure (none, br)
    else do
      let len := min br.brResid.toNat b.maxphys
      match ← blockPreadv b bc h (bounce len) (br.brOffset + .ofNat off) with
      | none => do
        let e ← getErrno
        pure (e, br)
      | some _ => do
        let (iov, voff) ← copyChunkM iov voff len
        readLoop b bc h fuel iov voff (off + len) { br with brResid := br.brResid - len }

/-- The buffered write loop. -/
def writeLoop (b : Build) (bc : BlockifCtxt) (h : Host) :
    ℕ → List Iovec → ℕ → ℕ → BlockifReq → StoreM (Option Errno × BlockifReq)
  | 0, _, _, _, br => pure (none, br)
  | fuel + 1, iov, voff, off, br =>
    if br.brResid ≤ 0 then pure (none, br)
    else do
      let len := min br.brResid.toNat b.maxphys
      let (iov, voff) ← copyChunkM iov voff len
      match ← blockPwritev b bc h (bounce len) (br.brOffset + .ofNat off) with
      | none => do
        let e ← getErrno
        pure (e, br)
      | some _ =>
        writeLoop b bc h fuel iov voff (off + len) { br with brResid := br.brResid - len }

/-- The thread has a bounce buffer only for GEOM devices, and uses it for several segments. -/
def buffered (bc : BlockifCtxt) (br : BlockifReq) : Bool := bc.bcIsgeom && 1 < br.brIov.length

/-- The unbuffered transfer: the count, however short, is taken off the residue. -/
def transfer (call : StoreM (Option ℕ)) (br : BlockifReq) : StoreM (Option Errno × BlockifReq) := do
  match ← call with
  | none => do
    let e ← getErrno
    pure (e, br)
  | some n => pure (none, { br with brResid := br.brResid - n })

/-- `blockif_proc` up to the callback: the error it passes on and the request as it leaves it. -/
def blockifProc (b : Build) (bc : BlockifCtxt) (h : Host) (op : Blockop) (br : BlockifReq) :
    StoreM (Option Errno × BlockifReq) :=
  match op with
  | .read =>
    if buffered bc br then readLoop b bc h br.brResid.toNat br.brIov 0 0 br
    else transfer (blockPreadv b bc h br.brIov br.brOffset) br
  | .write =>
    if bc.bcRdonly then pure (some .erofs, br)
    else if buffered bc br then writeLoop b bc h br.brResid.toNat br.brIov 0 0 br
    else transfer (blockPwritev b bc h br.brIov br.brOffset) br
  | .flush => do
    let e ← blockFlush b bc h
    pure (e, br)
  | .delete => do
    match ← blockDelete b bc h br.brOffset br.brResid with
    | none => do
      let e ← getErrno
      pure (e, br)
    | some _ => pure (none, { br with brResid := 0 })

/-- A host on which every call succeeds in full. -/
def willing : Host where
  seek := id
  answer c := .count c.size
  count_le := by
    rintro c n hn
    cases hn
    exact le_rfl

/-- A build for macOS without the OCaml image library. -/
def macBuild : Build := ⟨.apple, false, 65536, by decide⟩

end HyperCog.Blockif
