import HyperCog.Virtio.Bounds
import HyperCog.Vsock.Iovec

/-!
The request side of the 9p device: a chain is scanned into readable and writable
segments, a slot is taken for the answer, and the request goes to the server.
-/
namespace HyperCog.P9

open Virtio

def bufsize : ℕ := 2 ^ 18
def maxdesc : ℕ := bufsize / 4096 + 4
def vt9pRingsz : ℕ := bufsize / 4096 * 4

/-- An outstanding request: the segments for its answer, and its tags. -/
structure PciVt9pOut where
  wiov : List Iovec
  inuse : Bool
  tag : UInt16
  idx : UInt16
  otag : UInt16
  deriving DecidableEq, Repr

structure PciVt9pSoftc where
  vs : VirtioSoftc
  ram : GuestRam
  mem : HostMem
  vq : VqueueInfo
  out : ℕ → PciVt9pOut
  inflight : Int

/-- Why a call does not return: a null pointer, an access past the entries of a local array that
`vq_getchain` filled in, an `_exit`, or a `writev` that has not returned yet. -/
inductive Fault
  | segfault
  | iovOverrun
  | ringFull
  | serverGone
  | writing
  deriving DecidableEq, Repr

/-- Entries of the local `iov` and `flags` arrays, which are filled together. -/
abbrev Entry := Iovec × UInt16

def isWrite (e : Entry) : Bool := e.2 &&& vringDescFWrite ≠ 0

/-- The entries that `vq_getchain` fills in, at most `MAXDESC`. -/
def filled (ram : GuestRam) (vds : List VirtioDesc) : List Entry :=
  (vds.take maxdesc).map fun vd => (vqRecord ram vd, vd.vdFlags)

/-- The counters of the scan loop; `wiov` is the index of the first writable entry. -/
structure Scan where
  nread : ℕ
  nwrite : ℕ
  readbytes : ℕ
  wiov : Option ℕ
  deriving DecidableEq, Repr

/-- The body of the scan loop at index `i`. -/
def Scan.visit (s : Scan) (i : ℕ) (e : Entry) : Scan :=
  let t :=
    if isWrite e then { s with nwrite := s.nwrite + 1 }
    else if s.nwrite = 0 then
      { s with nread := s.nread + 1, readbytes := s.readbytes + e.1.iovLen }
    else s
  if s.wiov = none ∧ isWrite e then { t with wiov := some i } else t

/-- The scan loop from index `i` on, with `left` more turns to make and the entries that are left. -/
def scanLoop : (left : ℕ) → (i : ℕ) → List Entry → Scan → Except Fault Scan
  | 0, _, _, s => .ok s
  | _ + 1, _, [], _ => .error .iovOverrun
  | left + 1, i, e :: es, s => scanLoop left (i + 1) es (s.visit i e)

def scan (nvec : ℕ) (es : List Entry) : Except Fault Scan := scanLoop nvec 0 es ⟨0, 0, 0, none⟩

/-- What the header of the request says, and guest memory after the fix-up of its lengths. -/
structure Header where
  mem : HostMem
  tag : UInt16
  otag : UInt16

def tflush : UInt8 := 108
def twrite : UInt8 := 118

/-- The two lengths of a Twrite are made to fit the readable segments. -/
def fixup (m : HostMem) (b readbytes : ℕ) : HostMem :=
  let len := leValue (bytesAt m b 4)
  let wlen := leValue (bytesAt m (b + 19) 4)
  let m := if readbytes ≠ len then storeBytes m b (leDigits readbytes 4) else m
  let rest := (readbytes + (2 ^ 64 - 23)) % 2 ^ 64
  if wlen ≠ rest then storeBytes m (b + 19) (leDigits rest 4) else m

/-- The header is looked at only if it lies in the first segment. -/
def header (m : HostMem) (v : Iovec) (readbytes : ℕ) : Except Fault Header :=
  if v.iovLen < 7 then .ok ⟨m, 0, 0⟩
  else match v.iovBase with
    | none => .error .segfault
    | some b =>
      let command := m (b + 4)
      let tag := .ofNat (leValue (bytesAt m (b + 5) 2))
      let otag := if command = tflush ∧ 9 ≤ v.iovLen then .ofNat (leValue (bytesAt m (b + 7) 2)) else 0
      .ok ⟨if command = twrite ∧ 23 ≤ v.iovLen then fixup m b readbytes else m, tag, otag⟩

/-- The first slot that is not in use. -/
def freeSlot (out : ℕ → PciVt9pOut) : Option ℕ :=
  (List.range vt9pRingsz).find? fun i => !(out i).inuse

/-- The `memcpy` of `nwrite` entries from the first writable one on. -/
def answerSegs (es : List Entry) (s : Scan) : Except Fault (List Iovec) :=
  match s.wiov with
  | none => .ok []
  | some w =>
    if es.length < w + s.nwrite then .error .iovOverrun
    else .ok (((es.drop w).take s.nwrite).map Prod.fst)

/-- The inner loop after a partial write: segments written in full are passed, and the one where
the write stopped is cut. The list holds the entries from the cursor on. -/
def passWritten : List Iovec → ℕ → Except Fault (List Iovec)
  | [], _ => .error .iovOverrun
  | v :: vs, n => if v.iovLen ≤ n then passWritten vs (n - v.iovLen) else .ok (Vsock.advance v n :: vs)

/-- What is left of the request, which is a `size_t`. -/
def leftAfter (readbytes n : ℕ) : ℕ := (readbytes + (2 ^ 64 - n % 2 ^ 64)) % 2 ^ 64

/-- A `writev`: the segments it was given and the number of bytes it took. -/
abbrev Writev := List Iovec × ℕ

/-- The loop that forwards the request. Each `writev` is given `nread` entries from the cursor on;
its result is the next of `ns`, where 0 stands for an error as well. -/
def writeLoop (nread : ℕ) : (ns : List ℕ) → List Iovec → (readbytes : ℕ) → Except Fault (List Writev)
  | ns, iov, readbytes =>
    if readbytes = 0 then .ok []
    else if iov.length < nread then .error .iovOverrun
    else match ns with
      | [] => .error .writing
      | n :: ns =>
        if n = 0 then .error .serverGone
        else
          let left := leftAfter readbytes n
          let call : Writev := (iov.take nread, n)
          if left = 0 then .ok [call]
          else do
            let iov ← passWritten iov n
            let calls ← writeLoop nread ns iov left
            return call :: calls

/-- `pci_vt9p_notify` once a chain of `nvec` descriptors is in hand. -/
def notifyChain (ns : List ℕ) (sc : PciVt9pSoftc) (idx : UInt16) (nvec : ℕ) (es : List Entry) :
    Except Fault (List Writev × PciVt9pSoftc) := do
  let s ← scan nvec es
  let hdr ← match es with
    | [] => .error .iovOverrun
    | e :: _ => header sc.mem e.1 s.readbytes
  let some slot := freeSlot sc.out | .error .ringFull
  let wiov ← answerSegs es s
  let sc := { sc with
    mem := hdr.mem
    inflight := sc.inflight + 1
    out := Function.update sc.out slot ⟨wiov, true, hdr.tag, idx, hdr.otag⟩ }
  let calls ← writeLoop s.nread ns (es.map Prod.fst) s.readbytes
  return (calls, sc)

/-- `pci_vt9p_notify`; `connected` is whether the lazily opened socket is there. -/
def pciVt9pNotify (connected : Bool) (ns : List ℕ) (sc : PciVt9pSoftc) :
    Except Fault (List Writev × PciVt9pSoftc) :=
  if !connected then
    .ok ([], { sc with vs := (vqEndchains sc.vs sc.vq false).1, vq := (vqEndchains sc.vs sc.vq false).2 })
  else match vqGetchain sc.vs sc.ram sc.mem sc.vq with
    | (.stop .segfault, _) => .error .segfault
    | (.empty, vq) | (.stop (.invalid _), vq) => .ok ([], { sc with vq })
    | (.descs idx vds, vq) => notifyChain ns { sc with vq } idx vds.length (filled sc.ram vds)

end HyperCog.P9
