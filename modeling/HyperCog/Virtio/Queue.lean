import HyperCog.Virtio.Memory

/-!
The split virtqueue: descriptor table, avail ring and used ring in guest memory,
and the device's private indices. Every index is a free-running 16-bit counter.
-/
namespace HyperCog.Virtio

def vringDescFNext : UInt16 := 1
def vringDescFWrite : UInt16 := 2
def vringDescFIndirect : UInt16 := 4
def vringAvailFNoInterrupt : UInt16 := 1
def virtioFNotifyOnEmpty : UInt32 := (1 : UInt32) <<< 24
def virtioRingFIndirectDesc : UInt64 := (1 : UInt64) <<< 28
def virtioRingFEventIdx : UInt32 := (1 : UInt32) <<< 29
def vqAlloc : UInt16 := 1
def vtcfgIsrQueues : UInt8 := 1
def virtioMsiNoVector : UInt16 := 0xffff
def vqMaxDescriptors : ℕ := 512

structure VirtioDesc where
  vdAddr : UInt64
  vdLen : UInt32
  vdFlags : UInt16
  vdNext : UInt16
  deriving DecidableEq, Repr

/-- Slot `vq_qsize` of `vaRing` holds `used_event`. -/
structure VringAvail where
  vaFlags : UInt16
  vaIdx : UInt16
  vaRing : ℕ → UInt16

structure VirtioUsed where
  vuIdx : UInt32
  vuTlen : UInt32
  deriving DecidableEq, Repr

structure VringUsed where
  vuFlags : UInt16
  vuIdx : UInt16
  vuRing : ℕ → VirtioUsed

structure VqueueInfo where
  vqQsize : UInt16
  vqFlags : UInt16
  vqLastAvail : UInt16
  vqSaveUsed : UInt16
  vqMsixIdx : UInt16
  vqDesc : ℕ → VirtioDesc
  vqAvail : VringAvail
  vqUsed : VringUsed

/-- What `vq_interrupt` delivers. -/
inductive Interrupt
  | msix (idx : UInt16)
  | msi
  deriving DecidableEq, Repr

/-- The device-wide virtio state the queue functions read, with the interrupts raised so far. -/
structure VirtioSoftc where
  vcHvCaps : UInt64
  vsNegotiatedCaps : UInt32
  vsIsr : UInt8
  msixEnabled : Bool
  raised : List Interrupt
  deriving DecidableEq, Repr

def vqUsedEventIdx (vq : VqueueInfo) : UInt16 := vq.vqAvail.vaRing vq.vqQsize.toNat

def vqRingReady (vq : VqueueInfo) : Bool := vq.vqFlags &&& vqAlloc ≠ 0

def vqHasDescs (vq : VqueueInfo) : Bool :=
  vqRingReady vq && vq.vqLastAvail != vq.vqAvail.vaIdx

/-- The diagnostics after which `vq_getchain` returns -1. -/
inductive VqError
  | ndescOutOfRange
  | descriptorOutOfRange
  | forbiddenIndirect
  | invalidIndirLen
  | indirectIndirect
  | invalidNext
  | descriptorLoop
  deriving DecidableEq, Repr

/-- A walk ends early with a diagnostic, or in a null indirect table. -/
inductive WalkStop
  | invalid (e : VqError)
  | segfault
  deriving DecidableEq, Repr

/-- What `vq_getchain` reports: 0, -1, a crash, or the head and the real descriptors. -/
inductive Chain
  | empty
  | stop (w : WalkStop)
  | descs (idx : UInt16) (vds : List VirtioDesc)
  deriving DecidableEq, Repr

/-- Entry `i` of the indirect table at host address `base`. -/
def indirectDesc (m : HostMem) (base i : ℕ) : VirtioDesc where
  vdAddr := .ofNat (leValue (bytesAt m (base + 16 * i) 8))
  vdLen := .ofNat (leValue (bytesAt m (base + 16 * i + 8) 4))
  vdFlags := .ofNat (leValue (bytesAt m (base + 16 * i + 12) 2))
  vdNext := .ofNat (leValue (bytesAt m (base + 16 * i + 14) 2))

/-- The inner loop of `vq_getchain` over one indirect table. The recursion is
on how many more descriptors may be counted before the loop is called endless. -/
def walkIndirect (vindir : ℕ → VirtioDesc) (nIndir : ℕ) : ℕ → ℕ → Except WalkStop (List VirtioDesc)
  | room, next =>
    let vp := vindir next
    if vp.vdFlags &&& vringDescFIndirect ≠ 0 then .error (.invalid .indirectIndirect)
    else match room with
      | 0 => .error (.invalid .descriptorLoop)
      | room + 1 =>
        if vp.vdFlags &&& vringDescFNext = 0 then .ok [vp]
        else if nIndir ≤ vp.vdNext.toNat then .error (.invalid .invalidNext)
        else (walkIndirect vindir nIndir room vp.vdNext.toNat).map (vp :: ·)

/-- The outer loop of `vq_getchain`. Each turn counts at least one descriptor,
so the fuel only repeats the bound `room` on the descriptors still allowed. -/
def walkChain (vs : VirtioSoftc) (ram : GuestRam) (m : HostMem) (vq : VqueueInfo) :
    ℕ → ℕ → ℕ → Except WalkStop (List VirtioDesc)
  | 0, _, _ => .error (.invalid .descriptorLoop)
  | fuel + 1, room, next =>
    if room = 0 then .error (.invalid .descriptorLoop)
    else if vq.vqQsize.toNat ≤ next then .error (.invalid .descriptorOutOfRange)
    else
      let vdir := vq.vqDesc next
      let turn : Except WalkStop (List VirtioDesc) :=
        if vdir.vdFlags &&& vringDescFIndirect = 0 then .ok [vdir]
        else if vs.vcHvCaps &&& virtioRingFIndirectDesc = 0 then
          .error (.invalid .forbiddenIndirect)
        else if vdir.vdLen.toNat % 16 ≠ 0 ∨ vdir.vdLen.toNat / 16 = 0 then
          .error (.invalid .invalidIndirLen)
        else match paddrGuest2host ram vdir.vdAddr vdir.vdLen.toNat with
          | none => .error .segfault
          | some base => walkIndirect (indirectDesc m base) (vdir.vdLen.toNat / 16) room 0
      match turn with
      | .error e => .error e
      | .ok vds =>
        if vdir.vdFlags &&& vringDescFNext = 0 then .ok vds
        else (walkChain vs ram m vq fuel (room - vds.length) vdir.vdNext.toNat).map (vds ++ ·)

/-- `vq_getchain`, with all the real descriptors of the chain. The caller's
array receives the first `n_iov` of them, see `vqRecord`. -/
def vqGetchain (vs : VirtioSoftc) (ram : GuestRam) (m : HostMem) (vq : VqueueInfo) :
    Chain × VqueueInfo :=
  let idx := vq.vqLastAvail
  let ndesc := vq.vqAvail.vaIdx - idx
  if ndesc = 0 then (.empty, vq)
  else if vq.vqQsize < ndesc then (.stop (.invalid .ndescOutOfRange), vq)
  else
    let head := vq.vqAvail.vaRing (idx &&& (vq.vqQsize - 1)).toNat
    let vq' := { vq with vqLastAvail := idx + 1 }
    match walkChain vs ram m vq vqMaxDescriptors vqMaxDescriptors head.toNat with
    | .error e => (.stop e, vq')
    | .ok vds => (.descs head vds, vq')

/-- `_vq_record`: the iovec of one real descriptor. -/
def vqRecord (ram : GuestRam) (vd : VirtioDesc) : Iovec where
  iovBase := paddrGuest2host ram vd.vdAddr vd.vdLen.toNat
  iovLen := vd.vdLen.toNat

def vqRetchain (vq : VqueueInfo) : VqueueInfo :=
  { vq with vqLastAvail := vq.vqLastAvail - 1 }

def vqRelchain (vq : VqueueInfo) (idx : UInt16) (iolen : UInt32) : VqueueInfo :=
  let uidx := vq.vqUsed.vuIdx
  { vq with
    vqUsed := { vq.vqUsed with
      vuRing := Function.update vq.vqUsed.vuRing (uidx &&& (vq.vqQsize - 1)).toNat
        ⟨idx.toUInt32, iolen⟩
      vuIdx := uidx + 1 } }

def vqInterrupt (vs : VirtioSoftc) (vq : VqueueInfo) : VirtioSoftc :=
  if vs.msixEnabled then { vs with raised := vs.raised ++ [.msix vq.vqMsixIdx] }
  else { vs with vsIsr := vs.vsIsr ||| vtcfgIsrQueues, raised := vs.raised ++ [.msi] }

def vqEndchains (vs : VirtioSoftc) (vq : VqueueInfo) (usedAllAvail : Bool) :
    VirtioSoftc × VqueueInfo :=
  let oldIdx := vq.vqSaveUsed
  let newIdx := vq.vqUsed.vuIdx
  let vq' := { vq with vqSaveUsed := newIdx }
  let intr : Bool :=
    if usedAllAvail && vs.vsNegotiatedCaps &&& virtioFNotifyOnEmpty != 0 then true
    else if vs.vsNegotiatedCaps &&& virtioRingFEventIdx ≠ 0 then
      newIdx - vqUsedEventIdx vq - 1 < newIdx - oldIdx
    else newIdx ≠ oldIdx && vq.vqAvail.vaFlags &&& vringAvailFNoInterrupt = 0
  (if intr then vqInterrupt vs vq' else vs, vq')

/-- `vi_vq_init`: the guest placed its rings, so the private indices restart. -/
def viVqInit (vq : VqueueInfo) : VqueueInfo :=
  { vq with vqFlags := vqAlloc, vqLastAvail := 0, vqSaveUsed := 0 }

/-- The part of `vi_reset_dev` that concerns one queue. -/
def viResetQueue (vq : VqueueInfo) : VqueueInfo :=
  { vq with vqFlags := 0, vqLastAvail := 0, vqSaveUsed := 0, vqMsixIdx := virtioMsiNoVector }

end HyperCog.Virtio
