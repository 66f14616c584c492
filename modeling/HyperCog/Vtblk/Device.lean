import HyperCog.Lib.Run
import HyperCog.Virtio.Queue
import HyperCog.Blockif.Basic

/-! The virtio block device: from a descriptor chain to a block request and its status byte. -/
namespace HyperCog.Vtblk

open Virtio Blockif Machine

def vtblkSOk : UInt8 := 0
def vtblkSIoerr : UInt8 := 1
def vtblkSUnsupp : UInt8 := 2

def vbhOpRead : UInt32 := 0
def vbhOpWrite : UInt32 := 1
def vbhOpFlush : UInt32 := 4
def vbhOpFlushOut : UInt32 := 5
def vbhOpIdent : UInt32 := 8
def vbhOpDiscard : UInt32 := 11
def vbhFlagBarrier : UInt32 := 0x80000000

/-- `sizeof(sc->vbsc_ident)`. -/
def vtblkBlkIdBytes : ℕ := 20 + 1

/-- `sizeof(struct virtio_blk_hdr)`, and the size of a discard segment too. -/
def sizeofHdr : ℕ := 16
def sizeofDiscard : ℕ := 16

/-- The two fields of `struct virtio_blk_hdr` that the device reads. -/
structure VirtioBlkHdr where
  vbhType : UInt32
  vbhSector : UInt64
  deriving DecidableEq, Repr

def VirtioBlkHdr.read (m : HostMem) (base : ℕ) : VirtioBlkHdr where
  vbhType := .ofNat (leValue (bytesAt m base 4))
  vbhSector := .ofNat (leValue (bytesAt m (base + 8) 8))

/-- `struct virtio_blk_discard_write_zeroes`, less the flags. -/
structure VirtioBlkDiscard where
  sector : UInt64
  numSectors : UInt32
  deriving DecidableEq, Repr

def VirtioBlkDiscard.read (m : HostMem) (base : ℕ) : VirtioBlkDiscard where
  sector := .ofNat (leValue (bytesAt m base 8))
  numSectors := .ofNat (leValue (bytesAt m (base + 8) 4))

structure PciVtblkIoreq where
  ioReq : BlockifReq
  ioStatus : Option ℕ
  deriving DecidableEq, Repr

/-- The device with the guest memory it reaches. Entry `i` of `vbscIos` belongs to head `i`. -/
structure PciVtblkSoftc where
  vs : VirtioSoftc
  vq : VqueueInfo
  ram : GuestRam
  mem : HostMem
  bc : BlockifCtxt
  vbscIdent : List UInt8
  vbscIos : UInt16 → PciVtblkIoreq

/-- The assertions of `pci_vtblk_proc`, and the null pointers it may follow. -/
inductive Fault
  /-- `n >= 2 && n <= BLOCKIF_IOV_MAX + 2` -/
  | chainLength
  /-- the flags and the length of the first descriptor -/
  | badHeader
  /-- the flags and the length of the last descriptor -/
  | badStatus
  /-- `((flags[i] & VRING_DESC_F_WRITE) == 0) == expectro` -/
  | badDirection
  /-- a discard without exactly one segment of the right size -/
  | badDiscard
  | segfault
  deriving DecidableEq, Repr

/-- A chain that passed the assertions: header fields, data segments and status pointer. -/
structure VtblkChain where
  idx : UInt16
  type : UInt32
  sector : UInt64
  data : List Iovec
  status : Option ℕ
  deriving DecidableEq, Repr

/-- The operation only reads the guest's segments. -/
def expectro (type : UInt32) : Bool := type == vbhOpWrite || type == vbhOpDiscard

/-- The first half of `pci_vtblk_proc`, on the descriptors `hd`, `data` and `st`. -/
def vtblkChain (ram : GuestRam) (m : HostMem) (idx : UInt16) (hd : VirtioDesc)
    (data : List VirtioDesc) (st : VirtioDesc) : Except Fault VtblkChain :=
  if hd.vdFlags &&& vringDescFWrite ≠ 0 ∨ hd.vdLen.toNat ≠ sizeofHdr then .error .badHeader
  else match (vqRecord ram hd).iovBase with
    | none => .error .segfault
    | some base =>
      let vbh := VirtioBlkHdr.read m base
      let type := vbh.vbhType &&& ~~~vbhFlagBarrier
      if st.vdLen ≠ 1 ∨ st.vdFlags &&& vringDescFWrite = 0 then .error .badStatus
      else if data.any fun d => (d.vdFlags &&& vringDescFWrite == 0) != expectro type then
        .error .badDirection
      else .ok ⟨idx, type, vbh.vbhSector, data.map (vqRecord ram), (vqRecord ram st).iovBase⟩

/-- The virtio status that an error number becomes. -/
def vtblkStatus : Option Errno → UInt8
  | some .eopnotsupp | some .enosys => vtblkSUnsupp
  | some _ => vtblkSIoerr
  | none => vtblkSOk

def pciVtblkDoneLocked (sc : PciVtblkSoftc) (idx : UInt16) (err : Option Errno) :
    Except Fault PciVtblkSoftc :=
  match (sc.vbscIos idx).ioStatus with
  | none => .error .segfault
  | some a =>
    let vq := vqRelchain sc.vq idx 1
    let (vs, vq) := vqEndchains sc.vs vq false
    .ok { sc with mem := storeBytes sc.mem a [vtblkStatus err], vs := vs, vq := vq }

/-- `iov[1]`: the first data segment, or the status byte of a chain without data. -/
def secondSegment (c : VtblkChain) : Iovec := c.data.headD ⟨c.status, 1⟩

/-- `VBH_OP_IDENT`: zeroes, then the identifier up to its end. -/
def writeIdent (sc : PciVtblkSoftc) (v : Iovec) : Except Fault PciVtblkSoftc :=
  if v.iovLen = 0 then .ok sc
  else match v.iovBase with
    | none => .error .segfault
    | some a =>
      let cleared := storeBytes sc.mem a (List.replicate v.iovLen 0)
      let ident := sc.vbscIdent.take (min v.iovLen vtblkBlkIdBytes)
      .ok { sc with mem := storeBytes cleared a ident }

/-- The request as it stands before the switch on the type. -/
def VtblkChain.request (c : VtblkChain) : BlockifReq where
  brIov := c.data
  brOffset := (c.sector * 512).toInt64
  brResid := iovecLen c.data

/-- What a discard segment makes of it. The product of the length is a 32-bit one. -/
def discardRequest (d : VirtioBlkDiscard) (br : BlockifReq) : BlockifReq :=
  { br with
    brOffset := d.sector.toInt64 * 512
    brResid := (d.numSectors * 512).toNat }

def setRequest (sc : PciVtblkSoftc) (c : VtblkChain) (br : BlockifReq) : PciVtblkSoftc :=
  { sc with vbscIos := Function.update sc.vbscIos c.idx ⟨br, c.status⟩ }

/-- The switch of `pci_vtblk_proc`: the device, and the request handed to the block interface. -/
def vtblkDispatch (sc : PciVtblkSoftc) (c : VtblkChain) :
    Except Fault (PciVtblkSoftc × Option Blockop) :=
  let sc := setRequest sc c c.request
  if c.type = vbhOpRead then .ok (sc, some .read)
  else if c.type = vbhOpWrite then .ok (sc, some .write)
  else if c.type = vbhOpDiscard then
    match c.data with
    | [v] =>
      if v.iovLen = sizeofDiscard then
        match v.iovBase with
        | none => .error .segfault
        | some base =>
          let d := VirtioBlkDiscard.read sc.mem base
          .ok (setRequest sc c (discardRequest d c.request), some .delete)
      else .error .badDiscard
    | _ => .error .badDiscard
  else if c.type = vbhOpFlush ∨ c.type = vbhOpFlushOut then .ok (sc, some .flush)
  else if c.type = vbhOpIdent then do
    let sc ← writeIdent sc (secondSegment c)
    let sc ← pciVtblkDoneLocked sc c.idx none
    .ok (sc, none)
  else do
    let sc ← pciVtblkDoneLocked sc c.idx (some .eopnotsupp)
    .ok (sc, none)

/-- The requests that the switch hands over. -/
inductive Dispatched (sc : PciVtblkSoftc) (c : VtblkChain) : PciVtblkSoftc → Blockop → Prop
  | read (htype : c.type = vbhOpRead) : Dispatched sc c (setRequest sc c c.request) .read
  | write (htype : c.type = vbhOpWrite) : Dispatched sc c (setRequest sc c c.request) .write
  | delete {v : Iovec} {base : ℕ} (htype : c.type = vbhOpDiscard) (hdata : c.data = [v])
      (hv : v.iovBase = some base) :
      Dispatched sc c (setRequest (setRequest sc c c.request) c
        (discardRequest (VirtioBlkDiscard.read sc.mem base) c.request)) .delete
  | flush : Dispatched sc c (setRequest sc c c.request) .flush

variable {sc sc' : PciVtblkSoftc} {c : VtblkChain} {op : Blockop}

theorem vtblkDispatch_dispatched (hd : vtblkDispatch sc c = .ok (sc', some op)) :
    Dispatched sc c sc' op := by
  unfold vtblkDispatch at hd
  split at hd
  · rename_i htype
    cases hd
    exact .read htype
  split at hd
  · rename_i htype
    cases hd
    exact .write htype
  split at hd
  · rename_i htype
    split at hd
    · rename_i v hdata
      split at hd
      · split at hd
        · cases hd
        · rename_i base hv
          cases hd
          exact .delete htype hdata hv
      · cases hd
    · cases hd
  split_ifs at hd
  · cases hd
    exact .flush
  · obtain ⟨_, -, hd⟩ := bind_eq_ok.mp hd
    obtain ⟨_, -, hd⟩ := bind_eq_ok.mp hd
    cases hd
  · obtain ⟨_, -, hd⟩ := bind_eq_ok.mp hd
    cases hd

@[simp] theorem setRequest_ioReq (sc : PciVtblkSoftc) (c : VtblkChain) (br : BlockifReq) :
    ((setRequest sc c br).vbscIos c.idx).ioReq = br := by
  simp [setRequest]

/-- The next chain of the queue with its assertions checked. -/
def vtblkNext (sc : PciVtblkSoftc) : Except Fault (VtblkChain × PciVtblkSoftc) :=
  match vqGetchain sc.vs sc.ram sc.mem sc.vq with
  | (.descs idx (hd :: d :: rest), vq) =>
    if rest.length ≤ blockifIovMax then do
      let tail := d :: rest
      let st := tail.getLast (by simp [tail])
      let c ← vtblkChain sc.ram sc.mem idx hd tail.dropLast st
      .ok (c, { sc with vq := vq })
    else .error .chainLength
  | (.stop .segfault, _) => .error .segfault
  | _ => .error .chainLength

/-- `pci_vtblk_proc`. The assertion on the result of the block call is the caller's. -/
def pciVtblkProc (sc : PciVtblkSoftc) : Except Fault (PciVtblkSoftc × Option (Blockop × UInt16)) := do
  let (c, sc) ← vtblkNext sc
  let (sc, op) ← vtblkDispatch sc c
  .ok (sc, op.map fun op => (op, c.idx))

/-- Taking the next chain changes nothing of the device but its queue. -/
theorem vtblkNext_frame {sc₁ : PciVtblkSoftc} (hn : vtblkNext sc = .ok (c, sc₁)) :
    sc₁.mem = sc.mem ∧ sc₁.bc = sc.bc := by
  unfold vtblkNext at hn
  split at hn
  · split_ifs at hn
    obtain ⟨_, -, hn⟩ := bind_eq_ok.mp hn
    cases hn
    exact ⟨rfl, rfl⟩
  · cases hn
  · cases hn

/-- A request that is handed over comes from the next chain by the switch. -/
theorem pciVtblkProc_some {idx : UInt16} (hproc : pciVtblkProc sc = .ok (sc', some (op, idx))) :
    ∃ c sc₁, vtblkNext sc = .ok (c, sc₁) ∧ c.idx = idx ∧ Dispatched sc₁ c sc' op := by
  obtain ⟨⟨c, sc₁⟩, hnext, hproc⟩ := bind_eq_ok.mp hproc
  obtain ⟨⟨sc₂, o⟩, hd, hproc⟩ := bind_eq_ok.mp hproc
  cases o with
  | none => cases hproc
  | some o =>
    cases hproc
    exact ⟨c, sc₁, hnext, rfl, vtblkDispatch_dispatched hd⟩

/-- A device with one published chain: a header at 0, one segment at 4096 that the device
may not write, a status byte at 8192. -/
def oneChain (mem : HostMem) (bcSize : Int64) (len : UInt32) : PciVtblkSoftc where
  vs := ⟨0, 0, 0, false, []⟩
  vq :=
    { vqQsize := 128, vqFlags := vqAlloc, vqLastAvail := 0, vqSaveUsed := 0, vqMsixIdx := 0
      vqDesc := fun i =>
        if i = 0 then ⟨0, 16, vringDescFNext, 1⟩
        else if i = 1 then ⟨4096, len, vringDescFNext, 2⟩
        else ⟨8192, 1, vringDescFWrite, 0⟩
      vqAvail := ⟨0, 1, fun _ => 0⟩
      vqUsed := ⟨0, 0, fun _ => ⟨0, 0⟩⟩ }
  ram := ⟨65536, 0⟩
  mem := mem
  bc := ⟨3, -1, false, false, true, false, bcSize, 512, 4096⟩
  vbscIdent := []
  vbscIos := fun _ => ⟨⟨[], 0, 0⟩, none⟩

/-- A write header for sector 2048. -/
def writeMem : HostMem := fun a => if a = 0 then 1 else if a = 9 then 8 else 0

end HyperCog.Vtblk
