import Mathlib
import HyperCog.Vtblk.Device

/-! Which byte range of the disk a guest request reaches the block interface with. -/
namespace HyperCog.Vtblk

open Virtio Blockif

/-- The sectors a chain asks for: where it starts and how many bytes it spans. -/
structure Asked where
  sector : ℕ
  length : ℕ
  deriving DecidableEq, Repr

/-- A discard names its range in its payload, every other request in its header. -/
def VtblkChain.asked (c : VtblkChain) (m : HostMem) : Asked :=
  if c.type = vbhOpDiscard then
    let d := VirtioBlkDiscard.read m ((secondSegment c).iovBase.getD 0)
    ⟨d.sector.toNat, 512 * d.numSectors.toNat⟩
  else ⟨c.sector.toNat, iovecLen c.data⟩

/-- The bytes of the disk that a sector and a length stand for. -/
def Asked.range (a : Asked) : Set ℤ := Set.Ico (512 * a.sector : ℤ) (512 * a.sector + a.length)

/-- The bytes of the disk that a block request stands for. -/
def reqRange (br : BlockifReq) : Set ℤ := Set.Ico br.brOffset.toInt (br.brOffset.toInt + br.brResid)

/-- The bytes the disk has. -/
def diskRange (bc : BlockifCtxt) : Set ℤ := Set.Ico 0 bc.bcSize.toInt

/-- The request ends within the disk, and a discard is short enough for the 32-bit product. -/
def Asked.Fits (a : Asked) (bc : BlockifCtxt) (op : Blockop) : Prop :=
  a.length = 0 ∨ (512 * a.sector + a.length ≤ bc.bcSize.toInt ∧ (op = .delete → a.length < 2 ^ 32))

variable {a : Asked} {br : BlockifReq} {bc : BlockifCtxt} {op : Blockop} {x : UInt64}
  {sc sc' : PciVtblkSoftc} {c : VtblkChain} {idx : UInt16}

/-- A byte offset below 2^63 survives the conversion to `off_t`. -/
theorem toInt_offset (h : 512 * x.toNat < 2 ^ 63) : (x * 512).toInt64.toInt = 512 * x.toNat := by
  have hx : (x * 512).toInt64 = Int64.ofNat (512 * x.toNat) := by
    apply Int64.toBitVec_inj.mp
    apply BitVec.eq_of_toNat_eq
    simp [Nat.mul_comm]
  rw [hx]
  exact Int64.toInt_ofNat_of_lt h

/-- Converting before the product or after it makes no difference. -/
theorem toInt64_mul (x : UInt64) : x.toInt64 * 512 = (x * 512).toInt64 := by
  apply Int64.toBitVec_inj.mp
  simp

/-- What the device computes from the range it was asked for. -/
structure Computed (a : Asked) (op : Blockop) (br : BlockifReq) : Prop where
  offset : ∃ x : UInt64, x.toNat = a.sector ∧ br.brOffset = (x * 512).toInt64
  resid : br.brResid = if op = .delete then a.length % 2 ^ 32 else a.length

/-- A range that fits is handed over as it was asked for. -/
theorem Computed.eq_range (h : Computed a op br) (hf : a.Fits bc op) : reqRange br = a.range := by
  obtain ⟨x, hx, hoff⟩ := h.offset
  have hres := h.resid
  rcases hf with h0 | ⟨hend, hlen⟩
  · have hzero : br.brResid = 0 := by
      rw [hres, h0]
      split <;> rfl
    simp [reqRange, Asked.range, hzero, h0]
  · have hsize := bc.bcSize.toInt_lt
    have hresid : br.brResid = a.length := by
      rw [hres]
      split_ifs with hop
      · rw [Nat.mod_eq_of_lt (hlen hop)]
      · rfl
    have hoffset : br.brOffset.toInt = 512 * a.sector := by
      rw [hoff, toInt_offset (by omega), hx]
    rw [reqRange, Asked.range, hresid, hoffset]

theorem Asked.Fits.range_subset (hf : a.Fits bc op) : a.range ⊆ diskRange bc := by
  rcases hf with h0 | ⟨hend, -⟩
  · simp [Asked.range, h0]
  · exact Set.Ico_subset_Ico (by omega) hend

/-- A range inside the disk that was handed over unchanged fits. -/
theorem Computed.fits (h : Computed a op br) (heq : reqRange br = a.range)
    (hsub : a.range ⊆ diskRange bc) : a.Fits bc op := by
  by_cases h0 : a.length = 0
  · exact .inl h0
  have hlt : (512 * a.sector : ℤ) < 512 * a.sector + a.length := by omega
  refine .inr ⟨((Set.Ico_subset_Ico_iff hlt).mp hsub).2, ?_⟩
  intro hop
  -- the two ends of the range that was handed over are those that were asked for
  have hends := (Set.Ico_subset_Ico_iff hlt).mp heq.ge
  have hne : br.brOffset.toInt < br.brOffset.toInt + br.brResid := by omega
  have hres := h.resid
  rw [if_pos hop] at hres
  omega

theorem Computed.range_iff (h : Computed a op br) :
    (reqRange br = a.range ∧ a.range ⊆ diskRange bc) ↔ a.Fits bc op :=
  ⟨fun ⟨heq, hsub⟩ => h.fits heq hsub, fun hf => ⟨h.eq_range hf, hf.range_subset⟩⟩

theorem computed_request (htype : c.type ≠ vbhOpDiscard) (hop : op ≠ .delete) (m : HostMem) :
    Computed (c.asked m) op c.request := by
  rw [VtblkChain.asked, if_neg htype]
  exact ⟨⟨c.sector, rfl, rfl⟩, by simp [VtblkChain.request, hop]⟩

theorem computed_discard {v : Iovec} {base : ℕ} {br : BlockifReq} (htype : c.type = vbhOpDiscard)
    (hdata : c.data = [v]) (hv : v.iovBase = some base) (m : HostMem) :
    Computed (c.asked m) .delete (discardRequest (VirtioBlkDiscard.read m base) br) := by
  have hbase : (secondSegment c).iovBase.getD 0 = base := by simp [secondSegment, hdata, hv]
  rw [VtblkChain.asked, if_pos htype, hbase]
  refine ⟨⟨(VirtioBlkDiscard.read m base).sector, rfl, toInt64_mul _⟩, ?_⟩
  simp [discardRequest, Nat.mul_comm]

/-- Every transfer or discard that is handed over was computed from the range asked for. -/
theorem Dispatched.computed (hd : Dispatched sc c sc' op) (hop : op ≠ .flush) :
    Computed (c.asked sc.mem) op (sc'.vbscIos c.idx).ioReq := by
  cases hd with
  | read htype | write htype =>
    rw [setRequest_ioReq]
    exact computed_request (by rw [htype]; decide) (by decide) _
  | delete htype hdata hv =>
    rw [setRequest_ioReq]
    exact computed_discard htype hdata hv _
  | flush => exact absurd rfl hop

/-- A transfer or discard reaches the block interface with exactly the bytes it asked for,
all of them on the disk, if and only if it fits. -/
theorem request_within_disk (hproc : pciVtblkProc sc = .ok (sc', some (op, idx))) (hop : op ≠ .flush) :
    ∃ c sc₁, vtblkNext sc = .ok (c, sc₁) ∧ c.idx = idx ∧
      ((reqRange (sc'.vbscIos idx).ioReq = (c.asked sc.mem).range ∧
          (c.asked sc.mem).range ⊆ diskRange sc.bc) ↔ (c.asked sc.mem).Fits sc.bc op) := by
  obtain ⟨c, sc₁, hnext, hidx, hd⟩ := pciVtblkProc_some hproc
  have hcomp := hd.computed hop
  rw [(vtblkNext_frame hnext).1, hidx] at hcomp
  exact ⟨c, sc₁, hnext, hidx, hcomp.range_iff⟩

/-- A discard header with a payload of sector 0 and 2^23 sectors. -/
def discardMem : HostMem := fun a => if a = 0 then 11 else if a = 4106 then 0x80 else 0

/-- The chain with the write header. -/
def writeChain : VtblkChain := ⟨0, vbhOpWrite, 2048, [⟨some 4096, 512⟩], some 8192⟩

/-- On a disk of 2 MiB the write is handed over as it was asked for. -/
theorem request_within_disk_write :
    ∃ sc', pciVtblkProc (oneChain writeMem 2097152 512) = .ok (sc', some (.write, 0)) ∧
      reqRange (sc'.vbscIos 0).ioReq = Set.Ico 1048576 1049088 ∧
      Set.Ico 1048576 1049088 ⊆ diskRange (oneChain writeMem 2097152 512).bc := by
  have hproc : pciVtblkProc (oneChain writeMem 2097152 512) = .ok (_, some (.write, 0)) := rfl
  obtain ⟨c, sc₁, hnext, -, hiff⟩ := request_within_disk hproc (by decide)
  have hc : vtblkNext (oneChain writeMem 2097152 512) = .ok (writeChain, _) := rfl
  cases hnext.symm.trans hc
  exact ⟨_, hproc, hiff.mpr (.inr ⟨by decide, by decide⟩)⟩

/-- A write just past the end of a disk of 1 MiB goes through, and so does a discard of 4 GiB
on a disk of 8 GiB, which arrives without a byte. -/
theorem range_unchecked :
    (∃ sc' sc₁, pciVtblkProc (oneChain writeMem 1048576 512) = .ok (sc', some (.write, 0)) ∧
      vtblkNext (oneChain writeMem 1048576 512) = .ok (writeChain, sc₁) ∧
      reqRange (sc'.vbscIos 0).ioReq = (writeChain.asked writeMem).range ∧
      ¬ (writeChain.asked writeMem).range ⊆ diskRange (oneChain writeMem 1048576 512).bc) ∧
    ∃ sc' c sc₁, pciVtblkProc (oneChain discardMem 8589934592 16) = .ok (sc', some (.delete, 0)) ∧
      vtblkNext (oneChain discardMem 8589934592 16) = .ok (c, sc₁) ∧
      (c.asked discardMem).range ⊆ diskRange (oneChain discardMem 8589934592 16).bc ∧
      reqRange (sc'.vbscIos 0).ioReq ≠ (c.asked discardMem).range := by
  refine ⟨⟨_, _, rfl, rfl, rfl, ?_⟩,
    _, ⟨0, vbhOpDiscard, 0, [⟨some 4096, 16⟩], some 8192⟩, _, rfl, rfl, ?_, ?_⟩
  · intro hsub
    have hmem : 1048576 ∈ (writeChain.asked writeMem).range := ⟨by decide, by decide⟩
    exact absurd (hsub hmem).2 (by decide)
  · exact Set.Ico_subset_Ico (by decide) (by decide)
  · intro heq
    have hmem : 0 ∈ Set.Ico (0 : ℤ) 4294967296 := ⟨by decide, by decide⟩
    have hnot : 0 ∈ Set.Ico (0 : ℤ) 0 := heq.ge hmem
    exact absurd hnot.2 (by decide)

end HyperCog.Vtblk
