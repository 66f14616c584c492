import HyperCog.Virtio.Queue
import Mathlib.Data.List.Induction

/-! Feature negotiation of the network device, and the length of its receive header. -/
namespace HyperCog.Vtnet

open Virtio

def virtioNetFMac : UInt64 := (1 : UInt64) <<< 5
def virtioNetFMrgRxbuf : UInt64 := (1 : UInt64) <<< 15
def virtioNetFStatus : UInt64 := (1 : UInt64) <<< 16

def vtnetSHostcaps : UInt64 :=
  virtioNetFMac ||| virtioNetFMrgRxbuf ||| virtioNetFStatus ||| virtioFNotifyOnEmpty.toUInt64

/-- The size of `struct virtio_net_rxhdr`. -/
def rxhdrSize : Int := 12

/-- What negotiation and reset touch. `rxVhdrlen` is an `int` that is taken not to overflow, which would need
2^30 negotiations without a reset. -/
structure PciVtnetSoftc where
  vsNegotiatedCaps : UInt32
  vscFeatures : UInt64
  rxMerge : Bool
  rxVhdrlen : Int
  deriving DecidableEq, Repr

def pciVtnetInit : PciVtnetSoftc := ⟨0, 0, true, rxhdrSize⟩

def mrgRxbuf (features : UInt64) : Bool := features &&& virtioNetFMrgRxbuf ≠ 0

def pciVtnetNegFeatures (sc : PciVtnetSoftc) (negotiatedFeatures : UInt64) : PciVtnetSoftc :=
  let sc := { sc with vscFeatures := negotiatedFeatures }
  if mrgRxbuf sc.vscFeatures then sc
  else { sc with rxMerge := false, rxVhdrlen := sc.rxVhdrlen - 2 }

/-- `pci_vtnet_reset`, with the part of `vi_reset_dev` on negotiated capabilities. -/
def pciVtnetReset (sc : PciVtnetSoftc) : PciVtnetSoftc :=
  { sc with rxMerge := true, rxVhdrlen := rxhdrSize, vsNegotiatedCaps := 0 }

inductive Act
  | guestcap (value : UInt64)
  | reset
  deriving DecidableEq, Repr

/-- The capabilities a write of the feature register leaves. -/
def negotiated (value : UInt64) : UInt32 := (value &&& vtnetSHostcaps).toUInt32

/-- `vi_pci_write` at `VTCFG_R_GUESTCAP`, or of 0 at `VTCFG_R_STATUS`. -/
def step (sc : PciVtnetSoftc) : Act → PciVtnetSoftc
  | .guestcap value =>
    pciVtnetNegFeatures { sc with vsNegotiatedCaps := negotiated value } (negotiated value).toUInt64
  | .reset => pciVtnetReset sc

/-- The features negotiated since the last reset, in order. -/
def history (fs : List UInt64) : Act → List UInt64
  | .guestcap value => fs ++ [(negotiated value).toUInt64]
  | .reset => []

/-- The header is the long one unless the last features negotiated leave merging out. -/
def HeaderFollows (fs : List UInt64) (sc : PciVtnetSoftc) : Prop :=
  if fs.getLast?.all mrgRxbuf then sc.rxMerge = true ∧ sc.rxVhdrlen = rxhdrSize
  else sc.rxMerge = false ∧ sc.rxVhdrlen = rxhdrSize - 2

/-- What the device state is: each negotiation without merging took two bytes off. -/
structure Drifted (fs : List UInt64) (sc : PciVtnetSoftc) : Prop where
  merge : sc.rxMerge = fs.all mrgRxbuf
  vhdrlen : sc.rxVhdrlen = rxhdrSize - 2 * fs.countP fun f => !mrgRxbuf f

variable {fs : List UInt64} {sc : PciVtnetSoftc}

theorem drifted_step (h : Drifted fs sc) (a : Act) : Drifted (history fs a) (step sc a) := by
  cases a with
  | reset => exact ⟨rfl, by simp [step, pciVtnetReset, history]⟩
  | guestcap value =>
    obtain ⟨hmerge, hlen⟩ := h
    cases hm : mrgRxbuf (negotiated value).toUInt64 with
    | true => constructor <;> simp [step, pciVtnetNegFeatures, history, hm, hmerge, hlen]
    | false =>
      constructor
      · simp [step, pciVtnetNegFeatures, history, hm]
      · simp only [step, pciVtnetNegFeatures, history, hm, hlen, List.countP_append]
        simp [hm]
        omega

theorem drifted_run (h : Drifted fs sc) (as : List Act) :
    Drifted (as.foldl history fs) (as.foldl step sc) := by
  induction as generalizing fs sc with
  | nil => exact h
  | cons a as ih => exact ih (drifted_step h a)

theorem follows_iff_of_drifted (h : Drifted fs sc) :
    HeaderFollows fs sc ↔ ∀ f ∈ fs.dropLast, mrgRxbuf f := by
  obtain ⟨hmerge, hlen⟩ := h
  induction fs using List.reverseRecOn with
  | nil => simp [HeaderFollows, hmerge, hlen]
  | append_singleton fs f _ =>
    have hall : fs.all mrgRxbuf = true ↔ fs.countP (fun g => !mrgRxbuf g) = 0 := by simp
    rw [← List.all_eq_true, HeaderFollows, hmerge, hlen, List.countP_append]
    generalize fs.countP (fun g => !mrgRxbuf g) = n at hall ⊢
    cases hf : mrgRxbuf f <;> simp [hf, hall]

/-- The header follows the negotiation exactly when no features without merging were followed by
other features before a reset. -/
theorem header_follows_iff (as : List Act) :
    HeaderFollows (as.foldl history []) (as.foldl step pciVtnetInit) ↔
      ∀ f ∈ (as.foldl history []).dropLast, mrgRxbuf f :=
  follows_iff_of_drifted (drifted_run ⟨rfl, rfl⟩ as)

/-- The same features written twice: the header is four bytes shorter. -/
theorem header_drifts :
    ([.guestcap 0, .guestcap 0].foldl step pciVtnetInit).rxVhdrlen = rxhdrSize - 4 ∧
      ¬ HeaderFollows ([.guestcap 0, .guestcap 0].foldl history [])
        ([.guestcap 0, .guestcap 0].foldl step pciVtnetInit) := by
  unfold HeaderFollows
  decide

end HyperCog.Vtnet
