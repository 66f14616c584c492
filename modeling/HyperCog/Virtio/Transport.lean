import HyperCog.Lib.Run
import HyperCog.Lib.Ring
import HyperCog.Lib.Counter
import HyperCog.Virtio.Queue

/-! The avail ring is a lossless FIFO from guest to device across all index wraps. -/
namespace HyperCog.Virtio

open List Function

/-- QNUM is a power of two; 32768 is the largest one a 16-bit field holds. -/
def PowerOfTwo (q : UInt16) : Prop := ∃ k ≤ 15, q.toNat = 2 ^ k

variable {q head : UInt16} {m : HostMem} {vq vq' : VqueueInfo}

/-- Masking a free-running index by a power-of-two size selects its residue. -/
theorem slot_eq_mod (hq : PowerOfTwo q) (n : ℕ) :
    (UInt16.ofNat n &&& (q - 1)).toNat = n % q.toNat := by
  obtain ⟨k, hk, hqk⟩ := hq
  have hpos := Nat.two_pow_pos k
  have hle : 2 ^ k ≤ 2 ^ 15 := Nat.pow_le_pow_right (by decide) hk
  have hpred : (q - 1).toNat = 2 ^ k - 1 := by
    rw [UInt16.toNat_sub]
    simp only [UInt16.toNat_one]
    omega
  have hdvd : 2 ^ k ∣ 2 ^ 16 := Nat.pow_dvd_pow 2 (by omega)
  rw [UInt16.toNat_and, hpred, Nat.and_two_pow_sub_one_eq_mod, hqk]
  change n % 2 ^ 16 % 2 ^ k = n % 2 ^ k
  rw [Nat.mod_mod_of_dvd _ hdvd]

/-- The 16-bit distance of two indices is exact while a queue's worth is outstanding. -/
theorem toNat_index_sub {a b : ℕ} (h : b ≤ a) (hlt : a - b < 2 ^ 16) :
    (UInt16.ofNat a - UInt16.ofNat b).toNat = a - b :=
  Counter.toNat_distance h hlt

/-- The queue with the history of what the guest published and the device did. -/
structure Transport where
  vq : VqueueInfo
  mem : HostMem
  published : List UInt16
  kept : List UInt16
  released : List (UInt16 × UInt32)

inductive TransportAction
  | publish (head : UInt16) (desc : ℕ → VirtioDesc) (mem : HostMem)
  | keep
  | undo
  | release (idx : UInt16) (iolen : UInt32)

/-- Heads published and not yet kept by the device. -/
def Transport.unconsumed (s : Transport) : List UInt16 := s.published.drop s.kept.length

/-- The guest stores the head in the next avail slot, then moves `va_idx`. -/
def guestPublish (vq : VqueueInfo) (head : UInt16) (desc : ℕ → VirtioDesc) : VqueueInfo :=
  { vq with
    vqDesc := desc
    vqAvail := { vq.vqAvail with
      vaRing := update vq.vqAvail.vaRing
        (vq.vqAvail.vaIdx &&& (vq.vqQsize - 1)).toNat head
      vaIdx := vq.vqAvail.vaIdx + 1 } }

variable (vs : VirtioSoftc) (ram : GuestRam)

/-- The descriptor chain at this head is one that `vq_getchain` accepts. -/
def ValidHead (m : HostMem) (vq : VqueueInfo) (head : UInt16) : Prop :=
  ∃ vds, walkChain vs ram m vq vqMaxDescriptors vqMaxDescriptors head.toNat = .ok vds

def transportStep (s : Transport) : TransportAction → Except WalkStop Transport
  | .publish head desc mem =>
    .ok { s with vq := guestPublish s.vq head desc, mem, published := s.published ++ [head] }
  | .keep =>
    match vqGetchain vs ram s.mem s.vq with
    | (.empty, vq) => .ok { s with vq }
    | (.stop w, _) => .error w
    | (.descs idx _, vq) => .ok { s with vq, kept := s.kept ++ [idx] }
  | .undo =>
    match vqGetchain vs ram s.mem s.vq with
    | (.empty, vq) => .ok { s with vq }
    | (.stop w, _) => .error w
    | (.descs _ _, vq) => .ok { s with vq := vqRetchain vq }
  | .release idx iolen =>
    .ok { s with vq := vqRelchain s.vq idx iolen, released := s.released ++ [(idx, iolen)] }

/-- What the guest owes: room in the ring, and valid chains at every unconsumed head. -/
def GuestOk (s : Transport) : TransportAction → Prop
  | .publish head desc mem =>
    s.unconsumed.length < s.vq.vqQsize.toNat ∧
      ∀ h ∈ s.unconsumed ++ [head], ValidHead vs ram mem { s.vq with vqDesc := desc } h
  | _ => True

/-- A queue just set up by `vi_vq_init` over zeroed rings. -/
structure Fresh (s : Transport) : Prop where
  size : PowerOfTwo s.vq.vqQsize
  lastAvail : s.vq.vqLastAvail = 0
  vaIdx : s.vq.vqAvail.vaIdx = 0
  vuIdx : s.vq.vqUsed.vuIdx = 0
  published : s.published = []
  kept : s.kept = []
  released : s.released = []

/-- All three indices count their history, and the ring holds what is unconsumed. -/
structure InStep (s : Transport) : Prop where
  size : PowerOfTwo s.vq.vqQsize
  kept : s.kept <+: s.published
  vaIdx : s.vq.vqAvail.vaIdx = .ofNat s.published.length
  lastAvail : s.vq.vqLastAvail = .ofNat s.kept.length
  vuIdx : s.vq.vqUsed.vuIdx = .ofNat s.released.length
  ring : Ring.Holds s.vq.vqQsize.toNat s.vq.vqAvail.vaRing s.kept.length s.unconsumed
  valid : ∀ h ∈ s.unconsumed, ValidHead vs ram s.mem s.vq h

variable {vs ram} {s t : Transport} {as : List TransportAction}

/-- The walk reads nothing of the queue but its table and its size. -/
theorem walkChain_congr (hd : vq'.vqDesc = vq.vqDesc) (hq : vq'.vqQsize = vq.vqQsize)
    (fuel room next : ℕ) :
    walkChain vs ram m vq' fuel room next = walkChain vs ram m vq fuel room next := by
  induction fuel generalizing room next with
  | zero => rfl
  | succ fuel ih => simp only [walkChain, hd, hq, ih]

theorem validHead_congr (hd : vq'.vqDesc = vq.vqDesc) (hq : vq'.vqQsize = vq.vqQsize) :
    ValidHead vs ram m vq' head ↔ ValidHead vs ram m vq head := by
  simp only [ValidHead, walkChain_congr hd hq]

theorem inStep_fresh (h : Fresh s) : InStep vs ram s := by
  have hu : s.unconsumed = [] := by simp [Transport.unconsumed, h.published]
  constructor
  · exact h.size
  · simp [h.kept]
  · simp [h.vaIdx, h.published]
  · simp [h.lastAvail, h.kept]
  · simp [h.vuIdx, h.released]
  · rw [hu]; exact Ring.holds_nil
  · simp [hu]

theorem PowerOfTwo.le (h : PowerOfTwo q) : q.toNat ≤ 32768 := by
  obtain ⟨k, hk, he⟩ := h
  rw [he]
  exact (Nat.pow_le_pow_right (by decide) hk).trans (by decide)

theorem length_unconsumed (h : s.kept <+: s.published) :
    s.kept.length + s.unconsumed.length = s.published.length := by
  have := h.length_le
  simp only [Transport.unconsumed, length_drop]
  omega

section

variable (h : InStep vs ram s)

include h

/-- With nothing unconsumed `vq_getchain` reports an empty ring and changes nothing. -/
theorem getchain_empty (hu : s.unconsumed = []) : vqGetchain vs ram s.mem s.vq = (.empty, s.vq) := by
  have hlen := length_unconsumed h.kept
  simp only [hu, length_nil, Nat.add_zero] at hlen
  simp [vqGetchain, h.vaIdx, h.lastAvail, hlen]

/-- Otherwise it takes the oldest unconsumed head. -/
theorem getchain_head {rest : List UInt16} (hu : s.unconsumed = head :: rest) :
    ∃ vds, vqGetchain vs ram s.mem s.vq =
      (.descs head vds, { s.vq with vqLastAvail := s.vq.vqLastAvail + 1 }) := by
  have hlen := length_unconsumed h.kept
  have hring := h.ring
  rw [hu] at hlen hring
  have hcap : rest.length + 1 ≤ s.vq.vqQsize.toNat := hring.1
  have hle := h.size.le
  simp only [length_cons] at hlen
  have hdist : (s.vq.vqAvail.vaIdx - s.vq.vqLastAvail).toNat = rest.length + 1 := by
    rw [h.vaIdx, h.lastAvail, toNat_index_sub (by omega) (by omega)]
    omega
  have hne : ¬ s.vq.vqAvail.vaIdx - s.vq.vqLastAvail = 0 := by
    intro h0
    simp [h0] at hdist
  have hnlt : ¬ s.vq.vqQsize < s.vq.vqAvail.vaIdx - s.vq.vqLastAvail := by
    rw [UInt16.lt_iff_toNat_lt]
    omega
  have hslot : s.vq.vqAvail.vaRing (s.vq.vqLastAvail &&& (s.vq.vqQsize - 1)).toNat = head := by
    rw [h.lastAvail, slot_eq_mod h.size]
    exact Ring.holds_head hring
  obtain ⟨vds, hw⟩ := h.valid head (by simp [hu])
  refine ⟨vds, ?_⟩
  simp only [vqGetchain, if_neg hne, if_neg hnlt, hslot, hw]

theorem inStep_publish {desc : ℕ → VirtioDesc} {mem : HostMem}
    (hg : GuestOk vs ram s (.publish head desc mem))
    (hs : transportStep vs ram s (.publish head desc mem) = .ok t) : InStep vs ram t := by
  cases hs
  obtain ⟨hroom, hvalid⟩ := hg
  have hlen := length_unconsumed h.kept
  have hu : (s.published ++ [head]).drop s.kept.length = s.unconsumed ++ [head] := by
    rw [drop_append_of_le_length h.kept.length_le]
    rfl
  refine ⟨h.size, h.kept.trans (prefix_append _ _), ?_, h.lastAvail, h.vuIdx, ?_, ?_⟩
  · simp [guestPublish, h.vaIdx]
  · -- the slot the guest fills is the first one past the unconsumed window
    have hp := Ring.holds_push (x := head) h.ring hroom
    rw [hlen] at hp
    simp only [guestPublish, Transport.unconsumed]
    rw [hu, h.vaIdx, slot_eq_mod h.size]
    exact hp
  · intro x hx
    have hv := hvalid x (by simpa [Transport.unconsumed, hu] using hx)
    exact (validHead_congr (by rfl) (by rfl)).mp hv

theorem inStep_keep (hs : transportStep vs ram s .keep = .ok t) : InStep vs ram t := by
  cases hu : s.unconsumed with
  | nil =>
    simp only [transportStep, getchain_empty h hu] at hs
    cases hs
    exact h
  | cons head rest =>
    obtain ⟨vds, hg⟩ := getchain_head h hu
    simp only [transportStep, hg] at hs
    cases hs
    have hring := h.ring
    rw [hu] at hring
    have happ : s.kept ++ s.unconsumed = s.published := by
      obtain ⟨rest, hr⟩ := h.kept
      simp [Transport.unconsumed, ← hr]
    have hrest : s.published.drop (s.kept ++ [head]).length = rest := by
      rw [← happ, hu]
      simp
    refine ⟨h.size, ?_, h.vaIdx, ?_, h.vuIdx, ?_, ?_⟩
    · rw [← happ, hu]
      simp
    · simp [h.lastAvail]
    · simp only [Transport.unconsumed]
      rw [hrest]
      simpa using Ring.holds_pop hring
    · intro x hx
      simp only [Transport.unconsumed, hrest] at hx
      have hv := h.valid x (by rw [hu]; exact mem_cons_of_mem _ hx)
      exact (validHead_congr (by rfl) (by rfl)).mp hv

/-- Taking a chain and returning it at once leaves the queue as it was. -/
theorem inStep_undo (hs : transportStep vs ram s .undo = .ok t) : InStep vs ram t := by
  cases hu : s.unconsumed with
  | nil =>
    simp only [transportStep, getchain_empty h hu] at hs
    cases hs
    exact h
  | cons head rest =>
    obtain ⟨vds, hg⟩ := getchain_head h hu
    simp only [transportStep, hg] at hs
    cases hs
    have hret : vqRetchain { s.vq with vqLastAvail := s.vq.vqLastAvail + 1 } = s.vq := by
      simp [vqRetchain]
    rw [hret]
    exact h

theorem inStep_release {idx : UInt16} {iolen : UInt32}
    (hs : transportStep vs ram s (.release idx iolen) = .ok t) : InStep vs ram t := by
  cases hs
  refine ⟨h.size, h.kept, h.vaIdx, h.lastAvail, ?_, h.ring, ?_⟩
  · simp [vqRelchain, h.vuIdx]
  · intro x hx
    exact (validHead_congr (by rfl) (by rfl)).mp (h.valid x hx)

end

theorem inStep_step {a : TransportAction} (hg : GuestOk vs ram s a)
    (hs : transportStep vs ram s a = .ok t) (h : InStep vs ram s) : InStep vs ram t := by
  cases a with
  | publish head desc mem => exact inStep_publish h hg hs
  | keep => exact inStep_keep h hs
  | undo => exact inStep_undo h hs
  | release idx iolen => exact inStep_release h hs

theorem inStep_run (hr : Machine.Run (transportStep vs ram) (GuestOk vs ram) s as t)
    (hf : Fresh s) : InStep vs ram t :=
  hr.invariant (fun _ _ _ => inStep_step) (inStep_fresh hf)

/-- Counting releases from zero, the next one fills slot `k mod vq_qsize` and moves `vu_idx` on. -/
theorem relchain_slot (h : InStep vs ram s) (idx : UInt16) (iolen : UInt32) :
    (vqRelchain s.vq idx iolen).vqUsed.vuRing =
      update s.vq.vqUsed.vuRing (s.released.length % s.vq.vqQsize.toNat)
        ⟨idx.toUInt32, iolen⟩ ∧
    (vqRelchain s.vq idx iolen).vqUsed.vuIdx.toNat = (s.released.length + 1) % 65536 := by
  constructor
  · simp only [vqRelchain]
    rw [h.vuIdx, slot_eq_mod h.size]
  · simp only [vqRelchain]
    rw [h.vuIdx, ← UInt16.ofNat_one, ← UInt16.ofNat_add]
    rfl

/-- In every run the device keeps the published heads in order, `vq_getchain`
always offers the oldest head not yet kept, and the `k`-th release, counted
from zero, fills used slot `k mod vq_qsize` and leaves `vu_idx = k + 1`. -/
theorem transport_lossless_in_order (hf : Fresh s)
    (hr : Machine.Run (transportStep vs ram) (GuestOk vs ram) s as t) :
    t.kept <+: t.published ∧
    (∀ head rest, t.published = t.kept ++ head :: rest →
      ∃ vds vq, vqGetchain vs ram t.mem t.vq = (.descs head vds, vq)) ∧
    (t.published = t.kept → vqGetchain vs ram t.mem t.vq = (.empty, t.vq)) ∧
    ∀ idx iolen, (vqRelchain t.vq idx iolen).vqUsed.vuRing =
        update t.vq.vqUsed.vuRing (t.released.length % t.vq.vqQsize.toNat)
          ⟨idx.toUInt32, iolen⟩ ∧
      (vqRelchain t.vq idx iolen).vqUsed.vuIdx.toNat = (t.released.length + 1) % 65536 := by
  have h := inStep_run hr hf
  refine ⟨h.kept, ?_, ?_, relchain_slot h⟩
  · intro head rest hp
    obtain ⟨vds, hg⟩ := getchain_head h (show t.unconsumed = head :: rest by
      simp [Transport.unconsumed, hp])
    exact ⟨vds, _, hg⟩
  · intro hp
    exact getchain_empty h (by simp [Transport.unconsumed, hp])

/-- A four-entry queue over zeroed guest memory. -/
def zeroQueue : Transport where
  vq := { vqQsize := 4, vqFlags := vqAlloc, vqLastAvail := 0, vqSaveUsed := 0, vqMsixIdx := 0,
          vqDesc := fun _ => ⟨0, 0, 0, 0⟩, vqAvail := ⟨0, 0, fun _ => 0⟩,
          vqUsed := ⟨0, 0, fun _ => ⟨0, 0⟩⟩ }
  mem := fun _ => 0
  published := []
  kept := []
  released := []

theorem zeroQueue_fresh : Fresh zeroQueue := by
  constructor
  · exact ⟨2, by decide, rfl⟩
  all_goals rfl

def plainVirtio : VirtioSoftc := ⟨0, 0, 0, false, []⟩

theorem zeroQueue_one_round :
    ∃ t, Machine.Run (transportStep plainVirtio ⟨0, 0⟩) (GuestOk plainVirtio ⟨0, 0⟩) zeroQueue
        [.publish 3 (fun _ => ⟨0, 0, 0, 0⟩) (fun _ => 0), .keep, .release 3 0] t ∧
      t.kept = [3] ∧ t.released.length = 1 := by
  refine ⟨_, .stepL ⟨by decide, ?_⟩ rfl (.stepL trivial rfl (.stepL trivial rfl .refl)), rfl, rfl⟩
  intro h hh
  have he : h = 3 := by simpa [Transport.unconsumed, zeroQueue] using hh
  subst he
  exact ⟨_, rfl⟩

theorem transport_lossless_one_round : ∃ t : Transport, t.kept = [3] ∧ t.kept <+: t.published ∧
      (vqRelchain t.vq 3 0).vqUsed.vuIdx.toNat = 2 := by
  obtain ⟨t, hr, hk, hl⟩ := zeroQueue_one_round
  obtain ⟨hp, _, _, hrel⟩ := transport_lossless_in_order zeroQueue_fresh hr
  refine ⟨t, hk, hp, ?_⟩
  rw [(hrel 3 0).2, hl]

/-- No way of numbering the releases makes the slot and the new `vu_idx` the
same residue: the very first one fills slot 0 and leaves `vu_idx = 1`. -/
theorem release_number_mismatch : ¬ ∃ first : ℕ, ∀ as t,
      Machine.Run (transportStep plainVirtio ⟨0, 0⟩) (GuestOk plainVirtio ⟨0, 0⟩)
        zeroQueue as t →
      (vqRelchain t.vq 3 0).vqUsed.vuRing =
        update t.vq.vqUsed.vuRing ((t.released.length + first) % 4) ⟨3, 0⟩ ∧
      (vqRelchain t.vq 3 0).vqUsed.vuIdx.toNat = (t.released.length + first) % 65536 := by
  rintro ⟨first, h⟩
  obtain ⟨hslot, hidx⟩ := h [] zeroQueue .refl
  have hzero : first % 4 = 0 := by
    by_contra hne
    have h0 := congrFun hslot 0
    have hl : (vqRelchain zeroQueue.vq 3 0).vqUsed.vuRing 0 = ⟨3, 0⟩ := rfl
    rw [update_of_ne] at h0
    · exact absurd h0 (by decide)
    · simp only [zeroQueue, length_nil, Nat.zero_add]
      omega
  have hone : (vqRelchain zeroQueue.vq 3 0).vqUsed.vuIdx.toNat = 1 := rfl
  rw [hone] at hidx
  simp only [zeroQueue, length_nil, Nat.zero_add] at hidx
  omega

end HyperCog.Virtio
