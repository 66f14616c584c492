import HyperCog.Lib.Run
import HyperCog.Lib.Counter
import HyperCog.Virtio.Queue

/-! With EVENT_IDX the device interrupts exactly when it has filled the entry waited for. -/
namespace HyperCog.Virtio

open List

/-- The queue with the numbers of the used entries filled since the last `vq_endchains`. -/
structure Notify where
  vs : VirtioSoftc
  vq : VqueueInfo
  filled : List UInt16

inductive NotifyAction
  | release (idx : UInt16) (iolen : UInt32)
  | endchains (usedAllAvail : Bool)
  | guest (avail : VringAvail)

/-- The guest may rewrite its avail ring, `used_event` included, between any two device steps. -/
def notifyStep (s : Notify) : NotifyAction → Except Empty Notify
  | .release idx iolen =>
    .ok { s with vq := vqRelchain s.vq idx iolen, filled := s.filled ++ [s.vq.vqUsed.vuIdx] }
  | .endchains usedAllAvail =>
    .ok { vs := (vqEndchains s.vs s.vq usedAllAvail).1
          vq := (vqEndchains s.vs s.vq usedAllAvail).2
          filled := [] }
  | .guest avail => .ok { s with vq := { s.vq with vqAvail := avail } }

/-- One interrupt was delivered between the two states. -/
def Raises (vs vs' : VirtioSoftc) : Prop := ∃ i, vs'.raised = vs.raised ++ [i]

/-- The entries filled since the last `vq_endchains` are numbered upwards from `vq_save_used`. -/
def FilledFrom (s : Notify) : Prop :=
  s.filled = (range s.filled.length).map (fun j => s.vq.vqSaveUsed + .ofNat j) ∧
    s.vq.vqUsed.vuIdx = s.vq.vqSaveUsed + .ofNat s.filled.length

variable {s t : Notify} {as : List NotifyAction}

theorem filledFrom_start (hs : s.vq.vqSaveUsed = s.vq.vqUsed.vuIdx) (hf : s.filled = []) :
    FilledFrom s := by
  simp [FilledFrom, hf, hs]

theorem filledFrom_step {a : NotifyAction} (hs : notifyStep s a = .ok t) (h : FilledFrom s) :
    FilledFrom t := by
  obtain ⟨hfill, hidx⟩ := h
  cases a with
  | release idx iolen =>
    cases hs
    refine ⟨?_, ?_⟩
    · -- the new entry carries the number `vu_idx` had before it was bumped
      simp only [length_append, length_singleton, range_succ, map_append,
        map_singleton, vqRelchain, ← hfill, ← hidx]
    · simp [vqRelchain, hidx, UInt16.add_assoc]
  | endchains usedAllAvail =>
    cases hs
    simp [FilledFrom, vqEndchains]
  | guest avail =>
    cases hs
    exact ⟨hfill, hidx⟩

theorem filledFrom_run (hr : Machine.Run notifyStep Machine.Any s as t) (h : FilledFrom s) :
    FilledFrom t :=
  hr.invariant (fun _ _ _ _ => filledFrom_step) h

theorem vqInterrupt_raises (vs : VirtioSoftc) (vq : VqueueInfo) : Raises vs (vqInterrupt vs vq) := by
  unfold vqInterrupt
  split
  all_goals exact ⟨_, rfl⟩

theorem not_raises_self (vs : VirtioSoftc) : ¬ Raises vs vs := by
  rintro ⟨i, hi⟩
  simpa using congrArg length hi

/-- Without NOTIFY_ON_EMPTY the EVENT_IDX comparison alone decides. -/
theorem endchains_raises_iff_compare {vs : VirtioSoftc} {vq : VqueueInfo} (usedAllAvail : Bool)
    (hev : vs.vsNegotiatedCaps &&& virtioRingFEventIdx ≠ 0)
    (hne : vs.vsNegotiatedCaps &&& virtioFNotifyOnEmpty = 0) :
    Raises vs (vqEndchains vs vq usedAllAvail).1 ↔
      vq.vqUsed.vuIdx - vqUsedEventIdx vq - 1 < vq.vqUsed.vuIdx - vq.vqSaveUsed := by
  simp only [vqEndchains, hne, bne_self_eq_false, Bool.and_false, Bool.false_eq_true, if_false,
    if_pos hev, decide_eq_true_eq]
  split_ifs with hlt
  · exact iff_of_true (vqInterrupt_raises _ _) hlt
  · exact iff_of_false (not_raises_self _) hlt

theorem FilledFrom.advance (h : FilledFrom s) :
    s.vq.vqUsed.vuIdx - s.vq.vqSaveUsed = .ofNat s.filled.length := by
  rw [h.2, UInt16.add_comm, UInt16.add_sub_cancel]

theorem mem_filled_iff_window (h : FilledFrom s) (hn : s.filled.length < 65536) (e : UInt16) :
    e ∈ s.filled ↔ (e - s.vq.vqSaveUsed).toNat < s.filled.length := by
  have hmem : e ∈ s.filled ↔ ∃ j < s.filled.length, e = s.vq.vqSaveUsed + .ofNat j := by
    conv_lhs => rw [h.1]
    simp [eq_comm]
  have hw := Counter.mem_window_iff s.vq.vqSaveUsed.toBitVec e.toBitVec (Nat.le_of_lt hn)
  refine hmem.trans (Iff.trans ?_ hw)
  constructor
  · rintro ⟨j, hj, rfl⟩
    exact ⟨j, hj, rfl⟩
  · rintro ⟨j, hj, he⟩
    exact ⟨j, hj, UInt16.eq_of_toBitVec_eq he⟩

/-- After any run, `vq_endchains` interrupts exactly when a release since the
previous one filled the entry numbered `used_event`, that is when `used_event`
lies in the half-open window from the old to the new used index. -/
theorem endchains_raises_iff_filled (hstart : s.vq.vqSaveUsed = s.vq.vqUsed.vuIdx)
    (hnone : s.filled = []) (hr : Machine.Run notifyStep Machine.Any s as t)
    (hn : t.filled.length < 65536) (usedAllAvail : Bool)
    (hev : t.vs.vsNegotiatedCaps &&& virtioRingFEventIdx ≠ 0)
    (hne : t.vs.vsNegotiatedCaps &&& virtioFNotifyOnEmpty = 0) :
    (Raises t.vs (vqEndchains t.vs t.vq usedAllAvail).1 ↔ vqUsedEventIdx t.vq ∈ t.filled) ∧
    (vqUsedEventIdx t.vq ∈ t.filled ↔ (vqUsedEventIdx t.vq - t.vq.vqSaveUsed).toNat <
        (t.vq.vqUsed.vuIdx - t.vq.vqSaveUsed).toNat) := by
  have h := filledFrom_run hr (filledFrom_start hstart hnone)
  have hmem := mem_filled_iff_window h hn (vqUsedEventIdx t.vq)
  constructor
  · rw [endchains_raises_iff_compare usedAllAvail hev hne, hmem, h.advance, h.2]
    exact Counter.crossed_iff t.vq.vqSaveUsed.toBitVec (vqUsedEventIdx t.vq).toBitVec hn
  · rw [hmem, h.advance, UInt16.toNat_ofNat', Nat.mod_eq_of_lt hn]

/-- Old index 65535, two releases, `used_event` 0: the window crosses the wrap. -/
def wrapStart : Notify where
  vs := ⟨0, virtioRingFEventIdx, 0, false, []⟩
  vq := { vqQsize := 2, vqFlags := vqAlloc, vqLastAvail := 0, vqSaveUsed := 65535,
          vqMsixIdx := 0, vqDesc := fun _ => ⟨0, 0, 0, 0⟩, vqAvail := ⟨0, 0, fun _ => 0⟩,
          vqUsed := ⟨0, 65535, fun _ => ⟨0, 0⟩⟩ }
  filled := []

theorem endchains_raises_across_wrap :
    ∃ t, Machine.Run notifyStep Machine.Any wrapStart [.release 1 0, .release 0 0] t ∧
      Raises t.vs (vqEndchains t.vs t.vq true).1 := by
  have hr := Machine.run_any_iff_exec.mpr
    (show Machine.exec notifyStep wrapStart [.release 1 0, .release 0 0] = .ok _ from rfl)
  have h := endchains_raises_iff_filled rfl rfl hr (by decide) true (by decide) (by decide)
  exact ⟨_, hr, h.1.mpr (by decide)⟩

end HyperCog.Virtio
