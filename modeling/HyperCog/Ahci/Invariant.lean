import HyperCog.Ahci.Slots

/-! What every step of the controller keeps, from what its turns, callbacks and cancellations do. -/
namespace HyperCog.Ahci

open Virtio Blockif Machine

/-- The story of port 0. -/
def storyOf (l : List Event) : List Event := (traceOf l).filter fun e => e.port = 0

/-- Nothing changed that the story of port 0 tells of. -/
structure SameStory (s s' : Hba) : Prop where
  pending : (s'.port 0).pending = (s.port 0).pending
  ioreq : (s'.port 0).ioreq = (s.port 0).ioreq
  iobhd : (s'.port 0).iobhd = (s.port 0).iobhd
  atapi : (s'.port 0).atapi = (s.port 0).atapi
  bctx : (s'.port 0).bctx = (s.port 0).bctx
  story : storyOf s'.log = storyOf s.log

/-- Only port 0 has a disk. -/
def Hba.OneDisk (s : Hba) : Prop :=
  ∀ j, j ≠ 0 → (s.port j).bctx = none ∧ (s.port j).prSc = false ∧ s.Bare j

/-- Port 0 keeps its books, and the others have nothing to keep any of. -/
structure Hba.Sound (s : Hba) : Prop where
  books : Books 0 none [] [] s
  others : s.OneDisk

/-- A condition on the turns of the issue loop of port 0, in the states where they begin. -/
abbrev TurnCond := Guest → ℕ → Hba → Prop

/-- A condition on callbacks. -/
abbrev CallbackCond := Guest → IoreqId → Option Errno → Hba → Prop

/-- The loop has come to its end. -/
def AhciPort.halted (p : AhciPort) : Prop :=
  p.ci &&& ~~~p.pending = 0 ∨ p.tfd &&& (ataSBusy ||| ataSDrq) ≠ 0 ∨ p.waitforclear = true

section Meets

variable (T : TurnCond) (B : CallbackCond)

/-- Every turn of the issue loop meets the condition in the state where it begins. -/
def LoopMeets (g : Guest) : ℕ → ℕ → Hba → Prop
  | 0, _, _ => True
  | fuel + 1, k, s => (s.port 0).halted ∨
    T g k s ∧ ∀ s', issueTurn g 0 k (s.port 0) s = .ok ((), s') → LoopMeets g fuel (k + 1) s'

def PortMeets (g : Guest) (s : Hba) : Prop :=
  (s.port 0).cmd &&& ahciPCmdSt = 0 ∨ LoopMeets T g g.turns 1 s

/-- The turns that a step brings about, and the callback it may be, meet the conditions. -/
def Meets (s : Hba) : Action → Prop
  | .write g offset size value => size = 4 → (offset = ahciOffset + 0x18 →
      ∀ s₁, setCmd g 0 value s = .ok ((), s₁) → PortMeets T g s₁) ∧
    (offset = ahciOffset + 0x38 →
      PortMeets T g (s.setPort 0 { s.port 0 with ci := (s.port 0).ci ||| value }))
  | .worker _ g => ∀ be err a, s.blk.worker = .callback be err → (s.blk.q.bcReqs be).beReq = some a →
    let s₀ := { s with blk := workerCallback s.blk be }
    B g a err s₀ ∧ ∀ s₁, ioreqDone g 0 (g.mem 0) a err s₀ = .ok (true, s₁) → PortMeets T g s₁
  | .wake => True

end Meets

/-- What holds of the story of port 0 whatever its slots go through under the conditions. -/
structure Stable (T : TurnCond) (B : CallbackCond) (J : Hba → Prop) : Prop where
  same : ∀ {s s'}, SameStory s s' → J s → J s'
  turn : ∀ {g k bc s s'}, Books 0 none [] [] s → (s.port 0).bctx = some bc → T g k s → J s →
    ¬ (s.port 0).halted → Turned g 0 bc.bcSectsz k s s' → Books 0 none [] [] s' → J s'
  callback : ∀ {g a err bc s s'}, Books 0 (some ((s.port 0).ioreq a).slot) [] [a] s →
    (s.port 0).bctx = some bc → B g a err s → J s →
    CalledBack g 0 bc.bcSectsz (g.mem 0) a err s s' → Books 0 none [] [] s' → J s'
  cancel : ∀ {a s s'}, Books 0 none [] [] s → J s → Cancelled 0 a s s' → Books 0 none [] [] s' → J s'

/-- No assertion that an element is free or that the disk accepts a request failed on port 0. -/
def Crash.Unasserted (e : Crash) : Prop := e.fault ≠ .noIoreq 0 ∧ e.fault ≠ .refused 0

/-- Port 0 comes out with its books in order and `J` kept, or the device ends for another reason. -/
abbrev Kept {α : Type} (J : Hba → Prop) : Except Crash (α × Hba) → Prop :=
  Ends (fun _ s' => Books 0 none [] [] s' ∧ J s') Crash.Unasserted

/-- So does the whole controller. -/
abbrev AllKept {α : Type} (J : Hba → Prop) : Except Crash (α × Hba) → Prop :=
  Ends (fun _ s' => s'.Sound ∧ J s') Crash.Unasserted

variable {g : Guest} {m : HostMem} {s s' : Hba} {e : Crash} {i : PortId} {err : Option Errno} {T : TurnCond}
  {B : CallbackCond} {J : Hba → Prop} {value : BitVec 32} {offset sectsz : ℕ} {t : Slot}

theorem unasserted_fromGuest (h : e.fault.FromGuest) : e.Unasserted := by
  rcases h with h | h | h <;> exact ⟨by simp [h], by simp [h]⟩

theorem Killed.unasserted (h : Killed g i sectsz m t s e) : e.Unasserted := by
  cases h with
  | table hc hd => exact unasserted_fromGuest (hd.1 ▸ slotCommand_error hc)
  | command hc hfis hctl hl hnew hd => exact unasserted_fromGuest (hd.1 ▸ plan_error hl)

theorem CallbackKilled.unasserted {a : IoreqId}
    (h : CallbackKilled g i sectsz m a err s e) : e.Unasserted := by
  obtain ⟨-, ⟨-, hd⟩ | ⟨f, new, hl, -, hd⟩⟩ := h
  · exact unasserted_fromGuest (hd.1 ▸ .inl rfl)
  · exact unasserted_fromGuest (hd.1 ▸ planNext_error hl)

section Port

variable {f : AhciPort → AhciPort}

theorem sameStory_effect (he : Effect 0 f [] s s')
    (hf : SameBooks (s.port 0) (f (s.port 0)) := by exact ⟨rfl, rfl, rfl, rfl, rfl, rfl⟩)
    (ha : (f (s.port 0)).atapi = (s.port 0).atapi := by rfl) : SameStory s s' := by
  obtain ⟨x, hx⟩ := he.port
  refine ⟨?_, ?_, ?_, ?_, ?_, ?_⟩
  · rw [hx]; exact hf.pending
  · rw [hx]; exact hf.ioreq
  · rw [hx]; exact hf.iobhd
  · rw [hx]; exact ha
  · rw [hx]; exact hf.bctx
  · rw [storyOf, storyOf, he.trace, List.append_nil]

theorem sameBooks_cmdBits (p : AhciPort) : SameBooks p (cmdBits g value p) := by
  unfold cmdBits
  split <;> split <;> split <;> exact ⟨rfl, rfl, rfl, rfl, rfl, rfl⟩

variable (hst : Stable T B J)
include hst

section

variable (h : Books 0 none [] [] s) (hj : J s)

include h hj

/-- A change of registers of port 0. -/
theorem ends_registers
    (hf : SameBooks (s.port 0) (f (s.port 0)) := by exact ⟨rfl, rfl, rfl, rfl, rfl, rfl⟩)
    (ha : (f (s.port 0)).atapi = (s.port 0).atapi := by rfl) : Kept J (modifyPort 0 f s) := by
  have he : Effect 0 f [] s (s.setPort 0 (f (s.port 0))) := (effect_setPort _).congr rfl
  exact ⟨h.effect he hf, hst.same (sameStory_effect he hf ha) hj⟩

theorem ends_issueLoop {fuel k : ℕ} (hm : LoopMeets T g fuel k s) :
    Kept J (issueLoop g 0 fuel k s) := by
  induction fuel generalizing k s with
  | zero => exact ⟨by simp, by simp⟩
  | succ fuel ih =>
    unfold issueLoop
    rw [run_getPort]
    split
    · exact ⟨h, hj⟩
    · rename_i hgo
      rcases hm with hhalt | ⟨ht, hnext⟩
      · exact absurd hhalt hgo
      obtain ⟨bc, hb⟩ := Option.isSome_iff_exists.mp h.disk
      refine ends_bind_run (ends_mono (ends_issueTurn h hb) (fun _ _ h' => h')
        fun e he => ?_) ?_
      · obtain ⟨-, s₁, -, hk⟩ := he
        exact hk.unasserted
      · rintro _ s₁ hrun ⟨h₁, hturn⟩
        exact ih h₁ (hst.turn h hb ht hj hgo hturn h₁) (hnext s₁ hrun)

theorem ends_handlePort (hm : PortMeets T g s) : Kept J (ahciHandlePort g 0 s) := by
  unfold ahciHandlePort
  rw [run_getPort]
  split
  · exact ⟨h, hj⟩
  · rename_i hst'
    exact ends_issueLoop hst h hj (hm.resolve_left hst')

theorem ends_portStop : Kept J (ahciPortStop 0 m s) := by
  unfold ahciPortStop
  rw [run_getPort]
  refine ends_bind (ends_mono (ends_stopLoop (fun a s s' hb hj hc hb' =>
    hst.cancel hb hj hc hb') h hj) (fun _ _ h' => h') fun e he => ?_) ?_
  · rcases he with he | ⟨f, he⟩ <;> exact ⟨by simp [he], by simp [he]⟩
  · rintro _ s' ⟨hb, hj⟩
    refine ends_registers hst hb hj (sameBooks_checkStopped _) ?_
    unfold AhciPort.checkStopped
    split <;> rfl

theorem ends_setCmd : Kept J (setCmd g 0 value s) := by
  refine ends_bind (ends_registers hst h hj) ?_
  rintro _ s₁ ⟨h₁, hj₁⟩
  refine ends_bind (Q := fun _ s' => Books 0 none [] [] s' ∧ J s') ?_ ?_
  · unfold cmdStart
    split
    · exact ends_portStop hst h₁ hj₁
    · exact ends_registers hst h₁ hj₁
  · rintro _ s' ⟨hb, hj⟩
    exact ends_registers hst hb hj (sameBooks_cmdBits _) (wired_cmdBits _).atapi

theorem ends_portReset_zero : Kept J (ahciPortReset g 0 s) := by
  refine ends_sure (ends_portReset h.disk h.sc) fun _ s' he => ?_
  exact ⟨h.effect he, hst.same (sameStory_effect he) hj⟩

theorem ends_writeSctl : Kept J (writeSctl g 0 value s) := by
  refine ends_bind (ends_registers hst h hj) ?_
  rintro _ s₁ ⟨h₁, hj₁⟩
  rw [run_getPort]
  split
  · exact ends_portReset_zero hst h₁ hj₁
  · exact ⟨h₁, hj₁⟩

theorem ends_raiseIntr : Kept J (raiseIntr g s) := by
  have hsame : (s.raise g.msi).port = s.port ∧ (s.raise g.msi).blk = s.blk ∧
      (s.raise g.msi).log = s.log := by
    unfold Hba.raise
    dsimp only
    split <;> exact ⟨rfl, rfl, rfl⟩
  obtain ⟨hport, hblk, hlog⟩ := hsame
  refine ⟨h.congr ?_ hblk, hst.same ?_ hj⟩
  · rw [hport]
    exact ⟨rfl, rfl, rfl, rfl, rfl, rfl⟩
  · refine ⟨?_, ?_, ?_, ?_, ?_, ?_⟩ <;> first | rw [hport] | rw [hlog]

/-- A register write to port 0. -/
theorem ends_portWrite
    (hcmd : offset = 0x18 → ∀ s₁, setCmd g 0 value s = .ok ((), s₁) → PortMeets T g s₁)
    (hci : offset = 0x38 → PortMeets T g (s.setPort 0 { s.port 0 with ci := (s.port 0).ci ||| value })) :
    Kept J (pciAhciPortWrite g 0 offset value s) := by
  refine ends_ite (fun _ => ends_registers hst h hj) fun _ => ends_ite (fun _ => ends_registers hst h hj) fun _ =>
    ends_ite (fun _ => ends_registers hst h hj) fun _ => ends_ite (fun _ => ends_registers hst h hj) fun _ =>
    ends_ite (fun _ => ends_registers hst h hj) fun _ => ends_ite (fun _ => ?intr) fun _ =>
    ends_ite (fun hoff => ?cmd) fun _ => ends_ite (fun _ => ends_writeSctl hst h hj) fun _ =>
    ends_ite (fun _ => ends_registers hst h hj) fun _ => ends_ite (fun _ => ends_registers hst h hj) fun _ =>
    ends_ite (fun hoff => ?ci) fun _ => ⟨h, hj⟩
  case intr =>
    refine ends_bind (ends_registers hst h hj) ?_
    rintro _ s₁ ⟨h₁, hj₁⟩
    exact ends_raiseIntr hst h₁ hj₁
  case cmd =>
    refine ends_bind_run (ends_setCmd hst h hj) ?_
    rintro _ s₁ hrun ⟨h₁, hj₁⟩
    exact ends_handlePort hst h₁ hj₁ (hcmd hoff s₁ hrun)
  case ci =>
    refine ends_bind_run (ends_registers hst h hj) ?_
    rintro _ s₁ hrun ⟨h₁, hj₁⟩
    cases hrun
    exact ends_handlePort hst h₁ hj₁ (hci hoff)

end

end Port

section Step

variable {α : Type} {m : AhciM α}

variable {j : PortId} {blk : World IoreqId} {b : Build} {a : Action}

theorem storyOf_logFrom {l l' : List Event} (hj : j ≠ 0) (h : LogFrom j l l') :
    storyOf l' = storyOf l := by
  obtain ⟨new, rfl, hnew⟩ := h
  have hnil : storyOf new = [] := by
    refine List.filter_eq_nil_iff.mpr fun e he => ?_
    have hport := hnew e (List.mem_filter.mp he).1
    simp [hport, hj]
  rw [storyOf, traceOf_append, List.filter_append]
  change storyOf l ++ storyOf new = _
  rw [hnil, List.append_nil]

/-- What port 0 does leaves the others as they are. -/
theorem Hba.OneDisk.sound {E : Crash → Prop} (hs : s.OneDisk) (hl : Local 0 false m)
    (h : Ends (fun _ s' => Books 0 none [] [] s' ∧ J s') E (m s)) :
    Ends (fun _ s' => s'.Sound ∧ J s') E (m s) := by
  have hstays := hl s s (stays_refl (by simp))
  cases hrun : m s with
  | error e =>
    rw [hrun] at h
    exact h
  | ok p =>
    rw [hrun] at h hstays
    refine ⟨⟨h.1, fun j hj => ?_⟩, h.2⟩
    rw [Hba.Bare, hstays.other j hj]
    exact hs j hj

theorem sameStory_registers {ghc is : BitVec 32} {lintr : Bool} :
    SameStory s { s with ghc := ghc, is := is, lintr := lintr, blk := blk } :=
  ⟨rfl, rfl, rfl, rfl, rfl, rfl⟩

theorem step_eq_ok (h : step b s a = .ok s') : ∃ u, act b a s = .ok (u, s') := by
  unfold step at h
  cases hrun : act b a s with
  | error e =>
    rw [hrun] at h
    cases h
  | ok p =>
    rw [hrun] at h
    cases h
    exact ⟨p.1, rfl⟩

theorem step_eq_error (h : step b s a = .error e) : act b a s = .error e := by
  unfold step at h
  cases hrun : act b a s with
  | error e' =>
    rw [hrun] at h
    cases h
    rfl
  | ok p =>
    rw [hrun] at h
    cases h

variable (hst : Stable T B J)
include hst

/-- The work of another port does not touch port 0 or the disk. -/
theorem Hba.Sound.other (hs : s.Sound) (hjs : J s) (hj : j ≠ 0) (hl : Local j true m) :
    AllKept J (m s) := by
  have hstays := hl s s (stays_refl fun _ => (hs.others j hj).2.2)
  cases hrun : m s with
  | error e =>
    rw [hrun] at hstays
    constructor <;> intro hf
    all_goals exact hj (hstays.fault 0 (by rw [hf]; rfl)).symm
  | ok p =>
    rw [hrun] at hstays
    have hzero : p.2.port 0 = s.port 0 := hstays.other 0 (Ne.symm hj)
    obtain ⟨hbare, hblk⟩ := hstays.disk rfl
    refine ⟨⟨hs.books.congr ?_ hblk, fun i hi => ?_⟩, hst.same ?_ hjs⟩
    · rw [hzero]
      exact ⟨rfl, rfl, rfl, rfl, rfl, rfl⟩
    · by_cases hij : i = j
      · subst hij
        exact ⟨hstays.bctx.trans (hs.others i hi).1, hstays.prSc.trans (hs.others i hi).2.1, hbare⟩
      · rw [Hba.Bare, hstays.other i hij]
        exact hs.others i hi
    · refine ⟨?_, ?_, ?_, ?_, ?_, storyOf_logFrom hj hstays.log⟩ <;> rw [hzero]

/-- The disk may go on by itself while the requests in flight stay the same. -/
theorem Hba.Sound.disk (hs : s.Sound) (hj : J s) (hok : blk.Ok)
    (hp : blk.inFlight.Perm s.blk.inFlight) :
    ({ s with blk := blk } : Hba).Sound ∧ J { s with blk := blk } := by
  refine ⟨⟨⟨hs.books.disk, hs.books.sc, hok, ?_⟩, hs.others⟩, hst.same sameStory_registers hj⟩
  exact { hs.books.pool with flight := hp.trans hs.books.pool.flight }

theorem keeps_resetPort (i : PortId) :
    Keeps (fun s => s.Sound ∧ J s) Crash.Unasserted (resetPort g i) := by
  rintro s ⟨hs, hj⟩
  by_cases hi : i = 0
  · subst hi
    refine hs.others.sound local_resetPort (ends_bind
      (ends_registers hst hs.books hj) ?_)
    rintro _ s₁ ⟨h₁, hj₁⟩
    exact ends_portReset_zero hst h₁ hj₁
  · exact hs.other hst hj hi local_resetPort

/-- A register write to any port. -/
theorem ends_anyWrite {r : ℕ} (hs : s.Sound) (hj : J s)
    (hcmd : i = 0 → r = 0x18 → ∀ s₁, setCmd g 0 value s = .ok ((), s₁) → PortMeets T g s₁)
    (hci : i = 0 → r = 0x38 → PortMeets T g (s.setPort 0 { s.port 0 with ci := (s.port 0).ci ||| value })) :
    AllKept J (pciAhciPortWrite g i r value s) := by
  by_cases hi : i = 0
  · subst hi
    exact hs.others.sound local_portWrite
      (ends_portWrite hst hs.books hj (hcmd rfl) (hci rfl))
  · exact hs.other hst hj hi local_portWrite

theorem ends_write {size : ℕ} (hs : s.Sound) (hj : J s)
    (hm : Meets T B s (.write g offset size value)) :
    AllKept J (pciAhciWrite g offset size value s) := by
  refine ends_pciAhciWrite ⟨hs, hj⟩ ?_ ⟨by simp, by simp⟩ ?_ (keeps_resetPort hst)
  · rintro s ghc is lintr ⟨hs, hj⟩
    exact ⟨⟨hs.books.congr ⟨rfl, rfl, rfl, rfl, rfl, rfl⟩ rfl, hs.others⟩,
      hst.same sameStory_registers hj⟩
  · intro i r hsize hoff _
    refine ends_anyWrite hst hs hj ?_ ?_
    · rintro rfl rfl
      exact (hm hsize).1 hoff
    · rintro rfl rfl
      exact (hm hsize).2 hoff

/-- The callback of a request that the disk gives back. -/
theorem ends_ioreqCb {a : IoreqId} (h : Books 0 (some ((s.port 0).ioreq a).slot) [] [a] s) (hj : J s)
    (hb : B g a err s)
    (hm : ∀ s₁, ioreqDone g 0 (g.mem 0) a err s = .ok (true, s₁) → PortMeets T g s₁) :
    Kept J (ioreqCb g 0 (g.mem 0) a err s) := by
  obtain ⟨bc, hbc⟩ := Option.isSome_iff_exists.mp h.disk
  refine ends_bind_run (ends_mono (ends_ioreqDone h hbc) (fun _ _ h' => h')
    fun e he => he.unasserted) ?_
  rintro again s₁ hrun ⟨h₁, hcb⟩
  have hj₁ := hst.callback h hbc hb hj hcb h₁
  cases again with
  | false => exact ⟨h₁, hj₁⟩
  | true => exact ends_handlePort hst h₁ hj₁ (hm s₁ hrun)

theorem ends_worker {h : Host} (hs : s.Sound) (hj : J s) (hm : Meets T B s (.worker h g)) :
    AllKept J (workerStep b h g s) := by
  unfold workerStep
  split
  · rename_i be err hw
    unfold workerCalls
    split
    · exact ⟨by simp, by simp⟩
    · rename_i a ha
      obtain ⟨hb, hnext⟩ := hm be err a hw ha
      have hbooks := hs.books.recall (ok_workerCallback hs.books.ok hw) (inFlight_callback hw ha)
      have hone : { s with blk := workerCallback s.blk be }.OneDisk := hs.others
      exact hone.sound local_ioreqCb
        (ends_ioreqCb hst hbooks (hst.same sameStory_registers hj) hb hnext)
  · rename_i hw
    split
    · exact ⟨by simp, by simp⟩
    · rename_i bc _
      cases hrun : blockifThr b bc h s.blk with
      | error e => cases e <;> exact ⟨by simp [stopFault], by simp [stopFault]⟩
      | ok blk =>
        exact hs.disk hst hj (ok_blockifThr hs.books.ok hrun) (inFlight_thr hs.books.ok hw hrun)

/-- Under the conditions every step keeps port 0 in order, and no assertion of its elements
fails. -/
theorem ends_act (hs : s.Sound) (hj : J s) (hm : Meets T B s a) : AllKept J (act b a s) := by
  cases a with
  | write g offset size value => exact ends_write hst hs hj hm
  | worker h g => exact ends_worker hst hs hj hm
  | wake =>
    refine hs.disk hst hj
      (hs.books.ok.withWorker (serves_signal _) fun hp => absurd hp signal_ne_parked) ?_
    simp [World.inFlight, World.unanswered]

theorem sound_step (hm : Meets T B s a) (hstep : step b s a = .ok s') (h : s.Sound ∧ J s) :
    s'.Sound ∧ J s' := by
  have hact := ends_act (b := b) hst h.1 h.2 hm
  obtain ⟨u, hrun⟩ := step_eq_ok hstep
  rw [hrun] at hact
  exact hact

end Step

end HyperCog.Ahci
