import HyperCog.Ahci.Accounting

/-! Ports without a disk: what keeps commands away from them. -/
namespace HyperCog.Ahci

open Virtio Blockif Machine

/-- No device, and a task file that says so. -/
structure AhciPort.Absent (p : AhciPort) : Prop where
  bctx : p.bctx = none
  prSc : p.prSc = false
  iobhd : p.iobhd = []
  drq : p.tfd &&& ataSDrq ≠ 0

/-- Nothing was done by ports other than the first. -/
def Unheard (l : List Event) : Prop := ∀ e ∈ l, e.port = 0

/-- The ports without a disk have done nothing. -/
structure Hba.Idle (s : Hba) : Prop where
  absent : ∀ j, j ≠ 0 → (s.port j).Absent
  log : Unheard s.log

/-- `PxCMD` is not written with `CLO` on a port that has no disk. -/
def NoOverride (s : Hba) : Action → Prop
  | .write _ offset _ value => ∀ j : PortId, (s.port j).bctx = none →
    offset = ahciOffset + ahciStep * j + 0x18 → value &&& ahciPCmdClo = 0
  | .worker _ _ | .wake => True

variable {g : Guest} {s s' : Hba} {j : PortId} {b : Build} {bc : BlockifCtxt} {atapi : Bool}
  {l : List Event} {as : List Action} {value : BitVec 32} {p : AhciPort} {E : Crash → Prop}
  {α : Type} {m : AhciM α}

theorem absent_checkStopped (hp : p.Absent) : p.checkStopped.Absent := by
  unfold AhciPort.checkStopped
  split
  · exact { hp with }
  · exact hp

theorem absent_cmdBits (hp : p.Absent) (hv : value &&& ahciPCmdClo = 0) :
    (cmdBits g value p).Absent := by
  have hclo : ¬ value &&& ahciPCmdClo ≠ 0 := not_not.mpr hv
  unfold cmdBits
  split <;> split <;> exact { hp with }

/-- A change of registers of a port without a disk. -/
theorem ends_absent {f : AhciPort → AhciPort} (hs : s.Idle) (hf : (f (s.port j)).Absent) :
    Ends (fun _ => Hba.Idle) E (modifyPort j f s) := by
  refine ⟨fun i hi => ?_, hs.log⟩
  by_cases hij : i = j
  · subst hij
    rw [setPort_port]
    exact hf
  · rw [setPort_other hij]
    exact hs.absent i hi

/-- The issue loop sees that there is no device. -/
theorem ends_handlePort_absent (hs : s.Idle) (hj : j ≠ 0) :
    Ends (fun _ => Hba.Idle) (fun e => Unheard e.log) (ahciHandlePort g j s) := by
  have hdrq : (s.port j).tfd &&& (ataSBusy ||| ataSDrq) ≠ 0 := by
    intro hzero
    refine (hs.absent j hj).drq ?_
    have hsub : ataSDrq = (ataSBusy ||| ataSDrq) &&& ataSDrq := by decide
    rw [hsub, ← BitVec.and_assoc, hzero]
    exact BitVec.zero_and
  unfold ahciHandlePort
  rw [run_getPort]
  split
  · exact hs
  · cases g.turns with
    | zero => exact hs.log
    | succ fuel =>
      unfold issueLoop
      rw [run_getPort, if_pos (.inr (.inl hdrq))]
      exact hs

theorem ends_portReset_absent (hs : s.Idle) (hj : j ≠ 0) :
    Ends (fun _ => Hba.Idle) E (ahciPortReset g j s) := by
  have hp := hs.absent j hj
  unfold ahciPortReset
  rw [run_getPort, if_pos (by simp [hp.bctx])]
  have hdrq : 0x7f &&& ataSDrq ≠ 0 := by decide
  exact ends_absent hs ⟨hp.bctx, hp.prSc, hp.iobhd, hdrq⟩

theorem ends_setCmd_absent (hs : s.Idle) (hj : j ≠ 0) (hv : value &&& ahciPCmdClo = 0) :
    Ends (fun _ => Hba.Idle) E (setCmd g j value s) := by
  have hp := hs.absent j hj
  refine ends_bind (ends_absent hs { hp with }) fun _ s₁ h₁ => ?_
  have hp₁ := h₁.absent j hj
  refine ends_bind (Q := fun _ => Hba.Idle) ?_ fun _ s₂ h₂ => ?_
  · refine ends_ite (fun _ => ?_) fun _ => ?_
    · unfold ahciPortStop
      rw [run_getPort, hp₁.iobhd]
      exact ends_absent h₁ (absent_checkStopped hp₁)
    · exact ends_absent h₁ { hp₁ with }
  · exact ends_absent h₂ (absent_cmdBits (h₂.absent j hj) hv)

/-- A register write to a port without a disk. -/
theorem ends_portWrite_absent {r : ℕ} (hs : s.Idle) (hj : j ≠ 0)
    (hv : r = 0x18 → value &&& ahciPCmdClo = 0) :
    Ends (fun _ => Hba.Idle) (fun e => Unheard e.log) (pciAhciPortWrite g j r value s) := by
  have hp := hs.absent j hj
  have hreg {f : AhciPort → AhciPort} (hf : (f (s.port j)).Absent) :
      Ends (fun _ => Hba.Idle) (fun e => Unheard e.log) (modifyPort j f s) := ends_absent hs hf
  have hraise {s₁ : Hba} (h₁ : s₁.Idle) :
      Ends (fun _ => Hba.Idle) (fun e => Unheard e.log) (raiseIntr g s₁) := by
    unfold raiseIntr Hba.raise
    dsimp only
    split <;> exact ⟨h₁.absent, h₁.log⟩
  refine ends_ite (fun _ => hreg ?_) fun _ => ends_ite (fun _ => hreg ?_) fun _ =>
    ends_ite (fun _ => hreg ?_) fun _ => ends_ite (fun _ => hreg ?_) fun _ =>
    ends_ite (fun _ => hreg ?_) fun _ =>
    ends_ite (fun _ => ends_bind (hreg ?_) fun _ _ => hraise) fun _ =>
    ends_ite (fun hr => ?cmd) fun _ => ends_ite (fun _ => ?sctl) fun _ =>
    ends_ite (fun _ => hreg ?_) fun _ => ends_ite (fun _ => hreg ?_) fun _ =>
    ends_ite (fun _ => ends_bind (hreg ?_) fun _ _ h₁ => ends_handlePort_absent h₁ hj) fun _ => hs
  case cmd =>
    exact ends_bind (ends_setCmd_absent hs hj (hv hr)) fun _ _ h₁ => ends_handlePort_absent h₁ hj
  case sctl =>
    refine ends_bind (hreg { hp with }) fun _ s₁ h₁ => ?_
    exact ends_ite (fun _ => ends_portReset_absent h₁ hj) fun _ => h₁
  all_goals exact { hp with }

theorem unheard_append {new : List Event} (hl : Unheard l) (hnew : ∀ e ∈ new, e.port = 0) :
    Unheard (l ++ new) := by
  intro e he
  rcases List.mem_append.mp he with h | h
  · exact hl e h
  · exact hnew e h

/-- What the port with the disk does is not done by the others. -/
theorem ends_local_zero (hs : s.Idle) (hl : Local 0 false m) :
    Ends (fun _ => Hba.Idle) (fun e => Unheard e.log) (m s) := by
  have hstays := hl s s (stays_refl (by simp))
  cases hrun : m s with
  | error e =>
    rw [hrun] at hstays
    obtain ⟨new, hlog, hnew⟩ := hstays.log
    change Unheard e.log
    rw [hlog]
    exact unheard_append hs.log hnew
  | ok p =>
    rw [hrun] at hstays
    obtain ⟨new, hlog, hnew⟩ := hstays.log
    refine ⟨fun j hj => ?_, ?_⟩
    · rw [hstays.other j hj]
      exact hs.absent j hj
    · rw [hlog]
      exact unheard_append hs.log hnew

theorem keeps_resetPort_idle (i : PortId) :
    Keeps Hba.Idle (fun e => Unheard e.log) (resetPort g i) := by
  intro s hs
  by_cases hi : i = 0
  · subst hi
    exact ends_local_zero hs local_resetPort
  · have hp := hs.absent i hi
    exact ends_bind (ends_absent hs { hp with }) fun _ _ h₁ =>
      ends_portReset_absent h₁ hi

theorem ends_act_idle {a : Action} (hs : s.Idle) (hc : NoOverride s a) :
    Ends (fun _ => Hba.Idle) (fun e => Unheard e.log) (act b a s) := by
  cases a with
  | write g offset size value =>
    refine ends_pciAhciWrite hs (fun s _ _ _ hs => ⟨hs.absent, hs.log⟩) hs.log ?_
      keeps_resetPort_idle
    intro i r _ hoff _
    by_cases hi : i = 0
    · subst hi
      exact ends_local_zero hs local_portWrite
    · refine ends_portWrite_absent hs hi ?_
      rintro rfl
      exact hc i (hs.absent i hi).bctx hoff
  | worker h g =>
    change Ends _ _ (workerStep b h g s)
    unfold workerStep
    split
    · unfold workerCalls
      split
      · exact hs.log
      · have hs₀ : ∀ blk, { s with blk := blk }.Idle := fun _ => ⟨hs.absent, hs.log⟩
        exact ends_local_zero (hs₀ _) local_ioreqCb
    · split
      · exact hs.log
      · split
        · exact hs.log
        · exact ⟨hs.absent, hs.log⟩
  | wake => exact ⟨hs.absent, hs.log⟩

/-- A port without a disk that only a reset is still to come for. -/
def AhciPort.Unplugged (p : AhciPort) : Prop := p.bctx = none ∧ p.prSc = false ∧ p.iobhd = []

theorem ends_resetPort_unplugged {i : PortId} (hp : (s.port i).Unplugged) :
    Ends (fun _ s' => (s'.port i).Absent ∧ (∀ j, j ≠ i → s'.port j = s.port j) ∧ s'.log = s.log)
      Never (resetPort g i s) := by
  obtain ⟨hb, hsc, hbusy⟩ := hp
  have hdrq : 0x7f &&& ataSDrq ≠ 0 := by decide
  rw [resetPort, run_modifyPort, ahciPortReset, run_getPort, if_pos (by simp [hb]), modifyPort,
    setPort_port, setPort_setPort]
  refine ⟨?_, fun j hj => setPort_other hj, rfl⟩
  rw [setPort_port]
  exact ⟨hb, hsc, hbusy, hdrq⟩

/-- The port with the disk reports its reset, and no other port does. -/
theorem ends_resetPort_disk (hdisk : (s.port 0).bctx.isSome = true)
    (hsc : (s.port 0).prSc = true) (hlog : Unheard s.log) :
    Ends (fun _ s' => ((s'.port 0).bctx.isSome = true ∧ (s'.port 0).prSc = true) ∧
        (∀ j, j ≠ 0 → s'.port j = s.port j) ∧ Unheard s'.log) Never (resetPort g 0 s) := by
  have hlocal : Local 0 false (resetPort g 0) := local_resetPort
  have hends : Ends (fun _ _ => True) Never (resetPort g 0 s) := by
    refine ends_sure (ends_portReset ?_ ?_) fun _ _ _ => trivial
    · exact hdisk
    · exact hsc
  refine ends_mono (ends_and (hlocal s s (stays_refl (by simp))) hends) ?_ fun e he => he.2
  rintro _ s' ⟨hstays, -⟩
  obtain ⟨new, hnew, hport⟩ := hstays.log
  refine ⟨⟨by rw [hstays.bctx]; exact hdisk, by rw [hstays.prSc]; exact hsc⟩, hstays.other, ?_⟩
  rw [hnew]
  exact unheard_append hlog hport

/-- Once every port was reset, those without a disk show it. -/
theorem ends_resetPorts {l : List PortId} (hdisk : (s.port 0).bctx.isSome = true)
    (hsc : (s.port 0).prSc = true) (hlog : Unheard s.log)
    (hs : ∀ j, j ≠ 0 → (s.port j).Absent ∨ j ∈ l ∧ (s.port j).Unplugged) :
    Ends (fun _ => Hba.Idle) Never (resetPorts g l s) := by
  induction l generalizing s with
  | nil =>
    refine ⟨fun j hj => ?_, hlog⟩
    rcases hs j hj with h | ⟨h, -⟩
    · exact h
    · cases h
  | cons i l ih =>
    by_cases hi : i = 0
    · subst hi
      refine ends_bind (ends_resetPort_disk hdisk hsc hlog) ?_
      rintro _ s₁ ⟨⟨hdisk₁, hsc₁⟩, hother, hlog₁⟩
      refine ih hdisk₁ hsc₁ hlog₁ fun j hj => ?_
      rw [hother j hj]
      rcases hs j hj with h | ⟨hmem, h⟩
      · exact .inl h
      · exact .inr ⟨(List.mem_cons.mp hmem).resolve_left hj, h⟩
    · have hun : (s.port i).Unplugged := by
        rcases hs i hi with h | ⟨-, h⟩
        · exact ⟨h.bctx, h.prSc, h.iobhd⟩
        · exact h
      refine ends_bind (ends_resetPort_unplugged hun) ?_
      rintro _ s₁ ⟨habs, hother, hlog₁⟩
      refine ih ?_ ?_ (by rw [hlog₁]; exact hlog) fun j hj => ?_
      · rw [hother 0 (Ne.symm hi)]
        exact hdisk
      · rw [hother 0 (Ne.symm hi)]
        exact hsc
      · by_cases hij : j = i
        · subst hij
          exact .inl habs
        · rw [hother j hij]
          rcases hs j hj with h | ⟨hmem, h⟩
          · exact .inl h
          · exact .inr ⟨(List.mem_cons.mp hmem).resolve_left hij, h⟩

theorem idle_start : (Hba.start bc atapi).Idle := by
  have hreset : Ends (fun _ => Hba.Idle) Never (ahciReset noGuest (Hba.init bc atapi)) := by
    refine ends_resetPorts rfl rfl nofun fun j hj => ?_
    refine .inr ⟨List.mem_finRange j, ?_⟩
    simp [Hba.init, hj, emptyPort, AhciPort.Unplugged]
  unfold Hba.start
  split
  · rename_i u s hrun
    rw [hrun] at hreset
    exact hreset
  · rename_i e hrun
    rw [hrun] at hreset
    exact hreset.elim

theorem idle_run (hrun : Run (step b) NoOverride (Hba.start bc atapi) as s) : s.Idle := by
  refine hrun.invariant (fun s a s' hc hstep hs => ?_) idle_start
  obtain ⟨u, hact⟩ := step_eq_ok hstep
  have hends := ends_act_idle (b := b) hs hc
  rw [hact] at hends
  exact hends

/-- Neither `ahci_handle_cmd` nor `ahci_generate_intr` was entered for the port. -/
def Untouched (j : PortId) (l : List Event) : Prop :=
  (∀ t c, .cmd j t c ∉ l) ∧ .intr j ∉ l

theorem untouched_of_unheard (hj : j ≠ 0) (hl : Unheard l) : Untouched j l :=
  ⟨fun t c h => hj (hl (.cmd j t c) h), fun h => hj (hl (.intr j) h)⟩

/-- As long as no `CLO` is written to a port without a disk, commands and interrupts stay away
from such ports: up to every state reached, and in whatever step comes next. -/
theorem commands_need_disk (hrun : Run (step b) NoOverride (Hba.start bc atapi) as s)
    (j : PortId) (hj : (s.port j).bctx = none ∧ (s.port j).prSc = false) :
    Untouched j s.log ∧ ∀ a e, NoOverride s a → step b s a = .error e → Untouched j e.log := by
  have hs := idle_run hrun
  have hne : j ≠ 0 := by
    rintro rfl
    have hdisk := (sound_reached (hrun.mono fun _ _ _ => trivial)).books.disk
    rw [hj.1] at hdisk
    cases hdisk
  refine ⟨untouched_of_unheard hne hs.log, fun a e hc hstep => ?_⟩
  have hends := ends_act_idle (b := b) hs hc
  rw [step_eq_error hstep] at hends
  exact untouched_of_unheard hne hends

/-- The second port is started without `CLO`, and a slot issued. -/
def issuedDry : List Action :=
  [.write (guestOf nopTable) 0x198 4 0x11, .write (guestOf nopTable) 0x1b8 4 0x1]

def afterDry : Hba :=
  (exec (step macBuild) (Hba.start plainFile false) issuedDry).toOption.getD
    (Hba.start plainFile false)

theorem commands_need_disk_dry :
    (afterDry.port 1).cmd &&& ahciPCmdSt ≠ 0 ∧ hasSlot (afterDry.port 1).ci 0 = true ∧
      Untouched 1 afterDry.log := by
  have hany : Run (step macBuild) Any (Hba.start plainFile false) issuedDry afterDry :=
    run_of_isOk rfl
  have hrun : Run (step macBuild) NoOverride (Hba.start plainFile false) issuedDry afterDry := by
    refine hany.forall_mem ?_
    simp only [issuedDry, List.forall_mem_cons, List.not_mem_nil, false_imp_iff, implies_true,
      and_true]
    exact ⟨fun _ _ _ _ => by decide, fun _ _ _ _ => by decide⟩
  exact ⟨by decide +kernel, by decide +kernel, (commands_need_disk hrun 1 (by decide +kernel)).1⟩

/-- The second port is started with `CLO`. -/
def overridden : Hba :=
  (exec (step macBuild) (Hba.start plainFile false)
    [.write (guestOf nopTable) 0x198 4 0x19]).toOption.getD (Hba.start plainFile false)

/-- A command is executed on the second port, and its interrupt finds no controller. -/
theorem command_without_disk : Run (step macBuild) Any (Hba.start plainFile false)
        [.write (guestOf nopTable) 0x198 4 0x19] overridden ∧
      (overridden.port 1).bctx = none ∧ (overridden.port 1).prSc = false ∧
      ∃ e, step macBuild overridden (.write (guestOf nopTable) 0x1b8 4 0x1) = .error e ∧
        e.fault = .segfault ∧ .cmd 1 0 (Command.read nopTable 0x400 0) ∈ e.log ∧
        .intr 1 ∈ e.log := by
  refine ⟨run_of_isOk rfl, by decide +kernel, by decide +kernel, ?_⟩
  obtain ⟨e, he, hp⟩ := exists_of_stopsIn (p := fun e : Crash => decide (e.fault = .segfault ∧
      .cmd 1 0 (Command.read nopTable 0x400 0) ∈ e.log ∧ .intr 1 ∈ e.log))
    (x := step macBuild overridden (.write (guestOf nopTable) 0x1b8 4 0x1)) (by decide +kernel)
  exact ⟨e, he, of_decide_eq_true hp⟩

end HyperCog.Ahci
