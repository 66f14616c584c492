import HyperCog.Vmm.Ioapic

/-! Level-triggered interrupts across the I/O APIC and the local APICs: who is to answer Remote IRR. -/
namespace HyperCog.Trigger

open Lapic Ioapic Machine Function List BitVec Bool

/-- An EOI by a vCPU, and what the I/O APIC makes of it. -/
def vcpuEoi (vm : Vm) (v : ℕ) : Except Abort Vm := do
  let (l, o) ← Lapic.processEoi (vm.lapics v)
  let vm := vm.setLapic v l
  match o with
  | none => .ok vm
  | some vector => .ok (Ioapic.processEoi vm vector)

inductive Action
  | setIrqstate (irq : ℕ) (irqstate : Irqstate)
  /-- a guest's write of the I/O APIC, up to the unlock or to its end -/
  | write (addr data : UInt32)
  /-- a vCPU in the rendezvous of a write -/
  | updateTmr (v : ℕ)
  /-- a write for the pin locks again and ends -/
  | relock (pin : ℕ)
  | ldrWrite (v : ℕ) (val : UInt32)
  | dfrWrite (v : ℕ) (val : UInt32)
  | svrWrite (v : ℕ) (val : UInt32)
  | setTpr (v : ℕ) (val : UInt8)
  | activate (v : ℕ)
  /-- an interrupt from elsewhere: an IPI, an MSI or the timer -/
  | setIntrReady (v : ℕ) (vector : Fin 256) (level : Bool)
  /-- a vCPU takes the interrupt that is pending for it -/
  | accept (v : ℕ)
  | eoi (v : ℕ)
  deriving DecidableEq, Repr

/-- Why a step is not taken: nothing is pending, no write of the pin is unlocked, or the code
aborts. -/
inductive Stop
  | disabled
  | abort (a : Abort)
  deriving DecidableEq, Repr

def onLapic (s : Ioapic.World) (v : ℕ) : Except Abort Vlapic → Except Stop Ioapic.World
  | .ok l => .ok { s with vm := s.vm.setLapic v l }
  | .error a => .error (.abort a)

/-- Local APICs change and interrupts arrive while a write is unlocked as at any other time. -/
def step (s : Ioapic.World) : Action → Except Stop Ioapic.World
  | .setIrqstate irq irqstate => .ok { s with vm := setIrqstate s.vm irq irqstate }
  | .write addr data =>
    let r := writeBegin s.vm addr data
    .ok ⟨r.1, r.2.toList ++ s.writers⟩
  | .updateTmr v => .ok { s with vm := updateTmr s.vm v }
  | .relock pin =>
    if pin ∈ s.writers then .ok ⟨regenerate s.vm pin, s.writers.erase pin⟩ else .error .disabled
  | .ldrWrite v val => onLapic s v (.ok (ldrWrite (s.vm.lapics v) val))
  | .dfrWrite v val => onLapic s v (.ok (dfrWrite (s.vm.lapics v) val))
  | .svrWrite v val => onLapic s v (.ok (svrWrite (s.vm.lapics v) val))
  | .setTpr v val => onLapic s v (setTpr (s.vm.lapics v) val)
  | .activate v => .ok { s with vm := { s.vm with active := Function.update s.vm.active v true } }
  | .setIntrReady v vector level =>
    onLapic s v (.ok (setIntrReady (s.vm.lapics v) vector level).1)
  | .accept v =>
    match pendingIntr (s.vm.lapics v) with
    | some vector => onLapic s v (intrAccepted (s.vm.lapics v) vector)
    | none => .error .disabled
  | .eoi v =>
    match vcpuEoi s.vm v with
    | .ok vm => .ok { s with vm }
    | .error a => .error (.abort a)

/-- The local APIC will send the EOI of the vector on to the I/O APIC. -/
def Holds (l : Vlapic) (vec : ℕ) : Prop :=
  l.tmr.test vec = true ∧ (l.irr.test vec = true ∨ l.isr.test vec = true)

instance (l : Vlapic) (vec : ℕ) : Decidable (Holds l vec) := inferInstanceAs (Decidable (_ ∧ _))

/-- Some active vCPU holds the vector. -/
def Live (vm : Vm) (vec : ℕ) : Prop :=
  ∃ v < vmMaxcpu, vm.active v = true ∧ Holds (vm.lapics v) vec

/-- A vCPU that takes an interrupt of the entry. -/
def Takes (vm : Vm) (reg : BitVec 64) (v : ℕ) : Prop :=
  vm.active v = true ∧ v ∈ dests vm reg ∧ enabled (vm.lapics v) = true

instance (vm : Vm) (reg : BitVec 64) (v : ℕ) : Decidable (Takes vm reg v) :=
  inferInstanceAs (Decidable (_ ∧ _ ∧ _))

/-- An interrupt of the entry, if it is level-triggered, can be delivered and is taken by some vCPU whose
trigger mode is right. -/
def Sound (vm : Vm) (reg : BitVec 64) : Prop :=
  masked reg = false → level reg = true → levelMode reg = true ∧ 16 ≤ vector reg ∧
    ∃ v < vmMaxcpu, Takes vm reg v ∧ (vm.lapics v).tmr.test (vector reg) = true

instance (vm : Vm) (reg : BitVec 64) : Decidable (Sound vm reg) :=
  inferInstanceAs (Decidable (_ → _ → _ ∧ _ ∧ _))

/-- Where the vCPU holds the vector of an entry that waits for an EOI, it is a destination of the
entry. -/
def Retained (vm : Vm) (v : ℕ) : Prop :=
  ∀ pin < redirEntries, level (vm.rtbl pin).reg = true ∧ remIrr (vm.rtbl pin).reg = true ∧
      Holds (vm.lapics v) (vector (vm.rtbl pin).reg) →
    levelMode (vm.rtbl pin).reg = true ∧ v ∈ dests vm (vm.rtbl pin).reg

instance (vm : Vm) (v : ℕ) : Decidable (Retained vm v) :=
  inferInstanceAs (Decidable (∀ pin < redirEntries, _ ∧ _ ∧ _ → _ ∧ _))

/-- What a write of a redirection entry must respect: an entry that waits for an EOI keeps its
routing, and an interrupt that a write sends without an unlock is taken. -/
def WriteRouted (vm : Vm) (pin : ℕ) (reg : BitVec 64) : Prop :=
  let last := (vm.rtbl pin).reg
  (reroutes last reg = true → remIrr last = false) ∧
  (reroutes last reg = false → 0 < (vm.rtbl pin).acnt → remIrr last = false → Sound vm reg)

instance (vm : Vm) (pin : ℕ) (reg : BitVec 64) : Decidable (WriteRouted vm pin reg) :=
  inferInstanceAs (Decidable (_ ∧ _))

/-- What each action must respect for every level-triggered interrupt to find someone to answer it. -/
def Routed (s : Ioapic.World) : Action → Prop
  | .setIrqstate irq irqstate =>
    irqstate ≠ .deassert → (s.vm.rtbl irq).acnt = 0 → Sound s.vm (s.vm.rtbl irq).reg
  | .write addr data =>
    ∀ pin high, redirection (addr &&& 0xff).toNat = some (pin, high) →
      WriteRouted s.vm pin (storeHalf (s.vm.rtbl pin).reg high data.toBitVec)
  | .updateTmr v => Retained s.vm v
  | .relock pin => 0 < (s.vm.rtbl pin).acnt → remIrr (s.vm.rtbl pin).reg = false →
    Sound s.vm (s.vm.rtbl pin).reg
  | .eoi v =>
    ∀ pin < redirEntries, (s.vm.lapics v).isr.highest words = some (vector (s.vm.rtbl pin).reg) →
      0 < (s.vm.rtbl pin).acnt → Sound s.vm (s.vm.rtbl pin).reg
  | _ => True

/-- Each level-triggered entry that waits for an EOI, but for those exempt, has a vCPU to send it. -/
def AnsweredBut (exempt : ℕ → BitVec 64 → Prop) (vm : Vm) : Prop :=
  ∀ pin < redirEntries, level (vm.rtbl pin).reg = true → remIrr (vm.rtbl pin).reg = true →
    exempt pin (vm.rtbl pin).reg ∨ Live vm (vector (vm.rtbl pin).reg)

/-- Each level-triggered entry that waits for an EOI has a vCPU to send it. -/
def Answered (vm : Vm) : Prop := AnsweredBut (fun _ _ => False) vm

variable {vm vm' vm'' : Vm} {vec v pin : ℕ} {reg last : BitVec 64} {l l' l'' : Vlapic}
  {exempt : ℕ → BitVec 64 → Prop}

/-- What decides whether an interrupt is delivered, and how, is as before. -/
structure SameRoute (l l' : Vlapic) : Prop where
  x2apic : l'.x2apic = l.x2apic
  ldr : l'.ldr = l.ldr
  dfr : l'.dfr = l.dfr
  svr : l'.svr = l.svr
  tmr : l'.tmr = l.tmr

theorem SameRoute.refl (l : Vlapic) : SameRoute l l := ⟨rfl, rfl, rfl, rfl, rfl⟩

theorem SameRoute.trans (h : SameRoute l l') (h' : SameRoute l' l'') : SameRoute l l'' :=
  ⟨h'.x2apic.trans h.x2apic, h'.ldr.trans h.ldr, h'.dfr.trans h.dfr, h'.svr.trans h.svr,
    h'.tmr.trans h.tmr⟩

/-- Every vector held is held on. -/
def Keeps (l l' : Vlapic) : Prop := ∀ vec, Holds l vec → Holds l' vec

/-- The requests grow and all else that matters to level-triggered interrupts stays. -/
structure Grows (vm vm' : Vm) : Prop where
  active : vm'.active = vm.active
  route : ∀ v, SameRoute (vm.lapics v) (vm'.lapics v)
  keeps : ∀ v, Keeps (vm.lapics v) (vm'.lapics v)
  irr : ∀ v vec, (vm.lapics v).irr.test vec = true → (vm'.lapics v).irr.test vec = true
  isr : ∀ v, (vm'.lapics v).isr = (vm.lapics v).isr

/-- Nothing changes but the I/O APIC. -/
theorem Grows.of_eq (ha : vm'.active = vm.active) (hl : vm'.lapics = vm.lapics) : Grows vm vm' := by
  refine ⟨ha, ?_, ?_, ?_, ?_⟩ <;> rw [hl]
  · exact fun _ => .refl _
  · exact fun _ _ h => h
  · exact fun _ _ h => h
  · exact fun _ => rfl

theorem Grows.refl (vm : Vm) : Grows vm vm := .of_eq rfl rfl

theorem Grows.trans (h : Grows vm vm') (h' : Grows vm' vm'') : Grows vm vm'' :=
  ⟨h'.active.trans h.active, fun v => (h.route v).trans (h'.route v),
    fun v vec hh => h'.keeps v vec (h.keeps v vec hh), fun v vec hh => h'.irr v vec (h.irr v vec hh),
    fun v => (h'.isr v).trans (h.isr v)⟩

theorem Live.keep (h : Live vm vec) (ha : ∀ v, vm.active v = true → vm'.active v = true)
    (hk : ∀ v, Keeps (vm.lapics v) (vm'.lapics v)) : Live vm' vec := by
  obtain ⟨v, hv, hact, hh⟩ := h
  exact ⟨v, hv, ha v hact, hk v vec hh⟩

theorem Live.grow (h : Live vm vec) (hg : Grows vm vm') : Live vm' vec :=
  h.keep (fun v hv => by rw [hg.active]; exact hv) hg.keeps

/-- Destinations depend on the active set and the logical addresses only. -/
theorem dests_congr (ha : vm'.active = vm.active)
    (hx : ∀ v, (vm'.lapics v).x2apic = (vm.lapics v).x2apic)
    (hl : ∀ v, (vm'.lapics v).ldr = (vm.lapics v).ldr)
    (hd : ∀ v, (vm'.lapics v).dfr = (vm.lapics v).dfr) (reg : BitVec 64) :
    dests vm' reg = dests vm reg := by
  unfold dests calcdest matchesLogical
  simp only [ha, hx, hl, hd]

theorem dests_of_route (ha : vm'.active = vm.active)
    (hr : ∀ v, SameRoute (vm.lapics v) (vm'.lapics v)) (reg : BitVec 64) :
    dests vm' reg = dests vm reg :=
  dests_congr ha (fun v => (hr v).x2apic) (fun v => (hr v).ldr) (fun v => (hr v).dfr) reg

/-- Whether an interrupt is taken depends on the routes only. -/
theorem Sound.congr (h : Sound vm reg) (ha : vm'.active = vm.active)
    (hr : ∀ v, SameRoute (vm.lapics v) (vm'.lapics v)) : Sound vm' reg := by
  intro hm hl
  obtain ⟨hmode, hvec, v, hv, ⟨hact, hdest, hen⟩, htmr⟩ := h hm hl
  refine ⟨hmode, hvec, v, hv, ⟨by rw [ha]; exact hact, ?_, ?_⟩, ?_⟩
  · rw [dests_of_route ha hr]
    exact hdest
  · rw [enabled, (hr v).svr]
    exact hen
  · rw [(hr v).tmr]
    exact htmr

/-- One local APIC changes and all others stay. -/
theorem forall_setLapic {P : Vlapic → Vlapic → Prop} (hrefl : ∀ l, P l l) (h : P (vm.lapics v) l)
    (u : ℕ) : P (vm.lapics u) ((vm.setLapic v l).lapics u) := by
  by_cases hu : u = v
  · subst hu
    simpa only [Vm.setLapic, update_self] using h
  · simp only [Vm.setLapic, update_of_ne hu]
    exact hrefl _

theorem Answered.setLapic (h : Answered vm) (hk : Keeps (vm.lapics v) l) :
    Answered (vm.setLapic v l) := by
  intro pin hpin hl hr
  refine (h pin hpin hl hr).imp_right fun hlive => hlive.keep (fun _ ha => ha) ?_
  exact fun u => forall_setLapic (fun _ _ hh => hh) hk u

theorem irr_requestVector (u : ℕ) (h : l.irr.test vec = true) :
    (requestVector l u).irr.test vec = true := by
  rw [requestVector, Bank.test_set (by decide), h, Bool.or_true]

theorem holds_requestVector (u : ℕ) (h : Holds l vec) : Holds (requestVector l u) vec :=
  ⟨h.1, h.2.imp_left (irr_requestVector u)⟩

/-- An error may request the vector of its own entry and takes no request. -/
theorem requests_setError (l : Vlapic) (mask : UInt32) :
    (∀ vec, l.irr.test vec = true → (setError l mask).irr.test vec = true) ∧
      (setError l mask).isr = l.isr := by
  unfold setError
  dsimp only
  split
  · exact ⟨fun _ h => h, rfl⟩
  · unfold fireErrorLvt
    split_ifs
    · exact ⟨fun _ h => h, rfl⟩
    · exact ⟨fun _ h => h, rfl⟩
    · exact ⟨fun _ h => irr_requestVector _ h, rfl⟩
    · exact ⟨fun _ h => h, rfl⟩
    · exact ⟨fun _ h => h, rfl⟩

theorem keeps_setError (mask : UInt32) : Keeps l (setError l mask) := by
  intro vec h
  unfold setError
  dsimp only
  split
  · exact h
  · unfold fireErrorLvt
    split_ifs
    · exact h
    · exact h
    · exact holds_requestVector (l := { l with
        esrPending := l.esrPending ||| mask, esrFiring := true }) _ h
    · exact h
    · exact h

theorem keeps_setIntrReady (vector : ℕ) (lvl : Bool) : Keeps l (setIntrReady l vector lvl).1 := by
  intro vec h
  unfold setIntrReady
  split_ifs
  · exact h
  · exact keeps_setError _ vec h
  · exact holds_requestVector _ h

/-- The accepted vector goes from the requests to those in service. -/
theorem keeps_intrAccepted (h : intrAccepted l v = .ok l') : Keeps l l' := by
  obtain ⟨p, rfl⟩ := intrAccepted_eq_ok h
  intro vec hh
  refine ⟨hh.1, ?_⟩
  simp only [push, Bank.test_set (show 0 < 32 by decide), Bank.test_clear (show 0 < 32 by decide)]
  by_cases hv : vec = v
  · simp [hv]
  · simpa [hv] using hh.2

theorem grows_lapicSetIntr (vm : Vm) (cpu vec : ℕ) (lvl : Bool) :
    Grows vm (lapicSetIntr vm cpu vec lvl) := by
  unfold lapicSetIntr
  split_ifs with hcpu hvec
  · exact .refl vm
  · exact .refl vm
  unfold setIntrReady
  rw [if_neg (show ¬ vec < 16 from fun h => hvec (.inl h))]
  split
  · rw [show vm.setLapic cpu (vm.lapics cpu) = vm by simp [Vm.setLapic]]
    exact .refl vm
  · exact ⟨rfl, forall_setLapic .refl ⟨rfl, rfl, rfl, rfl, rfl⟩,
      forall_setLapic (fun _ _ h => h) (fun _ h => holds_requestVector _ h),
      forall_setLapic (P := fun l l' => ∀ u, l.irr.test u = true → l'.irr.test u = true)
        (fun _ _ h => h) (fun _ h => irr_requestVector _ h),
      forall_setLapic (P := fun l l' => l'.isr = l.isr) (fun _ => rfl) rfl⟩

/-- A destination whose APIC is enabled has the request. -/
theorem lapicSetIntr_requests (hv : v < vmMaxcpu) (hen : enabled (vm.lapics v) = true)
    (hlow : 16 ≤ vec) (hhigh : vec ≤ 255) (lvl : Bool) :
    ((lapicSetIntr vm v vec lvl).lapics v).irr.test vec = true := by
  rw [lapicSetIntr, if_neg (not_le.mpr hv), if_neg (by omega)]
  simp only [Vm.setLapic, update_self, setIntrReady, hen, Bool.not_true]
  rw [if_neg (by simp), if_neg (by omega)]
  simp [requestVector, Bank.test_set (show 0 < 32 by decide)]

theorem foldl_lapicSetIntr (vs : List ℕ) (vm : Vm) (lvl : Bool) :
    Grows vm (vs.foldl (fun vm v => lapicSetIntr vm v vec lvl) vm) ∧
    ∀ v ∈ vs, v < vmMaxcpu → enabled (vm.lapics v) = true → 16 ≤ vec → vec ≤ 255 →
      ((vs.foldl (fun vm v => lapicSetIntr vm v vec lvl) vm).lapics v).irr.test vec = true := by
  induction vs generalizing vm with
  | nil => exact ⟨.refl vm, nofun⟩
  | cons u us ih =>
    have hstep := grows_lapicSetIntr vm u vec lvl
    obtain ⟨hg, hreq⟩ := ih (lapicSetIntr vm u vec lvl)
    refine ⟨hstep.trans hg, fun v hv hlt hen hlow hhigh => ?_⟩
    rcases mem_cons.mp hv with rfl | hv
    · exact hg.irr v vec (lapicSetIntr_requests hlt hen hlow hhigh lvl)
    · exact hreq v hv hlt (by rw [enabled, (hstep.route v).svr]; exact hen) hlow hhigh

theorem foldl_injectExtint (vs : List ℕ) (vm : Vm) : Grows vm (vs.foldl injectExtint vm) := by
  induction vs generalizing vm with
  | nil => exact .refl vm
  | cons u us ih =>
    have hstep : Grows vm (injectExtint vm u) := .of_eq rfl rfl
    exact hstep.trans (ih _)

theorem grows_deliverIntr (vm : Vm) (lvl : Bool) (d : UInt32) (ph : Bool) (dm : BitVec 64) (vec : ℕ) :
    Grows vm (deliverIntr vm lvl d ph dm vec) := by
  unfold deliverIntr
  split
  · exact .refl vm
  · by_cases hx : dm = ioartDelexint
    · simp only [hx, if_true]
      exact foldl_injectExtint _ vm
    · simp only [hx, if_false]
      exact (foldl_lapicSetIntr _ vm lvl).1

theorem grows_setReg (vm : Vm) (pin : ℕ) (reg : BitVec 64) : Grows vm (vm.setReg pin reg) :=
  .of_eq rfl rfl

theorem grows_sendIntr (vm : Vm) (pin : ℕ) : Grows vm (sendIntr vm pin) := by
  unfold sendIntr
  dsimp only
  split_ifs
  · exact .refl vm
  · exact (grows_setReg vm pin _).trans (grows_deliverIntr _ _ _ _ _ _)
  · exact grows_deliverIntr _ _ _ _ _ _

theorem grows_setPinstate (vm : Vm) (pin : ℕ) (newstate : Bool) :
    Grows vm (setPinstate vm pin newstate) := by
  have hg : Grows vm (vm.setAcnt pin (newcnt newstate (vm.rtbl pin).acnt)) := .of_eq rfl rfl
  unfold setPinstate
  dsimp only
  split
  · exact hg.trans (grows_sendIntr _ pin)
  · exact hg

/-- An interrupt that is sent to someone who takes it is live. -/
theorem live_deliverIntr (hmode : levelMode reg = true) (hlow : 16 ≤ vector reg)
    (hv : v < vmMaxcpu) (ht : Takes vm reg v) (htmr : (vm.lapics v).tmr.test (vector reg) = true)
    (lvl : Bool) :
    Live (deliverIntr vm lvl (dest reg) (phys reg) (delmode reg) (vector reg)) (vector reg) := by
  obtain ⟨hact, hdest, hen⟩ := ht
  have hg := grows_deliverIntr vm lvl (dest reg) (phys reg) (delmode reg) (vector reg)
  refine ⟨v, hv, by rw [hg.active]; exact hact, by rw [(hg.route v).tmr]; exact htmr, .inl ?_⟩
  have hdm : delmode reg = ioartDelfixed ∨ delmode reg = ioartDellopri := by
    simpa [levelMode] using hmode
  have hx : delmode reg ≠ ioartDelexint := by
    rcases hdm with h | h <;> rw [h] <;> decide
  rw [deliverIntr, if_neg (by rintro ⟨h1, h2, -⟩; exact hdm.elim h1 h2)]
  simp only [hx, if_false]
  exact (foldl_lapicSetIntr _ vm lvl).2 v hdest hv hen hlow Nat.and_le_right

/-- Nothing but requests has grown, and the entries are as before. -/
theorem AnsweredBut.grow (h : AnsweredBut exempt vm) (hg : Grows vm vm')
    (hrtbl : ∀ p, (vm'.rtbl p).reg = (vm.rtbl p).reg) : AnsweredBut exempt vm' := by
  intro p hp hl hr
  rw [hrtbl] at hl hr ⊢
  exact (h p hp hl hr).imp_right fun hlive => hlive.grow hg

theorem sentReg_eq (hm : masked reg = false) (hl : level reg = true) :
    sentReg reg = reg ||| ioartRemIrr := by
  rw [sentReg, hm, hl]
  rfl

theorem vector_or_remIrr (reg : BitVec 64) : vector (reg ||| ioartRemIrr) = vector reg := by
  rw [vector, vector, or_remIrr_and (by decide)]

/-- A sound interrupt leaves its entry answered, and an entry that is not sent stays as it is. -/
theorem answered_sendIntr (h : AnsweredBut exempt vm) (hs : Sound vm (vm.rtbl pin).reg) :
    AnsweredBut exempt (sendIntr vm pin) := by
  have hrtbl := sendIntr_rtbl vm pin
  have hg := grows_sendIntr vm pin
  intro p hp hl hr
  by_cases hpin : p = pin
  · subst hpin
    simp only [hrtbl, update_self] at hl hr ⊢
    by_cases hsent : masked (vm.rtbl p).reg = false ∧ level (vm.rtbl p).reg = true
    · obtain ⟨hm, hlvl⟩ := hsent
      obtain ⟨hmode, hlow, v, hv, ht, htmr⟩ := hs hm hlvl
      rw [sentReg_eq hm hlvl, vector_or_remIrr]
      refine .inr ?_
      unfold sendIntr
      simp only [hm, hlvl, false_eq_true, if_false, if_true]
      have ht' : Takes (vm.setReg p ((vm.rtbl p).reg ||| ioartRemIrr)) (vm.rtbl p).reg v := ht
      exact live_deliverIntr hmode hlow hv ht' htmr true
    · have hsame : sentReg (vm.rtbl p).reg = (vm.rtbl p).reg := by
        rw [sentReg, if_neg]
        intro hc
        rw [and_eq_true, not_eq_true'] at hc
        exact hsent hc
      rw [hsame] at hl hr ⊢
      exact (h p hp hl hr).imp_right fun hlive => hlive.grow hg
  · simp only [hrtbl, update_of_ne hpin] at hl hr ⊢
    exact (h p hp hl hr).imp_right fun hlive => hlive.grow hg

theorem answered_regenerate (h : Answered vm)
    (hs : 0 < (vm.rtbl pin).acnt → remIrr (vm.rtbl pin).reg = false →
      Sound vm (vm.rtbl pin).reg) : Answered (regenerate vm pin) := by
  unfold regenerate
  dsimp only
  split
  · rename_i hc
    simp only [and_eq_true, not_eq_true', decide_eq_true_eq] at hc
    exact answered_sendIntr h (hs hc.2 hc.1.2)
  · exact h

theorem setAcnt_reg (vm : Vm) (pin : ℕ) (n : ℤ) (p : ℕ) :
    ((vm.setAcnt pin n).rtbl p).reg = (vm.rtbl p).reg := by
  by_cases hp : p = pin
  all_goals simp [Vm.setAcnt, hp]

theorem answered_setPinstate {newstate : Bool} (h : Answered vm)
    (hs : newstate = true → (vm.rtbl pin).acnt = 0 → Sound vm (vm.rtbl pin).reg) :
    Answered (setPinstate vm pin newstate) := by
  have hg : Grows vm (vm.setAcnt pin (newcnt newstate (vm.rtbl pin).acnt)) := .of_eq rfl rfl
  have hans := h.grow hg (setAcnt_reg vm pin _)
  unfold setPinstate
  dsimp only
  split
  · rename_i hc
    refine answered_sendIntr hans ?_
    rw [setAcnt_reg]
    refine (hs ?_ hc.1).congr hg.active hg.route
    by_contra hf
    rw [newcnt, if_neg hf, hc.1] at hc
    exact absurd hc.2 (by decide)
  · exact hans

theorem answered_setIrqstate {irq : ℕ} {irqstate : Irqstate} (h : Answered vm)
    (hs : irqstate ≠ .deassert → (vm.rtbl irq).acnt = 0 → Sound vm (vm.rtbl irq).reg) :
    Answered (setIrqstate vm irq irqstate) := by
  unfold setIrqstate
  split
  · exact h
  · cases irqstate with
    | assert => exact answered_setPinstate h (fun _ => hs (by decide))
    | deassert => exact answered_setPinstate h nofun
    | pulse =>
      exact answered_setPinstate (answered_setPinstate h (fun _ => hs (by decide)))
        nofun

/-- A mask over the bits of which a change counts as rerouting reads the same from both entries. -/
theorem and_eq_of_not_reroutes (h : reroutes last reg = false) {m : BitVec 64}
    (hm : m &&& ~~~(ioartIntmask ||| ioartIntpol) = m) : reg &&& m = last &&& m := by
  have h0 : (last ^^^ reg) &&& ~~~(ioartIntmask ||| ioartIntpol) = 0 := by
    simpa [reroutes] using h
  ext i hi
  have hbit := congrArg (fun x : BitVec 64 => x[i]) h0
  have hmask := congrArg (fun x : BitVec 64 => x[i]) hm
  simp only [getElem_and, getElem_xor] at hbit hmask ⊢
  revert hbit hmask
  generalize (~~~(ioartIntmask ||| ioartIntpol))[i] = n
  have hz : (0 : BitVec 64)[i] = false := by simp
  cases last[i] <;> cases reg[i] <;> cases m[i] <;> simp

theorem fields_of_not_reroutes (h : reroutes last reg = false) :
    level reg = level last ∧ remIrr reg = remIrr last ∧ vector reg = vector last := by
  refine ⟨?_, ?_, ?_⟩
  · rw [level, level, and_eq_of_not_reroutes h (by decide)]
  · rw [remIrr, remIrr, and_eq_of_not_reroutes h (by decide)]
  · rw [vector, vector, and_eq_of_not_reroutes h (by decide)]

/-- Read-only bits, Remote IRR among them, are what they were. -/
theorem remIrr_storeHalf (reg : BitVec 64) (high : Bool) (data : BitVec 32) :
    remIrr (storeHalf reg high data) = remIrr reg := by
  have hro := congrArg (· &&& ioartRemIrr) (storeHalf_ro reg high data)
  have hsub : rtblRoBits &&& ioartRemIrr = ioartRemIrr := by decide
  simp only [BitVec.and_assoc, hsub] at hro
  rw [remIrr, remIrr, hro]

/-- The trigger mode that an entry gives is set, whatever the others give. -/
theorem foldl_tmr {P : ℕ → Bool} {f : ℕ → ℕ} (ps : List ℕ) (b : Bank 32) (u : ℕ)
    (h : b.test u = true ∨ ∃ p ∈ ps, P p = true ∧ f p = u) :
    (ps.foldl (fun tmr p => if P p then tmr.set (f p) else tmr) b).test u = true := by
  induction ps generalizing b with
  | nil =>
    rcases h with hb | ⟨p, hp, -⟩
    · exact hb
    · cases hp
  | cons p ps ih =>
    rw [foldl_cons]
    apply ih
    rcases h with hb | ⟨q, hq, hP, hf⟩
    · left
      split
      · rw [Bank.test_set (by decide), hb, Bool.or_true]
      · exact hb
    · rcases mem_cons.mp hq with rfl | hq
      · left
        rw [if_pos hP, Bank.test_set (by decide), hf]
        simp
      · exact .inr ⟨q, hq, hP, hf⟩

/-- A vCPU that recomputes its trigger modes keeps those of the vectors it is to answer. -/
theorem answered_updateTmr (h : Answered vm) (hret : Retained vm v) : Answered (updateTmr vm v) := by
  intro pin hpin hl hr
  obtain ⟨u, hu, hact, hh⟩ := (h pin hpin hl hr).resolve_left id
  refine .inr ⟨u, hu, hact, ?_⟩
  by_cases huv : u = v
  · subst huv
    obtain ⟨hmode, hdest⟩ := hret pin hpin ⟨hl, hr, hh⟩
    have hlevel : level (vm.rtbl pin).reg = true := hl
    simp only [updateTmr, Vm.setLapic, update_self]
    refine ⟨foldl_tmr _ _ _ (.inr ⟨pin, mem_range.mpr hpin, ?_, rfl⟩), hh.2⟩
    simp [hlevel, hmode, hdest]
  · simp only [updateTmr, Vm.setLapic, update_of_ne huv]
    exact hh

/-- An entry that is rewritten in mask and polarity only is answered as before. -/
theorem answered_setReg (h : Answered vm) (hre : reroutes (vm.rtbl pin).reg reg = false) :
    Answered (vm.setReg pin reg) := by
  obtain ⟨hl', hr', hv'⟩ := fields_of_not_reroutes hre
  intro p hp hl hr
  by_cases hpin : p = pin
  · subst hpin
    simp only [Vm.setReg, update_self, hl', hr', hv'] at hl hr ⊢
    exact (h p hp hl hr).imp_right fun hlive => hlive.grow (grows_setReg vm p reg)
  · simp only [Vm.setReg, update_of_ne hpin] at hl hr ⊢
    exact (h p hp hl hr).imp_right fun hlive => hlive.grow (grows_setReg vm pin reg)

/-- A rewritten entry that waits for no EOI needs no answer. -/
theorem answered_rewrite (h : Answered vm) (hclear : remIrr reg = false) :
    Answered (vm.setReg pin reg) := by
  intro p hp hl hr
  by_cases hpin : p = pin
  · subst hpin
    simp only [Vm.setReg, update_self, hclear] at hr
    cases hr
  · simp only [Vm.setReg, update_of_ne hpin] at hl hr ⊢
    exact (h p hp hl hr).imp_right fun hlive => hlive.grow (grows_setReg vm pin reg)

theorem answered_write {s : Ioapic.World} {addr data : UInt32} (h : Answered s.vm)
    (hc : Routed s (.write addr data)) : Answered (writeBegin s.vm addr data).1 := by
  unfold writeBegin
  extract_lets regnum vm₀
  obtain ⟨id, hid⟩ : ∃ id, vm₀ = { s.vm with id := id } := by
    unfold vm₀
    split
    · exact ⟨_, rfl⟩
    · exact ⟨s.vm.id, rfl⟩
  clear_value vm₀
  subst hid
  -- nothing that is answered or sent depends on the identifier
  have h₀ : Answered { s.vm with id := id } := h
  cases hr : redirection regnum with
  | none => exact h₀
  | some ph =>
    obtain ⟨pin, high⟩ := ph
    obtain ⟨hroute, hsend⟩ := hc pin high hr
    dsimp only at hroute hsend ⊢
    generalize hreg : storeHalf (s.vm.rtbl pin).reg high data.toBitVec = reg at hroute hsend ⊢
    have hrem : remIrr reg = remIrr (s.vm.rtbl pin).reg := by
      rw [← hreg]
      exact remIrr_storeHalf _ _ _
    rw [← hrem] at hroute hsend
    cases hre : reroutes (s.vm.rtbl pin).reg reg with
    | true =>
      simp only [if_true]
      exact answered_rewrite h₀ (hroute hre)
    | false =>
      simp only [false_eq_true, if_false]
      refine answered_regenerate (answered_setReg h₀ hre) ?_
      simp only [Vm.setReg, update_self]
      exact fun ha hnot => (hsend hre ha hnot).congr rfl (fun _ => .refl _)

theorem fields_and_not_remIrr (reg : BitVec 64) : remIrr (reg &&& ~~~ioartRemIrr) = false ∧
    masked (reg &&& ~~~ioartRemIrr) = masked reg ∧ level (reg &&& ~~~ioartRemIrr) = level reg ∧
    vector (reg &&& ~~~ioartRemIrr) = vector reg ∧
    levelMode (reg &&& ~~~ioartRemIrr) = levelMode reg := by
  refine ⟨?_, ?_, ?_, ?_, ?_⟩
  · have h0 : reg &&& ~~~ioartRemIrr &&& ioartRemIrr = 0 := by
      rw [BitVec.and_assoc]
      exact and_zero
    rw [remIrr, h0]
    decide
  · rw [masked, masked, and_not_remIrr_and (by decide)]
  · rw [level, level, and_not_remIrr_and (by decide)]
  · rw [vector, vector, and_not_remIrr_and (by decide)]
  · rw [levelMode, levelMode, delmode, delmode, and_not_remIrr_and (by decide)]

theorem dests_and_not_remIrr (vm : Vm) (reg : BitVec 64) :
    dests vm (reg &&& ~~~ioartRemIrr) = dests vm reg := by
  have hdest : dest (reg &&& ~~~ioartRemIrr) = dest reg := by
    have hshift : (reg &&& ~~~ioartRemIrr) >>> 56 = reg >>> 56 := by
      ext i hi
      have hbit : ioartRemIrr.getLsbD (56 + i) = false := by
        apply Nat.testBit_eq_false_of_lt
        exact Nat.lt_of_lt_of_le (by decide)
          (Nat.pow_le_pow_right (by decide) (Nat.le_add_right 56 i))
      by_cases h : 56 + i < 64
      · simp only [getElem_ushiftRight, getLsbD_and, getLsbD_not, hbit]
        simp [h]
      · simp [getLsbD_of_ge reg _ (not_lt.mp h)]
    rw [dest, dest, hshift]
  rw [dests, dests, hdest, phys, phys, delmode, delmode, and_not_remIrr_and (by decide),
    and_not_remIrr_and (by decide)]

/-- Whether an interrupt is taken does not depend on Remote IRR. -/
theorem Sound.clear (h : Sound vm reg) : Sound vm (reg &&& ~~~ioartRemIrr) := by
  obtain ⟨-, hm, hl, hv, hmode⟩ := fields_and_not_remIrr reg
  unfold Sound Takes
  rw [hm, hl, hv, hmode, dests_and_not_remIrr]
  exact h

/-- One pin of the loop: an entry that waited for this EOI waits no longer, or is sent again. -/
theorem answered_eoiPin {p : ℕ} {ps : List ℕ}
    (h : AnsweredBut (fun q reg => q ∈ p :: ps ∧ vector reg = vec) vm)
    (hs : vector (vm.rtbl p).reg = vec → 0 < (vm.rtbl p).acnt → Sound vm (vm.rtbl p).reg) :
    AnsweredBut (fun q reg => q ∈ ps ∧ vector reg = vec) (eoiPin vec vm p) := by
  have hskip : ∀ q < redirEntries, q ≠ p → level (vm.rtbl q).reg = true →
      remIrr (vm.rtbl q).reg = true →
      (q ∈ ps ∧ vector (vm.rtbl q).reg = vec) ∨ Live vm (vector (vm.rtbl q).reg) := by
    intro q hq hne hl hr
    exact (h q hq hl hr).imp_left fun hx => ⟨(mem_cons.mp hx.1).resolve_left hne, hx.2⟩
  unfold eoiPin
  dsimp only
  split
  · rename_i hnot
    intro q hq hl hr
    by_cases hqp : q = p
    · subst hqp
      rw [hr] at hnot
      cases hnot
    · exact hskip q hq hqp hl hr
  · split
    · rename_i hne
      intro q hq hl hr
      by_cases hqp : q = p
      · subst hqp
        exact (h q hq hl hr).elim (fun hx => absurd hx.2 hne) .inr
      · exact hskip q hq hqp hl hr
    · rename_i hvec
      have hvec' : vector (vm.rtbl p).reg = vec := not_not.mp hvec
      have hclear : AnsweredBut (fun q reg => q ∈ ps ∧ vector reg = vec)
          (vm.setReg p ((vm.rtbl p).reg &&& ~~~ioartRemIrr)) := by
        intro q hq hl hr
        by_cases hqp : q = p
        · subst hqp
          simp only [Vm.setReg, update_self, (fields_and_not_remIrr _).1] at hr
          cases hr
        · simp only [Vm.setReg, update_of_ne hqp] at hl hr ⊢
          exact hskip q hq hqp hl hr
      split_ifs with ha
      · refine answered_sendIntr hclear ?_
        simp only [Vm.setReg, update_self]
        exact ((hs hvec' ha).clear).congr rfl (fun _ => .refl _)
      · exact hclear

theorem grows_eoiPin (vm : Vm) (vec p : ℕ) : Grows vm (eoiPin vec vm p) := by
  unfold eoiPin
  dsimp only
  split_ifs
  · exact .refl vm
  · exact .refl vm
  · exact (grows_setReg vm p _).trans (grows_sendIntr _ p)
  · exact grows_setReg vm p _

theorem eoiPin_rtbl (vm : Vm) (vec : ℕ) {p q : ℕ} (h : q ≠ p) :
    (eoiPin vec vm p).rtbl q = vm.rtbl q := by
  unfold eoiPin
  dsimp only
  split_ifs
  · rfl
  · rfl
  · rw [sendIntr_rtbl]
    simp only [Vm.setReg, update_of_ne h]
  · simp only [Vm.setReg, update_of_ne h]

theorem answered_processEoi
    (h : AnsweredBut (fun q reg => q ∈ List.range redirEntries ∧ vector reg = vec) vm)
    (hs : ∀ p < redirEntries, vector (vm.rtbl p).reg = vec → 0 < (vm.rtbl p).acnt →
      Sound vm (vm.rtbl p).reg) : Answered (Ioapic.processEoi vm vec) := by
  have hloop : ∀ ps : List ℕ, ps.Nodup → ∀ vm : Vm,
      AnsweredBut (fun q reg => q ∈ ps ∧ vector reg = vec) vm →
      (∀ p ∈ ps, vector (vm.rtbl p).reg = vec → 0 < (vm.rtbl p).acnt →
        Sound vm (vm.rtbl p).reg) → Answered (ps.foldl (eoiPin vec) vm) := by
    intro ps hnodup
    induction ps with
    | nil =>
      intro vm hans _ q hq hl hr
      exact (hans q hq hl hr).imp_left fun hx => by cases hx.1
    | cons p ps ih =>
      intro vm hans hsound
      obtain ⟨hp, hps⟩ := nodup_cons.mp hnodup
      refine ih hps _ (answered_eoiPin hans (hsound p mem_cons_self)) ?_
      intro q hq
      have hne : q ≠ p := by
        rintro rfl
        exact hp hq
      have hg := grows_eoiPin vm vec p
      rw [eoiPin_rtbl vm vec hne]
      exact fun hv ha => (hsound q (mem_cons_of_mem _ hq) hv ha).congr hg.active hg.route
  exact hloop _ nodup_range vm h (fun p hp => hs p (mem_range.mp hp))

/-- An EOI of a level-triggered vector answers its entries, and one of another vector takes no holder
away. -/
theorem answered_vcpuEoi {writers : List ℕ} (h : Answered vm) (hc : Routed ⟨vm, writers⟩ (.eoi v))
    (hs : vcpuEoi vm v = .ok vm') : Answered vm' := by
  obtain ⟨⟨l, o⟩, hl, hs⟩ := bind_eq_ok.mp hs
  rcases processEoi_eq_ok hl with ⟨-, rfl, rfl⟩ | ⟨u, p, hu, rfl, rfl⟩
  · cases hs
    exact h.setLapic (fun _ hh => hh)
  · have hroute : ∀ w, SameRoute (vm.lapics w)
        ((vm.setLapic v { pop (vm.lapics v) u with ppr := p }).lapics w) :=
      forall_setLapic .refl ⟨rfl, rfl, rfl, rfl, rfl⟩
    -- Any vector but the one that ends is held on.
    have hkeep : ∀ vec, vec ≠ u ∨ (vm.lapics v).tmr.test u = false → Live vm vec →
        Live (vm.setLapic v { pop (vm.lapics v) u with ppr := p }) vec := by
      rintro vec hvec ⟨w, hw, hact, hh⟩
      refine ⟨w, hw, hact, ?_⟩
      by_cases hwv : w = v
      · subst hwv
        have hne : vec ≠ u := by
          rcases hvec with hne | htmr
          · exact hne
          · rintro rfl
            rw [hh.1] at htmr
            cases htmr
        simp only [Vm.setLapic, update_self]
        refine ⟨hh.1, hh.2.imp_right fun hi => ?_⟩
        simp [pop, Bank.test_clear (show 0 < 32 by decide), hne, hi]
      · simp only [Vm.setLapic, update_of_ne hwv]
        exact hh
    by_cases htmr : (vm.lapics v).tmr.test u = true
    · simp only [htmr, if_true] at hs
      cases hs
      refine answered_processEoi ?_ ?_
      · intro pin hpin hlv hr
        by_cases hv : vector (vm.rtbl pin).reg = u
        · exact .inl ⟨mem_range.mpr hpin, hv⟩
        · exact .inr (hkeep _ (.inl hv) ((h pin hpin hlv hr).resolve_left id))
      · intro pin hpin hv ha
        exact (hc pin hpin (by rw [hu, ← hv]; rfl) ha).congr rfl hroute
    · simp only [htmr] at hs
      cases hs
      intro pin hpin hlv hr
      exact .inr (hkeep _ (.inr (by simpa using htmr)) ((h pin hpin hlv hr).resolve_left id))

variable {s s' : Ioapic.World}

theorem onLapic_eq_ok {r : Except Abort Vlapic} (h : onLapic s v r = .ok s') :
    ∃ l, r = .ok l ∧ s' = { s with vm := s.vm.setLapic v l } := by
  cases r with
  | error a => cases h
  | ok l =>
    cases h
    exact ⟨l, rfl, rfl⟩

theorem answered_step {a : Action} (hc : Routed s a) (hs : step s a = .ok s')
    (h : Answered s.vm) : Answered s'.vm := by
  cases a with
  | setIrqstate irq irqstate =>
    cases hs
    exact answered_setIrqstate h hc
  | write addr data =>
    cases hs
    exact answered_write h hc
  | updateTmr v =>
    cases hs
    exact answered_updateTmr h hc
  | relock pin =>
    simp only [step] at hs
    split_ifs at hs
    cases hs
    exact answered_regenerate h hc
  | ldrWrite v val | dfrWrite v val | svrWrite v val =>
    cases hs
    refine h.setLapic fun vec hh => ?_
    simp only [ldrWrite, dfrWrite, svrWrite]
    split
    · exact hh
    · exact hh
  | setTpr v val =>
    obtain ⟨l, hl, rfl⟩ := onLapic_eq_ok hs
    obtain ⟨t, p, rfl⟩ := setTpr_eq_ok hl
    exact h.setLapic fun _ hh => hh
  | activate v =>
    cases hs
    intro pin hpin hl hr
    refine (h pin hpin hl hr).imp_right fun hlive => hlive.keep (fun u hu => ?_) (fun _ _ hh => hh)
    by_cases huv : u = v
    · simp [huv]
    · simp only [update_of_ne huv]
      exact hu
  | setIntrReady v vector lvl =>
    cases hs
    exact h.setLapic (keeps_setIntrReady _ _)
  | accept v =>
    simp only [step] at hs
    split at hs
    · obtain ⟨l, hl, rfl⟩ := onLapic_eq_ok hs
      exact h.setLapic (keeps_intrAccepted hl)
    · cases hs
  | eoi v =>
    simp only [step] at hs
    split at hs
    · rename_i vm₁ hvm
      cases hs
      exact answered_vcpuEoi h hc hvm
    · cases hs

theorem answered_init : Answered Vm.init := by
  intro pin _ hl
  exact absurd hl (by simp [Vm.init, level, ioartTrgrlvl])

/-- In every run that sends level-triggered interrupts only where they are taken and keeps the routes of
those in flight, each entry whose Remote IRR is set has an active vCPU that will send its EOI on. -/
theorem level_interrupts_answered {as : List Action} (h : Run step Routed ⟨Vm.init, []⟩ as s)
    {pin : ℕ} (hpin : pin < redirEntries) (hl : level (s.vm.rtbl pin).reg = true)
    (hr : remIrr (s.vm.rtbl pin).reg = true) :
    ∃ v < vmMaxcpu, s.vm.active v = true ∧
      ((s.vm.lapics v).irr.test (vector (s.vm.rtbl pin).reg) = true ∨
        (s.vm.lapics v).isr.test (vector (s.vm.rtbl pin).reg) = true) ∧
      (s.vm.lapics v).tmr.test (vector (s.vm.rtbl pin).reg) = true := by
  have hans : Answered s.vm := h.invariant (I := fun s => Answered s.vm)
    (fun _ _ _ hc hs => answered_step hc hs) answered_init
  obtain ⟨v, hv, hact, htmr, hh⟩ := (hans pin hpin hl hr).resolve_left id
  exact ⟨v, hv, hact, hh, htmr⟩

/-- Pin 5 goes to vCPU 0 as vector 0x30; it is asserted, taken, ended and so sent again. -/
def servedRun : List Action :=
  [.activate 0, .svrWrite 0 0x1ff, .write 0x1a 0x8030, .updateTmr 0, .relock 5,
    .setIrqstate 5 .assert, .accept 0, .eoi 0]

theorem level_interrupts_answered_served :
    ∃ s, Run step Routed ⟨Vm.init, []⟩ servedRun s ∧ remIrr (s.vm.rtbl 5).reg = true ∧
      ∃ v < vmMaxcpu, s.vm.active v = true ∧
        ((s.vm.lapics v).irr.test (vector (s.vm.rtbl 5).reg) = true ∨
          (s.vm.lapics v).isr.test (vector (s.vm.rtbl 5).reg) = true) ∧
        (s.vm.lapics v).tmr.test (vector (s.vm.rtbl 5).reg) = true := by
  have hwrite : ∀ s, WriteRouted s.vm 5 (storeHalf (s.vm.rtbl 5).reg false 0x8030) →
      Routed s (.write 0x1a 0x8030) := by
    intro s hw pin high hr
    have hpin : redirection ((0x1a : UInt32) &&& 0xff).toNat = some (5, false) := by decide
    cases hr
    exact hw
  have hrun : Run step Routed ⟨Vm.init, []⟩ servedRun _ :=
    .computed (d := ⟨Vm.init, []⟩) trivial rfl <|
    .computed (d := ⟨Vm.init, []⟩) trivial rfl <|
    .computed (d := ⟨Vm.init, []⟩) (hwrite _ (by decide +kernel)) rfl <|
    .computed (d := ⟨Vm.init, []⟩) (by unfold Routed; decide +kernel) rfl <|
    .computed (d := ⟨Vm.init, []⟩) (by unfold Routed; decide +kernel) rfl <|
    .computed (d := ⟨Vm.init, []⟩) (fun _ _ => by decide +kernel) rfl <|
    .computed (d := ⟨Vm.init, []⟩) trivial (by decide +kernel) <|
    .computed (d := ⟨Vm.init, []⟩) (by unfold Routed; decide +kernel) (by decide +kernel) .refl
  exact ⟨_, hrun, by decide +kernel,
    level_interrupts_answered hrun (by decide) (by decide +kernel) (by decide +kernel)⟩

/-- The same pin is asserted while the local APIC is still disabled, and nobody has its vector. -/
def droppedRun : List Action :=
  [.activate 0, .write 0x1a 0x8030, .updateTmr 0, .relock 5, .setIrqstate 5 .assert]

theorem dropped_interrupt_sticks :
    ∃ s, Run step Any ⟨Vm.init, []⟩ droppedRun s ∧ level (s.vm.rtbl 5).reg = true ∧
      remIrr (s.vm.rtbl 5).reg = true ∧ vector (s.vm.rtbl 5).reg = 0x30 ∧
      ∀ v < vmMaxcpu, (s.vm.lapics v).irr.test 0x30 = false ∧
        (s.vm.lapics v).isr.test 0x30 = false := by
  refine ⟨_, run_of_isOk (d := ⟨Vm.init, []⟩) ?_, ?_, ?_, ?_, ?_⟩
  all_goals decide +kernel

end HyperCog.Trigger
