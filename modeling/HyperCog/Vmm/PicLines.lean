import HyperCog.Lib.Tally
import HyperCog.Vmm.Pic

/-! The lines that devices hold up at the PICs, and what the guest's initialisation does to their counts. -/
namespace HyperCog.Pic

open Machine Inject Tally Function BitVec

variable {ι : Type} {c : Chip} {irq port : ℕ} {val : BitVec 8} {level : Bool}

section Lines

variable (s : State ι)

def State.acnt (irq : ℕ) : ℤ := (s.atpic (chipOf irq)).acnt (irq % 8)

def State.requested (irq : ℕ) : Bool := (s.atpic (chipOf irq)).request.getLsbD (irq % 8)

/-- The count of each pin is the number of devices that assert its line, and a level triggered line that is asserted
is requested once both PICs are ready. -/
structure Counted [Fintype ι] (line : ι → ℕ) (s : State ι) : Prop where
  devices : ∀ irq < 16, s.acnt irq = count fun d => s.asserting d && decide (line d = irq)
  requested : s.bothReady = true → ∀ irq < 16, s.level irq = true → 0 < s.acnt irq → s.requested irq = true

/-- Each device has one line, and asserts and deasserts it in turn. -/
def Alternating (line : ι → ℕ) : Action ι → Prop
  | .call t irq st =>
    irq = line t ∧ (st = .assert → s.asserting t = false) ∧ (st = .deassert → s.asserting t = true)
  | _ => True

/-- The line is down, or its request is there. -/
def State.settled (irq : ℕ) : Prop := s.acnt irq ≤ 0 ∨ s.requested irq = true

/-- An assert or deassert finds its PIC ready, an ICW1 finds no level triggered line of its PIC asserted, and a line
becomes level triggered while it is down or requested. -/
def Spared : Action ι → Prop
  | .call _ irq st => irq < 16 → st ≠ .pulse → (s.ctl (chipOf irq)).ready = true
  | .handler c isRead port bytes val =>
    bytes = 1 → isRead = false → startsInit port val →
      ∀ pin < 8, (s.elc c).getLsbD pin = true → (s.atpic c).acnt pin ≤ 0
  | .elcHandler isRead port bytes val =>
    bytes = 1 → isRead = false → ∀ pin < 8, val.getLsbD pin = true →
        edgeOnly (if port = ioElcr1 then pin else 8 + pin) = false →
        s.settled (if port = ioElcr1 then pin else 8 + pin)
  | .setIrqTrigger irq level => level = true → irq < 16 → edgeOnly irq = false → s.settled irq
  | .pin _ => True
  | .accept _ => True

def Steady (line : ι → ℕ) (a : Action ι) : Prop := Alternating s line a ∧ Spared s a

instance (line : ι → ℕ) : (a : Action ι) → Decidable (Alternating s line a)
  | .call _ _ _ => inferInstanceAs (Decidable (_ ∧ _))
  | .pin _ => isTrue trivial
  | .handler _ _ _ _ _ => isTrue trivial
  | .elcHandler _ _ _ _ => isTrue trivial
  | .setIrqTrigger _ _ => isTrue trivial
  | .accept _ => isTrue trivial

instance (irq : ℕ) : Decidable (s.settled irq) := inferInstanceAs (Decidable (_ ∨ _))

instance : (a : Action ι) → Decidable (Spared s a)
  | .call _ _ _ => inferInstanceAs (Decidable (_ → _ → _))
  | .pin _ => isTrue trivial
  | .handler _ _ _ _ _ => inferInstanceAs (Decidable (_ → _ → _ → ∀ pin < 8, _ → _))
  | .elcHandler _ _ _ _ => inferInstanceAs (Decidable (_ → _ → ∀ pin < 8, _ → _ → _))
  | .setIrqTrigger _ _ => inferInstanceAs (Decidable (_ → _ → _ → _))
  | .accept _ => isTrue trivial

instance (line : ι → ℕ) (a : Action ι) : Decidable (Steady s line a) := inferInstanceAs (Decidable (_ ∧ _))

end Lines

section Requests

/-- The edge/level controls have no bit for the interrupts that are always edge triggered. -/
theorem edgeOnly_of_master : ∀ irq < 8, (0xf8 : BitVec 8).getLsbD irq = true → edgeOnly irq = false := by
  decide

theorem edgeOnly_of_slave : ∀ irq < 16, 8 ≤ irq → (0xde : BitVec 8).getLsbD (irq % 8) = true →
    edgeOnly irq = false := by
  decide

variable {s s' s'' : State ι} {irq' : ℕ}

/-- A step that moves no line: the counts stay, and so does the request of each pin that is asserted. -/
structure Keeps (s s' : State ι) : Prop where
  acnt : ∀ c, (s'.atpic c).acnt = (s.atpic c).acnt
  elc : ∀ c, s'.elc c = s.elc c
  request : ∀ c, ∀ pin < 8, (s.elc c).getLsbD pin = true → 0 < (s.atpic c).acnt pin →
    (s.atpic c).request.getLsbD pin = true → (s'.atpic c).request.getLsbD pin = true
  calls : s'.calls = s.calls
  asserting : s'.asserting = s.asserting

theorem Keeps.trans (h : Keeps s s') (h' : Keeps s' s'') : Keeps s s'' := by
  refine ⟨fun c => (h'.acnt c).trans (h.acnt c), fun c => (h'.elc c).trans (h.elc c), ?_,
    h'.calls.trans h.calls, h'.asserting.trans h.asserting⟩
  intro c pin hpin hlevel hpos hbit
  refine h'.request c pin hpin ?_ ?_ (h.request c pin hpin hlevel hpos hbit)
  · rw [h.elc]
    exact hlevel
  · rw [h.acnt]
    exact hpos

variable {a : Atpic} {pin : ℕ}

/-- One PIC changes, and keeps its counts and its asserted requests. -/
theorem keeps_setAtpic (hacnt : a.acnt = (s.atpic c).acnt)
    (hreq : ∀ pin < 8, (s.elc c).getLsbD pin = true → 0 < (s.atpic c).acnt pin →
      (s.atpic c).request.getLsbD pin = true → a.request.getLsbD pin = true) :
    Keeps s (s.setAtpic a c) := by
  have helc : ∀ c', (s.setAtpic a c).elc c' = s.elc c' := by
    intro c'
    cases c <;> rfl
  refine ⟨fun c' => ?_, helc, fun c' pin hpin hlevel hpos hbit => ?_, by cases c <;> rfl, by cases c <;> rfl⟩
  · by_cases hc : c' = c
    · rw [hc, atpic_setAtpic, hacnt]
    · rw [atpic_setAtpic_of_ne hc]
  · by_cases hc : c' = c
    · subst hc
      rw [atpic_setAtpic]
      exact hreq pin hpin hlevel hpos hbit
    · rw [atpic_setAtpic_of_ne hc]
      exact hbit

theorem keeps_notify (h : s.pic.elc.getLsbD 2 = false) : Keeps s s.notify := by
  have hpic : s.notify.pic = _ := notifyIntr_eq h
  refine ⟨notify_acnt h, fun c => ?_, fun c pin _ _ _ hbit => ?_, rfl, rfl⟩
  · cases c with
    | master =>
      change s.notify.pic.elc = s.pic.elc
      rw [hpic]
    | slave => rfl
  · cases c with
    | master =>
      change s.notify.pic.master.request.getLsbD pin = true
      rw [hpic]
      exact pulsed_mono hbit
    | slave =>
      change s.notify.pic.slave.request.getLsbD pin = true
      rw [hpic]
      exact hbit

/-- An acceptance clears the request of a pin that is not asserted. -/
theorem keeps_pinAccepted (s : State ι) (c : Chip) (hpin : pin < 8) :
    Keeps s (s.setAtpic ((s.atpic c).pinAccepted pin) c) := by
  rw [pinAccepted_eq]
  refine keeps_setAtpic rfl fun q hq _ hpos hbit => ?_
  dsimp only
  split_ifs
  · have hne : ¬q = pin := by
      rintro rfl
      omega
    rw [getLsbD_and, getLsbD_not, getLsbD_one_shiftLeft hpin, hbit]
    simp [hne, hq]
  · exact hbit

theorem keeps_accept (h : s.pic.elc.getLsbD 2 = false) (vector : ℕ) : Keeps s (s.accept vector) := by
  have hmod : vector % 8 < 8 := Nat.mod_lt _ (by decide)
  unfold State.accept Vatpic.intrAccepted
  dsimp only
  split_ifs
  · have hslave := keeps_pinAccepted s .slave hmod
    have hmaster := keeps_pinAccepted (s.setAtpic (s.pic.slave.pinAccepted (vector % 8)) .slave) .master
      (show 2 < 8 by decide)
    exact (hslave.trans hmaster).trans (keeps_notify h)
  · exact (keeps_pinAccepted s .master hmod).trans (keeps_notify h)

/-- The registers beside the lines do not matter. -/
theorem Keeps.setRegs {r : Regs} (h : Keeps s (s.setAtpic r.atpic c)) : Keeps s (s.setRegs c r) := by
  have hatpic : ∀ c', (s.setRegs c r).atpic c' = (s.setAtpic r.atpic c).atpic c' := by
    intro c'
    cases c' <;> rfl
  have helc : ∀ c', (s.setRegs c r).elc c' = (s.setAtpic r.atpic c).elc c' := by
    intro c'
    cases c' <;> rfl
  refine ⟨fun c' => ?_, fun c' => ?_, fun c' => ?_, h.calls, h.asserting⟩
  · exact h.acnt c'
  · exact h.elc c'
  · exact h.request c'

theorem keeps_read (port : ℕ) : Keeps s (s.read c port).1 := by
  have hatpic : Keeps s (s.setAtpic (readRegs (s.regs c) port).1.atpic c) := by
    rcases readRegs_atpic (s.regs c) port with hsame | ⟨-, pin, hpin, hacc⟩
    · rw [hsame]
      exact keeps_setAtpic rfl fun _ _ _ _ hbit => hbit
    · rw [hacc]
      exact keeps_pinAccepted s c (highestIrrpin_lt hpin)
  exact hatpic.setRegs

theorem keeps_write (h : s.pic.elc.getLsbD 2 = false)
    (hinit : startsInit port val → ∀ pin < 8, (s.elc c).getLsbD pin = true → (s.atpic c).acnt pin ≤ 0) :
    Keeps s (s.write c port val).1 := by
  have hk := writeRegs_kept (s.regs c) val c port
  unfold State.write
  generalize writeRegs (s.regs c) val c port = w at hk
  obtain ⟨r, error⟩ := w
  have hregs : Keeps s (s.setRegs c r) := by
    refine Keeps.setRegs (keeps_setAtpic hk.acnt fun pin hpin hlevel hpos hbit => ?_)
    by_cases hi : startsInit port val
    · have hle := hinit hi pin hpin hlevel
      omega
    · have hrequest : r.atpic.request = (s.atpic c).request := hk.request hi
      rw [hrequest]
      exact hbit
  dsimp only
  split_ifs
  · refine hregs.trans (keeps_notify ?_)
    have helc : (s.setRegs c r).pic.elc = s.pic.elc := elc_setAtpic r.atpic c
    rw [helc]
    exact h
  · exact hregs

/-- Level triggered lines that are asserted are requested. -/
def Requested (s : State ι) : Prop := ∀ irq < 16, s.level irq = true → 0 < s.acnt irq → s.requested irq = true

theorem Requested.keeps (h : Requested s) (hk : Keeps s s') : Requested s' := by
  intro irq hirq hlevel hpos
  rw [State.level, hk.elc] at hlevel
  rw [State.acnt, hk.acnt] at hpos
  exact hk.request _ _ (Nat.mod_lt _ (by decide)) hlevel hpos (h irq hirq hlevel hpos)

theorem chipOf_mod_inj (h : irq < 16) (h' : irq' < 16) (hc : chipOf irq' = chipOf irq) (hm : irq' % 8 = irq % 8) :
    irq' = irq := by
  unfold chipOf at hc
  split_ifs at hc <;> omega

theorem setPin_request {newstate : Bool} (hpin : pin < 8) (hlevel : level = true)
    (hpos : 0 < (setPin a level pin newstate).acnt pin) :
    (setPin a level pin newstate).request.getLsbD pin = true := by
  simp only [setPin, update_self] at hpos ⊢
  rw [if_pos (.inr ⟨hpos, hlevel⟩), getLsbD_or, getLsbD_one_shiftLeft hpin, decide_eq_true rfl, Bool.or_true]

section Pin

variable (h : s.pic.elc.getLsbD 2 = false) (hirq : irq < 16) (newstate : Bool)

include h

theorem setPinstate_elc (c : Chip) : (s.setPinstate irq newstate).elc c = s.elc c := by
  unfold State.setPinstate
  rw [(keeps_notify (by rw [elc_setAtpic]; exact h)).elc]
  generalize chipOf irq = d
  cases d <;> rfl

include hirq

theorem setPinstate_acnt (hirq' : irq' < 16) : (s.setPinstate irq newstate).acnt irq' =
    if irq' = irq then (if newstate then s.acnt irq + 1 else s.acnt irq - 1) else s.acnt irq' := by
  unfold State.setPinstate
  rw [State.acnt, (keeps_notify (by rw [elc_setAtpic]; exact h)).acnt]
  by_cases hc : chipOf irq' = chipOf irq
  · rw [hc, atpic_setAtpic]
    by_cases hm : irq' % 8 = irq % 8
    · rw [if_pos (chipOf_mod_inj hirq hirq' hc hm), hm]
      exact update_self ..
    · have hne : ¬irq' = irq := fun heq => hm (by rw [heq])
      rw [if_neg hne, (setPin_other _ _ _ (Nat.mod_lt _ (by decide)) hm).1, ← hc, ← State.acnt]
  · have hne : ¬irq' = irq := fun heq => hc (by rw [heq])
    rw [if_neg hne, atpic_setAtpic_of_ne hc, ← State.acnt]

theorem Requested.setPinstate (hr : Requested s) : Requested (s.setPinstate irq newstate) := by
  have hmod : irq % 8 < 8 := Nat.mod_lt _ (by decide)
  refine Requested.keeps ?_ (keeps_notify (by rw [elc_setAtpic]; exact h))
  intro irq' hirq' hlevel hpos
  have helc : ∀ a : Atpic, (s.setAtpic a (chipOf irq)).elc = s.elc := by
    intro a
    generalize chipOf irq = d
    funext c
    cases d <;> rfl
  rw [State.level, helc] at hlevel
  rw [State.acnt] at hpos
  rw [State.requested]
  by_cases hc : chipOf irq' = chipOf irq
  · rw [hc, atpic_setAtpic] at hpos ⊢
    by_cases hm : irq' % 8 = irq % 8
    · have heq := chipOf_mod_inj hirq hirq' hc hm
      rw [hm] at hpos ⊢
      exact setPin_request hmod (heq ▸ hlevel) hpos
    · obtain ⟨hacnt, hbit⟩ := setPin_other (s.atpic (chipOf irq)) (s.level irq) newstate hmod hm
      rw [hacnt, ← hc] at hpos
      rw [hbit, ← hc]
      exact hr irq' hirq' hlevel hpos
  · rw [atpic_setAtpic_of_ne hc] at hpos ⊢
    exact hr irq' hirq' hlevel hpos

end Pin

end Requests

section Devices

variable {s s' : State ι} {line : ι → ℕ}

/-- What a call adds to the count of its pin. -/
def IrqState.delta : IrqState → ℤ
  | .assert => 1
  | .deassert => -1
  | .pulse => 0

theorem setPinstate_callers (s : State ι) (irq : ℕ) (newstate : Bool) :
    (s.setPinstate irq newstate).calls = s.calls ∧ (s.setPinstate irq newstate).asserting = s.asserting := by
  unfold State.setPinstate
  generalize chipOf irq = c
  cases c <;> exact ⟨rfl, rfl⟩

theorem changePin_callers (s : State ι) (irq : ℕ) (st : IrqState) :
    (s.changePin irq st).calls = s.calls ∧ (s.changePin irq st).asserting = s.asserting := by
  have hone := setPinstate_callers s irq
  cases st with
  | assert => exact hone true
  | deassert => exact hone false
  | pulse =>
    have htwo := setPinstate_callers (s.setPinstate irq true) irq false
    exact ⟨htwo.1.trans (hone true).1, htwo.2.trans (hone true).2⟩

variable {t : ι} {st : IrqState}

theorem changePin_keeps (h : s.pic.elc.getLsbD 2 = false) (hirq : irq < 16) (st : IrqState) :
    (∀ c, (s.changePin irq st).elc c = s.elc c) ∧ (Requested s → Requested (s.changePin irq st)) ∧
      ∀ irq' < 16, (s.changePin irq st).acnt irq' = s.acnt irq' + if irq' = irq then st.delta else 0 := by
  have hone : ∀ newstate, (∀ c, (s.setPinstate irq newstate).elc c = s.elc c) ∧
      (Requested s → Requested (s.setPinstate irq newstate)) ∧ ∀ irq' < 16,
      (s.setPinstate irq newstate).acnt irq' =
        s.acnt irq' + if irq' = irq then (if newstate then 1 else -1) else 0 := by
    intro newstate
    refine ⟨setPinstate_elc h newstate, Requested.setPinstate h hirq newstate, fun irq' hirq' => ?_⟩
    rw [setPinstate_acnt h hirq newstate hirq']
    by_cases heq : irq' = irq
    · subst heq
      cases newstate <;> simp [Int.sub_eq_add_neg]
    · simp [heq]
  cases st with
  | assert => exact hone true
  | deassert => exact hone false
  | pulse =>
    obtain ⟨helc, hreq, hacnt⟩ := hone true
    have hedge : (s.setPinstate irq true).pic.elc.getLsbD 2 = false := (congrArg (·.getLsbD 2) (helc .master)).trans h
    refine ⟨fun c => (setPinstate_elc hedge false c).trans (helc c),
      fun hr => (hreq hr).setPinstate hedge hirq false, ?_⟩
    intro irq' hirq'
    change ((s.setPinstate irq true).setPinstate irq false).acnt irq' = _
    rw [setPinstate_acnt hedge hirq false hirq', hacnt irq hirq, hacnt irq' hirq']
    by_cases heq : irq' = irq
    · subst heq
      simp [IrqState.delta]
    · simp [heq]

section Returned

variable [DecidableEq ι]

theorem returned_other (s : State ι) {d : ι} (st : IrqState) (hd : d ≠ t) :
    (s.returned t st).calls d = s.calls d ∧ (s.returned t st).asserting d = s.asserting d := by
  refine ⟨update_of_ne hd _ _, ?_⟩
  cases st with
  | assert | deassert => exact update_of_ne hd _ _
  | pulse => rfl

/-- What the call has made of its line when it returns. -/
theorem bit_returned (s : State ι) (t : ι) (st : IrqState) (hup : st = .assert → s.asserting t = false)
    (hdown : st = .deassert → s.asserting t = true) :
    bit ((s.returned t st).asserting t) = bit (s.asserting t) + st.delta := by
  unfold State.returned
  cases st with
  | assert => simp [hup rfl, IrqState.delta]
  | deassert => simp [hdown rfl, IrqState.delta]
  | pulse => simp [IrqState.delta]

end Returned

variable [Fintype ι]

structure LineInv (line : ι → ℕ) (s : State ι) : Prop where
  edge : s.pic.elc.getLsbD 2 = false
  devices : ∀ irq < 16, s.acnt irq = count fun d => s.asserting d && decide (line d = irq)
  requested : Requested s
  calls : ∀ t irq st, s.calls t = some (irq, st) → irq = line t ∧ irq < 16 ∧
    (st = .assert → s.asserting t = false) ∧ (st = .deassert → s.asserting t = true)

section

variable (h : LineInv line s)

include h

theorem LineInv.keeps (hk : Keeps s s') : LineInv line s' := by
  refine ⟨?_, fun irq hirq => ?_, h.requested.keeps hk, ?_⟩
  · exact (congrArg (·.getLsbD 2) (hk.elc .master)).trans h.edge
  · rw [State.acnt, hk.acnt, hk.asserting]
    exact h.devices irq hirq
  · rw [hk.calls, hk.asserting]
    exact h.calls

/-- The trigger modes change; what becomes level triggered is down or requested. -/
theorem LineInv.setElc {x : BitVec 8} (hx : c = .master → x.getLsbD 2 = false)
    (hnew : ∀ irq < 16, chipOf irq = c → x.getLsbD (irq % 8) = true → s.level irq = true ∨ s.settled irq) :
    LineInv line (s.setElc x c) := by
  have hacnt : ∀ irq, (s.setElc x c).acnt irq = s.acnt irq := by
    intro irq
    cases c <;> rfl
  have hreq : ∀ irq, (s.setElc x c).requested irq = s.requested irq := by
    intro irq
    cases c <;> rfl
  refine ⟨?_, fun irq hirq => ?_, fun irq hirq hlevel hpos => ?_, by cases c <;> exact h.calls⟩
  · cases c with
    | master => exact hx rfl
    | slave => exact h.edge
  · cases c <;> exact h.devices irq hirq
  · rw [hacnt] at hpos
    rw [hreq]
    have hold : s.level irq = true ∨ s.settled irq := by
      by_cases hc : chipOf irq = c
      · refine hnew irq hirq hc ?_
        rw [State.level, hc] at hlevel
        cases c <;> exact hlevel
      · left
        rw [State.level] at hlevel ⊢
        generalize chipOf irq = d at hc hlevel
        cases c <;> cases d <;> first | exact hlevel | exact absurd rfl hc
    rcases hold with hl | hle | hr
    · exact h.requested irq hirq hl hpos
    · omega
    · exact hr

theorem LineInv.elcHandler {isRead : Bool} {bytes : ℕ}
    (hs : Spared s (.elcHandler isRead port bytes val)) : LineInv line (s.elcHandler isRead port bytes val) := by
  unfold State.elcHandler
  split_ifs with hbytes hread hport
  · exact h
  · exact h
  · refine h.setElc (fun _ => ?_) fun irq hirq hc hbit => .inr ?_
    · rw [getLsbD_and]
      exact Bool.and_false _
    · rw [getLsbD_and, Bool.and_eq_true] at hbit
      have hlt := chipOf_eq_master.mp hc
      have hset := hs (not_not.mp hbytes) (by simpa using hread) (irq % 8) (Nat.mod_lt _ (by decide)) hbit.1
      rw [if_pos hport, Nat.mod_eq_of_lt hlt] at hset
      rw [Nat.mod_eq_of_lt hlt] at hbit
      exact hset (edgeOnly_of_master irq hlt hbit.2)
  · refine h.setElc nofun fun irq hirq hc hbit => .inr ?_
    rw [getLsbD_and, Bool.and_eq_true] at hbit
    have hset := hs (not_not.mp hbytes) (by simpa using hread) (irq % 8) (Nat.mod_lt _ (by decide)) hbit.1
    have hge := chipOf_eq_slave.mp hc
    have heq : 8 + irq % 8 = irq := by omega
    rw [if_neg hport, heq] at hset
    exact hset (edgeOnly_of_slave irq hirq hge hbit.2)

theorem LineInv.setIrqTrigger
    (hs : Spared s (.setIrqTrigger irq level)) : LineInv line (s.setIrqTrigger irq level) := by
  rcases setIrqTrigger_cases s irq level with heq | ⟨x, heq, hx⟩
  · rw [heq]
    exact h
  · rw [heq]
    refine h.setElc (edge_of_trigger h.edge hx) fun irq' hirq' hc hbit => ?_
    rcases hx _ hbit with hold | ⟨hlevel, hirq, hedge, hmod⟩
    · left
      rw [State.level, hc]
      exact hold
    · right
      rw [chipOf_mod_inj hirq hirq' hc hmod]
      exact hs hlevel hirq hedge

end

variable [DecidableEq ι]

section

variable (h : LineInv line s)

include h

theorem LineInv.calls_returned (hcalls : s'.calls = s.calls)
    (hasserting : s'.asserting = s.asserting) :
    ∀ d irq st', (s'.returned t st).calls d = some (irq, st') →
      irq = line d ∧ irq < 16 ∧ (st' = .assert → (s'.returned t st).asserting d = false) ∧
        (st' = .deassert → (s'.returned t st).asserting d = true) := by
  intro d irq st' hd
  by_cases hdt : d = t
  · rw [hdt] at hd
    have hnone : (s'.returned t st).calls t = none := update_self ..
    rw [hnone] at hd
    cases hd
  · obtain ⟨hc, ha⟩ := returned_other s' st hdt
    rw [hc, hcalls] at hd
    rw [ha, hasserting]
    exact h.calls d irq st' hd

/-- A device's line is counted while it asserts it. -/
theorem LineInv.pin (hc : s.calls t = some (irq, st)) :
    LineInv line ((s.changePin irq st).returned t st) := by
  obtain ⟨rfl, hirq, hup, hdown⟩ := h.calls t irq st hc
  obtain ⟨helc, hreq, hacnt⟩ := changePin_keeps h.edge hirq st
  obtain ⟨hcalls, hasserting⟩ := changePin_callers s (line t) st
  refine ⟨?_, fun irq' hirq' => ?_, hreq h.requested, h.calls_returned hcalls hasserting⟩
  · exact (congrArg (·.getLsbD 2) (helc .master)).trans h.edge
  · change (s.changePin (line t) st).acnt irq' = _
    rw [hacnt irq' hirq', h.devices irq' hirq']
    have hchange := count_change
      (q := fun d => ((s.changePin (line t) st).returned t st).asserting d && decide (line d = irq'))
      fun d hd => by rw [(returned_other _ st hd).2, hasserting]
    have hbit := bit_returned (s.changePin (line t) st) t st (by rw [hasserting]; exact hup)
      (by rw [hasserting]; exact hdown)
    rw [hasserting] at hbit
    rw [hchange]
    by_cases hline : line t = irq'
    · simp only [hline, decide_true, Bool.and_true, if_true] at hbit ⊢
      omega
    · simp only [hline, decide_false, Bool.and_false, Ne.symm hline, if_false, bit_false]
      omega

theorem LineInv.call (hs : Steady s line (.call t irq st))
    (hstep : step s (.call t irq st) = .ok s') : LineInv line s' := by
  obtain ⟨⟨rfl, hup, hdown⟩, hready⟩ := hs
  have hdropped : (∀ irq < 16, line t = irq → st = .pulse) → LineInv line (s.returned t st) := by
    intro hpulse
    refine ⟨h.edge, fun irq hirq => ?_, h.requested, h.calls_returned rfl rfl⟩
    have hsame : ∀ d, ((s.returned t st).asserting d && decide (line d = irq)) =
        (s.asserting d && decide (line d = irq)) := by
      intro d
      by_cases hd : d = t
      · subst hd
        by_cases hline : line d = irq
        · cases hpulse irq hirq hline
          rfl
        · simp [hline]
      · rw [(returned_other s st hd).2]
    simp only [hsame]
    exact h.devices irq hirq
  simp only [step] at hstep
  split_ifs at hstep with hbusy hbig hrdy
  · cases hstep
    refine hdropped fun irq hirq hline => ?_
    omega
  · cases hstep
    refine ⟨h.edge, h.devices, h.requested, fun d irq st' hd => ?_⟩
    by_cases hdt : d = t
    · subst hdt
      simp only [update_self, Option.some.injEq, Prod.mk.injEq] at hd
      obtain ⟨rfl, rfl⟩ := hd
      exact ⟨rfl, by omega, hup, hdown⟩
    · simp only [update_of_ne hdt] at hd
      exact h.calls d irq st' hd
  · cases hstep
    refine hdropped fun irq hirq hline => ?_
    by_contra hst
    exact hrdy (hready (by omega) hst)

theorem LineInv.step {a : Action ι} (hs : Steady s line a) (hstep : step s a = .ok s') :
    LineInv line s' := by
  cases a with
  | call t irq st => exact h.call hs hstep
  | pin t =>
    simp only [Pic.step] at hstep
    cases hc : s.calls t with
    | none =>
      rw [hc] at hstep
      cases hstep
    | some call =>
      rw [hc] at hstep
      cases hstep
      exact h.pin hc
  | handler c isRead port bytes val =>
    cases hstep
    unfold State.handler
    split_ifs with hbytes hread
    · exact h
    · exact h.keeps (keeps_read port)
    · exact h.keeps (keeps_write h.edge (hs.2 (not_not.mp hbytes) (by simpa using hread)))
  | elcHandler isRead port bytes val =>
    cases hstep
    exact h.elcHandler hs.2
  | setIrqTrigger irq level =>
    cases hstep
    exact h.setIrqTrigger hs.2
  | accept vector =>
    cases hstep
    exact h.keeps (keeps_accept h.edge vector)

end

end Devices

theorem lineInv_init [Fintype ι] (line : ι → ℕ) : LineInv line (init ι) := by
  have hzero : ∀ c, ((init ι).atpic c).acnt = fun _ => 0 := by
    intro c
    cases c <;> rfl
  have hacnt : ∀ irq, (init ι).acnt irq = 0 := fun irq => by rw [State.acnt, hzero]
  refine ⟨getLsbD_zero, fun irq _ => ?_, fun irq _ _ hpos => ?_, nofun⟩
  · rw [hacnt]
    exact (count_eq_zero fun _ => rfl).symm
  · rw [hacnt] at hpos
    exact absurd hpos (Int.lt_irrefl 0)

/-- Any number of devices, each with its line: where the guest's initialisation spares what they hold up, the counts
and the requests are right in every state. -/
theorem steady_counted {ι : Type} [Fintype ι] [DecidableEq ι] (line : ι → ℕ) {as : List (Action ι)}
    {s : State ι}
    (h : Run step (fun s => Steady s line) (init ι) as s) : Counted line s := by
  have hinv : LineInv line s :=
    h.invariant (fun _ _ _ hs hstep hi => hi.step hs hstep) (lineInv_init line)
  exact ⟨hinv.devices, fun _ => hinv.requested⟩

instance neZeroDevices : NeZero 2 := ⟨by decide⟩

/-- Two devices share a level triggered line; one lets go of it after its interrupt. -/
def sharedRun : List (Action (Fin 2)) :=
  bothInitialised ++ [.elcHandler false 0x4d0 1 0x20, .call 0 5 .assert, .call 1 5 .assert, .pin 1, .pin 0,
    .accept 0x25, .call 0 5 .deassert, .pin 0]

theorem steady_counted_shared : ∃ s, Run step (fun s => Steady s fun _ => 5) (init (Fin 2)) sharedRun s ∧
    Counted (fun _ => 5) s ∧ s.bothReady = true ∧ s.acnt 5 = 1 := by
  have hrun : Run step (fun s => Steady s fun _ => 5) (init (Fin 2)) sharedRun _ :=
    run_of_checked (d := init (Fin 2)) rfl
  exact ⟨_, hrun, steady_counted _ hrun, by decide +kernel, by decide +kernel⟩

/-- A device asserts its line before the guest has initialised the PICs. -/
def droppedRun : List (Action (Fin 1)) := [.call 0 5 .assert] ++ bothInitialised

/-- The guest initialises the master while a level triggered line of it is up. -/
def clearedRun : List (Action (Fin 1)) :=
  bothInitialised ++ [.elcHandler false 0x4d0 1 0x20, .call 0 5 .assert, .pin 0] ++ initSequence .master 0x20 0x1

theorem line_miscounted :
    (∃ s, Run step (fun s => Alternating s fun _ => 5) (init (Fin 1)) droppedRun s ∧ ¬Counted (fun _ => 5) s) ∧
      ∃ s, Run step (fun s => Alternating s fun _ => 5) (init (Fin 1)) clearedRun s ∧ ¬Counted (fun _ => 5) s := by
  have hdropped : Run step (fun s => Alternating s fun _ => 5) (init (Fin 1)) droppedRun _ :=
    run_of_checked (d := init (Fin 1)) rfl
  have hcleared : Run step (fun s => Alternating s fun _ => 5) (init (Fin 1)) clearedRun _ :=
    run_of_checked (d := init (Fin 1)) rfl
  refine ⟨⟨_, hdropped, fun h => ?_⟩, _, hcleared, fun h => ?_⟩
  · exact absurd (h.devices 5 (by decide)) (by decide +kernel)
  · exact absurd (h.requested rfl 5 (by decide) rfl (by decide +kernel))
      (by decide +kernel)

end HyperCog.Pic
