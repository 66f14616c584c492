import HyperCog.Vmm.Inject

/-! The two PICs with their ports: device calls, guest accesses and acceptances in any order, and which of them
leave a request unsignalled. -/
namespace HyperCog.Pic

open Machine Inject Function BitVec

def icw1Ic4 : BitVec 8 := 0x01
def icw1Sngl : BitVec 8 := 0x02
def icw1Reset : BitVec 8 := 0x10
def icw4Mode8086 : BitVec 8 := 0x01
def icw4Aeoi : BitVec 8 := 0x02
def icw4Sfnm : BitVec 8 := 0x10
def ocw2Eoi : BitVec 8 := 0x20
def ocw2Sl : BitVec 8 := 0x40
def ocw2R : BitVec 8 := 0x80
def ocw3Ris : BitVec 8 := 0x01
def ocw3Rr : BitVec 8 := 0x02
def ocw3P : BitVec 8 := 0x04
def ocw3Sel : BitVec 8 := 0x08
def ocw3Smm : BitVec 8 := 0x20
def ocw3Esmm : BitVec 8 := 0x40
def icuImrOffset : ℕ := 1
def ioElcr1 : ℕ := 0x4d0

inductive Chip
  | master
  | slave
  deriving DecidableEq, Repr

inductive IrqState
  | assert
  | deassert
  | pulse
  deriving DecidableEq, Repr

/-- What the initialisation of a PIC and the reads of its ports use besides the registers. -/
structure Ctl where
  ready : Bool
  icwNum : ℕ
  rdCmdReg : BitVec 8
  poll : Bool
  deriving DecidableEq, Repr

structure Regs where
  atpic : Atpic
  ctl : Ctl

/-- The PICs, the calls in progress and what each caller has made of its line. -/
structure State (ι : Type) where
  pic : Vatpic
  /-- `elc[1]` -/
  elcSlave : BitVec 8
  ctl : Chip → Ctl
  /-- the calls of `vatpic_set_irqstate` that found their PIC ready and wait for the lock -/
  calls : ι → Option (ℕ × IrqState)
  /-- the last call of the caller that was no pulse was an assert -/
  asserting : ι → Bool

section Registers

variable (r : Regs) (val : BitVec 8)

/-- The pin in service with the highest priority; a masked one is passed over in special mask mode. -/
def highestIsrpin (a : Atpic) : Option ℕ :=
  a.pins.find? fun pin => a.service.getLsbD pin && !(a.smm && a.mask.getLsbD pin)

def icw1 : Regs × ℤ :=
  let r : Regs :=
    { atpic := { r.atpic with request := 0, mask := 0, lowprio := 7, smm := false }
      ctl := { ready := false, icwNum := 1, rdCmdReg := 0, poll := false } }
  if val &&& icw1Sngl ≠ 0 then (r, -1)
  else if val &&& icw1Ic4 = 0 then (r, -1)
  else ({ r with ctl := { r.ctl with icwNum := r.ctl.icwNum + 1 } }, 0)

def icw2 : Regs :=
  { atpic := { r.atpic with irqBase := (val &&& 0xf8).toNat }, ctl := { r.ctl with icwNum := r.ctl.icwNum + 1 } }

def icw3 : Regs := { r with ctl := { r.ctl with icwNum := r.ctl.icwNum + 1 } }

/-- Special fully nested mode is for the master only. Neither mode is ever left again. -/
def icw4 (c : Chip) : Regs × ℤ :=
  if val &&& icw4Mode8086 = 0 then (r, -1)
  else
    ({ atpic := { r.atpic with
        aeoi := r.atpic.aeoi || decide (val &&& icw4Aeoi ≠ 0)
        sfn := r.atpic.sfn || decide (val &&& icw4Sfnm ≠ 0 ∧ c = .master) }
       ctl := { r.ctl with icwNum := 0, ready := true } }, 0)

def ocw1 : Regs := { r with atpic := { r.atpic with mask := val } }

def ocw2 : Regs :=
  let a := { r.atpic with rotate := decide (val &&& ocw2R ≠ 0) }
  if val &&& ocw2Eoi ≠ 0 then
    match if val &&& ocw2Sl ≠ 0 then some (val &&& 0x7).toNat else highestIsrpin a with
    | none => { r with atpic := a }
    | some isrBit =>
      { r with atpic := { a with
          service := a.service &&& ~~~((1 : BitVec 8) <<< isrBit)
          lowprio := if a.rotate then isrBit else a.lowprio } }
  else if val &&& ocw2Sl ≠ 0 ∧ a.rotate then { r with atpic := { a with lowprio := (val &&& 0x7).toNat } }
  else { r with atpic := a }

def ocw3 : Regs :=
  let r := if val &&& ocw3Esmm ≠ 0 then
    { r with atpic := { r.atpic with smm := decide (val &&& ocw3Smm ≠ 0) } } else r
  if val &&& ocw3Rr ≠ 0 then
    { r with ctl := { r.ctl with rdCmdReg := val &&& ocw3Ris, poll := decide (val &&& ocw3P ≠ 0) } }
  else r

/-- `vatpic_write` up to its notification, and its result. -/
def writeRegs (c : Chip) (port : ℕ) : Regs × ℤ :=
  if port &&& icuImrOffset ≠ 0 then
    if r.ctl.icwNum = 2 then (icw2 r val, 0)
    else if r.ctl.icwNum = 3 then (icw3 r, 0)
    else if r.ctl.icwNum = 4 then icw4 r val c
    else (ocw1 r val, 0)
  else
    let (r, error) := if val &&& icw1Reset ≠ 0 then icw1 r val else (r, 0)
    if r.ctl.ready then (if val &&& ocw3Sel ≠ 0 then ocw3 r val else ocw2 r val, 0) else (r, error)

/-- `vatpic_read`, and the value it returns. -/
def readRegs (port : ℕ) : Regs × BitVec 8 :=
  if r.ctl.poll then
    let r := { r with ctl := { r.ctl with poll := false } }
    match r.atpic.highestIrrpin with
    | some pin => ({ r with atpic := r.atpic.pinAccepted pin }, 0x80 ||| BitVec.ofNat 8 pin)
    | none => (r, 0)
  else if port &&& icuImrOffset ≠ 0 then (r, r.atpic.mask)
  else if r.ctl.rdCmdReg = ocw3Ris then (r, r.atpic.service)
  else (r, r.atpic.request)

/-- `vatpic_set_pinstate` for one PIC, up to its notification. -/
def setPin (a : Atpic) (level : Bool) (pin : ℕ) (newstate : Bool) : Atpic :=
  let oldcnt := a.acnt pin
  let newcnt := if newstate then oldcnt + 1 else oldcnt - 1
  let request :=
    if oldcnt = 0 ∧ newcnt = 1 ∨ newcnt > 0 ∧ level then a.request ||| (1 : BitVec 8) <<< pin
    else if oldcnt = 1 ∧ newcnt = 0 ∧ level then a.request &&& ~~~((1 : BitVec 8) <<< pin)
    else a.request
  { a with acnt := update a.acnt pin newcnt, request := request }

end Registers

/-- The PIC that an IRQ belongs to. -/
def chipOf (irq : ℕ) : Chip := if irq < 8 then .master else .slave

variable {ι : Type} {a : Atpic} {pin : ℕ} {newstate : Bool} {c : Chip}
  {val serviced serviced' ready ready' : BitVec 8}
  {pins : List ℕ} {p : Vatpic}

section Calls

variable (s : State ι)

def State.atpic : Chip → Atpic
  | .master => s.pic.master
  | .slave => s.pic.slave

def State.setAtpic (a : Atpic) : Chip → State ι
  | .master => { s with pic := { s.pic with master := a } }
  | .slave => { s with pic := { s.pic with slave := a } }

def State.regs (c : Chip) : Regs := ⟨s.atpic c, s.ctl c⟩

def State.setRegs (c : Chip) (r : Regs) : State ι :=
  { s.setAtpic r.atpic c with ctl := update s.ctl c r.ctl }

def State.elc : Chip → BitVec 8
  | .master => s.pic.elc
  | .slave => s.elcSlave

def State.setElc (x : BitVec 8) : Chip → State ι
  | .master => { s with pic := { s.pic with elc := x } }
  | .slave => { s with elcSlave := x }

def State.level (irq : ℕ) : Bool := (s.elc (chipOf irq)).getLsbD (irq % 8)

def State.notify : State ι := { s with pic := s.pic.notifyIntr.1 }

def State.setPinstate (irq : ℕ) (newstate : Bool) : State ι :=
  (s.setAtpic (setPin (s.atpic (chipOf irq)) (s.level irq) (irq % 8) newstate) (chipOf irq)).notify

/-- What `vatpic_set_irqstate` does with the lock. -/
def State.changePin (irq : ℕ) : IrqState → State ι
  | .assert => s.setPinstate irq true
  | .deassert => s.setPinstate irq false
  | .pulse => (s.setPinstate irq true).setPinstate irq false

def State.write (c : Chip) (port : ℕ) (val : BitVec 8) : State ι × ℤ :=
  let (r, error) := writeRegs (s.regs c) val c port
  let s := s.setRegs c r
  (if r.ctl.ready then s.notify else s, error)

def State.read (c : Chip) (port : ℕ) : State ι × BitVec 8 :=
  let (r, val) := readRegs (s.regs c) port
  (s.setRegs c r, val)

/-- `vatpic_master_handler` and `vatpic_slave_handler`; what they return is not kept. -/
def State.handler (c : Chip) (isRead : Bool) (port bytes : ℕ) (val : BitVec 8) : State ι :=
  if bytes ≠ 1 then s else if isRead then (s.read c port).1 else (s.write c port val).1

/-- IRQs 0, 1, 2, 8 and 13 stay edge triggered. -/
def State.elcHandler (isRead : Bool) (port bytes : ℕ) (val : BitVec 8) : State ι :=
  if bytes ≠ 1 then s
  else if isRead then s
  else if port = ioElcr1 then s.setElc (val &&& 0xf8) .master
  else s.setElc (val &&& 0xde) .slave

/-- The interrupts that are edge triggered on every PC. -/
def edgeOnly (irq : ℕ) : Bool := irq ∈ [0, 1, 2, 8, 13]

def State.setIrqTrigger (irq : ℕ) (level : Bool) : State ι :=
  if 15 < irq then s
  else if level then
    if edgeOnly irq then s
    else s.setElc (s.elc (chipOf irq) ||| (1 : BitVec 8) <<< (irq % 8)) (chipOf irq)
  else s.setElc (s.elc (chipOf irq) &&& ~~~((1 : BitVec 8) <<< (irq % 8))) (chipOf irq)

def State.accept (vector : ℕ) : State ι := { s with pic := (s.pic.intrAccepted vector).1 }

end Calls

/-- The atomic steps. `vatpic_set_irqstate` reads `ready` before it takes the lock. -/
inductive Action (ι : Type)
  | call (t : ι) (irq : ℕ) (st : IrqState)
  | pin (t : ι)
  | handler (c : Chip) (isRead : Bool) (port bytes : ℕ) (val : BitVec 8)
  | elcHandler (isRead : Bool) (port bytes : ℕ) (val : BitVec 8)
  | setIrqTrigger (irq : ℕ) (level : Bool)
  | accept (vector : ℕ)
  deriving DecidableEq, Repr

/-- Steps that no caller can take. -/
inductive Refused
  | inCall
  | noCall
  deriving DecidableEq, Repr

section Step

variable [DecidableEq ι] (s : State ι)

/-- The call returns, with or without a change of the pin. -/
def State.returned (t : ι) (st : IrqState) : State ι :=
  { s with
    calls := update s.calls t none
    asserting := match st with
      | .assert => update s.asserting t true
      | .deassert => update s.asserting t false
      | .pulse => s.asserting }

def step : Action ι → Except Refused (State ι)
  | .call t irq st =>
    if (s.calls t).isSome then .error .inCall
    else if 15 < irq then .ok (s.returned t st)
    else if (s.ctl (chipOf irq)).ready then .ok { s with calls := update s.calls t (some (irq, st)) }
    else .ok (s.returned t st)
  | .pin t =>
    match s.calls t with
    | none => .error .noCall
    | some (irq, st) => .ok ((s.changePin irq st).returned t st)
  | .handler c isRead port bytes val => .ok (s.handler c isRead port bytes val)
  | .elcHandler isRead port bytes val => .ok (s.elcHandler isRead port bytes val)
  | .setIrqTrigger irq level => .ok (s.setIrqTrigger irq level)
  | .accept vector => .ok (s.accept vector)

end Step

def initAtpic : Atpic where
  aeoi := false
  rotate := false
  sfn := false
  irqBase := 0
  request := 0
  service := 0
  mask := 0
  smm := false
  acnt _ := 0
  lowprio := 0
  intrRaised := false

/-- `vatpic_init`. -/
def init (ι : Type) : State ι where
  pic := { master := initAtpic, slave := initAtpic, elc := 0 }
  elcSlave := 0
  ctl _ := { ready := false, icwNum := 0, rdCmdReg := 0, poll := false }
  calls _ := none
  asserting _ := false

def State.bothReady {ι : Type} (s : State ι) : Bool := (s.ctl .master).ready && (s.ctl .slave).ready

/-- Each PIC has signalled its eligible pin, the slave through the pin of the cascade. -/
structure Signalled {ι : Type} (s : State ι) : Prop where
  master : s.pic.master.highestIrrpin.isSome = true → s.pic.master.intrRaised = true
  slave : s.pic.slave.highestIrrpin.isSome = true →
    s.pic.slave.intrRaised = true ∧ s.pic.master.request.getLsbD 2 = true

section Condition

variable (s : State ι)

/-- The write is an ICW1. -/
def startsInit (port : ℕ) (val : BitVec 8) : Prop := port &&& icuImrOffset = 0 ∧ val &&& icw1Reset ≠ 0

/-- What a poll read accepts is not followed by a request of the same PIC, and is not the slave's request. -/
def State.pollSafe (c : Chip) : Prop :=
  match (s.atpic c).highestIrrpin with
  | none => True
  | some pin => (s.atpic c).aeoi = false ∧ (s.atpic c).smm = false ∧
      (c = .master → pin = 2 → s.pic.master.sfn = false ∧ s.pic.slave.intrRaised = false)

/-- The steps that leave nothing unsignalled: a poll read in neither AEOI nor special mask mode and not of a raised
slave's pin, an ICW1 for the master while nothing is cascaded, a deassert of the cascade's IRQ after an assert, and
an acceptance that does not take the master's pin 2 from a raised slave. -/
def Orderly : Action ι → Prop
  | .call _ _ _ => True
  | .pin t => s.calls t = some (2, .deassert) → 0 < s.pic.master.acnt 2
  | .handler c isRead port bytes val =>
    bytes = 1 → (isRead = true → (s.ctl c).poll = true → s.pollSafe c) ∧
      (isRead = false → c = .master → startsInit port val →
        s.pic.slave.intrRaised = false ∧ s.pic.master.acnt 2 ≤ 0)
  | .elcHandler _ _ _ _ => True
  | .setIrqTrigger _ _ => True
  | .accept vector => vector % 8 = 2 → vector - 2 ≠ s.pic.slave.irqBase → s.pic.slave.intrRaised = false

instance (port : ℕ) (val : BitVec 8) : Decidable (startsInit port val) := inferInstanceAs (Decidable (_ ∧ _))

instance (c : Chip) : Decidable (s.pollSafe c) :=
  match h : (s.atpic c).highestIrrpin with
  | none => isTrue (by rw [State.pollSafe, h]; trivial)
  | some pin => decidable_of_iff ((s.atpic c).aeoi = false ∧ (s.atpic c).smm = false ∧
      (c = .master → pin = 2 → s.pic.master.sfn = false ∧ s.pic.slave.intrRaised = false))
      (by rw [State.pollSafe, h])

instance : (a : Action ι) → Decidable (Orderly s a)
  | .call _ _ _ => isTrue trivial
  | .pin _ => inferInstanceAs (Decidable (_ → _))
  | .handler _ _ _ _ _ => inferInstanceAs (Decidable (_ → _ ∧ _))
  | .elcHandler _ _ _ _ => isTrue trivial
  | .setIrqTrigger _ _ => isTrue trivial
  | .accept _ => inferInstanceAs (Decidable (_ → _ → _))

end Condition

theorem firstPin_some (h : firstPin serviced ready pins = some pin) : pin ∈ pins ∧ ready.getLsbD pin = true := by
  induction pins with
  | nil => cases h
  | cons p pins ih =>
    rw [firstPin] at h
    split_ifs at h with hs hr
    · cases h
      exact ⟨List.mem_cons_self, hr⟩
    · exact ⟨List.mem_cons_of_mem _ (ih h).1, (ih h).2⟩

/-- Once the pin that was found is in service and no other is requested, nothing is found. -/
theorem firstPin_served (h : firstPin serviced ready pins = some pin) (hs : serviced'.getLsbD pin = true)
    (hr : ∀ p, ready'.getLsbD p = true → ready.getLsbD p = true) : firstPin serviced' ready' pins = none := by
  induction pins with
  | nil => rfl
  | cons p pins ih =>
    rw [firstPin] at h ⊢
    split_ifs at h with hp hq
    · cases h
      rw [if_pos hs]
    · have hq' : ready'.getLsbD p ≠ true := fun hcon => hq (hr p hcon)
      rw [if_neg hq', ih h]
      exact ite_self none

theorem highestIrrpin_lt (h : a.highestIrrpin = some pin) : pin < 8 := by
  have hmem := (firstPin_some h).1
  simp only [Atpic.pins, List.mem_map, List.mem_range] at hmem
  obtain ⟨i, -, rfl⟩ := hmem
  exact Nat.mod_lt _ (by decide)

theorem getLsbD_one_shiftLeft {p : ℕ} (hpin : pin < 8) : ((1 : BitVec 8) <<< pin).getLsbD p = decide (p = pin) := by
  have h : (1 : BitVec 8) <<< pin = BitVec.twoPow 8 pin := rfl
  rw [h]
  simp [hpin, eq_comm]

theorem pinAccepted_eq (a : Atpic) (pin : ℕ) : a.pinAccepted pin = { a with
      intrRaised := false
      request := if a.acnt pin = 0 then a.request &&& ~~~((1 : BitVec 8) <<< pin) else a.request
      lowprio := if a.aeoi && a.rotate then pin else a.lowprio
      service := if a.aeoi then a.service else a.service ||| BitVec.ofNat 8 (1 <<< pin) } := by
  unfold Atpic.pinAccepted
  by_cases hcnt : a.acnt pin = 0 <;> cases a.aeoi <;> cases a.rotate <;> simp [hcnt]

theorem ofNat_one_shiftLeft (pin : ℕ) : BitVec.ofNat 8 (1 <<< pin) = (1 : BitVec 8) <<< pin := by
  apply eq_of_toNat_eq
  simp

/-- Outside of AEOI and of the special modes, the accepted pin locks out all the requests that are left. -/
theorem highestIrrpin_pinAccepted (h : a.highestIrrpin = some pin) (haeoi : a.aeoi = false) (hsmm : a.smm = false)
    (hsfn : a.sfn = true → pin ≠ 2) : (a.pinAccepted pin).highestIrrpin = none := by
  have hpin := highestIrrpin_lt h
  rw [pinAccepted_eq]
  simp only [haeoi, Bool.false_and, Bool.false_eq_true, if_false, ofNat_one_shiftLeft]
  unfold Atpic.highestIrrpin at h ⊢
  simp only [hsmm, Bool.false_eq_true, if_false] at h ⊢
  refine firstPin_served h ?_ fun p => ?_
  · cases hmode : a.sfn with
    | false =>
      rw [if_neg Bool.false_ne_true, getLsbD_or, getLsbD_one_shiftLeft hpin, decide_eq_true rfl, Bool.or_true]
    | true =>
      have hbit : (0x4 : BitVec 8).getLsbD pin = decide (pin = 2) := getLsbD_one_shiftLeft (show 2 < 8 by decide)
      rw [if_pos rfl, getLsbD_and, getLsbD_or, getLsbD_not, hbit]
      simp [hpin, hsfn hmode]
  · split_ifs
    · simp +contextual
    · exact id

/-- The pin of the cascade: requested while the slave is raised, and while it is asserted. -/
structure Cascaded (p : Vatpic) : Prop where
  edge : p.elc.getLsbD 2 = false
  counted : 0 ≤ p.master.acnt 2
  asserted : 0 < p.master.acnt 2 → p.master.request.getLsbD 2 = true
  raised : p.slave.intrRaised = true → p.master.request.getLsbD 2 = true

theorem setCascade_eq (p : Vatpic) (newstate : Bool) :
    p.setCascade newstate = { p with master := setPin p.master (p.elc.getLsbD 2) 2 newstate } := rfl

/-- The PIC with its eligible pin signalled. -/
def raise (a : Atpic) : Atpic := { a with intrRaised := a.intrRaised || a.highestIrrpin.isSome }

theorem highestIrrpin_raise (a : Atpic) : (raise a).highestIrrpin = a.highestIrrpin := rfl

theorem raise_raise (a : Atpic) : raise (raise a) = raise a := by
  have hidem : (a.intrRaised || a.highestIrrpin.isSome || a.highestIrrpin.isSome) =
      (a.intrRaised || a.highestIrrpin.isSome) := by rw [Bool.or_assoc, Bool.or_self]
  rw [raise, highestIrrpin_raise, raise]
  rw [hidem]

theorem raise_eq_self (h : (a.intrRaised || a.highestIrrpin.isSome) = a.intrRaised) : raise a = a := by
  rw [raise, h]

theorem notifyMaster_eq (p : Vatpic) : p.notifyMaster.1 = { p with master := raise p.master } := by
  unfold Vatpic.notifyMaster
  split_ifs with h
  · rw [raise, h.2, Bool.or_true]
  · rw [raise_eq_self]
    cases hr : p.master.intrRaised <;> simp_all

theorem setPin_edge_up (a : Atpic) (pin : ℕ) : setPin a false pin true = { a with
      acnt := update a.acnt pin (a.acnt pin + 1)
      request := if a.acnt pin = 0 then a.request ||| (1 : BitVec 8) <<< pin else a.request } := by
  unfold setPin
  by_cases hcnt : a.acnt pin = 0
  all_goals simp [hcnt]

theorem setPin_edge_down (a : Atpic) (pin : ℕ) : setPin a false pin false =
    { a with acnt := update a.acnt pin (a.acnt pin - 1) } := by
  unfold setPin
  have hup : ¬(a.acnt pin = 0 ∧ a.acnt pin - 1 = 1) := by omega
  simp [hup]

/-- The master with the pin of the cascade pulsed, if it is. -/
def pulsed (a : Atpic) (up : Bool) : Atpic :=
  { a with request := if up = true ∧ a.acnt 2 = 0 then a.request ||| 0x4 else a.request }

/-- What a notification comes to: the slave is raised and pulses the master's pin 2, and then the master is. -/
theorem notifyIntr_eq (h : p.elc.getLsbD 2 = false) : p.notifyIntr.1 = { p with
      slave := raise p.slave
      master := raise (pulsed p.master (!p.slave.intrRaised && p.slave.highestIrrpin.isSome)) } := by
  by_cases hup : !p.slave.intrRaised ∧ p.slave.highestIrrpin.isSome
  · have hslave : raise p.slave = { p.slave with intrRaised := true } := by rw [raise, hup.2, Bool.or_true]
    have hfirst : ({ p with slave := { p.slave with intrRaised := true } }.setCascade true).notifyMaster.1 =
        { p with
          slave := { p.slave with intrRaised := true }
          master := { raise (pulsed p.master true) with
            acnt := update p.master.acnt 2 (p.master.acnt 2 + 1) } } := by
      rw [setCascade_eq, notifyMaster_eq, h, setPin_edge_up]
      simp only [pulsed, true_and]
      rfl
    have hback : update (update p.master.acnt 2 (p.master.acnt 2 + 1)) 2
        (update p.master.acnt 2 (p.master.acnt 2 + 1) 2 - 1) = p.master.acnt := by
      rw [update_self, update_idem, add_sub_cancel_right, update_eq_self]
    have hsecond : setPin { raise (pulsed p.master true) with
        acnt := update p.master.acnt 2 (p.master.acnt 2 + 1) } false 2 false = raise (pulsed p.master true) := by
      rw [setPin_edge_down]
      rw [hback]
      rfl
    unfold Vatpic.notifyIntr
    dsimp only
    rw [hfirst, setCascade_eq, notifyMaster_eq, notifyMaster_eq]
    rw [h, hsecond, raise_raise, raise_raise, hslave, hup.1, hup.2]
    rfl
  · have hno : (!p.slave.intrRaised && p.slave.highestIrrpin.isSome) = false := by
      rw [← Bool.not_eq_true, Bool.and_eq_true]
      exact hup
    have hslave : raise p.slave = p.slave := by
      refine raise_eq_self ?_
      cases hr : p.slave.intrRaised <;> simp_all
    unfold Vatpic.notifyIntr
    rw [if_neg hup, notifyMaster_eq, hno, hslave]
    simp only [pulsed, Bool.false_eq_true, false_and, if_false]

theorem pulsed_mono {up : Bool} (h : a.request.getLsbD pin = true) :
    (pulsed a up).request.getLsbD pin = true := by
  unfold pulsed
  split_ifs <;> simp [h]

theorem pulsed_requested (hcount : 0 ≤ a.acnt 2) (hbit : 0 < a.acnt 2 → a.request.getLsbD 2 = true) :
    (pulsed a true).request.getLsbD 2 = true := by
  by_cases hzero : a.acnt 2 = 0
  · simp [pulsed, hzero]
  · exact pulsed_mono (hbit (by omega))

/-- A notification keeps the cascade, and signals what is eligible. -/
theorem Cascaded.notify (h : Cascaded p) : Cascaded p.notifyIntr.1 ∧
    (p.notifyIntr.1.master.highestIrrpin.isSome = true → p.notifyIntr.1.master.intrRaised = true) ∧
    (p.notifyIntr.1.slave.highestIrrpin.isSome = true → p.notifyIntr.1.slave.intrRaised = true) := by
  have hraise : ∀ a : Atpic, (raise a).highestIrrpin.isSome = true → (raise a).intrRaised = true := by
    intro a ha
    rw [highestIrrpin_raise] at ha
    simp [raise, ha]
  rw [notifyIntr_eq h.edge]
  refine ⟨⟨h.edge, h.counted, fun hpos => pulsed_mono (h.asserted hpos), fun hr => ?_⟩, hraise _, hraise _⟩
  cases hold : p.slave.intrRaised with
  | true => exact pulsed_mono (h.raised hold)
  | false =>
    have hsome : p.slave.highestIrrpin.isSome = true := by simpa [raise, hold] using hr
    rw [hsome]
    exact pulsed_requested h.counted h.asserted

/-- The other pins keep their count and their request. -/
theorem setPin_other (a : Atpic) (level newstate : Bool) {q : ℕ} (hpin : pin < 8) (hq : q ≠ pin) :
    (setPin a level pin newstate).acnt q = a.acnt q ∧
      (setPin a level pin newstate).request.getLsbD q = a.request.getLsbD q := by
  unfold setPin
  refine ⟨update_of_ne hq _ _, ?_⟩
  have hbit : ((1 : BitVec 8) <<< pin).getLsbD q = false := by rw [getLsbD_one_shiftLeft hpin, decide_eq_false hq]
  dsimp only
  generalize (if newstate = true then a.acnt pin + 1 else a.acnt pin - 1) = newcnt
  split_ifs
  · rw [getLsbD_or, hbit, Bool.or_false]
  · rw [getLsbD_and, getLsbD_not, hbit]
    by_cases hlt : q < 8
    · simp [hlt]
    · rw [getLsbD_of_ge _ _ (by omega)]
      rfl
  · rfl

theorem Cascaded.setSlave (h : Cascaded p) (ha : a.intrRaised = true → p.slave.intrRaised = true) :
    Cascaded { p with slave := a } := ⟨h.edge, h.counted, h.asserted, fun hr => h.raised (ha hr)⟩

/-- A change of the pin of the cascade itself goes down only from an assert. -/
theorem Cascaded.setMaster (h : Cascaded p) {level : Bool} (hpin : pin < 8)
    (htwo : pin = 2 → level = false ∧ (newstate = false → 0 < p.master.acnt 2)) :
    Cascaded { p with master := setPin p.master level pin newstate } := by
  by_cases hp : pin = 2
  · subst hp
    obtain ⟨rfl, hdown⟩ := htwo rfl
    have hcount := h.counted
    cases newstate with
    | true =>
      rw [setPin_edge_up]
      have hbit : (if p.master.acnt 2 = 0 then p.master.request ||| 1 <<< 2 else p.master.request).getLsbD 2
          = true := by
        split_ifs
        · simp
        · exact h.asserted (by omega)
      refine ⟨h.edge, ?_, fun _ => hbit, fun _ => hbit⟩
      simp only [update_self]
      omega
    | false =>
      rw [setPin_edge_down]
      have hpos := hdown rfl
      refine ⟨h.edge, ?_, fun _ => h.asserted hpos, h.raised⟩
      simp only [update_self]
      omega
  · obtain ⟨hcnt, hbit⟩ := setPin_other p.master level newstate hpin (Ne.symm hp)
    refine ⟨h.edge, ?_, ?_, ?_⟩
    · exact hcnt ▸ h.counted
    · rw [hcnt, hbit]
      exact h.asserted
    · rw [hbit]
      exact h.raised

/-- The master's pin 2 is accepted only without the slave's request. -/
theorem Cascaded.acceptMaster (h : Cascaded p) (hpin : pin < 8)
    (htwo : pin = 2 → p.slave.intrRaised = false) :
    Cascaded { p with master := p.master.pinAccepted pin } := by
  rw [pinAccepted_eq]
  have hbit : ((1 : BitVec 8) <<< pin).getLsbD 2 = decide (2 = pin) := getLsbD_one_shiftLeft hpin
  have hkept (hold : p.master.request.getLsbD 2 = true) (hne : p.master.acnt pin = 0 → ¬2 = pin) :
      (if p.master.acnt pin = 0 then p.master.request &&& ~~~((1 : BitVec 8) <<< pin)
        else p.master.request).getLsbD 2 = true := by
    split_ifs with hzero
    · rw [getLsbD_and, getLsbD_not, hbit, hold]
      simp [hne hzero]
    · exact hold
  refine ⟨h.edge, h.counted, fun hpos => hkept (h.asserted hpos) ?_, fun hr => hkept (h.raised hr) fun _ => ?_⟩
  · rintro hzero rfl
    exact hpos.ne' hzero
  · rintro rfl
    exact ne_true_of_eq_false (htwo rfl) hr

section Registers

variable {r r' : Regs} {init : Prop}

/-- A write to the ports leaves the counts and `intr_raised`, and the requests unless it is an ICW1. -/
structure Kept (c : Chip) (init : Prop) (r r' : Regs) : Prop where
  acnt : r'.atpic.acnt = r.atpic.acnt
  raised : r'.atpic.intrRaised = r.atpic.intrRaised
  sfn : c = .slave → r'.atpic.sfn = r.atpic.sfn
  request : ¬init → r'.atpic.request = r.atpic.request

theorem icw1_kept (hinit : init) : Kept c init r (icw1 r val).1 := by
  unfold icw1
  split_ifs <;> exact ⟨rfl, rfl, fun _ => rfl, fun hcon => absurd hinit hcon⟩

theorem icw1_ready : (icw1 r val).1.ctl.ready = false := by
  unfold icw1
  split_ifs <;> rfl

theorem icw4_kept : Kept c init r (icw4 r val c).1 := by
  unfold icw4
  split_ifs
  · exact ⟨rfl, rfl, fun _ => rfl, fun _ => rfl⟩
  · exact ⟨rfl, rfl, fun hc => by simp [hc], fun _ => rfl⟩

theorem ocw2_kept : Kept c init r (ocw2 r val) := by
  unfold ocw2
  dsimp only
  split
  all_goals split <;> exact ⟨rfl, rfl, fun _ => rfl, fun _ => rfl⟩

theorem ocw3_kept : Kept c init r (ocw3 r val) := by
  unfold ocw3
  split_ifs <;> exact ⟨rfl, rfl, fun _ => rfl, fun _ => rfl⟩

theorem writeRegs_kept (r : Regs) (val : BitVec 8) (c : Chip) (port : ℕ) :
    Kept c (startsInit port val) r (writeRegs r val c port).1 := by
  unfold writeRegs
  by_cases himr : port &&& icuImrOffset ≠ 0
  · split_ifs
    any_goals exact ⟨rfl, rfl, fun _ => rfl, fun _ => rfl⟩
    exact icw4_kept
  rw [if_neg himr]
  by_cases hreset : val &&& icw1Reset ≠ 0
  · have hnot : ¬(icw1 r val).1.ctl.ready = true := by rw [icw1_ready]; exact Bool.false_ne_true
    simp only [if_pos hreset, if_neg hnot]
    exact icw1_kept ⟨not_not.mp himr, hreset⟩
  · simp only [if_neg hreset]
    split_ifs
    · exact ocw3_kept
    · exact ocw2_kept
    · exact ⟨rfl, rfl, fun _ => rfl, fun _ => rfl⟩

theorem readRegs_ready (r : Regs) (port : ℕ) : (readRegs r port).1.ctl.ready = r.ctl.ready := by
  unfold readRegs
  split
  · dsimp only
    split <;> rfl
  · split_ifs <;> rfl

/-- A read accepts the eligible pin of a PIC in poll mode, and changes nothing else of the registers. -/
theorem readRegs_atpic (r : Regs) (port : ℕ) : (readRegs r port).1.atpic = r.atpic ∨ r.ctl.poll = true ∧
    ∃ pin, r.atpic.highestIrrpin = some pin ∧ (readRegs r port).1.atpic = r.atpic.pinAccepted pin := by
  unfold readRegs
  by_cases hpoll : r.ctl.poll = true
  · rw [if_pos hpoll]
    dsimp only
    cases hp : r.atpic.highestIrrpin with
    | none => exact .inl rfl
    | some pin => exact .inr ⟨hpoll, pin, rfl, rfl⟩
  · left
    split_ifs <;> rfl

end Registers

section Invariant

variable {s s' : State ι}

structure Inv (s : State ι) : Prop where
  cascaded : Cascaded s.pic
  nested : s.pic.slave.sfn = false
  master : s.bothReady = true → s.pic.master.highestIrrpin.isSome = true → s.pic.master.intrRaised = true
  slave : s.bothReady = true → s.pic.slave.highestIrrpin.isSome = true → s.pic.slave.intrRaised = true

theorem Inv.signalled (h : Inv s) (hready : s.bothReady = true) : Signalled s :=
  ⟨h.master hready, fun hp => ⟨h.slave hready hp, h.cascaded.raised (h.slave hready hp)⟩⟩

theorem inv_notify (hc : Cascaded s.pic) (hs : s.pic.slave.sfn = false) : Inv s.notify := by
  obtain ⟨hcascaded, hmaster, hslave⟩ := hc.notify
  refine ⟨hcascaded, ?_, fun _ => hmaster, fun _ => hslave⟩
  change s.pic.notifyIntr.1.slave.sfn = false
  rw [notifyIntr_eq hc.edge]
  exact hs

@[simp] theorem atpic_setAtpic (a : Atpic) (c : Chip) : (s.setAtpic a c).atpic c = a := by
  cases c <;> rfl

theorem atpic_setAtpic_of_ne {c' : Chip} (h : c' ≠ c) : (s.setAtpic a c).atpic c' = s.atpic c' := by
  cases c <;> cases c' <;> first | rfl | exact absurd rfl h

@[simp] theorem elc_setAtpic (a : Atpic) (c : Chip) : (s.setAtpic a c).pic.elc = s.pic.elc := by
  cases c <;> rfl

@[simp] theorem ctl_setRegs (c : Chip) (r : Regs) : (s.setRegs c r).ctl c = r.ctl := update_self ..

/-- A notification leaves the counts. -/
theorem notify_acnt (h : s.pic.elc.getLsbD 2 = false) (c : Chip) : (s.notify.atpic c).acnt = (s.atpic c).acnt := by
  unfold State.notify
  cases c <;> simp only [State.atpic, notifyIntr_eq h] <;> rfl

theorem bothReady_congr (h : ∀ c, (s'.ctl c).ready = (s.ctl c).ready) : s'.bothReady = s.bothReady := by
  rw [State.bothReady, h, h, ← State.bothReady]

theorem Inv.of_eq (h : Inv s) (hpic : s'.pic = s.pic) (hready : ∀ c,
    (s'.ctl c).ready = (s.ctl c).ready) : Inv s' := by
  have hboth := bothReady_congr hready
  refine ⟨by rw [hpic]; exact h.cascaded, by rw [hpic]; exact h.nested, ?_, ?_⟩
  · rw [hboth, hpic]
    exact h.master
  · rw [hboth, hpic]
    exact h.slave

variable {irq port : ℕ} {x : BitVec 8}

section

variable (h : Inv s)

include h

theorem Inv.setPinstate (htwo : irq = 2 → newstate = false → 0 < s.pic.master.acnt 2) :
    Inv (s.setPinstate irq newstate) := by
  unfold State.setPinstate chipOf State.level
  have hmod : irq % 8 < 8 := Nat.mod_lt _ (by decide)
  by_cases hirq : irq < 8
  · have hchip : chipOf irq = .master := if_pos hirq
    rw [if_pos hirq, hchip]
    refine inv_notify (h.cascaded.setMaster hmod fun hp => ?_) h.nested
    have heq : irq = 2 := by omega
    exact ⟨by rw [hp]; exact h.cascaded.edge, htwo heq⟩
  · rw [if_neg hirq]
    exact inv_notify (h.cascaded.setSlave id) h.nested

theorem Inv.changePin {st : IrqState}
    (htwo : irq = 2 → st = .deassert → 0 < s.pic.master.acnt 2) : Inv (s.changePin irq st) := by
  cases st with
  | assert => exact h.setPinstate nofun
  | deassert => exact h.setPinstate fun hirq _ => htwo hirq rfl
  | pulse =>
    have hup : Inv (s.setPinstate irq true) := h.setPinstate nofun
    refine hup.setPinstate fun hirq _ => ?_
    subst hirq
    have hcount := h.cascaded.counted
    have hacnt : ((s.setPinstate 2 true).atpic .master).acnt 2 = s.pic.master.acnt 2 + 1 := by
      rw [State.setPinstate, notify_acnt (by rw [elc_setAtpic]; exact h.cascaded.edge)]
      exact update_self 2 _ s.pic.master.acnt
    have hnew : (s.setPinstate 2 true).pic.master.acnt 2 = s.pic.master.acnt 2 + 1 := hacnt
    omega

theorem Inv.write
    (hinit : c = .master → startsInit port val → s.pic.slave.intrRaised = false ∧ s.pic.master.acnt 2 ≤ 0) :
    Inv (s.write c port val).1 := by
  have hk := writeRegs_kept (s.regs c) val c port
  unfold State.write
  generalize writeRegs (s.regs c) val c port = w at hk
  obtain ⟨r, error⟩ := w
  have hcascaded : Cascaded (s.setRegs c r).pic := by
    cases c with
    | slave => exact h.cascaded.setSlave fun hr => hk.raised.symm.trans hr
    | master =>
      have hacnt : r.atpic.acnt = s.pic.master.acnt := hk.acnt
      have hcounted : 0 ≤ r.atpic.acnt 2 := by
        rw [hacnt]
        exact h.cascaded.counted
      by_cases hi : startsInit port val
      · obtain ⟨hraised, hle⟩ := hinit rfl hi
        refine ⟨h.cascaded.edge, hcounted, ?_, fun hr => ?_⟩
        · change 0 < r.atpic.acnt 2 → _
          rw [hacnt]
          intro hpos
          omega
        · exact absurd hr (ne_true_of_eq_false hraised)
      · have hrequest : r.atpic.request = s.pic.master.request := hk.request hi
        refine ⟨h.cascaded.edge, hcounted, ?_, ?_⟩
        · change 0 < r.atpic.acnt 2 → r.atpic.request.getLsbD 2 = true
          rw [hacnt, hrequest]
          exact h.cascaded.asserted
        · change _ → r.atpic.request.getLsbD 2 = true
          rw [hrequest]
          exact h.cascaded.raised
  have hnested : (s.setRegs c r).pic.slave.sfn = false := by
    cases c with
    | slave => exact (hk.sfn rfl).trans h.nested
    | master => exact h.nested
  dsimp only
  split_ifs with hready
  · exact inv_notify hcascaded hnested
  · have hnot : (s.setRegs c r).bothReady = false := by
      have hctl : ((s.setRegs c r).ctl c).ready = false := by
        simpa using hready
      cases c with
      | master => rw [State.bothReady, hctl, Bool.false_and]
      | slave => rw [State.bothReady, hctl, Bool.and_false]
    refine ⟨hcascaded, hnested, fun hboth => ?_, fun hboth => ?_⟩
    all_goals exact absurd hboth (ne_true_of_eq_false hnot)

theorem Inv.read (hpoll : (s.ctl c).poll = true → s.pollSafe c) : Inv (s.read c port).1 := by
  have hready := readRegs_ready (s.regs c) port
  have hatpic := readRegs_atpic (s.regs c) port
  unfold State.read
  generalize readRegs (s.regs c) port = w at hready hatpic
  obtain ⟨r, val⟩ := w
  have hctl : ∀ c', ((s.setRegs c r).ctl c').ready = (s.ctl c').ready := by
    intro c'
    by_cases hc : c' = c
    · rw [hc, ctl_setRegs]
      exact hready
    · have hother : (s.setRegs c r).ctl c' = s.ctl c' := update_of_ne hc _ _
      rw [hother]
  have hboth := bothReady_congr hctl
  rcases hatpic with hsame | ⟨hp, pin, hpin, hacc⟩
  · refine h.of_eq ?_ hctl
    have heq : r.atpic = s.atpic c := hsame
    cases c with
    | master => exact congrArg (fun a => { s.pic with master := a }) heq
    | slave => exact congrArg (fun a => { s.pic with slave := a }) heq
  · have hpin' : (s.atpic c).highestIrrpin = some pin := hpin
    have hacc' : r.atpic = (s.atpic c).pinAccepted pin := hacc
    have hsafe := hpoll hp
    rw [State.pollSafe, hpin'] at hsafe
    obtain ⟨haeoi, hsmm, hcascade⟩ := hsafe
    have hraised : r.atpic.intrRaised = false := by rw [hacc', pinAccepted_eq]
    have hempty : ¬r.atpic.highestIrrpin.isSome = true := by
      rw [hacc', highestIrrpin_pinAccepted hpin' haeoi hsmm fun hsfn htwo => ?_]
      · exact Bool.false_ne_true
      cases c with
      | master => exact absurd hsfn (ne_true_of_eq_false (hcascade rfl htwo).1)
      | slave => exact absurd hsfn (ne_true_of_eq_false h.nested)
    cases c with
    | master =>
      have hpic : (s.setRegs .master r).pic = { s.pic with master := s.pic.master.pinAccepted pin } :=
        congrArg (fun a => { s.pic with master := a }) hacc'
      refine ⟨?_, h.nested, fun _ hsome => absurd hsome hempty, fun hb => h.slave (hboth ▸ hb)⟩
      rw [hpic]
      exact h.cascaded.acceptMaster (highestIrrpin_lt hpin') fun htwo => (hcascade rfl htwo).2
    | slave =>
      refine ⟨?_, ?_, fun hb => h.master (hboth ▸ hb), fun _ hsome => absurd hsome hempty⟩
      · exact h.cascaded.setSlave fun hr => absurd hr (ne_true_of_eq_false hraised)
      · change r.atpic.sfn = false
        rw [hacc', pinAccepted_eq]
        exact h.nested

theorem Inv.accept {vector : ℕ}
    (htwo : vector % 8 = 2 → vector - 2 ≠ s.pic.slave.irqBase → s.pic.slave.intrRaised = false) :
    Inv (s.accept vector) := by
  have hmod : vector % 8 < 8 := Nat.mod_lt _ (by decide)
  unfold State.accept Vatpic.intrAccepted
  dsimp only
  split_ifs with hbase
  · have hraised : (s.pic.slave.pinAccepted (vector % 8)).intrRaised = false := by rw [pinAccepted_eq]
    have hslave : Cascaded { s.pic with slave := s.pic.slave.pinAccepted (vector % 8) } :=
      h.cascaded.setSlave fun hr => absurd hr (ne_true_of_eq_false hraised)
    refine inv_notify (s := { s with pic := _ }) (hslave.acceptMaster (by decide) fun _ => hraised) ?_
    dsimp only
    rw [pinAccepted_eq]
    exact h.nested
  · refine inv_notify (s := { s with pic := _ }) (h.cascaded.acceptMaster hmod fun hp => ?_) h.nested
    exact htwo hp fun hcon => hbase (by rw [hp]; exact hcon)

/-- Only the trigger modes change; the pin of the cascade stays edge triggered. -/
theorem Inv.setElc (hx : c = .master → x.getLsbD 2 = false) : Inv (s.setElc x c) := by
  cases c with
  | master =>
    exact ⟨{ h.cascaded with edge := hx rfl }, h.nested, h.master, h.slave⟩
  | slave => exact h.of_eq rfl fun _ => rfl

end

theorem chipOf_eq_master : chipOf irq = .master ↔ irq < 8 := by
  unfold chipOf
  split_ifs with h <;> simp [h]

theorem chipOf_eq_slave : chipOf irq = .slave ↔ 8 ≤ irq := by
  unfold chipOf
  split_ifs with h
  · simp [h]
  · simpa using h

/-- At most the one pin becomes level triggered, and never the pin of the cascade. -/
theorem setIrqTrigger_cases (s : State ι) (irq : ℕ) (level : Bool) : s.setIrqTrigger irq level = s ∨
    ∃ x, s.setIrqTrigger irq level = s.setElc x (chipOf irq) ∧ ∀ pin, x.getLsbD pin = true →
      (s.elc (chipOf irq)).getLsbD pin = true ∨
        level = true ∧ irq < 16 ∧ edgeOnly irq = false ∧ pin = irq % 8 := by
  have hmod : irq % 8 < 8 := Nat.mod_lt _ (by decide)
  unfold State.setIrqTrigger
  split_ifs with hbig hlevel hedge
  · exact .inl rfl
  · exact .inl rfl
  · refine .inr ⟨_, rfl, fun pin hpin => ?_⟩
    rw [getLsbD_or, getLsbD_one_shiftLeft hmod, Bool.or_eq_true, decide_eq_true_eq] at hpin
    rcases hpin with hold | hnew
    · exact .inl hold
    · exact .inr ⟨hlevel, by omega, Bool.eq_false_iff.mpr hedge, hnew⟩
  · refine .inr ⟨_, rfl, fun pin hpin => .inl ?_⟩
    rw [getLsbD_and, Bool.and_eq_true] at hpin
    exact hpin.1

/-- The pin of the cascade stays edge triggered. -/
theorem edge_of_trigger (h : s.pic.elc.getLsbD 2 = false) {level : Bool}
    (hx : ∀ pin, x.getLsbD pin = true → (s.elc (chipOf irq)).getLsbD pin = true ∨
      level = true ∧ irq < 16 ∧ edgeOnly irq = false ∧ pin = irq % 8)
    (hc : chipOf irq = .master) : x.getLsbD 2 = false := by
  rw [← Bool.not_eq_true]
  intro hbit
  have hlt := chipOf_eq_master.mp hc
  rcases hx 2 hbit with hold | ⟨-, -, hedge, hmod⟩
  · rw [hc] at hold
    exact absurd hold (ne_true_of_eq_false h)
  · rw [show irq = 2 by omega] at hedge
    cases hedge

theorem Inv.setIrqTrigger (h : Inv s) (irq : ℕ) (level : Bool) : Inv (s.setIrqTrigger irq level) := by
  rcases setIrqTrigger_cases s irq level with heq | ⟨x, heq, hx⟩
  · rw [heq]
    exact h
  · rw [heq]
    exact h.setElc (edge_of_trigger h.cascaded.edge hx)

theorem Inv.elcHandler (h : Inv s) (isRead : Bool) (port bytes : ℕ) (val : BitVec 8) :
    Inv (s.elcHandler isRead port bytes val) := by
  unfold State.elcHandler
  split_ifs
  · exact h
  · exact h
  · refine h.setElc fun _ => ?_
    rw [getLsbD_and]
    exact Bool.and_false _
  · exact h.setElc nofun

theorem inv_init : Inv (init ι) := by
  refine ⟨⟨getLsbD_zero, Int.le_refl 0, fun hpos => absurd hpos (Int.lt_irrefl 0), nofun⟩, rfl,
    fun hb => ?_, fun hb => ?_⟩
  · cases hb
  · cases hb

variable [DecidableEq ι]

theorem Inv.step (h : Inv s) {a : Action ι} (ho : Orderly s a) (hs : step s a = .ok s') : Inv s' := by
  cases a with
  | call t irq st =>
    simp only [Pic.step] at hs
    split_ifs at hs
    all_goals
      cases hs
      exact h.of_eq rfl fun _ => rfl
  | pin t =>
    simp only [Pic.step] at hs
    cases hc : s.calls t with
    | none =>
      rw [hc] at hs
      cases hs
    | some call =>
      obtain ⟨irq, st⟩ := call
      rw [hc] at hs
      cases hs
      have hpin : Inv (s.changePin irq st) := h.changePin fun hirq hst => ho (by rw [hc, hirq, hst])
      exact hpin.of_eq rfl fun _ => rfl
  | handler c isRead port bytes val =>
    cases hs
    unfold State.handler
    split_ifs with hbytes hread
    · exact h
    · exact h.read ((ho (not_not.mp hbytes)).1 hread)
    · exact h.write ((ho (not_not.mp hbytes)).2 (by simpa using hread))
  | elcHandler isRead port bytes val =>
    cases hs
    exact h.elcHandler isRead port bytes val
  | setIrqTrigger irq level =>
    cases hs
    exact h.setIrqTrigger irq level
  | accept vector =>
    cases hs
    exact h.accept ho

end Invariant

/-- In every order of steps that are all orderly, nothing is left unsignalled once both PICs are ready. -/
theorem orderly_signalled {ι : Type} [DecidableEq ι] {as : List (Action ι)} {s : State ι}
    (h : Run step Orderly (init ι) as s) (hready : s.bothReady = true) : Signalled s := by
  have hinv : Inv s := h.invariant (fun _ _ _ ho hs hi => hi.step ho hs) inv_init
  exact hinv.signalled hready

/-- The guest initialises a PIC. -/
def initSequence {ι : Type} (c : Chip) (base icw4 : BitVec 8) : List (Action ι) :=
  [.handler c false 0x20 1 0x11, .handler c false 0x21 1 base, .handler c false 0x21 1 0x4,
    .handler c false 0x21 1 icw4]

def bothInitialised {ι : Type} : List (Action ι) := initSequence .master 0x20 0x1 ++ initSequence .slave 0x28 0x1

/-- An interrupt of the slave is delivered and ended, and another one is under way. -/
def deliveredRun : List (Action Unit) :=
  bothInitialised ++ [.call () 8 .pulse, .pin (), .accept 0x28, .handler .slave false 0xa0 1 0x20,
    .handler .master false 0x20 1 0x20, .call () 9 .pulse, .pin ()]

theorem orderly_signalled_delivered : ∃ s, Run step Orderly (init Unit) deliveredRun s ∧ Signalled s ∧
    s.pic.slave.highestIrrpin = some 1 ∧ s.pic.master.highestIrrpin = some 2 := by
  have hrun : Run step Orderly (init Unit) deliveredRun _ := run_of_checked (d := init Unit) rfl
  exact ⟨_, hrun, orderly_signalled hrun rfl, by decide +kernel, by decide +kernel⟩

/-- The PICs are initialised again while a request of the slave is cascaded, and the slave gets another one. -/
def reinitialisedRun : List (Action Unit) :=
  bothInitialised ++ [.call () 8 .pulse, .pin ()] ++ bothInitialised ++ [.call () 8 .pulse, .pin ()]

/-- A poll read takes one of two requests while the master ends its interrupts by itself. -/
def polledRun : List (Action Unit) :=
  initSequence .master 0x20 0x3 ++ initSequence .slave 0x28 0x1 ++
    [.call () 3 .pulse, .pin (), .call () 4 .pulse, .pin (), .handler .master false 0x20 1 0x0e,
      .handler .master true 0x20 1 0]

theorem request_unsignalled :
    (∃ s, Run step Any (init Unit) reinitialisedRun s ∧ s.bothReady = true ∧ ¬Signalled s) ∧
      ∃ s, Run step Any (init Unit) polledRun s ∧ s.bothReady = true ∧ ¬Signalled s := by
  have hagain : Run step Any (init Unit) reinitialisedRun _ := run_of_isOk (d := init Unit) rfl
  have hpolled : Run step Any (init Unit) polledRun _ := run_of_isOk (d := init Unit) rfl
  refine ⟨⟨_, hagain, by decide +kernel, fun h => ?_⟩, _, hpolled, by decide +kernel, fun h => ?_⟩
  · exact absurd (h.slave rfl).2 (by decide +kernel)
  · exact absurd (h.master (by decide +kernel)) (by decide +kernel)

end HyperCog.Pic
