import HyperCog.Lib.Run
import Mathlib.Data.BitVec

/-! The HPET: its registers, its timers and the interrupts that they raise. -/
namespace HyperCog.Hpet

open Machine Function List
open BitVec hiding not_or not_not

def hpetConfig : ℕ := 0x10
def hpetCnfLegRt : BitVec 64 := 0x2
def hpetCnfEnable : BitVec 64 := 0x1
def hpetIsr : ℕ := 0x20
def hpetMainCounter : ℕ := 0xf0
def hpetTimerCapCnf (x : ℕ) : ℕ := x * 0x20 + 0x100
def hpetTcapIntRoute : BitVec 64 := 0xffffffff00000000
def hpetTcapFsbIntDel : BitVec 64 := 0x8000
def hpetTcnfFsbEn : BitVec 64 := 0x4000
def hpetTcnfIntRoute : BitVec 64 := 0x3e00
def hpetTcnf32mode : BitVec 64 := 0x100
def hpetTcnfValSet : BitVec 64 := 0x40
def hpetTcapSize : BitVec 64 := 0x20
def hpetTcapPerInt : BitVec 64 := 0x10
def hpetTcnfType : BitVec 64 := 0x8
def hpetTcnfIntEnb : BitVec 64 := 0x4
def hpetTcnfIntType : BitVec 64 := 0x2
def hpetTimerComparator (x : ℕ) : ℕ := x * 0x20 + 0x108
def hpetTimerFsbVal (x : ℕ) : ℕ := x * 0x20 + 0x110
def hpetTimerFsbAddr (x : ℕ) : ℕ := x * 0x20 + 0x114
def hpetTcapRoMask : BitVec 64 :=
  hpetTcapIntRoute ||| hpetTcapFsbIntDel ||| hpetTcapSize ||| hpetTcapPerInt
abbrev vhpetNumTimers : ℕ := 8
/-- `freq_sbt`: a tick of the counter at 10 MHz, in 32.32 fixed point -/
def freqSbt : ℕ := 429

instance : NeZero vhpetNumTimers := ⟨by decide⟩

abbrev TimerId := Fin vhpetNumTimers

structure Timer where
  capConfig : BitVec 64
  msireg : BitVec 64
  compval : BitVec 32
  comprate : BitVec 32
  calloutSbt : ℕ
  /-- `CALLOUT_ACTIVE` -/
  active : Bool
  /-- `CALLOUT_PENDING` -/
  pending : Bool
  deriving DecidableEq, Repr

/-- A call of the I/O APIC or of the local APICs for a timer. -/
inductive Signal
  | assert (n : TimerId) (pin : ℕ)
  | deassert (n : TimerId) (pin : ℕ)
  | pulse (n : TimerId) (pin : ℕ)
  | msi (n : TimerId) (addr data : BitVec 64)
  deriving DecidableEq, Repr

/-- The HPET, the uptime and the calls made so far, the newest first. -/
structure Vhpet where
  config : BitVec 64
  isr : BitVec 64
  countbase : BitVec 32
  countbaseSbt : ℕ
  timer : TimerId → Timer
  now : ℕ
  sent : List Signal

/-- The assertions. -/
inductive Abort
  /-- "uptime went backwards" -/
  | backwards
  /-- "nowptr must be NULL" -/
  | nowptr
  /-- "irq incorrectly routed" -/
  | routed
  /-- "timer is using MSI" -/
  | usesMsi
  /-- "is not periodic" -/
  | notPeriodic
  /-- "callout with counter disabled" -/
  | counterDisabled
  /-- "isr should not be asserted" -/
  | isrAsserted
  /-- "isr asserted to ioapic pin" -/
  | isrPin
  /-- "one-shot timer has invalid rate" -/
  | oneShotRate
  deriving DecidableEq, Repr

section Config

variable (t : Timer)

def Timer.msiEnabled : Bool :=
  t.capConfig &&& (hpetTcapFsbIntDel ||| hpetTcnfFsbEn) = hpetTcapFsbIntDel ||| hpetTcnfFsbEn

/-- A timer that uses MSI is treated as not connected to the I/O APIC. -/
def Timer.ioapicPin : ℕ :=
  if t.msiEnabled then 0 else ((t.capConfig &&& hpetTcnfIntRoute) >>> 9).toNat

def Timer.periodic : Bool := t.capConfig &&& hpetTcnfType ≠ 0

def Timer.interruptEnabled : Bool := t.capConfig &&& hpetTcnfIntEnb ≠ 0

def Timer.edgeTrig : Except Abort Bool :=
  if t.msiEnabled then .error .usesMsi else .ok (t.capConfig &&& hpetTcnfIntType = 0)

def Timer.allowedIrqs : BitVec 32 := (t.capConfig >>> 32).setWidth 32

def Timer.allowed (pin : ℕ) : Bool := t.allowedIrqs &&& (1 : BitVec 32) <<< pin ≠ 0

end Config

/-- The bit of a timer in `isr`. -/
def timerBit (n : TimerId) : BitVec 64 := (1 : BitVec 64) <<< n.val

def updateRegister (reg data mask : BitVec 64) : BitVec 64 := reg &&& ~~~mask ||| data &&& mask

section Calls

variable (v : Vhpet) (n : TimerId)

def Vhpet.counterEnabled : Bool := v.config &&& hpetCnfEnable ≠ 0

def Vhpet.isrBit : Bool := v.isr &&& timerBit n ≠ 0

def Vhpet.setTimer (t : Timer) : Vhpet := { v with timer := Function.update v.timer n t }

/-- `vhpet_counter`, called with a place for the time or without. -/
def Vhpet.counter (wantNow : Bool) : Except Abort (BitVec 32) :=
  if v.counterEnabled then
    if v.now < v.countbaseSbt then .error .backwards
    else .ok (v.countbase + BitVec.ofNat 32 ((v.now - v.countbaseSbt) / freqSbt))
  else if wantNow then .error .nowptr
  else .ok v.countbase

/-- The line goes down. -/
def Vhpet.lower (pin : ℕ) : Vhpet :=
  { v with sent := .deassert n pin :: v.sent, isr := v.isr &&& ~~~timerBit n }

def Vhpet.timerClearIsr : Except Abort Vhpet :=
  if v.isrBit n then
    if (v.timer n).ioapicPin = 0 then .error .routed else .ok (v.lower n (v.timer n).ioapicPin)
  else .ok v

def Vhpet.timerInterrupt : Except Abort Vhpet :=
  let t := v.timer n
  if !t.interruptEnabled then .ok v
  else if v.isrBit n then .ok v
  else if t.msiEnabled then
    .ok { v with sent := .msi n (t.msireg >>> 32) (t.msireg &&& 0xffffffff) :: v.sent }
  else if t.ioapicPin = 0 then .ok v
  else do
    let edge ← t.edgeTrig
    if edge then .ok { v with sent := .pulse n t.ioapicPin :: v.sent }
    else .ok { v with isr := v.isr ||| timerBit n, sent := .assert n t.ioapicPin :: v.sent }

/-- The next multiple of the rate that is ahead of the counter. -/
def Timer.adjustCompval (t : Timer) (counter : BitVec 32) : Except Abort Timer :=
  if t.comprate = 0 then .error .notPeriodic
  else .ok { t with compval := t.compval + ((counter - t.compval) / t.comprate + 1) * t.comprate }

def Vhpet.startTimer (counter : BitVec 32) (now : ℕ) : Except Abort Vhpet := do
  let t := v.timer n
  let t ← if t.comprate ≠ 0 then t.adjustCompval counter else .ok t
  let delta := (t.compval - counter).toNat * freqSbt
  .ok (v.setTimer n { t with calloutSbt := now + delta, active := true, pending := true })

/-- A callout that was due and has not run yet is made up for. -/
def Vhpet.stopTimer (now : ℕ) : Except Abort Vhpet :=
  let v := v.setTimer n { v.timer n with active := false, pending := false }
  if (v.timer n).calloutSbt < now then v.timerInterrupt n else .ok v

def Vhpet.startCounting : Except Abort Vhpet :=
  let v := { v with countbaseSbt := v.now }
  (finRange vhpetNumTimers).foldlM (fun v i => v.startTimer i v.countbase v.countbaseSbt) v

def Vhpet.stopCounting (counter : BitVec 32) (now : ℕ) : Except Abort Vhpet :=
  let v := { v with countbase := counter }
  (finRange vhpetNumTimers).foldlM (fun v i => v.stopTimer i now) v

def Vhpet.handler : Except Abort Vhpet :=
  let t := v.timer n
  if t.pending then .ok v
  else if !t.active then .ok v
  else
    let v := v.setTimer n { t with active := false }
    if !v.counterEnabled then .error .counterDisabled
    else do
      let counter ← v.counter true
      let v ← v.startTimer n counter v.now
      v.timerInterrupt n

/-- The register with the new value; what is read-only stays. -/
def Timer.newval (t : Timer) (data mask : BitVec 64) : BitVec 64 :=
  updateRegister t.capConfig data mask &&& ~~~(hpetTcapRoMask ||| hpetTcnf32mode) |||
    t.capConfig &&& hpetTcapRoMask

/-- A route that is not allowed is set to zero. -/
def Timer.configured (t : Timer) (data mask : BitVec 64) : Timer :=
  let t := { t with capConfig := t.newval data mask }
  let newPin := t.ioapicPin
  let t := if newPin ≠ 0 ∧ !t.allowed newPin then
    { t with capConfig := t.capConfig &&& ~~~hpetTcnfIntRoute } else t
  if !t.periodic then { t with comprate := 0 } else t

/-- Whether an asserted line has to go down when the configuration changes. -/
def Timer.clearsIsr (t : Timer) (oldPin : ℕ) : Except Abort Bool :=
  if !t.interruptEnabled then .ok true
  else if t.msiEnabled then .ok true
  else do
    let edge ← t.edgeTrig
    .ok (edge || decide (t.ioapicPin ≠ oldPin))

/-- The condition of the first check; a timer that uses MSI is not asked for its trigger mode. -/
def Timer.notLevel (t : Timer) : Except Abort Bool := if t.msiEnabled then .ok true else t.edgeTrig

def Vhpet.timerUpdateConfig (data mask : BitVec 64) : Except Abort Vhpet := do
  let t := v.timer n
  let notLevel ← t.notLevel
  if notLevel && v.isrBit n then .error .isrAsserted
  else
    let oldPin := t.ioapicPin
    if t.newval data mask = t.capConfig then .ok v
    else
      let t := t.configured data mask
      let v := v.setTimer n t
      if v.isrBit n then
        if oldPin = 0 then .error .isrPin
        else do
          let clear ← t.clearsIsr oldPin
          if clear then .ok (v.lower n oldPin) else .ok v
      else .ok v

/-- In periodic mode the rate is written, and the comparator only with `HPET_TCNF_VAL_SET`. -/
def Timer.comparatorWritten (t : Timer) (data mask : BitVec 64) : Except Abort Timer :=
  let t' := { t with capConfig := t.capConfig &&& ~~~hpetTcnfValSet }
  if t.periodic then
    let val64 := updateRegister (t.comprate.setWidth 64) data mask
    if t.capConfig &&& hpetTcnfValSet ≠ 0 then
      .ok { t' with comprate := val64.setWidth 32, compval := val64.setWidth 32 }
    else .ok { t' with comprate := val64.setWidth 32 }
  else if t.comprate ≠ 0 then .error .oneShotRate
  else .ok { t' with compval := (updateRegister (t.compval.setWidth 64) data mask).setWidth 32 }

def Vhpet.comparatorWrite (data mask : BitVec 64) : Except Abort Vhpet := do
  let old := v.timer n
  let t ← old.comparatorWritten data mask
  let v := v.setTimer n t
  if (t.compval ≠ old.compval ∨ t.comprate ≠ old.comprate) ∧ v.counterEnabled then
    let counter ← v.counter true
    v.startTimer n counter v.now
  else .ok v

def Vhpet.configWrite (data mask : BitVec 64) : Except Abort Vhpet := do
  let counter ← v.counter v.counterEnabled
  let oldval := v.config
  let v := { v with config := updateRegister v.config data mask &&& ~~~hpetCnfLegRt }
  if (oldval ^^^ v.config) &&& hpetCnfEnable ≠ 0 then
    if v.counterEnabled then v.startCounting else v.stopCounting counter v.now
  else .ok v

def Vhpet.isrWrite (data : BitVec 64) : Except Abort Vhpet :=
  let isrClearMask := (v.isr &&& data).setWidth 32
  (finRange vhpetNumTimers).foldlM
    (fun v i => if isrClearMask &&& (timerBit i).setWidth 32 ≠ 0 then v.timerClearIsr i else .ok v) v

def Vhpet.mainCounterWrite (data mask : BitVec 64) : Except Abort Vhpet := do
  let val64 ← v.counter false
  let v := { v with countbase := (updateRegister (val64.setWidth 64) data mask).setWidth 32 }
  if v.counterEnabled then v.startCounting else .ok v

end Calls

/-- The registers of a timer. -/
inductive TimerReg
  | capCnf
  | comparator
  | fsb
  deriving DecidableEq, Repr

def timerReg (offset i : ℕ) : Option TimerReg :=
  if offset = hpetTimerCapCnf i ∨ offset = hpetTimerCapCnf i + 4 then some .capCnf
  else if offset = hpetTimerComparator i ∨ offset = hpetTimerComparator i + 4 then some .comparator
  else if offset = hpetTimerFsbVal i ∨ offset = hpetTimerFsbAddr i then some .fsb
  else none

/-- Data and mask of a write, if its size is one of 4 and 8 bytes and it is aligned to it. -/
def lanes (offset : ℕ) (val : BitVec 64) (size : ℕ) : Option (BitVec 64 × BitVec 64) :=
  if offset % size ≠ 0 then none
  else if size = 8 then some (val, 0xffffffffffffffff)
  else if size = 4 then
    if offset &&& 0x4 ≠ 0 then some (val <<< 32, 0xffffffff <<< 32) else some (val, 0xffffffff)
  else none

def Vhpet.timerWrite (v : Vhpet) (i : TimerId) (data mask : BitVec 64) : TimerReg → Except Abort Vhpet
  | .capCnf => v.timerUpdateConfig i data mask
  | .comparator => v.comparatorWrite i data mask
  | .fsb => .ok (v.setTimer i { v.timer i with msireg := updateRegister (v.timer i).msireg data mask })

def Vhpet.mmioWrite (v : Vhpet) (offset : ℕ) (val : BitVec 64) (size : ℕ) : Except Abort Vhpet :=
  match lanes offset val size with
  | none => .ok v
  | some (data, mask) =>
    if offset = hpetConfig ∨ offset = hpetConfig + 4 then v.configWrite data mask
    else if offset = hpetIsr ∨ offset = hpetIsr + 4 then v.isrWrite data
    else if offset = hpetMainCounter ∨ offset = hpetMainCounter + 4 then v.mainCounterWrite data mask
    else
      -- the loop over the timers ends at the first register that is at the offset
      match (finRange vhpetNumTimers).findSome? fun i : TimerId =>
          (timerReg offset i.val).map fun reg => (i, reg) with
      | none => .ok v
      | some (i, reg) => v.timerWrite i data mask reg

/-- What happens to the HPET. The callout thread may take up a callout, and call its handler, at any time. -/
inductive Action
  | tick (delta : ℕ)
  | mmioWrite (offset : ℕ) (val : BitVec 64) (size : ℕ)
  | dispatch (n : TimerId)
  | handler (n : TimerId)
  deriving DecidableEq, Repr

def step (v : Vhpet) : Action → Except Abort Vhpet
  | .tick delta => .ok { v with now := v.now + delta }
  | .mmioWrite offset val size => v.mmioWrite offset val size
  | .dispatch n => .ok (v.setTimer n { v.timer n with pending := false })
  | .handler n => v.handler n

/-- `vhpet_init`. -/
def init (pincount now : ℕ) : Vhpet where
  config := 0
  isr := 0
  countbase := 0
  countbaseSbt := 0
  timer _ :=
    { capConfig := (if pincount ≥ 24 then 0x00f00000 else 0) <<< 32 ||| hpetTcapPerInt ||| hpetTcapFsbIntDel
      msireg := 0
      compval := 0xffffffff
      comprate := 0
      calloutSbt := 0
      active := false
      pending := false }
  now := now
  sent := []

/-- The asserts for a timer on a pin that no deassert has answered. -/
def outstanding (n : TimerId) (pin : ℕ) : List Signal → ℤ
  | [] => 0
  | .assert m p :: log => outstanding n pin log + if m = n ∧ p = pin then 1 else 0
  | .deassert m p :: log => outstanding n pin log - if m = n ∧ p = pin then 1 else 0
  | .pulse _ _ :: log => outstanding n pin log
  | .msi _ _ _ :: log => outstanding n pin log

/-- The timer may hold its line up: it is on, level triggered and routed to a pin that it may use. -/
structure Timer.Level (t : Timer) : Prop where
  enabled : t.interruptEnabled = true
  notMsi : t.msiEnabled = false
  level : t.capConfig &&& hpetTcnfIntType ≠ 0
  pin : t.ioapicPin ≠ 0
  allowed : t.allowed t.ioapicPin = true

/-- Each timer holds one assert, on the pin of its route, while its bit in `isr` is set, and none otherwise. -/
structure Balanced (v : Vhpet) : Prop where
  held : ∀ n pin, outstanding n pin v.sent = if v.isrBit n = true ∧ pin = (v.timer n).ioapicPin then 1 else 0
  level : ∀ n, v.isrBit n = true → (v.timer n).Level

variable {v v' : Vhpet} {n m : TimerId} {t t' : Timer} {isr : Bool} {held : ℕ → ℤ}

theorem timerId_lt (n : TimerId) : n.val < 64 := Nat.lt_trans n.isLt (by decide)

theorem isrBit_eq (v : Vhpet) (n : TimerId) : v.isrBit n = v.isr.getLsbD n.val := by
  have h : v.isr &&& timerBit n = if v.isr.getLsbD n.val then twoPow 64 n.val else 0 :=
    and_twoPow v.isr n.val
  have hne : twoPow 64 n.val ≠ 0#64 := by
    intro hcon
    have hbit := congrArg (fun x : BitVec 64 => x.getLsbD n.val) hcon
    simp [timerId_lt n] at hbit
  rw [Vhpet.isrBit, h]
  cases v.isr.getLsbD n.val <;> simp [hne]

theorem getLsbD_timerBit (n m : TimerId) : (timerBit n).getLsbD m.val = decide (m = n) := by
  have h : timerBit n = twoPow 64 n.val := rfl
  rw [h]
  simp [timerId_lt n, Fin.ext_iff, eq_comm]

theorem isrBit_lower (pin : ℕ) : (v.lower n pin).isrBit m = (v.isrBit m && !decide (m = n)) := by
  rw [isrBit_eq, isrBit_eq, Vhpet.lower, getLsbD_and, getLsbD_not, getLsbD_timerBit]
  simp [timerId_lt m]

/-- Bits outside of the mask are not cleared. -/
theorem and_not_and {x m k : BitVec 64} (h : m &&& k = 0) : x &&& ~~~m &&& k = x &&& k := by
  have hk : ~~~m &&& k = k := by
    ext i hi
    have hbit := congrArg (fun y : BitVec 64 => y[i]) h
    simp only [getElem_and, getElem_not] at hbit ⊢
    cases hm : m[i] <;> simp_all
  rw [BitVec.and_assoc, hk]

/-- Words that differ outside of the mask only. -/
theorem and_eq_of_xor {x y m : BitVec 64} (h : (x ^^^ y) &&& m = 0) : y &&& m = x &&& m := by
  ext i hi
  have hbit := congrArg (fun z : BitVec 64 => z[i]) h
  simp only [getElem_and, getElem_xor] at hbit ⊢
  cases hx : x[i] <;> cases hy : y[i] <;> simp_all

/-- What holds of a timer, given its bit in `isr` and its asserts. -/
structure Line (t : Timer) (isr : Bool) (held : ℕ → ℤ) : Prop where
  held : ∀ pin, held pin = if isr = true ∧ pin = t.ioapicPin then 1 else 0
  level : isr = true → t.Level
  route : t.msiEnabled = false → t.ioapicPin = 0 ∨ t.allowed t.ioapicPin = true
  rate : t.periodic = false → t.comprate = 0

def Lines (v : Vhpet) : Prop := ∀ n, Line (v.timer n) (v.isrBit n) fun pin => outstanding n pin v.sent

/-- Only the configuration and the rate matter. -/
theorem Line.congr (h : Line t isr held) (hcap : t'.capConfig = t.capConfig)
    (hrate : t'.comprate = t.comprate) : Line t' isr held := by
  obtain ⟨cap', msireg', compval', comprate', sbt', active', pending'⟩ := t'
  cases hcap
  cases hrate
  exact ⟨h.held, fun hi => ⟨(h.level hi).enabled, (h.level hi).notMsi, (h.level hi).level, (h.level hi).pin,
    (h.level hi).allowed⟩, h.route, h.rate⟩

/-- One timer and its signals change. -/
theorem Lines.change (h : Lines v) (htimer : ∀ m, m ≠ n → v'.timer m = v.timer m)
    (hisr : ∀ m, m ≠ n → v'.isrBit m = v.isrBit m)
    (hsent : ∀ m, m ≠ n → ∀ pin, outstanding m pin v'.sent = outstanding m pin v.sent)
    (hn : Line (v'.timer n) (v'.isrBit n) fun pin => outstanding n pin v'.sent) : Lines v' := by
  intro m
  by_cases hm : m = n
  · rw [hm]
    exact hn
  · rw [htimer m hm, hisr m hm]
    simp only [hsent m hm]
    exact h m

theorem Lines.setTimer (h : Lines v) (hn : Line t (v.isrBit n) fun pin => outstanding n pin v.sent) :
    Lines (v.setTimer n t) := by
  refine h.change (n := n) (fun m hm => ?_) (fun _ _ => rfl) (fun _ _ _ => rfl) ?_
  · exact update_of_ne hm _ _
  · have htimer : (v.setTimer n t).timer n = t := update_self ..
    rw [htimer]
    exact hn

/-- The line of a timer goes down: its assert is answered. -/
theorem Lines.lower (h : Lines v) {pin : ℕ} (htimer : ∀ m, m ≠ n → v'.timer m = v.timer m)
    (hisr : v'.isr = v.isr) (hsent : v'.sent = v.sent) (hpin : pin = (v.timer n).ioapicPin)
    (hbit : v.isrBit n = true)
    (hroute : (v'.timer n).msiEnabled = false →
      (v'.timer n).ioapicPin = 0 ∨ (v'.timer n).allowed (v'.timer n).ioapicPin = true)
    (hrate : (v'.timer n).periodic = false → (v'.timer n).comprate = 0) : Lines (v'.lower n pin) := by
  have hbits : ∀ m, v'.isrBit m = v.isrBit m := fun m => by rw [isrBit_eq, isrBit_eq, hisr]
  refine h.change htimer (fun m hm => ?_) (fun m hm p => ?_) ⟨fun p => ?_, fun hi => ?_, hroute, hrate⟩
  · rw [isrBit_lower, hbits]
    simp [hm]
  · simp [Vhpet.lower, outstanding, hsent, Ne.symm hm]
  · rw [isrBit_lower]
    have hold := (h n).held p
    simp only [hbit, true_and] at hold
    simp only [Vhpet.lower, outstanding, hsent, hold, hpin, true_and, decide_true, Bool.not_true, Bool.and_false,
      Bool.false_eq_true, false_and, if_false, eq_comm]
    omega
  · rw [isrBit_lower] at hi
    simp at hi

/-- A call that sends signals and sets or clears bits of `isr` only. -/
structure Sends (v v' : Vhpet) : Prop where
  lines : Lines v'
  timer : v'.timer = v.timer
  config : v'.config = v.config
  countbaseSbt : v'.countbaseSbt = v.countbaseSbt
  now : v'.now = v.now

theorem sends_refl (h : Lines v) : Sends v v := ⟨h, rfl, rfl, rfl, rfl⟩

/-- A signal that neither asserts nor deasserts a pin. -/
theorem sends_other (h : Lines v) {g : Signal}
    (hg : ∀ m pin log, outstanding m pin (g :: log) = outstanding m pin log) :
    Sends v { v with sent := g :: v.sent } := by
  refine ⟨h.change (n := 0) (fun _ _ => rfl) (fun _ _ => rfl) (fun m _ pin => hg m pin _) ?_, rfl, rfl, rfl, rfl⟩
  simp only [hg]
  exact h 0

theorem timerInterrupt_ok (h : Lines v) (n : TimerId) : ∃ v', v.timerInterrupt n = .ok v' ∧ Sends v v' := by
  unfold Vhpet.timerInterrupt
  dsimp only
  split_ifs with hen hbit hmsi hpin
  any_goals exact ⟨v, rfl, sends_refl h⟩
  · exact ⟨_, rfl, sends_other h fun _ _ _ => rfl⟩
  simp only [Timer.edgeTrig, hmsi, Bool.false_eq_true, if_false, bind, Except.bind]
  split_ifs with hedge
  · exact ⟨_, rfl, sends_other h fun _ _ _ => rfl⟩
  refine ⟨_, rfl, h.change (fun _ _ => rfl) (fun m hm => ?_) (fun m hm pin => ?_)
    ⟨fun pin => ?_, fun _ => ?_, (h n).route, (h n).rate⟩, rfl, rfl, rfl, rfl⟩
  · rw [isrBit_eq, isrBit_eq, getLsbD_or, getLsbD_timerBit]
    simp [hm]
  · simp [outstanding, Ne.symm hm]
  · have hset : (v.isr ||| timerBit n).getLsbD n.val = true := by
      rw [getLsbD_or, getLsbD_timerBit]
      simp
    have hold := (h n).held pin
    simp only [hbit, Bool.false_eq_true, false_and, if_false] at hold
    rw [isrBit_eq]
    simp only [outstanding, hold, hset, true_and, zero_add, eq_comm]
  · exact ⟨by simpa using hen, by simpa using hmsi, by simpa using hedge, hpin,
      ((h n).route (by simpa using hmsi)).resolve_left hpin⟩

theorem timerClearIsr_ok (h : Lines v) (n : TimerId) : ∃ v', v.timerClearIsr n = .ok v' ∧ Sends v v' := by
  unfold Vhpet.timerClearIsr
  by_cases hbit : v.isrBit n = true
  · rw [if_pos hbit, if_neg ((h n).level hbit).pin]
    have hlower : Lines (v.lower n (v.timer n).ioapicPin) :=
      h.lower (fun _ _ => rfl) rfl rfl rfl hbit (h n).route (h n).rate
    exact ⟨_, rfl, hlower, rfl, rfl, rfl, rfl⟩
  · rw [if_neg hbit]
    exact ⟨v, rfl, sends_refl h⟩

/-- The callout of a timer is active only while the counter runs. -/
def Running (v : Vhpet) : Prop := ∀ n, (v.timer n).active = true → v.counterEnabled = true

def Clocked (v : Vhpet) : Prop := v.counterEnabled = true → v.countbaseSbt ≤ v.now

structure Inv (v : Vhpet) : Prop where
  lines : Lines v
  running : Running v
  clocked : Clocked v

/-- The timer as `startTimer` leaves it. -/
def Timer.armed (t : Timer) (counter : BitVec 32) (now : ℕ) : Timer :=
  let compval := if t.comprate = 0 then t.compval
    else t.compval + ((counter - t.compval) / t.comprate + 1) * t.comprate
  { t with compval, calloutSbt := now + (compval - counter).toNat * freqSbt, active := true, pending := true }

theorem startTimer_eq (n : TimerId) (counter : BitVec 32) (now : ℕ) :
    v.startTimer n counter now = .ok (v.setTimer n ((v.timer n).armed counter now)) := by
  unfold Vhpet.startTimer Timer.armed Timer.adjustCompval
  split_ifs <;> simp_all [bind, Except.bind]

/-- The timer is armed; it counts with the rest as before. -/
theorem startTimer_ok (h : Lines v) (n : TimerId) (counter : BitVec 32) (now : ℕ) :
    ∃ t, v.startTimer n counter now = .ok (v.setTimer n t) ∧ Lines (v.setTimer n t) :=
  ⟨_, startTimer_eq n counter now, h.setTimer ((h n).congr rfl rfl)⟩

theorem counter_ok (h : Clocked v) (wantNow : Bool) (hw : wantNow = true → v.counterEnabled = true) :
    ∃ c, v.counter wantNow = .ok c := by
  unfold Vhpet.counter
  by_cases hen : v.counterEnabled = true
  · have hle := h hen
    rw [if_pos hen, if_neg (by omega)]
    exact ⟨_, rfl⟩
  · have hno : ¬ wantNow = true := fun hcon => hen (hw hcon)
    rw [if_neg hen, if_neg hno]
    exact ⟨_, rfl⟩

theorem startCounting_ok (h : Lines v) : ∃ v', v.startCounting = .ok v' ∧ Lines v' ∧ v'.config = v.config ∧
    v'.countbaseSbt = v.now ∧ v'.now = v.now := by
  refine foldlM_ok (P := fun _ w => Lines w ∧ w.config = v.config ∧ w.countbaseSbt = v.now ∧ w.now = v.now) ?_ _
    ⟨h, rfl, rfl, rfl⟩
  rintro i is w ⟨hlines, hrest⟩
  obtain ⟨t, ht, hl⟩ := startTimer_ok hlines i w.countbase w.countbaseSbt
  exact ⟨_, ht, hl, hrest⟩

theorem stopTimer_ok (h : Lines v) (n : TimerId) (now : ℕ) : ∃ v', v.stopTimer n now = .ok v' ∧
    Sends (v.setTimer n { v.timer n with active := false, pending := false }) v' := by
  have hl : Lines (v.setTimer n { v.timer n with active := false, pending := false }) :=
    h.setTimer ((h n).congr rfl rfl)
  unfold Vhpet.stopTimer
  dsimp only
  split_ifs
  · exact timerInterrupt_ok hl n
  · exact ⟨_, rfl, sends_refl hl⟩

/-- After the loop no callout is active. -/
theorem stopCounting_ok (h : Lines v) (counter : BitVec 32) (now : ℕ) : ∃ v',
    v.stopCounting counter now = .ok v' ∧
    Lines v' ∧ v'.config = v.config ∧ ∀ n, (v'.timer n).active = false := by
  have hloop := foldlM_ok (f := fun w i => w.stopTimer i now) (b := { v with countbase := counter })
    (P := fun is w => Lines w ∧ w.config = v.config ∧ ∀ n, n ∉ is → (w.timer n).active = false) ?_
    (finRange vhpetNumTimers) ⟨h, rfl, fun n hn => absurd (mem_finRange n) hn⟩
  · obtain ⟨v', hv', hlines, hconfig, hactive⟩ := hloop
    exact ⟨v', hv', hlines, hconfig, fun n => hactive n (not_mem_nil)⟩
  · rintro i is w ⟨hlines, hconfig, hactive⟩
    obtain ⟨w', hw', hsends⟩ := stopTimer_ok hlines i now
    refine ⟨w', hw', hsends.lines, hsends.config.trans hconfig, fun n hn => ?_⟩
    rw [hsends.timer]
    by_cases hi : n = i
    · subst hi
      simp [Vhpet.setTimer]
    · simp only [Vhpet.setTimer, update_of_ne hi]
      exact hactive n (by simp [hi, hn])

section

variable (h : Inv v)

include h

theorem Inv.of_sends (hs : Sends v v') : Inv v' := by
  refine ⟨hs.lines, fun n hn => ?_, fun hen => ?_⟩
  · rw [hs.timer] at hn
    have := h.running n hn
    rwa [Vhpet.counterEnabled, hs.config]
  · rw [Vhpet.counterEnabled, hs.config] at hen
    rw [hs.countbaseSbt, hs.now]
    exact h.clocked hen

theorem Inv.running_setTimer (ht : t.active = true → v.counterEnabled = true) (m : TimerId)
    (hm : ((v.setTimer n t).timer m).active = true) : v.counterEnabled = true := by
  by_cases hmn : m = n
  · subst hmn
    simp only [Vhpet.setTimer, update_self] at hm
    exact ht hm
  · simp only [Vhpet.setTimer, update_of_ne hmn] at hm
    exact h.running m hm

/-- A timer changes, and is active only while the counter runs. -/
theorem Inv.setTimer (hl : Lines (v.setTimer n t))
    (ht : t.active = true → v.counterEnabled = true) : Inv (v.setTimer n t) :=
  ⟨hl, h.running_setTimer ht, h.clocked⟩

theorem handler_ok (n : TimerId) : ∃ v', v.handler n = .ok v' ∧ Inv v' := by
  unfold Vhpet.handler
  dsimp only
  split_ifs with hp ha hstopped
  · exact ⟨v, rfl, h⟩
  · exact ⟨v, rfl, h⟩
  all_goals have hen : v.counterEnabled = true := h.running n (by simpa using ha)
  · rw [Bool.not_eq_true'] at hstopped
    cases hstopped.symm.trans hen
  have hoff : Inv (v.setTimer n { v.timer n with active := false }) :=
    h.setTimer (h.lines.setTimer ((h.lines n).congr rfl rfl)) nofun
  obtain ⟨c, hc⟩ := counter_ok hoff.clocked true fun _ => hen
  obtain ⟨t, ht, hl⟩ := startTimer_ok hoff.lines n c (v.setTimer n { v.timer n with active := false }).now
  obtain ⟨v', hv', hs⟩ := timerInterrupt_ok hl n
  have hon : Inv _ := hoff.setTimer hl fun _ => hen
  exact ⟨v', bind_eq_ok.mpr ⟨c, hc, bind_eq_ok.mpr ⟨_, ht, hv'⟩⟩, hon.of_sends hs⟩

theorem isrWrite_ok (data : BitVec 64) : ∃ v', v.isrWrite data = .ok v' ∧ Inv v' := by
  refine foldlM_ok (P := fun _ w => Inv w) (fun i is w hw => ?_) _ h
  split_ifs
  · obtain ⟨w', hw', hs⟩ := timerClearIsr_ok hw.lines i
    exact ⟨w', hw', hw.of_sends hs⟩
  · exact ⟨w, rfl, hw⟩

/-- A write that changes neither bit nor timers leaves the timers as they are. -/
theorem configWrite_ok (data mask : BitVec 64) : ∃ v', v.configWrite data mask = .ok v' ∧ Inv v' := by
  obtain ⟨c, hc⟩ := counter_ok h.clocked v.counterEnabled fun hen => hen
  unfold Vhpet.configWrite
  simp only [hc, bind, Except.bind]
  have hlines : Lines { v with config := updateRegister v.config data mask &&& ~~~hpetCnfLegRt } := h.lines
  split_ifs with hchange hen
  · obtain ⟨v', hv', hl, hconfig, hbase, hnow⟩ := startCounting_ok hlines
    refine ⟨v', hv', hl, fun n _ => ?_, fun _ => ?_⟩
    · rw [Vhpet.counterEnabled, hconfig]
      exact hen
    · rw [hbase, hnow]
  · obtain ⟨v', hv', hl, hconfig, hactive⟩ := stopCounting_ok hlines c
      { v with config := updateRegister v.config data mask &&& ~~~hpetCnfLegRt }.now
    refine ⟨v', hv', hl, fun n hn => ?_, fun hcon => ?_⟩
    · rw [hactive n] at hn
      cases hn
    · rw [Vhpet.counterEnabled, hconfig] at hcon
      exact absurd hcon hen
  · -- the enable bit is as it was
    have hsame : { v with config := updateRegister v.config data mask &&& ~~~hpetCnfLegRt }.counterEnabled
        = v.counterEnabled := by
      rw [Vhpet.counterEnabled, Vhpet.counterEnabled, and_eq_of_xor (not_not.mp hchange)]
    refine ⟨_, rfl, hlines, fun n hn => ?_, fun hen => ?_⟩
    · rw [hsame]
      exact h.running n hn
    · rw [hsame] at hen
      exact h.clocked hen

theorem mainCounterWrite_ok (data mask : BitVec 64) :
    ∃ v', v.mainCounterWrite data mask = .ok v' ∧ Inv v' := by
  obtain ⟨c, hc⟩ := counter_ok h.clocked false nofun
  unfold Vhpet.mainCounterWrite
  simp only [hc, bind, Except.bind]
  split_ifs with hen
  · obtain ⟨v', hv', hl, hconfig, hbase, hnow⟩ := startCounting_ok
      (v := { v with countbase := (updateRegister (c.setWidth 64) data mask).setWidth 32 }) h.lines
    refine ⟨v', hv', hl, fun n _ => ?_, fun _ => ?_⟩
    · rw [Vhpet.counterEnabled, hconfig]
      exact hen
    · rw [hbase, hnow]
  · exact ⟨_, rfl, h.lines, h.running, h.clocked⟩

end

/-- `HPET_TCNF_VAL_SET` has no part in the interrupts. -/
theorem line_valSet (h : Line t isr held) (hcap : t'.capConfig = t.capConfig &&& ~~~hpetTcnfValSet)
    (hrate : t.periodic = false → t'.comprate = 0) : Line t' isr held := by
  have hmsi : t'.msiEnabled = t.msiEnabled := by
    rw [Timer.msiEnabled, hcap, and_not_and (by decide), ← Timer.msiEnabled]
  have hpin : t'.ioapicPin = t.ioapicPin := by
    rw [Timer.ioapicPin, hmsi, hcap, and_not_and (by decide), ← Timer.ioapicPin]
  have hperiodic : t'.periodic = t.periodic := by
    rw [Timer.periodic, hcap, and_not_and (by decide), ← Timer.periodic]
  have hallowed : ∀ pin, t'.allowed pin = t.allowed pin := by
    intro pin
    have hirqs : t'.allowedIrqs = t.allowedIrqs := by
      have hones : (~~~hpetTcnfValSet >>> 32).setWidth 32 = allOnes 32 := by decide
      rw [Timer.allowedIrqs, hcap, ushiftRight_and_distrib, setWidth_and, hones, and_allOnes,
        ← Timer.allowedIrqs]
    rw [Timer.allowed, hirqs, ← Timer.allowed]
  refine ⟨fun pin => by rw [hpin]; exact h.held pin, fun hi => ?_, fun hm => ?_, fun hp => ?_⟩
  · have hl := h.level hi
    refine ⟨?_, hmsi.trans hl.notMsi, ?_, by rw [hpin]; exact hl.pin, by rw [hpin, hallowed]; exact hl.allowed⟩
    · rw [Timer.interruptEnabled, hcap, and_not_and (by decide)]
      exact hl.enabled
    · rw [hcap, and_not_and (by decide)]
      exact hl.level
  · rw [hpin, hallowed]
    exact h.route (hmsi.symm.trans hm)
  · exact hrate (hperiodic.symm.trans hp)

theorem comparatorWritten_ok (h : Line t isr held) (data mask : BitVec 64) :
    ∃ t', t.comparatorWritten data mask = .ok t' ∧ Line t' isr held ∧ t'.active = t.active := by
  unfold Timer.comparatorWritten
  by_cases hp : t.periodic = true
  · have hone : t.periodic = false → ∀ r : BitVec 32, r = 0 := fun hcon => by
      rw [hp] at hcon
      cases hcon
    split_ifs
    all_goals exact ⟨_, rfl, line_valSet h rfl fun hcon => hone hcon _, rfl⟩
  · have hrate : t.comprate = 0 := h.rate (by simpa using hp)
    simp only [if_neg hp, if_neg (not_not.mpr hrate)]
    exact ⟨_, rfl, line_valSet h rfl fun _ => hrate, rfl⟩

theorem comparatorWrite_ok (h : Inv v) (n : TimerId) (data mask : BitVec 64) :
    ∃ v', v.comparatorWrite n data mask = .ok v' ∧ Inv v' := by
  obtain ⟨t, ht, hline, hactive⟩ := comparatorWritten_ok (h.lines n) data mask
  have hinv : Inv (v.setTimer n t) := h.setTimer (h.lines.setTimer hline) fun ha => h.running n (hactive ▸ ha)
  unfold Vhpet.comparatorWrite
  simp only [ht, bind, Except.bind]
  split_ifs with hchange
  · obtain ⟨c, hc⟩ := counter_ok hinv.clocked true fun _ => hchange.2
    obtain ⟨t', ht', hl⟩ := startTimer_ok hinv.lines n c (v.setTimer n t).now
    simp only [hc]
    exact ⟨_, ht', hinv.setTimer hl fun _ => hchange.2⟩
  · exact ⟨_, rfl, hinv⟩

/-- After the validation the route is zero or allowed, unless the timer uses MSI. -/
theorem configured_route (t : Timer) (data mask : BitVec 64) : (t.configured data mask).ioapicPin = 0 ∨
      (t.configured data mask).allowed (t.configured data mask).ioapicPin = true := by
  have hrate : ∀ u : Timer, (if !u.periodic then { u with comprate := 0 } else u).ioapicPin = u.ioapicPin ∧
      ∀ pin, (if !u.periodic then { u with comprate := 0 } else u).allowed pin = u.allowed pin := by
    intro u
    split_ifs <;> exact ⟨rfl, fun _ => rfl⟩
  unfold Timer.configured
  rw [(hrate _).1, (hrate _).2]
  split_ifs with hbad
  · left
    unfold Timer.ioapicPin
    split_ifs
    · rfl
    · have hzero : ∀ x : BitVec 64, x &&& ~~~hpetTcnfIntRoute &&& hpetTcnfIntRoute = 0 := by
        intro x
        rw [BitVec.and_assoc]
        exact and_zero
      rw [hzero]
      rfl
  · by_contra hcon
    rw [not_or] at hcon
    exact hbad ⟨hcon.1, by simpa using hcon.2⟩

theorem configured_rate (t : Timer) (data mask : BitVec 64) (h : (t.configured data mask).periodic = false) :
    (t.configured data mask).comprate = 0 := by
  unfold Timer.configured at h ⊢
  dsimp only at h ⊢
  split_ifs at h ⊢
  all_goals simp_all [Timer.periodic]

theorem configured_active (t : Timer) (data mask : BitVec 64) : (t.configured data mask).active = t.active := by
  unfold Timer.configured
  dsimp only
  split_ifs <;> rfl

/-- The bit in `isr` stays set only where the line may stay up. -/
theorem clearsIsr_ok (t : Timer) (oldPin : ℕ) : ∃ clear, t.clearsIsr oldPin = .ok clear ∧
    (clear = false → t.interruptEnabled = true ∧ t.msiEnabled = false ∧
      t.capConfig &&& hpetTcnfIntType ≠ 0 ∧ t.ioapicPin = oldPin) := by
  unfold Timer.clearsIsr Timer.edgeTrig
  cases henabled : t.interruptEnabled with
  | false => exact ⟨true, rfl, nofun⟩
  | true =>
    cases hmsi : t.msiEnabled with
    | true => exact ⟨true, rfl, nofun⟩
    | false =>
      refine ⟨_, rfl, fun hc => ?_⟩
      simp only [Bool.or_eq_false_iff, decide_eq_false_iff_not, not_not] at hc
      exact ⟨rfl, rfl, hc.1, hc.2⟩

theorem timerUpdateConfig_ok (h : Inv v) (n : TimerId) (data mask : BitVec 64) :
    ∃ v', v.timerUpdateConfig n data mask = .ok v' ∧ Inv v' := by
  have hcheck : ∃ b, (v.timer n).notLevel = .ok b ∧ (b && v.isrBit n) = false := by
    unfold Timer.notLevel Timer.edgeTrig
    cases hbit : v.isrBit n with
    | false => split_ifs <;> exact ⟨_, rfl, Bool.and_false _⟩
    | true =>
      have hl := (h.lines n).level hbit
      have hlevel : decide ((v.timer n).capConfig &&& hpetTcnfIntType = 0) = false := decide_eq_false hl.level
      exact ⟨false, by rw [hl.notMsi, hlevel]; rfl, rfl⟩
  obtain ⟨b, hb, hnot⟩ := hcheck
  have hactive : ((v.timer n).configured data mask).active = true → v.counterEnabled = true := by
    rw [configured_active]
    exact h.running n
  unfold Vhpet.timerUpdateConfig
  simp only [hb, bind, Except.bind, hnot, Bool.false_eq_true, if_false]
  by_cases hnew : (v.timer n).newval data mask = (v.timer n).capConfig
  · rw [if_pos hnew]
    exact ⟨v, rfl, h⟩
  have hbits : ∀ t, (v.setTimer n t).isrBit n = v.isrBit n := fun _ => rfl
  simp only [if_neg hnew, hbits]
  have hroute := configured_route (v.timer n) data mask
  have hrate := configured_rate (v.timer n) data mask
  generalize (v.timer n).configured data mask = t at hactive hroute hrate ⊢
  have hself : (v.setTimer n t).timer n = t := update_self ..
  cases hbit : v.isrBit n with
  | false =>
    have hline : Line t (v.isrBit n) fun pin => outstanding n pin v.sent := by
      refine ⟨fun pin => ?_, fun hi => ?_, fun _ => hroute, hrate⟩
      · have hheld := (h.lines n).held pin
        simp only [hbit, Bool.false_eq_true, false_and, if_false] at hheld ⊢
        exact hheld
      · rw [hbit] at hi
        cases hi
    exact ⟨_, rfl, h.setTimer (h.lines.setTimer hline) hactive⟩
  | true =>
    have hl := (h.lines n).level hbit
    obtain ⟨clear, hclear, hkeep⟩ := clearsIsr_ok t (v.timer n).ioapicPin
    simp only [if_true, if_neg hl.pin, hclear]
    cases clear with
    | true =>
      refine ⟨_, if_pos rfl, ?_, h.running_setTimer hactive, h.clocked⟩
      refine h.lines.lower (fun m hm => update_of_ne hm _ _) rfl rfl rfl hbit ?_ ?_
      · rw [hself]
        exact fun _ => hroute
      · rw [hself]
        exact hrate
    | false =>
      obtain ⟨henabled, hmsi, hlevel, hpin⟩ := hkeep rfl
      refine ⟨_, if_neg Bool.false_ne_true, h.setTimer (h.lines.setTimer ?_) hactive⟩
      refine ⟨fun pin => ?_, fun _ => ⟨henabled, hmsi, hlevel, ?_, ?_⟩, fun _ => hroute, hrate⟩
      · rw [hpin]
        exact (h.lines n).held pin
      · rw [hpin]
        exact hl.pin
      · exact hroute.resolve_left (hpin.symm ▸ hl.pin)

theorem Inv.step (h : Inv v) (a : Action) : ∃ v', step v a = .ok v' ∧ Inv v' := by
  cases a with
  | tick delta => exact ⟨_, rfl, h.lines, h.running, fun hen => Nat.le_add_right_of_le (h.clocked hen)⟩
  | dispatch n => exact ⟨_, rfl, h.setTimer (h.lines.setTimer ((h.lines n).congr rfl rfl)) (h.running n)⟩
  | handler n => exact handler_ok h n
  | mmioWrite offset val size =>
    change ∃ v', v.mmioWrite offset val size = .ok v' ∧ Inv v'
    unfold Vhpet.mmioWrite
    split
    · exact ⟨v, rfl, h⟩
    · split_ifs
      · exact configWrite_ok h _ _
      · exact isrWrite_ok h _
      · exact mainCounterWrite_ok h _ _
      · split
        · exact ⟨v, rfl, h⟩
        · rename_i i reg _
          cases reg with
          | capCnf => exact timerUpdateConfig_ok h i _ _
          | comparator => exact comparatorWrite_ok h i _ _
          | fsb => exact ⟨_, rfl, h.setTimer (h.lines.setTimer ((h.lines i).congr rfl rfl)) (h.running i)⟩

theorem inv_init (pincount now : ℕ) : Inv (init pincount now) := by
  have hbit : ∀ n, (init pincount now).isrBit n = false := fun n => by
    rw [isrBit_eq]
    exact getLsbD_zero
  refine ⟨fun n => ⟨fun pin => ?_, fun hi => ?_, fun _ => .inl ?_, fun _ => rfl⟩, fun n hn => ?_, fun hen => ?_⟩
  · rw [hbit]
    rfl
  · rw [hbit] at hi
    cases hi
  · unfold init
    by_cases hcount : pincount ≥ 24
    · simp only [if_pos hcount]
      decide
    · simp only [if_neg hcount]
      decide
  · cases hn
  · have hoff : 0 &&& hpetCnfEnable = 0 := by decide
    exact absurd hoff (of_decide_eq_true hen)

theorem Inv.balanced (h : Inv v) : Balanced v := ⟨fun n => (h.lines n).held, fun n => (h.lines n).level⟩

/-- In every state that is reached each timer holds exactly one assert while its bit in `isr` is set and none
otherwise, and no assertion fails in the next write, expiry or tick, whatever it is. -/
theorem isr_balanced {pincount now : ℕ} {as : List Action} {v : Vhpet}
    (h : Run step Any (init pincount now) as v) : Balanced v ∧ ∀ a, ∃ v', step v a = .ok v' := by
  have hinv : Inv v := by
    refine h.invariant (fun s a s' _ hstep hs => ?_) (inv_init pincount now)
    obtain ⟨v', hv', hinv'⟩ := hs.step a
    rw [hstep] at hv'
    cases hv'
    exact hinv'
  refine ⟨hinv.balanced, fun a => ?_⟩
  obtain ⟨v', hv', -⟩ := hinv.step a
  exact ⟨v', hv'⟩

/-- Timer 0 expires, is routed to another pin while its line is up, and expires again. -/
def reroutedRun : List Action :=
  [.mmioWrite 0x100 0x2806 4, .mmioWrite 0x108 10 8, .mmioWrite 0x10 1 4, .tick 5000, .dispatch 0, .handler 0,
    .mmioWrite 0x100 0x2a06 4, .tick 5000, .dispatch 0, .handler 0]

theorem isr_balanced_rerouted : ∃ v, Run step Any (init 32 7) reroutedRun v ∧ Balanced v ∧
    v.sent = [.assert 0 21, .deassert 0 20, .assert 0 20] := by
  have hrun : Run step Any (init 32 7) reroutedRun _ := run_of_isOk (d := init 32 7) rfl
  exact ⟨_, hrun, (isr_balanced hrun).1, by decide +kernel⟩

end HyperCog.Hpet
