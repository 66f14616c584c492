import HyperCog.Lib.Run
import HyperCog.Lib.Tally

/-! The INTx pins of the devices, the PIRQ router behind them and the lines that they raise. -/
namespace HyperCog.Intx

open Machine Tally Function

def pirqDis : BitVec 8 := 0x80
def pirqIrqBits : BitVec 8 := 0x0f
/-- Only IRQs 3-7, 9-12, and 14-15 are permitted. -/
def permittedIrqs : BitVec 16 := 0xdef8

inductive LintrState
  | idle
  | asserted
  | pending
  deriving DecidableEq, Repr

/-- Where `pci_lintr_route` leads the pin of a device. -/
structure Route where
  pirqPin : Option (Fin 8)
  ioapicIrq : ℕ

/-- How far `pci_irq_assert` or `pci_irq_deassert` has come: before the lock of the PIRQ, or after it. -/
inductive Stage
  | pirq
  | ioapic
  deriving DecidableEq, Repr

/-- What the thread that holds the lock of a device has left to do. -/
structure Call where
  up : Bool
  stage : Stage
  /-- `pi_lintr.state` when the lock is released -/
  next : LintrState
  deriving DecidableEq, Repr

structure Device where
  state : LintrState
  /-- `pi_msi.enabled` -/
  msi : Bool
  /-- `pi_msix.enabled` -/
  msix : Bool
  /-- `PCIM_CMD_INTxDIS` in the command register -/
  intxDis : Bool
  call : Option Call
  /-- the changes of the three bits whose `pci_lintr_update` has not begun -/
  due : ℕ
  deriving DecidableEq, Repr

structure Pirq where
  reg : BitVec 8
  activeCount : ℤ
  deriving DecidableEq, Repr

structure World (ι : Type) where
  dev : ι → Device
  pirq : Fin 8 → Pirq
  /-- asserts sent for an ISA IRQ, less the deasserts -/
  isa : ℕ → ℤ
  /-- asserts sent for a pin of the I/O APIC, less the deasserts -/
  ioapic : ℕ → ℤ

section Device

variable (x : Device)

def Device.permitted : Bool := !(x.msi || x.msix || x.intxDis)

def lintrAssert : Device :=
  if x.state = .idle then
    if x.permitted then { x with state := .asserted, call := some ⟨true, .pirq, .asserted⟩ }
    else { x with state := .pending }
  else x

def lintrDeassert : Device :=
  if x.state = .asserted then { x with state := .idle, call := some ⟨false, .pirq, .idle⟩ }
  else if x.state = .pending then { x with state := .idle }
  else x

def lintrUpdate : Device :=
  if x.state = .asserted ∧ !x.permitted then { x with call := some ⟨false, .pirq, .pending⟩ }
  else if x.state = .pending ∧ x.permitted then
    { x with state := .asserted, call := some ⟨true, .pirq, .asserted⟩ }
  else x

/-- The lock of the device is released. -/
def Device.finish (c : Call) : Device := { x with state := c.next, call := none }

end Device

def pirqValidIrq (reg : BitVec 8) : Bool :=
  if reg &&& pirqDis ≠ 0 then false else permittedIrqs.getLsbD (reg &&& pirqIrqBits).toNat

def pirqIrq (reg : BitVec 8) : ℕ := (reg &&& pirqIrqBits).toNat

variable {ι : Type} {c : Call} {p : Fin 8} {k : ℤ} {state : LintrState}

section World

variable (w : World ι)

def World.setDev [DecidableEq ι] (d : ι) (x : Device) : World ι := { w with dev := update w.dev d x }

def World.setPirq (p : Fin 8) (x : Pirq) : World ι := { w with pirq := update w.pirq p x }

def World.sendIoapic (irq : ℕ) (k : ℤ) : World ι :=
  { w with ioapic := update w.ioapic irq (w.ioapic irq + k) }

/-- Nothing is sent to the I/O APIC when its pin is given as `-1`. -/
def World.sendIsa (atpicIrq : ℕ) (ioapicIrq : Option ℕ) (k : ℤ) : World ι :=
  let w := { w with isa := update w.isa atpicIrq (w.isa atpicIrq + k) }
  match ioapicIrq with
  | none => w
  | some irq => w.sendIoapic irq k

def World.ioapicAssertIrq (irq : ℕ) : World ι := w.sendIoapic irq 1
def World.ioapicDeassertIrq (irq : ℕ) : World ι := w.sendIoapic irq (-1)
def World.isaAssertIrq (atpicIrq : ℕ) (ioapicIrq : Option ℕ) : World ι :=
  w.sendIsa atpicIrq ioapicIrq 1
def World.isaDeassertIrq (atpicIrq : ℕ) (ioapicIrq : Option ℕ) : World ι :=
  w.sendIsa atpicIrq ioapicIrq (-1)

/-- The part of `pci_irq_assert` under the lock of the PIRQ. Also tells whether the call is over. -/
def World.irqAssert (r : Route) : World ι × Bool :=
  match r.pirqPin with
  | none => (w, false)
  | some p =>
    let pirq := w.pirq p
    let pirq := { pirq with activeCount := pirq.activeCount + 1 }
    let w := w.setPirq p pirq
    if pirq.activeCount = 1 ∧ pirqValidIrq pirq.reg then
      (w.isaAssertIrq (pirqIrq pirq.reg) (some r.ioapicIrq), true)
    else (w, false)

/-- The same part of `pci_irq_deassert`. -/
def World.irqDeassert (r : Route) : World ι × Bool :=
  match r.pirqPin with
  | none => (w, false)
  | some p =>
    let pirq := w.pirq p
    let pirq := { pirq with activeCount := pirq.activeCount - 1 }
    let w := w.setPirq p pirq
    if pirq.activeCount = 0 ∧ pirqValidIrq pirq.reg then
      (w.isaDeassertIrq (pirqIrq pirq.reg) (some r.ioapicIrq), true)
    else (w, false)

def World.pirqWrite (p : Fin 8) (val : BitVec 8) : World ι :=
  let pirq := w.pirq p
  let reg := val &&& (pirqDis ||| pirqIrqBits)
  if pirq.reg ≠ reg then
    let w := if pirq.activeCount ≠ 0 ∧ pirqValidIrq pirq.reg then
      w.isaDeassertIrq (pirqIrq pirq.reg) none else w
    let w := w.setPirq p { pirq with reg := reg }
    if pirq.activeCount ≠ 0 ∧ pirqValidIrq reg then w.isaAssertIrq (pirqIrq reg) none else w
  else w

end World

/-- One critical section of a call, or a write of the guest. -/
inductive Action (ι : Type)
  | lintrAssert (d : ι)
  | lintrDeassert (d : ι)
  /-- the guest changes a bit that INTx depends on; an update follows -/
  | cfgWrite (d : ι) (msi msix intxDis : Bool)
  | lintrUpdate (d : ι)
  /-- a call goes through the lock of its PIRQ -/
  | pirq (d : ι)
  /-- a call sends what is left to the I/O APIC and ends -/
  | ioapic (d : ι)
  | pirqWrite (p : Fin 8) (val : BitVec 8)

/-- Why an action has to wait. -/
inductive Wait
  /-- a thread holds the lock of the device -/
  | locked
  | notDue
  deriving DecidableEq, Repr

section Step

variable [DecidableEq ι] (route : ι → Route) (w : World ι)

/-- A thread takes the lock of the device. -/
def World.enter (d : ι) (f : Device → Device) : Except Wait (World ι) :=
  if (w.dev d).call.isSome then .error .locked else .ok (w.setDev d (f (w.dev d)))

def World.passPirq (d : ι) (c : Call) : World ι :=
  let (w, done) := if c.up then w.irqAssert (route d) else w.irqDeassert (route d)
  if done then w.setDev d ((w.dev d).finish c)
  else w.setDev d { w.dev d with call := some { c with stage := .ioapic } }

def World.passIoapic (d : ι) (c : Call) : World ι :=
  let irq := (route d).ioapicIrq
  let w := if c.up then w.ioapicAssertIrq irq else w.ioapicDeassertIrq irq
  w.setDev d ((w.dev d).finish c)

def step : Action ι → Except Wait (World ι)
  | .lintrAssert d => w.enter d lintrAssert
  | .lintrDeassert d => w.enter d lintrDeassert
  | .cfgWrite d msi msix intxDis =>
    .ok (w.setDev d { w.dev d with msi := msi, msix := msix, intxDis := intxDis, due := (w.dev d).due + 1 })
  | .lintrUpdate d =>
    if (w.dev d).due = 0 then .error .notDue
    else w.enter d fun x => lintrUpdate { x with due := x.due - 1 }
  | .pirq d =>
    match (w.dev d).call with
    | some c => if c.stage = .pirq then .ok (w.passPirq route d c) else .error .notDue
    | none => .error .notDue
  | .ioapic d =>
    match (w.dev d).call with
    | some c => if c.stage = .ioapic then .ok (w.passIoapic route d c) else .error .notDue
    | none => .error .notDue
  | .pirqWrite p val => .ok (w.pirqWrite p val)

end Step

/-- The devices at rest, with any routing registers and any of the three bits set. -/
def start {ι : Type} (reg : Fin 8 → BitVec 8) (bits : ι → Bool × Bool × Bool) : World ι where
  dev d := ⟨.idle, (bits d).1, (bits d).2.1, (bits d).2.2, none, 0⟩
  pirq p := ⟨reg p, 0⟩
  isa _ := 0
  ioapic _ := 0

attribute [local simp] start

/-- The PIRQ pin raises the ISA IRQ. -/
def Pirq.drives (x : Pirq) (irq : ℕ) : Bool :=
  decide (0 < x.activeCount) && pirqValidIrq x.reg && decide (pirqIrq x.reg = irq)

/-- No thread is inside a call for the device or owes it one. -/
def Device.quiet (x : Device) : Prop := x.call = none ∧ x.due = 0

/-- What the interrupt controllers were told fits the devices and the router. -/
structure Consistent {ι : Type} [Fintype ι] (route : ι → Route) (w : World ι) : Prop where
  asserted : ∀ d, (w.dev d).quiet → (w.dev d).state = .asserted → (w.dev d).permitted = true
  pending : ∀ d, (w.dev d).quiet → (w.dev d).state = .pending → (w.dev d).permitted = false
  /-- as soon as no call for a device on the pin is on its way -/
  ioapic : ∀ irq, (∀ d, (route d).ioapicIrq = irq → (w.dev d).call = none) →
    w.ioapic irq = count fun d => decide ((route d).ioapicIrq = irq) && decide ((w.dev d).state = .asserted)
  isa : ∀ irq, w.isa irq = count fun p => (w.pirq p).drives irq

variable {x : Device} {w w' : World ι} {r : Route}

/-- The device counts in `active_count`. -/
def Device.holdsPirq (x : Device) : Bool :=
  match x.call with
  | none => x.state = .asserted
  | some c => if c.stage = .pirq then !c.up else c.up

/-- The device has its assert outstanding at the I/O APIC. -/
def Device.holdsIoapic (x : Device) : Bool :=
  match x.call with
  | none => x.state = .asserted
  | some c => !c.up

/-- The state once the call is over. -/
def Device.settled (x : Device) : LintrState := (x.call.map Call.next).getD x.state

/-- The state is one that the bits allow. -/
def Device.Fits (x : Device) (state : LintrState) : Prop :=
  (state = .asserted → x.permitted = true) ∧ (state = .pending → x.permitted = false)

attribute [local simp] Device.Fits

/-- A call ends asserted exactly when it asserts, and the end fits the bits unless an update is due. -/
structure Device.Wf (x : Device) : Prop where
  call : ∀ c, x.call = some c → (c.up = true ↔ c.next = .asserted)
  fits : x.due = 0 → x.Fits x.settled

/-- What a thread may do to a device on entry. -/
structure Entered (x y : Device) : Prop where
  wf : y.Wf
  pirq : y.holdsPirq = x.holdsPirq
  ioapic : y.holdsIoapic = x.holdsIoapic

/-- The thread goes on to the router. -/
theorem entered_call {next : LintrState} {up : Bool} (hc : x.call = none)
    (hup : up = true ↔ next = .asserted) (hheld : up = true ↔ x.state ≠ .asserted)
    (hfits : x.Fits next) :
    Entered x { x with state := state, call := some ⟨up, .pirq, next⟩ } := by
  have hnot : (!up) = decide (x.state = .asserted) := by
    cases up <;> simp_all
  refine ⟨⟨?_, fun _ => hfits⟩, ?_, ?_⟩
  · rintro c ⟨⟩
    exact hup
  · simpa [Device.holdsPirq, hc] using hnot
  · simpa [Device.holdsIoapic, hc] using hnot

/-- The thread has nothing to tell the router. -/
theorem entered_still (hc : x.call = none) (hs : x.state ≠ .asserted) (hstate : state ≠ .asserted)
    (hfits : x.Fits state) : Entered x { x with state := state } := by
  refine ⟨⟨?_, ?_⟩, ?_, ?_⟩
  · intro c hcall
    rw [hc] at hcall
    cases hcall
  · intro _
    have hsettled : { x with state := state }.settled = state := by
      simp [Device.settled, hc]
    rw [hsettled]
    exact hfits
  · simp [Device.holdsPirq, hc, hs, hstate]
  · simp [Device.holdsIoapic, hc, hs, hstate]

theorem entered_lintrAssert (h : x.Wf) (hc : x.call = none) : Entered x (lintrAssert x) := by
  unfold lintrAssert
  split_ifs with hs hp
  · exact entered_call hc (by simp) (by simp [hs]) (by simp [hp])
  · exact entered_still hc (by simp [hs]) (by simp) (by simp [hp])
  · exact ⟨h, rfl, rfl⟩

theorem entered_lintrDeassert (h : x.Wf) (hc : x.call = none) : Entered x (lintrDeassert x) := by
  unfold lintrDeassert
  split_ifs with hs hp
  · exact entered_call hc (by simp) (by simp [hs]) (by simp)
  · exact entered_still hc (by simp [hp]) (by simp) (by simp)
  · exact ⟨h, rfl, rfl⟩

/-- An update brings the state in line with the bits, whatever it finds. -/
theorem entered_lintrUpdate (hc : x.call = none) : Entered x (lintrUpdate x) := by
  unfold lintrUpdate
  split_ifs with hs hp
  · exact entered_call hc (by simp) (by simp [hs.1]) (by simpa using hs.2)
  · exact entered_call hc (by simp) (by simp [hp.1]) (by simp [hp.2])
  · refine ⟨⟨fun c hcall => ?_, fun _ => ?_⟩, rfl, rfl⟩
    · rw [hc] at hcall
      cases hcall
    · have hsettled : x.settled = x.state := by simp [Device.settled, hc]
      rw [hsettled]
      simp only [not_and, Bool.not_eq_true', Bool.not_eq_false, Bool.not_eq_true] at hs hp
      exact ⟨hs, hp⟩

theorem wf_finish (h : x.Wf) (hc : x.call = some c) : (x.finish c).Wf := by
  constructor
  · intro d hd
    cases hd
  · intro hdue
    have hfits := h.fits hdue
    rw [Device.settled, hc] at hfits
    exact hfits

theorem holdsPirq_finish (h : x.Wf) (hc : x.call = some c) : (x.finish c).holdsPirq = c.up := by
  have := h.call c hc
  cases hu : c.up <;> simp_all [Device.holdsPirq, Device.finish]

theorem holdsIoapic_finish (h : x.Wf) (hc : x.call = some c) : (x.finish c).holdsIoapic = c.up := by
  have := h.call c hc
  cases hu : c.up <;> simp_all [Device.holdsIoapic, Device.finish]

@[simp] theorem setDev_dev [DecidableEq ι] (d : ι) (x : Device) :
    (w.setDev d x).dev = update w.dev d x := rfl

@[simp] theorem setDev_pirq [DecidableEq ι] (d : ι) (x : Device) : (w.setDev d x).pirq = w.pirq := rfl

@[simp] theorem setDev_ioapic [DecidableEq ι] (d : ι) (x : Device) : (w.setDev d x).ioapic = w.ioapic := rfl

theorem sendIoapic_ioapic (irq : ℕ) (k : ℤ) (n : ℕ) :
    (w.sendIoapic irq k).ioapic n = w.ioapic n + if n = irq then k else 0 := by
  by_cases h : n = irq
  · subst h
    simp [World.sendIoapic]
  · simp [World.sendIoapic, h]

theorem sendIsa_isa (irq : ℕ) (o : Option ℕ) (k : ℤ) (n : ℕ) :
    (w.sendIsa irq o k).isa n = w.isa n + if n = irq then k else 0 := by
  have h : (w.sendIsa irq o k).isa = update w.isa irq (w.isa irq + k) := by
    cases o <;> rfl
  rw [h]
  by_cases hn : n = irq
  · subst hn
    simp
  · simp [hn]

@[simp] theorem sendIsa_pirq (irq : ℕ) (o : Option ℕ) (k : ℤ) : (w.sendIsa irq o k).pirq = w.pirq := by
  cases o <;> rfl

@[simp] theorem sendIsa_dev (irq : ℕ) (o : Option ℕ) (k : ℤ) : (w.sendIsa irq o k).dev = w.dev := by
  cases o <;> rfl

/-- Each ISA IRQ is asserted once for every PIRQ pin that raises it. -/
def Routed (w : World ι) : Prop := ∀ irq, w.isa irq = count fun p => (w.pirq p).drives irq

/-- A change of one PIRQ is answered by what it raised before and what it raises now. -/
theorem Routed.change (h : Routed w) (hp : ∀ q, q ≠ p → w'.pirq q = w.pirq q)
    (hisa : ∀ irq, w'.isa irq = w.isa irq - bit ((w.pirq p).drives irq) + bit ((w'.pirq p).drives irq)) :
    Routed w' := by
  intro irq
  rw [hisa, h]
  refine (count_change
    (q := fun q => (w'.pirq q).drives irq) fun q hq => ?_).symm
  rw [hp q hq]

theorem bit_drives (x : Pirq) (irq : ℕ) : bit (x.drives irq) =
      if 0 < x.activeCount ∧ pirqValidIrq x.reg = true then if irq = pirqIrq x.reg then 1 else 0 else 0 := by
  by_cases ha : 0 < x.activeCount <;> by_cases hv : pirqValidIrq x.reg = true <;>
    by_cases hi : irq = pirqIrq x.reg <;> simp [Pirq.drives, bit, ha, hv, hi, eq_comm]

/-- What `pci_irq_assert` or `pci_irq_deassert` does under the lock of the PIRQ. -/
structure Passed (w w' : World ι) (r : Route) (k : ℤ) (done : Bool) : Prop where
  dev : w'.dev = w.dev
  active : ∀ q, (w'.pirq q).activeCount = (w.pirq q).activeCount + if r.pirqPin = some q then k else 0
  ioapic : ∀ irq, w'.ioapic irq = w.ioapic irq + if done = true ∧ irq = r.ioapicIrq then k else 0
  isa : Routed w → Routed w'

theorem passed_none (k : ℤ) (h : r.pirqPin = none) : Passed w w r k false :=
  ⟨rfl, by simp [h], by simp, id⟩

theorem active_setPirq (k : ℤ) (h : r.pirqPin = some p) (q : Fin 8) :
    ((w.setPirq p { w.pirq p with activeCount := (w.pirq p).activeCount + k }).pirq q).activeCount =
      (w.pirq q).activeCount + if r.pirqPin = some q then k else 0 := by
  by_cases hq : q = p
  · subst hq
    simp [World.setPirq, h]
  · simp [World.setPirq, h, update_of_ne hq, Ne.symm hq]

/-- The count moves, and the lines are told if that starts or stops the pin. -/
theorem passed_move (hpin : r.pirqPin = some p)
    (hlevel : pirqValidIrq (w.pirq p).reg = true → (0 < (w.pirq p).activeCount + k ↔ 0 < (w.pirq p).activeCount)) :
    Passed w (w.setPirq p { w.pirq p with activeCount := (w.pirq p).activeCount + k }) r k false := by
  refine ⟨rfl, active_setPirq k hpin, by simp [World.setPirq], fun h => ?_⟩
  refine h.change (p := p) (fun q hq => by simp [World.setPirq, update_of_ne hq]) fun irq => ?_
  simp only [World.setPirq, update_self, bit_drives]
  by_cases hv : pirqValidIrq (w.pirq p).reg = true
  · simp only [hlevel hv]
    ring
  · simp [hv]

theorem passed_edge (hpin : r.pirqPin = some p) (hvalid : pirqValidIrq (w.pirq p).reg = true)
    (hedge : k = (if 0 < (w.pirq p).activeCount + k then 1 else 0) - if 0 < (w.pirq p).activeCount then 1 else 0) :
    Passed w ((w.setPirq p { w.pirq p with activeCount := (w.pirq p).activeCount + k }).sendIsa
      (pirqIrq (w.pirq p).reg) (some r.ioapicIrq) k) r k true := by
  refine ⟨by simp [World.setPirq], ?_, ?_, fun h => ?_⟩
  · intro q
    exact active_setPirq k hpin q
  · intro irq
    rw [World.sendIsa, sendIoapic_ioapic]
    simp [World.setPirq]
  · refine h.change (p := p) (fun q hq => by simp [World.setPirq, update_of_ne hq]) fun irq => ?_
    rw [sendIsa_isa]
    simp only [sendIsa_pirq, World.setPirq, update_self, bit_drives, hvalid, and_true]
    by_cases hi : irq = pirqIrq (w.pirq p).reg
    · simp only [hi, if_true]
      omega
    · simp [hi]

theorem passed_irqAssert (h : ∀ p, r.pirqPin = some p → 0 ≤ (w.pirq p).activeCount) :
    Passed w (w.irqAssert r).1 r 1 (w.irqAssert r).2 := by
  unfold World.irqAssert
  cases hpin : r.pirqPin with
  | none => exact passed_none 1 hpin
  | some p =>
    have hnonneg := h p hpin
    dsimp only
    split_ifs with hedge
    · refine passed_edge hpin hedge.2 ?_
      rw [if_pos (by omega), if_neg (by omega)]
      rfl
    · refine passed_move hpin fun hv => ?_
      have hcount : (w.pirq p).activeCount + 1 ≠ 1 := fun hcon => hedge ⟨hcon, hv⟩
      omega

theorem passed_irqDeassert (h : ∀ p, r.pirqPin = some p → 0 < (w.pirq p).activeCount) :
    Passed w (w.irqDeassert r).1 r (-1) (w.irqDeassert r).2 := by
  unfold World.irqDeassert
  cases hpin : r.pirqPin with
  | none => exact passed_none (-1) hpin
  | some p =>
    have hpos := h p hpin
    dsimp only
    split_ifs with hedge
    · refine passed_edge hpin hedge.2 ?_
      rw [if_neg (by omega), if_pos hpos]
      rfl
    · refine passed_move hpin fun hv => ?_
      have hcount : (w.pirq p).activeCount - 1 ≠ 0 := fun hcon => hedge ⟨hcon, hv⟩
      omega

/-- What a write to the routing register tells the lines before or after the change. -/
theorem line_isa {x : Pirq} (hx : 0 ≤ x.activeCount) (irq : ℕ) :
    (if x.activeCount ≠ 0 ∧ pirqValidIrq x.reg = true then
      w.sendIsa (pirqIrq x.reg) none k else w).isa irq = w.isa irq + k * bit (x.drives irq) := by
  rw [bit_drives]
  have hpos : x.activeCount ≠ 0 ↔ 0 < x.activeCount := by omega
  simp only [hpos]
  split_ifs with hc hi
  all_goals simp [sendIsa_isa, *]

/-- A reroute moves what the pin raises from the old IRQ to the new one. -/
theorem routed_pirqWrite {val : BitVec 8} (h : Routed w) (ha : 0 ≤ (w.pirq p).activeCount) :
    Routed (w.pirqWrite p val) := by
  by_cases hreg : (w.pirq p).reg ≠ val &&& (pirqDis ||| pirqIrqBits)
  · let new : Pirq := { w.pirq p with reg := val &&& (pirqDis ||| pirqIrqBits) }
    let v := if (w.pirq p).activeCount ≠ 0 ∧ pirqValidIrq (w.pirq p).reg = true then
      w.sendIsa (pirqIrq (w.pirq p).reg) none (-1) else w
    have hwrite : w.pirqWrite p val = if new.activeCount ≠ 0 ∧ pirqValidIrq new.reg = true then
        (v.setPirq p new).sendIsa (pirqIrq new.reg) none 1 else v.setPirq p new := by
      rw [World.pirqWrite, if_pos hreg]
      rfl
    have hv : v.pirq = w.pirq := by
      simp only [v]
      split_ifs <;> simp
    have hpirq : (w.pirqWrite p val).pirq = update w.pirq p new := by
      rw [hwrite]
      split_ifs <;> simp [World.setPirq, hv]
    refine h.change (fun q hq => by rw [hpirq, update_of_ne hq]) fun irq => ?_
    rw [hpirq, update_self, hwrite, line_isa (x := new) ha]
    have hold : (v.setPirq p new).isa irq = w.isa irq + -1 * bit ((w.pirq p).drives irq) :=
      line_isa ha irq
    rw [hold]
    ring
  · rw [World.pirqWrite, if_neg hreg]
    exact h

theorem pirqWrite_frame (p : Fin 8) (val : BitVec 8) :
    (w.pirqWrite p val).dev = w.dev ∧ (w.pirqWrite p val).ioapic = w.ioapic ∧
      ∀ q, ((w.pirqWrite p val).pirq q).activeCount = (w.pirq q).activeCount := by
  have hset : ∀ (v : World ι) (reg : BitVec 8) (q : Fin 8), v.pirq = w.pirq →
      ((v.setPirq p { w.pirq p with reg := reg }).pirq q).activeCount = (w.pirq q).activeCount := by
    intro v reg q hv
    by_cases hq : q = p
    · subst hq
      simp [World.setPirq]
    · simp [World.setPirq, update_of_ne hq, hv]
  unfold World.pirqWrite
  dsimp only
  split_ifs
  all_goals first
    | exact ⟨rfl, rfl, fun q => hset _ _ q rfl⟩
    | exact ⟨rfl, rfl, fun q => rfl⟩

section Invariant

variable [Fintype ι] {route : ι → Route}

/-- The counts are those of the devices that hold the pins. -/
structure Inv (route : ι → Route) (w : World ι) : Prop where
  wf : ∀ d, (w.dev d).Wf
  active : ∀ p, (w.pirq p).activeCount =
    count fun d => decide ((route d).pirqPin = some p) && (w.dev d).holdsPirq
  ioapic : ∀ irq, w.ioapic irq =
    count fun d => decide ((route d).ioapicIrq = irq) && (w.dev d).holdsIoapic
  isa : Routed w

variable {d : ι} {y : Device}

/-- A device changes, and the counts with it. -/
theorem Inv.move (h : Inv route w) (hdev : ∀ e, e ≠ d → w'.dev e = w.dev e) (hwf : (w'.dev d).Wf)
    (hactive : ∀ p, (w'.pirq p).activeCount = (w.pirq p).activeCount +
      if (route d).pirqPin = some p then bit (w'.dev d).holdsPirq - bit (w.dev d).holdsPirq else 0)
    (hioapic : ∀ irq, w'.ioapic irq = w.ioapic irq +
      if (route d).ioapicIrq = irq then bit (w'.dev d).holdsIoapic - bit (w.dev d).holdsIoapic else 0)
    (hisa : Routed w') : Inv route w' := by
  refine ⟨fun e => ?_, fun p => ?_, fun irq => ?_, hisa⟩
  · by_cases he : e = d
    · rw [he]
      exact hwf
    · rw [hdev e he]
      exact h.wf e
  · rw [hactive, h.active, count_change
      (q := fun e => decide ((route e).pirqPin = some p) && (w'.dev e).holdsPirq)
      (fun e he => by rw [hdev e he])]
    by_cases hp : (route d).pirqPin = some p
    · simp [hp]
      ring
    · simp [hp]
  · rw [hioapic, h.ioapic, count_change
      (q := fun e => decide ((route e).ioapicIrq = irq) && (w'.dev e).holdsIoapic)
      (fun e he => by rw [hdev e he])]
    by_cases hi : (route d).ioapicIrq = irq
    · simp [hi]
      ring
    · simp [hi]

theorem Inv.active_nonneg (h : Inv route w) (p : Fin 8) : 0 ≤ (w.pirq p).activeCount := by
  rw [h.active]
  exact Int.natCast_nonneg _

theorem bit_sub_bit_not (b : Bool) : bit b - bit (!b) = if b then 1 else -1 := by
  cases b <;> rfl

theorem inv_start (reg : Fin 8 → BitVec 8) (bits : ι → Bool × Bool × Bool) :
    Inv route (start reg bits) where
  wf d := by
    refine ⟨fun c hc => ?_, fun _ => ⟨fun hs => ?_, fun hs => ?_⟩⟩
    · cases hc
    · cases hs
    · cases hs
  active p := (count_eq_zero fun d => by simp [Device.holdsPirq]).symm
  ioapic irq := (count_eq_zero fun d => by simp [Device.holdsIoapic]).symm
  isa irq := (count_eq_zero fun p => by simp [Pirq.drives]).symm

theorem Inv.consistent (h : Inv route w) : Consistent route w := by
  have hsettled : ∀ d, (w.dev d).quiet → (w.dev d).Fits (w.dev d).state := by
    intro d hq
    have hfits := (h.wf d).fits hq.2
    rw [Device.settled, hq.1] at hfits
    exact hfits
  refine ⟨fun d hq => (hsettled d hq).1, fun d hq => (hsettled d hq).2, fun irq hcalls => ?_, h.isa⟩
  rw [h.ioapic]
  congr 1
  funext d
  by_cases hd : (route d).ioapicIrq = irq
  · simp [hd, Device.holdsIoapic, hcalls d hd]
  · simp [hd]

variable [DecidableEq ι]

section

variable (h : Inv route w)

include h

theorem Inv.enter (he : Entered (w.dev d) y) : Inv route (w.setDev d y) := by
  refine h.move (d := d) (fun e hne => by simp [hne]) (by simpa using he.wf) (fun p => ?_) (fun irq => ?_)
    h.isa
  · simp [he.pirq]
  · simp [he.ioapic]

/-- The router and the lines follow the device. -/
theorem Inv.pass {done : Bool} (hp : Passed w w' (route d) k done)
    (hwf : y.Wf) (hpirq : bit y.holdsPirq - bit (w.dev d).holdsPirq = k)
    (hioapic : bit y.holdsIoapic - bit (w.dev d).holdsIoapic = if done = true then k else 0) :
    Inv route (w'.setDev d y) := by
  refine h.move (d := d) (fun e hne => by simp [hne, hp.dev]) (by simpa using hwf) (fun p => ?_) (fun irq => ?_)
    (hp.isa h.isa)
  · simp [hp.active, hpirq]
  · simp only [setDev_ioapic, hp.ioapic, setDev_dev, update_self, hioapic]
    by_cases hi : irq = (route d).ioapicIrq <;> simp [hi, eq_comm]

/-- A call passes the lock of its PIRQ. -/
theorem Inv.passPirq (hc : (w.dev d).call = some c) (hstage : c.stage = .pirq) :
    Inv route (w.passPirq route d c) := by
  have hheld : (w.dev d).holdsPirq = !c.up := by simp [Device.holdsPirq, hc, hstage]
  have hline : (w.dev d).holdsIoapic = !c.up := by simp [Device.holdsIoapic, hc]
  have hpassed : ∃ w' done, (if c.up then w.irqAssert (route d) else w.irqDeassert (route d)) = (w', done) ∧
      Passed w w' (route d) (if c.up then 1 else -1) done := by
    cases hup : c.up with
    | true => exact ⟨_, _, rfl, passed_irqAssert fun p _ => h.active_nonneg p⟩
    | false =>
      refine ⟨_, _, rfl, passed_irqDeassert fun p hp => ?_⟩
      rw [h.active]
      exact count_pos (a := d) (by simp [hp, hheld, hup])
  obtain ⟨w', done, heq, hpass⟩ := hpassed
  have hdev : w'.dev d = w.dev d := by rw [hpass.dev]
  rw [World.passPirq, heq]
  dsimp only
  cases hd : done with
  | true =>
    -- the ISA line was told together with the I/O APIC
    rw [hdev]
    refine h.pass hpass (wf_finish (h.wf d) hc) ?_ ?_
    · rw [holdsPirq_finish (h.wf d) hc, hheld, bit_sub_bit_not]
    · rw [holdsIoapic_finish (h.wf d) hc, hline, bit_sub_bit_not, hd, if_pos rfl]
  | false =>
    rw [hdev]
    refine h.pass hpass ⟨?_, fun hdue => ?_⟩ ?_ ?_
    · rintro c' ⟨⟩
      exact (h.wf d).call c hc
    · have hfits := (h.wf d).fits hdue
      rw [Device.settled, hc] at hfits
      exact hfits
    · rw [hheld]
      exact bit_sub_bit_not c.up
    · rw [hline, hd]
      exact sub_self _

theorem Inv.passIoapic (hc : (w.dev d).call = some c) (hstage : c.stage = .ioapic) :
    Inv route (w.passIoapic route d c) := by
  have hheld : (w.dev d).holdsPirq = c.up := by simp [Device.holdsPirq, hc, hstage]
  have hline : (w.dev d).holdsIoapic = !c.up := by simp [Device.holdsIoapic, hc]
  have hsent : (if c.up then w.ioapicAssertIrq (route d).ioapicIrq
      else w.ioapicDeassertIrq (route d).ioapicIrq) =
      w.sendIoapic (route d).ioapicIrq (if c.up then 1 else -1) := by
    cases c.up <;> rfl
  rw [World.passIoapic, hsent]
  refine h.move (d := d) (fun e hne => by simp [hne, World.sendIoapic]) ?_ (fun p => ?_) (fun irq => ?_) h.isa
  · rw [setDev_dev, update_self]
    exact wf_finish (h.wf d) hc
  · simp [World.sendIoapic, holdsPirq_finish (h.wf d) hc, hheld]
  · rw [setDev_dev, update_self, setDev_ioapic, sendIoapic_ioapic]
    simp only [World.sendIoapic, holdsIoapic_finish (h.wf d) hc, hline, bit_sub_bit_not, eq_comm]

theorem Inv.enterWith {f : Device → Device} (hs : w.enter d f = .ok w')
    (hf : (w.dev d).call = none → Entered (w.dev d) (f (w.dev d))) :
    Inv route w' := by
  rw [World.enter] at hs
  split_ifs at hs with hc
  cases hs
  exact h.enter (hf (by simpa using hc))

theorem Inv.step {a : Action ι} (hs : step route w a = .ok w') : Inv route w' := by
  cases a with
  | lintrAssert d => exact h.enterWith hs (entered_lintrAssert (h.wf d))
  | lintrDeassert d => exact h.enterWith hs (entered_lintrDeassert (h.wf d))
  | cfgWrite d msi msix intxDis =>
    cases hs
    -- the state may not fit the new bits, but an update is due
    refine h.enter ⟨⟨(h.wf d).call, fun hdue => ?_⟩, rfl, rfl⟩
    cases hdue
  | lintrUpdate d =>
    simp only [Intx.step] at hs
    split_ifs at hs
    refine h.enterWith hs fun hc => ?_
    have he := entered_lintrUpdate (x := { w.dev d with due := (w.dev d).due - 1 }) hc
    exact { he with }
  | pirq d =>
    simp only [Intx.step] at hs
    split at hs
    · split_ifs at hs with hstage
      cases hs
      exact h.passPirq ‹_› hstage
    · cases hs
  | ioapic d =>
    simp only [Intx.step] at hs
    split at hs
    · split_ifs at hs with hstage
      cases hs
      exact h.passIoapic ‹_› hstage
    · cases hs
  | pirqWrite p val =>
    cases hs
    obtain ⟨hdev, hioapic, hactive⟩ := pirqWrite_frame p val
    refine ⟨fun d => ?_, fun q => ?_, fun irq => ?_, routed_pirqWrite h.isa (h.active_nonneg p)⟩
    · rw [hdev]
      exact h.wf d
    · rw [hactive, hdev]
      exact h.active q
    · rw [hioapic, hdev]
      exact h.ioapic irq

end

/-- The active count of a PIRQ is always the number of devices that hold it. -/
theorem active_exact {reg : Fin 8 → BitVec 8} {bits : ι → Bool × Bool × Bool} {as : List (Action ι)}
    (h : Run (step route) Any (start reg bits) as w) (p : Fin 8) :
    (w.pirq p).activeCount = count fun d => decide ((route d).pirqPin = some p) && (w.dev d).holdsPirq := by
  refine Inv.active (h.invariant ?_ (inv_start reg bits)) p
  exact fun _ _ _ _ hs hi => hi.step hs

end Invariant

/-- In every state that the devices, the vCPUs and the guest's writes reach in any order. -/
theorem intx_consistent {ι : Type} [DecidableEq ι] [Fintype ι] (route : ι → Route)
    (reg : Fin 8 → BitVec 8) (bits : ι → Bool × Bool × Bool) {as : List (Action ι)} {w : World ι}
    (h : Run (step route) Any (start reg bits) as w) : Consistent route w := by
  refine Inv.consistent (h.invariant ?_ (inv_start reg bits))
  intro s a t _ hs hi
  exact hi.step hs

/-- Two devices on one pin, routed to IRQ 5. -/
def sharedRoute (_ : Fin 2) : Route := ⟨some 0, 16⟩

/-- Both assert; the guest moves the PIRQ to IRQ 10 and turns the interrupt of the first device off. -/
def sharedRun : List (Action (Fin 2)) :=
  [.lintrAssert 0, .pirq 0, .lintrAssert 1, .pirq 1, .pirqWrite 0 0x0a, .ioapic 1, .cfgWrite 0 false false true,
    .lintrUpdate 0, .pirq 0, .ioapic 0]

def sharedStart : World (Fin 2) := start (fun _ => 5) fun _ => (false, false, false)

theorem intx_consistent_shared : ∃ w, Run (step sharedRoute) Any sharedStart sharedRun w ∧
    Consistent sharedRoute w ∧ (w.dev 0).state = .pending ∧ (w.dev 1).state = .asserted ∧
    w.ioapic 16 = 1 ∧ w.isa 5 = 0 ∧ w.isa 10 = 1 := by
  have hrun : Run (step sharedRoute) Any sharedStart sharedRun _ :=
    run_of_isOk (d := sharedStart) rfl
  refine ⟨_, hrun, intx_consistent _ _ _ hrun, ?_, ?_, ?_, ?_, ?_⟩
  all_goals decide +kernel

theorem active_exact_shared : ∃ w, Run (step sharedRoute) Any sharedStart sharedRun w ∧
    1 = count fun d => (w.dev d).holdsPirq := by
  have hrun : Run (step sharedRoute) Any sharedStart sharedRun _ := run_of_isOk (d := sharedStart) rfl
  exact ⟨_, hrun, active_exact hrun 0⟩

end HyperCog.Intx
