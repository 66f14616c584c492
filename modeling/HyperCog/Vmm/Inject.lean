import HyperCog.Vmm.Exception
import HyperCog.Vmm.Trigger

/-! The injection of one event at a VM entry: what `vmx_inject_interrupts` writes to the VMCS, and which
request it takes for it. -/
namespace HyperCog.Inject

open Machine List BitVec Lapic Exception

def vmcsIntrValid : BitVec 32 := 0x80000000
def vmcsIntrTMask : BitVec 32 := 0x700
def vmcsIntrTHwintr : BitVec 32 := 0x000
def vmcsIntrTNmi : BitVec 32 := 0x200
def vmcsIntrTHwexception : BitVec 32 := 0x300
def vmcsIntrTSwexception : BitVec 32 := 0x600
def vmcsIntrDelErrcode : BitVec 32 := 0x800
def vmcsInterruptibilityStiBlocking : BitVec 32 := 0x1
def vmcsInterruptibilityMovssBlocking : BitVec 32 := 0x2
def vmcsInterruptibilityNmiBlocking : BitVec 32 := 0x8
def nmiBlocking : BitVec 32 :=
  vmcsInterruptibilityNmiBlocking ||| vmcsInterruptibilityMovssBlocking
def hwintrBlocking : BitVec 32 :=
  vmcsInterruptibilityStiBlocking ||| vmcsInterruptibilityMovssBlocking
def apicLvtDmNmi : UInt32 := 0x00000400
def apicLvtDmExtint : UInt32 := 0x00000700
def pslI : BitVec 64 := 0x200
def procbasedIntWindowExiting : BitVec 32 := 0x4
def procbasedNmiWindowExiting : BitVec 32 := 0x400000
def idtNmi : ℕ := 2
def idtBp : ℕ := 3
def idtOf : ℕ := 4

section Pic

/-- What the priority logic of one of the two PICs reads and writes. -/
structure Atpic where
  aeoi : Bool
  rotate : Bool
  sfn : Bool
  irqBase : ℕ
  request : BitVec 8
  service : BitVec 8
  mask : BitVec 8
  smm : Bool
  acnt : ℕ → ℤ
  lowprio : ℕ
  intrRaised : Bool

structure Vatpic where
  master : Atpic
  slave : Atpic
  /-- `elc[0]` -/
  elc : BitVec 8

/-- The pins from the highest to the lowest priority. -/
def Atpic.pins (a : Atpic) : List ℕ := (List.range 8).map fun i => (a.lowprio + 1 + i) % 8

/-- The walk over the pins ends at one in service. -/
def firstPin (serviced ready : BitVec 8) : List ℕ → Option ℕ
  | [] => none
  | pin :: pins =>
    if serviced.getLsbD pin then none
    else if ready.getLsbD pin then some pin
    else firstPin serviced ready pins

def Atpic.highestIrrpin (a : Atpic) : Option ℕ :=
  let serviced := if a.sfn then a.service &&& ~~~0x4 else a.service
  let serviced := if a.smm then 0 else serviced
  firstPin serviced (a.request &&& ~~~a.mask) a.pins

/-- The master's part of `vatpic_notify_intr`. Also tells whether the APICs are notified. -/
def Vatpic.notifyMaster (p : Vatpic) : Vatpic × Bool :=
  if !p.master.intrRaised ∧ p.master.highestIrrpin.isSome then
    ({ p with master := { p.master with intrRaised := true } }, true)
  else (p, false)

/-- `vatpic_set_pinstate` for the pin of the cascade, up to its notification. -/
def Vatpic.setCascade (p : Vatpic) (newstate : Bool) : Vatpic :=
  let oldcnt := p.master.acnt 2
  let newcnt := if newstate then oldcnt + 1 else oldcnt - 1
  let level := p.elc.getLsbD 2
  let request :=
    if oldcnt = 0 ∧ newcnt = 1 ∨ newcnt > 0 ∧ level then p.master.request ||| 0x4
    else if oldcnt = 1 ∧ newcnt = 0 ∧ level then p.master.request &&& ~~~0x4
    else p.master.request
  { p with master := { p.master with
    acnt := Function.update p.master.acnt 2 newcnt
    request := request } }

/-- While the slave is raised, the notifications of the pulse on its pin are the master's part alone. -/
def Vatpic.notifyIntr (p : Vatpic) : Vatpic × Bool :=
  if !p.slave.intrRaised ∧ p.slave.highestIrrpin.isSome then
    let p := { p with slave := { p.slave with intrRaised := true } }
    let (p, n₁) := (p.setCascade true).notifyMaster
    let (p, n₂) := (p.setCascade false).notifyMaster
    let (p, n₃) := p.notifyMaster
    (p, n₁ || n₂ || n₃)
  else p.notifyMaster

def Vatpic.pendingIntr (p : Vatpic) : ℕ :=
  match p.master.highestIrrpin with
  | some 2 => p.slave.irqBase + p.slave.highestIrrpin.getD 7
  | pin => p.master.irqBase + pin.getD 7

def Atpic.pinAccepted (a : Atpic) (pin : ℕ) : Atpic :=
  let a := { a with intrRaised := false }
  let a := if a.acnt pin = 0 then { a with request := a.request &&& ~~~((1 : BitVec 8) <<< pin) } else a
  if a.aeoi then if a.rotate then { a with lowprio := pin } else a
  else { a with service := a.service ||| 1 <<< pin }

def Vatpic.intrAccepted (p : Vatpic) (vector : ℕ) : Vatpic × Bool :=
  let pin := vector % 8
  let p :=
    if vector - pin = p.slave.irqBase then
      { p with slave := p.slave.pinAccepted pin, master := p.master.pinAccepted 2 }
    else { p with master := p.master.pinAccepted pin }
  p.notifyIntr

end Pic

/-- What a write to `VMCS_ENTRY_INTR_INFO` injects, and so which request it is for. -/
inductive Source
  /-- what `vm_entry_intinfo` returned: an exception, or an event whose delivery was interrupted -/
  | entry (info : BitVec 64)
  | nmi
  | extint (vector : ℕ)
  | lapic (vector : ℕ)
  deriving DecidableEq, Repr

/-- VT-x requires #BP and #OF to be injected as software exceptions. -/
def entryInfo (entryinfo : BitVec 64) : BitVec 32 :=
  let info := entryinfo.setWidth 32
  let vector := (info &&& 0xff).toNat
  if vector = idtBp ∨ vector = idtOf then info &&& ~~~vmcsIntrTMask ||| vmcsIntrTSwexception
  else info

def Source.info : Source → BitVec 32
  | .entry info => entryInfo info
  | .nmi => BitVec.ofNat 32 idtNmi ||| vmcsIntrTNmi ||| vmcsIntrValid
  | .extint vector => vmcsIntrTHwintr ||| vmcsIntrValid ||| BitVec.ofNat 32 vector
  | .lapic vector => vmcsIntrTHwintr ||| vmcsIntrValid ||| BitVec.ofNat 32 vector

/-- The VMCS fields, the requests and the interrupt controllers that a call reads and writes. -/
structure Vcpu where
  events : Exception.Vcpu
  nmiPending : Bool
  extintPending : Bool
  lapic : Lapic.Vlapic
  pic : Vatpic
  /-- `APIC_OFFSET_LINT0_LVT` -/
  lint0 : UInt32
  /-- the I/O APIC, the active vCPUs and the local APICs of the others -/
  vm : Ioapic.Vm
  /-- `vmx->state[vcpu].nextrip` -/
  nextrip : BitVec 64
  /-- `vmx->cap[vcpu].proc_ctls` -/
  capProcCtls : BitVec 32
  /-- `VMCS_PRI_PROC_BASED_CTLS` -/
  procCtls : BitVec 32
  rflags : BitVec 64
  interruptibility : BitVec 32
  entryIntrInfo : BitVec 32
  entryExceptionError : BitVec 32
  /-- the writes to `VMCS_ENTRY_INTR_INFO` in the call, the first one first -/
  writes : List Source

inductive Abort
  | events (a : Exception.Abort)
  | lapic (a : Lapic.Abort)
  /-- "entry intinfo is not valid" -/
  | entryNotValid
  /-- "cannot inject pending exception" -/
  | slotTaken
  /-- an assertion of `vmx_inject_nmi`, or the abort of `vm_nmi_clear` -/
  | nmi
  /-- "invalid vector" -/
  | invalidVector
  deriving DecidableEq, Repr

def intrValid (info : BitVec 32) : Bool := info &&& vmcsIntrValid ≠ 0

def orAbort {α ε : Type} (f : ε → Abort) : Except ε α → Except Abort α
  | .ok a => .ok a
  | .error e => .error (f e)

section Calls

variable (s : Vcpu)

def Vcpu.write (e : Source) : Vcpu := { s with entryIntrInfo := e.info, writes := s.writes ++ [e] }

def setWindow (bit : BitVec 32) : Vcpu :=
  if s.capProcCtls &&& bit = 0 then
    { s with capProcCtls := s.capProcCtls ||| bit, procCtls := s.capProcCtls ||| bit }
  else s

def setIntWindowExiting : Vcpu := setWindow s procbasedIntWindowExiting

def setNmiWindowExiting : Vcpu := setWindow s procbasedNmiWindowExiting

/-- The blocking by STI or MOV SS ends when the guest goes on elsewhere. -/
def clearBlocking (guestrip : BitVec 64) : Vcpu :=
  if s.nextrip ≠ guestrip ∧ s.interruptibility &&& hwintrBlocking ≠ 0 then
    { s with interruptibility := s.interruptibility &&& ~~~hwintrBlocking }
  else s

def injectEntry : Except Abort Vcpu := do
  let (events, retinfo) ← orAbort .events (entryIntinfo s.events)
  let s := { s with events := events }
  match retinfo with
  | none => .ok s
  | some entryinfo =>
    if !valid entryinfo then .error .entryNotValid
    else if intrValid s.entryIntrInfo then .error .slotTaken
    else if entryInfo entryinfo &&& vmcsIntrDelErrcode ≠ 0 then
      .ok ({ s with entryExceptionError := (entryinfo >>> 32).setWidth 32 }.write (.entry entryinfo))
    else .ok (s.write (.entry entryinfo))

/-- `vmx_inject_nmi`. -/
def injectNmi : Except Abort Vcpu :=
  if s.interruptibility &&& nmiBlocking ≠ 0 then .error .nmi
  else if intrValid s.entryIntrInfo then .error .nmi
  else if !s.nmiPending then .error .nmi
  else .ok { s.write .nmi with nmiPending := false }

def handleNmi : Except Abort Vcpu :=
  if s.nmiPending then
    if s.interruptibility &&& (hwintrBlocking ||| nmiBlocking) = 0 then
      if !intrValid s.entryIntrInfo then injectNmi s else .ok (setNmiWindowExiting s)
    else .ok (setNmiWindowExiting s)
  else .ok s

/-- RFLAGS.IF, the interruptibility state or an event in the slot keeps a vector back. -/
def cantInject : Bool :=
  s.rflags &&& pslI = 0 ∨ s.interruptibility &&& hwintrBlocking ≠ 0 ∨ intrValid s.entryIntrInfo

/-- `vlapic_fire_lvt` for LINT0. -/
def fireLint0 : Vcpu :=
  let vec := (s.lint0 &&& apicLvtVector).toNat
  let mode := s.lint0 &&& apicLvtDm
  if s.lint0 &&& apicLvtM ≠ 0 then s
  else if mode = apicLvtDmFixed then
    if vec < 16 then { s with lapic := setError s.lapic apicEsrSendIllegalVector }
    else { s with lapic := (setIntrReady s.lapic vec false).1 }
  else if mode = apicLvtDmNmi then { s with nmiPending := true }
  else if mode = apicLvtDmExtint then { s with extintPending := true }
  else s

/-- `lapic_set_local_intr` for LINT0, as far as this vCPU goes: with its local APIC disabled the pin is
INTR. -/
def setLocalIntr : Vcpu :=
  if !s.vm.active s.lapic.vcpuid then s
  else if !enabled s.lapic then { s with extintPending := true }
  else fireLint0 s

def Vcpu.toVm : Ioapic.Vm :=
  { s.vm.setLapic s.lapic.vcpuid s.lapic with
    extintPending := Function.update s.vm.extintPending s.lapic.vcpuid s.extintPending }

/-- `vioapic_pulse_irq` for the input that the PIC is wired to. -/
def pulseIrq : Vcpu :=
  let vm := Ioapic.setIrqstate s.toVm 0 .pulse
  { s with
    vm := vm
    lapic := vm.lapics s.lapic.vcpuid
    extintPending := vm.extintPending s.lapic.vcpuid }

/-- The acceptance by the PIC may post its next interrupt, through LINT0 and the I/O APIC. -/
def injectExtint (vector : ℕ) : Vcpu :=
  let s := { s.write (.extint vector) with extintPending := false }
  let (pic, posted) := s.pic.intrAccepted vector
  let s := { s with pic := pic }
  setIntWindowExiting (if posted then pulseIrq (setLocalIntr s) else s)

def injectLapic (vector : ℕ) : Except Abort Vcpu := do
  let lapic ← orAbort .lapic (intrAccepted s.lapic vector)
  .ok { s.write (.lapic vector) with lapic := lapic }

def handleInterrupt : Except Abort Vcpu :=
  if s.capProcCtls &&& procbasedIntWindowExiting ≠ 0 then .ok s
  else if !s.extintPending then
    match pendingIntr s.lapic with
    | none => .ok s
    | some vector =>
      if vector < 16 ∨ 255 < vector then .error .invalidVector
      else if cantInject s then .ok (setIntWindowExiting s)
      else injectLapic s vector
  else
    let vector := s.pic.pendingIntr
    if 255 < vector then .error .invalidVector
    else if cantInject s then .ok (setIntWindowExiting s)
    else .ok (injectExtint s vector)

def injectInterrupts (guestrip : BitVec 64) : Except Abort Vcpu := do
  let s := clearBlocking { s with writes := [] } guestrip
  let s ← injectEntry s
  let s ← handleNmi s
  handleInterrupt s

end Calls

/-- What a call may have done when it returns. -/
structure Sound (s r : Vcpu) : Prop where
  /-- at most one event is written, into a slot without a valid one -/
  slot : r.writes = [] ∧ r.entryIntrInfo = s.entryIntrInfo ∨
    ∃ e, r.writes = [e] ∧ intrValid s.entryIntrInfo = false ∧ r.entryIntrInfo = e.info
  /-- what `vm_entry_intinfo` takes from the vCPU is written -/
  entry : ∀ info, .entry info ∈ r.writes ↔ ∃ ev, entryIntinfo s.events = .ok (ev, some info)
  /-- the request for an NMI is cleared for the NMI written -/
  nmi : s.nmiPending = true ∧ r.nmiPending = false ↔ .nmi ∈ r.writes
  /-- a vector moves from the IRR to the ISR if it is the one written -/
  moved : ∀ v, s.lapic.irr.test v = true ∧ r.lapic.irr.test v = false ∧ r.lapic.isr.test v = true ↔
    .lapic v ∈ r.writes
  /-- no other request is taken or lost -/
  requests : ∀ v, .lapic v ∉ r.writes → s.lapic.irr.test v = true → r.lapic.irr.test v = true
  inService : (∀ v, .lapic v ∉ r.writes) → r.lapic.isr = s.lapic.isr
  lapic : (∀ v, .lapic v ∉ r.writes ∧ .extint v ∉ r.writes) → r.lapic = s.lapic
  /-- the PIC accepts the vector written -/
  accepted : ∀ v, .extint v ∈ r.writes → s.extintPending = true ∧ v = s.pic.pendingIntr ∧
    r.pic = (s.pic.intrAccepted v).1
  pic : (∀ v, .extint v ∉ r.writes) → r.pic = s.pic ∧ r.extintPending = s.extintPending
  /-- a vector of the local APIC or the PIC is written with RFLAGS.IF set and without a shadow -/
  maskable : ∀ v, .lapic v ∈ r.writes ∨ .extint v ∈ r.writes →
    s.rflags &&& pslI ≠ 0 ∧ r.interruptibility &&& hwintrBlocking = 0
  rflags : r.rflags = s.rflags
  /-- every other external interrupt written is one whose delivery was interrupted -/
  redelivered : ∀ info, .entry info ∈ r.writes → entryInfo info &&& vmcsIntrTMask =
    vmcsIntrTHwintr → info = s.events.exitintinfo
  /-- an NMI that was pending and remains is waited for -/
  nmiWindow : s.nmiPending = true → r.nmiPending = true →
    r.capProcCtls &&& procbasedNmiWindowExiting ≠ 0
  /-- every other is posted by the PIC in accepting the vector written -/
  nmiPosted : s.nmiPending = false → r.nmiPending = true → (∃ v, .extint v ∈ r.writes) ∧
    enabled s.lapic = true ∧ s.lint0 &&& apicLvtM = 0 ∧
    s.lint0 &&& apicLvtDm = apicLvtDmNmi
  /-- and so is an interrupt that could be delivered -/
  intWindow : r.extintPending = true ∨ (pendingIntr r.lapic).isSome = true →
    r.capProcCtls &&& procbasedIntWindowExiting ≠ 0
  /-- the VMCS follows the controls of the vCPU -/
  controls : s.procCtls = s.capProcCtls → r.procCtls = r.capProcCtls

section Fields

theorem intrValid_eq (info : BitVec 32) : intrValid info = info.getLsbD 31 := by
  have h : info &&& vmcsIntrValid = if info.getLsbD 31 then twoPow 32 31 else 0 :=
    and_twoPow info 31
  rw [intrValid, h]
  cases info.getLsbD 31 <;> decide

theorem valid_eq (info : BitVec 64) : valid info = info.getLsbD 31 := by
  have h : info &&& vmIntinfoValid =
      if info.getLsbD 31 then twoPow 64 31 else 0 := and_twoPow info 31
  rw [valid, h]
  cases info.getLsbD 31 <;> decide

theorem intrValid_entryInfo {info : BitVec 64} (h : valid info = true) :
    intrValid (entryInfo info) = true := by
  rw [valid_eq] at h
  rw [intrValid_eq, entryInfo]
  split
  · rw [getLsbD_or, getLsbD_and, getLsbD_setWidth, h]
    decide
  · rw [getLsbD_setWidth, h]
    rfl

theorem type_entryInfo {info : BitVec 64} (h : typeOf info = vmIntinfoHwexception) :
    entryInfo info &&& vmcsIntrTMask ≠ vmcsIntrTHwintr := by
  have htype : info.setWidth 32 &&& vmcsIntrTMask = vmcsIntrTHwexception := by
    have := congrArg (setWidth 32) h
    rwa [typeOf, setWidth_and] at this
  rw [entryInfo]
  split
  · rw [and_or_distrib_right, BitVec.and_assoc,
      show ~~~vmcsIntrTMask &&& vmcsIntrTMask = 0#32 by decide, and_zero]
    decide
  · rw [htype]
    decide

end Fields

variable {s t r : Vcpu}

theorem orAbort_eq_ok {α ε : Type} {f : ε → Abort} {x : Except ε α} {a : α} :
    orAbort f x = .ok a ↔ x = .ok a := by
  cases x <;> simp [orAbort]

theorem injectEntry_eq_ok (h : injectEntry s = .ok t) :
    ∃ ev, (entryIntinfo s.events = .ok (ev, none) ∧ t = { s with events := ev }) ∨
      ∃ info err, entryIntinfo s.events = .ok (ev, some info) ∧
        valid info = true ∧ intrValid s.entryIntrInfo = false ∧
        t = { s with events := ev, entryExceptionError := err }.write (.entry info) := by
  obtain ⟨⟨ev, ret⟩, hev, ht⟩ := bind_eq_ok.mp h
  rw [orAbort_eq_ok] at hev
  refine ⟨ev, ?_⟩
  cases ret with
  | none =>
    cases ht
    exact .inl ⟨hev, rfl⟩
  | some info =>
    dsimp only at ht
    split_ifs at ht with hvalid hslot
    all_goals
      cases ht
      exact .inr ⟨info, _, hev, by simpa using hvalid, Bool.eq_false_iff.mpr hslot, rfl⟩

theorem handleNmi_eq_ok (h : handleNmi s = .ok t) :
    (s.nmiPending = false ∧ t = s) ∨ (s.nmiPending = true ∧ t = setNmiWindowExiting s) ∨
      (s.nmiPending = true ∧ intrValid s.entryIntrInfo = false ∧
        t = { s.write .nmi with nmiPending := false }) := by
  rw [handleNmi, injectNmi] at h
  split_ifs at h
  all_goals cases h
  all_goals simp_all

theorem handleInterrupt_eq_ok (h : handleInterrupt s = .ok t) :
    (s.capProcCtls &&& procbasedIntWindowExiting ≠ 0 ∧ t = s) ∨
    (s.extintPending = false ∧ pendingIntr s.lapic = none ∧ t = s) ∨
    t = setIntWindowExiting s ∨
    (s.extintPending = true ∧ cantInject s = false ∧ t = injectExtint s s.pic.pendingIntr) ∨
    ∃ v l, s.extintPending = false ∧ pendingIntr s.lapic = some v ∧ cantInject s = false ∧
      intrAccepted s.lapic v = .ok l ∧ t = { s.write (.lapic v) with lapic := l } := by
  rw [handleInterrupt] at h
  by_cases hwin : s.capProcCtls &&& procbasedIntWindowExiting ≠ 0
  · rw [if_pos hwin] at h
    cases h
    exact .inl ⟨hwin, rfl⟩
  rw [if_neg hwin] at h
  refine .inr ?_
  cases hext : s.extintPending with
  | false =>
    rw [hext, Bool.not_false, if_pos rfl] at h
    cases hp : pendingIntr s.lapic with
    | none =>
      rw [hp] at h
      cases h
      exact .inl ⟨rfl, rfl, rfl⟩
    | some v =>
      rw [hp] at h
      dsimp only at h
      split_ifs at h with hrange hcant
      · cases h
        exact .inr (.inl rfl)
      · obtain ⟨l, hl, ht⟩ := bind_eq_ok.mp h
        cases ht
        exact .inr (.inr (.inr
          ⟨v, l, rfl, rfl, Bool.eq_false_iff.mpr hcant, orAbort_eq_ok.mp hl, rfl⟩))
  | true =>
    rw [hext, if_neg (by simp)] at h
    dsimp only at h
    split_ifs at h with hrange hcant
    · cases h
      exact .inr (.inl rfl)
    · cases h
      exact .inr (.inr (.inl ⟨rfl, Bool.eq_false_iff.mpr hcant, rfl⟩))

/-- Opening a window only adds to the controls. -/
theorem setWindow_eq (s : Vcpu) (bit : BitVec 32) :
    ∃ c p, setWindow s bit = { s with capProcCtls := c, procCtls := p } ∧
      (∀ b, s.capProcCtls &&& b ≠ 0 → c &&& b ≠ 0) ∧ (bit ≠ 0 → c &&& bit ≠ 0) ∧
      (s.procCtls = s.capProcCtls → p = c) := by
  rw [setWindow]
  split_ifs with h
  · refine ⟨_, _, rfl, ?_, ?_, fun _ => rfl⟩
    · intro b hb hz
      rw [and_or_distrib_right] at hz
      exact hb (or_eq_zero_iff.mp hz).1
    · intro hb hz
      rw [and_or_distrib_right, BitVec.and_self] at hz
      exact hb (or_eq_zero_iff.mp hz).2
  · exact ⟨_, _, rfl, fun _ hb => hb, fun _ => h, id⟩

/-- Requests come up, and all else that an injection looks at stays. -/
structure Posted (s t : Vcpu) : Prop where
  eq : t = { s with
    vm := t.vm, lapic := t.lapic, extintPending := t.extintPending, nmiPending := t.nmiPending }
  irr : ∀ v, s.lapic.irr.test v = true → t.lapic.irr.test v = true
  isr : t.lapic.isr = s.lapic.isr
  nmi : s.nmiPending = true → t.nmiPending = true
  nmiPosted : s.nmiPending = false → t.nmiPending = true → enabled s.lapic = true ∧
    s.lint0 &&& apicLvtM = 0 ∧ s.lint0 &&& apicLvtDm = apicLvtDmNmi

theorem Posted.of_extint (s : Vcpu) (e : Bool) : Posted s { s with extintPending := e } :=
  ⟨rfl, fun _ h => h, rfl, id, fun hn h => absurd h (by simp [hn])⟩

theorem Posted.of_lapic (s : Vcpu) {l : Lapic.Vlapic}
    (hirr : ∀ v, s.lapic.irr.test v = true → l.irr.test v = true) (hisr : l.isr = s.lapic.isr) :
    Posted s { s with lapic := l } :=
  ⟨rfl, hirr, hisr, id, fun hn h => absurd h (by simp [hn])⟩

theorem posted_fireLint0 (hen : enabled s.lapic = true) : Posted s (fireLint0 s) := by
  rw [fireLint0]
  split_ifs with hm hfixed hvec hnmi hext
  · exact .of_extint s s.extintPending
  · obtain ⟨hirr, hisr⟩ := Trigger.requests_setError s.lapic apicEsrSendIllegalVector
    exact .of_lapic s hirr hisr
  · refine .of_lapic s ?_ ?_
    all_goals rw [setIntrReady, hen, if_neg (by simp), if_neg hvec]
    · exact fun _ h => Trigger.irr_requestVector _ h
    · rfl
  · exact ⟨rfl, fun _ h => h, rfl, fun _ => rfl, fun _ _ => ⟨hen, not_not.mp hm, hnmi⟩⟩
  · exact .of_extint s true
  · exact .of_extint s s.extintPending

theorem posted_setLocalIntr (s : Vcpu) : Posted s (setLocalIntr s) := by
  rw [setLocalIntr]
  split_ifs with hact hen
  · exact .of_extint s s.extintPending
  · exact .of_extint s true
  · exact posted_fireLint0 (by simpa using hen)

/-- The I/O APIC adds to the requests of the local APICs and posts no NMI. -/
theorem Posted.pulseIrq (h : Posted s t) : Posted s (pulseIrq t) := by
  have hg : Trigger.Grows t.toVm (Ioapic.setIrqstate t.toVm 0 .pulse) :=
    (Trigger.grows_setPinstate t.toVm 0 true).trans (Trigger.grows_setPinstate _ 0 false)
  have hself : t.toVm.lapics t.lapic.vcpuid = t.lapic := Function.update_self ..
  refine ⟨?_, fun v hv => ?_, ?_, h.nmi, h.nmiPosted⟩
  · rw [Inject.pulseIrq, h.eq]
  · refine hg.irr t.lapic.vcpuid v ?_
    rw [hself]
    exact h.irr v hv
  · have hisr := hg.isr t.lapic.vcpuid
    rw [hself] at hisr
    exact hisr.trans h.isr

/-- What is left of the injection of an ExtINT when its window is opened. -/
theorem posted_injectExtint (s : Vcpu) (v : ℕ) :
    ∃ t, injectExtint s v = setIntWindowExiting t ∧ Posted { s.write (.extint v) with
      extintPending := false, pic := (s.pic.intrAccepted v).1 } t := by
  refine ⟨if (s.pic.intrAccepted v).2 then pulseIrq (setLocalIntr _) else _, rfl, ?_⟩
  split
  · exact (posted_setLocalIntr _).pulseIrq
  · exact .of_extint _ false

/-- What has been done when the interrupts are looked at. -/
structure Begun (s t : Vcpu) : Prop where
  slot : t.writes = [] ∧ t.entryIntrInfo = s.entryIntrInfo ∨
    ∃ e, t.writes = [e] ∧ intrValid s.entryIntrInfo = false ∧ t.entryIntrInfo = e.info ∧
      intrValid e.info = true
  entry : ∀ info, .entry info ∈ t.writes ↔ ∃ ev, entryIntinfo s.events = .ok (ev, some info)
  nmi : s.nmiPending = true ∧ t.nmiPending = false ↔ .nmi ∈ t.writes
  nmiKept : t.nmiPending = true → s.nmiPending = true
  unmasked : ∀ v, .lapic v ∉ t.writes ∧ .extint v ∉ t.writes
  lapic : t.lapic = s.lapic
  pic : t.pic = s.pic
  extint : t.extintPending = s.extintPending
  lint0 : t.lint0 = s.lint0
  rflags : t.rflags = s.rflags
  controls : s.procCtls = s.capProcCtls → t.procCtls = t.capProcCtls

/-- The rest of the vCPU is as it was. -/
theorem clearBlocking_eq (s : Vcpu) (guestrip : BitVec 64) :
    ∃ gi, clearBlocking s guestrip = { s with interruptibility := gi } := by
  rw [clearBlocking]
  split
  · exact ⟨_, rfl⟩
  · exact ⟨s.interruptibility, rfl⟩

theorem begun_injectEntry {guestrip : BitVec 64}
    (h : injectEntry (clearBlocking { s with writes := [] } guestrip) = .ok t) :
    Begun s t ∧ t.nmiPending = s.nmiPending := by
  obtain ⟨gi, hgi⟩ := clearBlocking_eq { s with writes := [] } guestrip
  rw [hgi] at h
  obtain ⟨ev, ⟨hnone, rfl⟩ | ⟨info, err, hsome, hvalid, hfree, rfl⟩⟩ := injectEntry_eq_ok h
  · refine ⟨⟨.inl ⟨rfl, rfl⟩, ?_, by simp, id, by simp, rfl, rfl, rfl, rfl, rfl, id⟩, rfl⟩
    intro info
    simp only [not_mem_nil, false_iff, not_exists]
    intro ev' hev'
    cases hnone.symm.trans hev'
  · refine ⟨⟨.inr ⟨.entry info, rfl, hfree, rfl, intrValid_entryInfo hvalid⟩, ?_, by simp [Vcpu.write],
      id, by simp [Vcpu.write], rfl, rfl, rfl, rfl, rfl, id⟩, rfl⟩
    intro info'
    simp only [Vcpu.write, nil_append, mem_singleton, Source.entry.injEq]
    constructor
    · rintro rfl
      exact ⟨ev, hsome⟩
    · rintro ⟨ev', hev'⟩
      cases hsome.symm.trans hev'
      rfl

theorem begun_handleNmi (hb : Begun s t) (hn : t.nmiPending = s.nmiPending) (h : handleNmi t = .ok r) :
    Begun s r ∧ (r.nmiPending = true → r.capProcCtls &&& procbasedNmiWindowExiting ≠ 0) := by
  obtain ⟨hno, rfl⟩ | ⟨hyes, rfl⟩ | ⟨hyes, hfree, rfl⟩ := handleNmi_eq_ok h
  · refine ⟨hb, fun hr => ?_⟩
    rw [hno] at hr
    cases hr
  · obtain ⟨c, p, hw, -, hset, hctl⟩ := setWindow_eq t procbasedNmiWindowExiting
    rw [setNmiWindowExiting, hw]
    exact ⟨{ hb with controls := fun hs => hctl (hb.controls hs) }, fun _ => hset (by decide)⟩
  · -- a valid event in the slot would have kept the NMI back
    obtain ⟨hw, hinfo⟩ | ⟨e, -, -, hinfo, hvalid⟩ := hb.slot
    · refine ⟨⟨.inr ⟨.nmi, ?_, ?_, rfl, by decide⟩, ?_, ?_, nofun, ?_, hb.lapic, hb.pic, hb.extint,
        hb.lint0, hb.rflags, hb.controls⟩, nofun⟩
      · simp [Vcpu.write, hw]
      · rw [← hinfo]; exact hfree
      · intro info
        rw [← hb.entry info]
        simp [Vcpu.write]
      · simp [Vcpu.write, ← hn, hyes]
      · intro v
        have := hb.unmasked v
        simpa [Vcpu.write] using this
    · rw [hinfo, hvalid] at hfree
      cases hfree

theorem cantInject_eq_false (h : cantInject s = false) : s.rflags &&& pslI ≠ 0 ∧
    s.interruptibility &&& hwintrBlocking = 0 ∧ intrValid s.entryIntrInfo = false := by
  simpa [cantInject] using h

/-- A vector is injected only if nothing else was. -/
theorem Begun.writes_eq_nil (hb : Begun s t) (h : intrValid t.entryIntrInfo = false) :
    t.writes = [] ∧ intrValid s.entryIntrInfo = false := by
  obtain ⟨hw, hinfo⟩ | ⟨e, -, -, hinfo, hvalid⟩ := hb.slot
  · exact ⟨hw, hinfo ▸ h⟩
  · rw [hinfo, hvalid] at h
    cases h

section Vector

variable (hb : Begun s t)
  (hnmi : t.nmiPending = true → t.capProcCtls &&& procbasedNmiWindowExiting ≠ 0)

include hb hnmi

/-- A call that injects no vector is sound if it leaves none behind without a window. -/
theorem Begun.sound (hint : t.extintPending = true ∨ (pendingIntr t.lapic).isSome = true →
      t.capProcCtls &&& procbasedIntWindowExiting ≠ 0) : Sound s t where
  slot := hb.slot.imp_right fun ⟨e, hw, hfree, hinfo, _⟩ => ⟨e, hw, hfree, hinfo⟩
  entry := hb.entry
  nmi := hb.nmi
  moved v := by
    rw [hb.lapic]
    refine ⟨?_, fun hv => absurd hv (hb.unmasked v).1⟩
    rintro ⟨h, h', -⟩
    rw [h] at h'
    cases h'
  requests v _ h := hb.lapic ▸ h
  inService _ := by rw [hb.lapic]
  lapic _ := hb.lapic
  accepted v hv := absurd hv (hb.unmasked v).2
  pic _ := ⟨hb.pic, hb.extint⟩
  maskable v hv := absurd hv (not_or.mpr (hb.unmasked v))
  rflags := hb.rflags
  redelivered info hinfo htype := by
    obtain ⟨ev, hev⟩ := (hb.entry info).mp hinfo
    exact (entryIntinfo_returns hev).2.resolve_right fun h => type_entryInfo h htype
  nmiWindow _ := hnmi
  nmiPosted hs ht := by
    -- the NMI part of a call takes requests and makes none
    exact absurd (hb.nmiKept ht) (by simp [hs])
  intWindow := hint
  controls := hb.controls

/-- The PIC's vector is accepted, with a window for what it preempted. -/
theorem Begun.sound_extint (hext : t.extintPending = true) (hcan : cantInject t = false) :
    Sound s (injectExtint t t.pic.pendingIntr) := by
  obtain ⟨hif, hgi, hfree⟩ := cantInject_eq_false hcan
  obtain ⟨hw, hfree'⟩ := hb.writes_eq_nil hfree
  have hentry := hb.entry
  have hnmi' := hb.nmi
  rw [hw] at hentry hnmi'
  obtain ⟨w, hw', hposted⟩ := posted_injectExtint t t.pic.pendingIntr
  have heq := hposted.eq
  obtain ⟨c, p, hwin, hkeep, hset, hctl⟩ := setWindow_eq w procbasedIntWindowExiting
  rw [hw', setIntWindowExiting, hwin]
  have hwrites : w.writes = [.extint t.pic.pendingIntr] := by rw [heq]; simp [Vcpu.write, hw]
  have hstill : s.nmiPending = true → t.nmiPending = true := by
    intro hs
    by_contra ht
    cases hnmi'.mp ⟨hs, Bool.eq_false_iff.mpr ht⟩
  constructor
  case slot => exact .inr ⟨_, hwrites, hfree', by rw [heq]; rfl⟩
  case entry => intro info; rw [← hentry info, hwrites]; simp
  case nmi =>
    rw [hwrites]
    simp only [mem_singleton, reduceCtorEq, iff_false]
    rintro ⟨hs, hr⟩
    cases (hposted.nmi (hstill hs)).symm.trans hr
  case moved =>
    intro v
    rw [hwrites]
    simp only [mem_singleton, reduceCtorEq, iff_false]
    rintro ⟨h, h', -⟩
    rw [hposted.irr v (hb.lapic ▸ h)] at h'
    cases h'
  case requests => exact fun v _ h => hposted.irr v (hb.lapic ▸ h)
  case inService => exact fun _ => hposted.isr.trans (by rw [← hb.lapic]; rfl)
  case lapic => exact fun h => absurd (hwrites ▸ mem_singleton_self _) (h _).2
  case accepted =>
    intro v hv
    rw [hwrites] at hv
    cases mem_singleton.mp hv
    rw [← hb.extint, ← hb.pic]
    exact ⟨hext, rfl, by rw [heq]⟩
  case pic => exact fun h => absurd (hwrites ▸ mem_singleton_self _) (h _)
  case maskable => exact fun _ _ => ⟨hb.rflags ▸ hif, by rw [heq]; exact hgi⟩
  case rflags => rw [heq]; exact hb.rflags
  case redelivered => intro info hinfo; rw [hwrites] at hinfo; simp at hinfo
  case nmiWindow =>
    intro hs _
    refine hkeep _ ?_
    rw [heq]
    exact hnmi (hstill hs)
  case nmiPosted =>
    intro hs hr
    have hno : t.nmiPending = false := Bool.eq_false_iff.mpr fun ht => by
      cases hs.symm.trans (hb.nmiKept ht)
    obtain ⟨hen, hm, hdm⟩ := hposted.nmiPosted hno hr
    rw [← hb.lapic, ← hb.lint0]
    exact ⟨⟨_, hwrites ▸ mem_singleton_self _⟩, hen, hm, hdm⟩
  case intWindow => exact fun _ => hset (by decide)
  case controls =>
    refine fun h => hctl ?_
    rw [heq]
    exact hb.controls h

/-- The local APIC's vector is accepted, and what is left cannot be delivered. -/
theorem Begun.sound_lapic {v : ℕ} {l : Lapic.Vlapic}
    (hext : t.extintPending = false) (hv : pendingIntr t.lapic = some v)
    (hcan : cantInject t = false) (hl : intrAccepted t.lapic v = .ok l) :
    Sound s { t.write (.lapic v) with lapic := l } := by
  obtain ⟨hif, hgi, hfree⟩ := cantInject_eq_false hcan
  obtain ⟨hw, hfree'⟩ := hb.writes_eq_nil hfree
  have hentry := hb.entry
  have hnmi' := hb.nmi
  rw [hw] at hentry hnmi'
  simp only [Vcpu.write, hw, nil_append]
  constructor
  case slot => exact .inr ⟨_, rfl, hfree', rfl⟩
  case entry => intro info; rw [← hentry info]; simp
  case nmi => simpa using hnmi'
  case moved =>
    intro u
    rw [← hb.lapic, mem_singleton, Source.lapic.injEq]
    exact moved_intrAccepted hv hl u
  case requests =>
    intro u hu h
    obtain ⟨p, rfl⟩ := intrAccepted_eq_ok hl
    have hne : u ≠ v := fun heq => hu (mem_singleton.mpr (congrArg _ heq))
    rw [← hb.lapic] at h
    simp [push, Bank.test_clear (show 0 < 32 by decide), h, hne]
  case inService => exact fun h => absurd (mem_singleton_self _) (h _)
  case lapic => exact fun h => absurd (mem_singleton_self _) (h _).1
  case accepted => intro u hu; simp at hu
  case pic => exact fun _ => ⟨hb.pic, hb.extint⟩
  case maskable => exact fun _ _ => ⟨hb.rflags ▸ hif, hgi⟩
  case rflags => exact hb.rflags
  case redelivered => intro info hinfo; simp at hinfo
  case nmiWindow => exact fun _ => hnmi
  case nmiPosted => exact fun hs ht => absurd (hb.nmiKept ht) (by simp [hs])
  case intWindow =>
    rintro (h | h)
    · cases hext.symm.trans h
    · rw [pendingIntr_intrAccepted hv hl] at h
      cases h
  case controls => exact hb.controls

theorem Begun.sound_handleInterrupt (h : handleInterrupt t = .ok r) : Sound s r := by
  obtain ⟨hwin, rfl⟩ | ⟨hext, hnone, rfl⟩ | rfl | ⟨hext, hcan, rfl⟩ | ⟨v, l, hext, hv, hcan, hl, rfl⟩ :=
    handleInterrupt_eq_ok h
  · exact hb.sound hnmi fun _ => hwin
  · refine hb.sound hnmi ?_
    rw [hext, hnone]
    simp
  · obtain ⟨c, p, heq, hkeep, hset, hctl⟩ := setWindow_eq t procbasedIntWindowExiting
    rw [setIntWindowExiting, heq]
    have hb' : Begun s { t with capProcCtls := c, procCtls := p } :=
      { hb with controls := fun h => hctl (hb.controls h) }
    exact hb'.sound (fun h => hkeep _ (hnmi h)) fun _ => hset (by decide)
  · exact hb.sound_extint hnmi hext hcan
  · exact hb.sound_lapic hnmi hext hv hcan hl

end Vector

/-- The states from which a call returns: no event is in the slot when `vm_entry_intinfo` has one, and
the controllers are as they keep themselves. -/
structure Ready (s : Vcpu) : Prop where
  vector : s.events.excVector < 32
  slot : intrValid s.entryIntrInfo = true → decode s.events.exitintinfo = none ∧
    s.events.exceptionPending = false
  stacked : Lapic.Stacked s.lapic
  ppr : s.lapic.ppr = sdmPpr s.lapic
  pic : s.pic.pendingIntr ≤ 255

theorem injectEntry_ok (hv : s.events.excVector < 32)
    (hslot : intrValid s.entryIntrInfo = true → decode s.events.exitintinfo = none ∧
      s.events.exceptionPending = false) : ∃ t, injectEntry s = .ok t := by
  obtain ⟨ev, ret, hev, -, hsdm⟩ := entryIntinfo_eq hv
  rw [injectEntry, hev]
  cases ret with
  | none => exact ⟨_, rfl⟩
  | some info =>
    obtain ⟨hvalid, -⟩ := entryIntinfo_returns hev
    have hfree : intrValid s.entryIntrInfo = false := by
      rw [← Bool.not_eq_true]
      intro htaken
      -- with both slots empty nothing would have been returned
      obtain ⟨h1, h2⟩ := hslot htaken
      have hexc : s.events.exception = none := by rw [Exception.Vcpu.exception, h2]; rfl
      rw [h1, hexc] at hsdm
      have hnone : decode info = none := hsdm.1
      have := isSome_decode info
      rw [hnone, hvalid] at this
      cases this
    simp only [orAbort, bind, Except.bind, hvalid, hfree, Bool.not_true, Bool.false_eq_true, if_false]
    split <;> exact ⟨_, rfl⟩

theorem handleNmi_ok (s : Vcpu) : ∃ t, handleNmi s = .ok t := by
  rw [handleNmi]
  split_ifs with hn hgi hslot
  · have hblock : s.interruptibility &&& nmiBlocking = 0 := by
      rw [show nmiBlocking = (hwintrBlocking ||| nmiBlocking) &&& nmiBlocking by decide,
        ← BitVec.and_assoc, hgi]
      exact zero_and
    rw [injectNmi, if_neg (not_not.mpr hblock), if_neg (by simpa using hslot), if_neg (by simp [hn])]
    exact ⟨_, rfl⟩
  all_goals exact ⟨_, rfl⟩

theorem handleInterrupt_ok (hs : Lapic.Stacked s.lapic) (hp : s.lapic.ppr = sdmPpr s.lapic)
    (hpic : s.pic.pendingIntr ≤ 255) : ∃ t, handleInterrupt s = .ok t := by
  rw [handleInterrupt]
  by_cases hwin : s.capProcCtls &&& procbasedIntWindowExiting ≠ 0
  · rw [if_pos hwin]
    exact ⟨_, rfl⟩
  rw [if_neg hwin]
  cases s.extintPending with
  | false =>
    cases hv : pendingIntr s.lapic with
    | none => exact ⟨_, rfl⟩
    | some v =>
      obtain ⟨hlt, hprio⟩ := pendingIntr_eq_some hv
      have hlow : 16 ≤ v := by
        rw [prio_eq, prio_eq] at hprio
        omega
      have hhigh : v < 256 := hlt
      obtain ⟨l, hl, -, -⟩ := intrAccepted_ok hs hp hlt hprio
      simp only [Bool.not_false, if_true, if_neg (show ¬ (v < 16 ∨ 255 < v) by omega)]
      split
      · exact ⟨_, rfl⟩
      · rw [injectLapic, hl]
        exact ⟨_, rfl⟩
  | true =>
    simp only [Bool.not_true, Bool.false_eq_true, if_false, if_neg (not_lt.mpr hpic)]
    split <;> exact ⟨_, rfl⟩

/-- For every vCPU a call injects at most one event into a free slot, takes exactly the request it
injects, respects what blocks it and opens a window for what remains. -/
theorem injection_exclusive (s : Vcpu) (guestrip : BitVec 64) :
    (∀ r, injectInterrupts s guestrip = .ok r → Sound s r) ∧
      (Ready s → ∃ r, injectInterrupts s guestrip = .ok r) := by
  constructor
  · intro r h
    obtain ⟨t, hentry, h⟩ := bind_eq_ok.mp h
    obtain ⟨u, hnmi, h⟩ := bind_eq_ok.mp h
    obtain ⟨hb, hn⟩ := begun_injectEntry hentry
    obtain ⟨hb', hwin⟩ := begun_handleNmi hb hn hnmi
    exact hb'.sound_handleInterrupt hwin h
  · intro hr
    obtain ⟨gi, hgi⟩ := clearBlocking_eq { s with writes := [] } guestrip
    have hready : ∃ t, injectEntry (clearBlocking { s with writes := [] } guestrip) = .ok t := by
      rw [hgi]
      exact injectEntry_ok hr.vector hr.slot
    obtain ⟨t, hentry⟩ := hready
    obtain ⟨u, hnmi⟩ := handleNmi_ok t
    obtain ⟨hb, hn⟩ := begun_injectEntry hentry
    obtain ⟨hb', -⟩ := begun_handleNmi hb hn hnmi
    rw [injectInterrupts, hentry]
    simp only [bind, Except.bind, hnmi]
    exact handleInterrupt_ok (hb'.lapic ▸ hr.stacked) (hb'.lapic ▸ hr.ppr) (hb'.pic ▸ hr.pic)

def idlePic : Atpic :=
  { aeoi := false, rotate := false, sfn := false, irqBase := 8, request := 0, service := 0,
    mask := 0, smm := false, acnt := fun _ => 0, lowprio := 7, intrRaised := false }

/-- A vCPU that takes interrupts, with nothing pending for it. -/
def idleVcpu : Vcpu where
  events :=
    { state := .running, exitintinfo := 0, exceptionPending := false, excVector := 14,
      excErrcodeValid := true, excErrcode := 2, intrShadow := false, rip := 0, nextrip := 0,
      instLength := 0, suspend := none }
  nmiPending := false
  extintPending := false
  lapic := svrWrite (init 0 false) apicSvrEnable
  pic := ⟨idlePic, idlePic, 0⟩
  lint0 := apicLvtDmExtint
  vm := { Ioapic.Vm.init with active := fun v => v = 0 }
  nextrip := 0
  capProcCtls := 0
  procCtls := 0
  rflags := pslI
  interruptibility := 0
  entryIntrInfo := 0
  entryExceptionError := 0
  writes := []

/-- An NMI, an exception and a vector are pending: the exception takes the slot, and a window is opened
for each of the others. -/
theorem injection_exclusive_exception :
    let s : Vcpu :=
      { idleVcpu with
        events := { idleVcpu.events with exceptionPending := true }
        nmiPending := true
        lapic := requestVector idleVcpu.lapic 0x31 }
    ∃ r, injectInterrupts s 0 = .ok r ∧ Sound s r ∧ r.writes = [.entry 0x280000b0e] ∧
      r.nmiPending = true ∧ r.capProcCtls = 0x400004 ∧ (pendingIntr r.lapic) = some 0x31 := by
  intro s
  cases h : injectInterrupts s 0 with
  | error a =>
    have hok : (injectInterrupts s 0).isOk = true := by decide +kernel
    rw [h] at hok
    cases hok
  | ok r =>
    have hr : (injectInterrupts s 0).toOption = some r := by rw [h]; rfl
    have hfacts : ((injectInterrupts s 0).toOption.map fun r =>
        (r.writes, r.nmiPending, r.capProcCtls, pendingIntr r.lapic)) =
        some ([.entry 0x280000b0e], true, 0x400004, some 0x31) := by decide +kernel
    rw [hr, Option.map_some, Option.some.injEq] at hfacts
    simp only [Prod.mk.injEq] at hfacts
    exact ⟨r, rfl, (injection_exclusive s 0).1 r h, hfacts⟩

/-- The PIC has two requests and LINT0 is an NMI: the acceptance of the first posts the second, and no
window is opened for it. An interrupt whose delivery was interrupted is injected with RFLAGS.IF clear. -/
theorem posted_nmi_without_window :
    let pic := { idlePic with request := 3 }
    let posting : Vcpu :=
      { idleVcpu with extintPending := true, lint0 := apicLvtDmNmi, pic := ⟨pic, idlePic, 0⟩ }
    let interrupted : Vcpu :=
      { idleVcpu with events := { idleVcpu.events with exitintinfo := 0x80000031 }, rflags := 0 }
    ((injectInterrupts posting 0).toOption.map fun r =>
      (r.writes, r.nmiPending, r.capProcCtls)) = some ([.extint 8], true, procbasedIntWindowExiting) ∧
    ((injectInterrupts interrupted 0).toOption.map fun r => (r.writes, r.entryIntrInfo)) =
      some ([.entry 0x80000031], vmcsIntrTHwintr ||| vmcsIntrValid ||| 0x31) := by
  decide +kernel

end HyperCog.Inject
