import HyperCog.Vmm.Lapic

/-! The I/O APIC: its redirection table, the pins, and the delivery of their interrupts to local APICs. -/
namespace HyperCog.Ioapic

open Lapic Machine Function List BitVec

def vmMaxcpu : ℕ := 64
def redirEntries : ℕ := 24
def ioapicId : ℕ := 0x00
def ioapicRedtbl : ℕ := 0x10
def apicIdMask : UInt32 := 0xff000000

def ioartIntmask : BitVec 64 := 0x00010000
def ioartIntmset : BitVec 64 := 0x00010000
def ioartTrgrlvl : BitVec 64 := 0x00008000
def ioartRemIrr : BitVec 64 := 0x00004000
def ioartIntpol : BitVec 64 := 0x00002000
def ioartDelivs : BitVec 64 := 0x00001000
def ioartDestmod : BitVec 64 := 0x00000800
def ioartDestphy : BitVec 64 := 0x00000000
def ioartDelmod : BitVec 64 := 0x00000700
def ioartDelfixed : BitVec 64 := 0x00000000
def ioartDellopri : BitVec 64 := 0x00000100
def ioartDelexint : BitVec 64 := 0x00000700
def ioartIntvec : BitVec 64 := 0x000000ff

def rtblRoBits : BitVec 64 := ioartRemIrr ||| ioartDelivs

/-- A redirection entry and the sum of the asserts and deasserts of its pin. -/
structure Rte where
  reg : BitVec 64
  acnt : ℤ
  deriving DecidableEq, Repr

section Fields

variable (reg : BitVec 64)

def masked : Bool := reg &&& ioartIntmask = ioartIntmset

def level : Bool := reg &&& ioartTrgrlvl ≠ 0

def remIrr : Bool := reg &&& ioartRemIrr ≠ 0

def phys : Bool := reg &&& ioartDestmod = ioartDestphy

def delmode : BitVec 64 := reg &&& ioartDelmod

def vector : ℕ := (reg &&& ioartIntvec).toNat

def dest : UInt32 := UInt32.ofNat (reg >>> 56).toNat

/-- The modes for which a level trigger is valid. -/
def levelMode : Bool := delmode reg = ioartDelfixed || delmode reg = ioartDellopri

end Fields

/-- The part of the virtual machine that interrupts go through. -/
structure Vm where
  id : UInt32
  rtbl : ℕ → Rte
  lapics : ℕ → Vlapic
  active : ℕ → Bool
  extintPending : ℕ → Bool

section Delivery

variable (vm : Vm)

def Vm.setLapic (vcpuid : ℕ) (l : Vlapic) : Vm :=
  { vm with lapics := update vm.lapics vcpuid l }

def Vm.setReg (pin : ℕ) (reg : BitVec 64) : Vm :=
  { vm with rtbl := update vm.rtbl pin { vm.rtbl pin with reg := reg } }

def Vm.setAcnt (pin : ℕ) (acnt : ℤ) : Vm :=
  { vm with rtbl := update vm.rtbl pin { vm.rtbl pin with acnt := acnt } }

/-- The vCPUs of a set, in the order of `CPU_FFS`. -/
def cpus (s : ℕ → Bool) : List ℕ := (range vmMaxcpu).filter s

/-- Whether a local APIC matches a logical destination. -/
def matchesLogical (l : Vlapic) (dest : UInt32) (x2apicDest : Bool) : Bool :=
  let mdaClusterId := if x2apicDest then dest >>> 16 else (dest >>> 4) &&& 0xf
  let mdaClusterLdest := if x2apicDest then dest &&& 0xffff else dest &&& 0xf
  if l.dfr &&& apicDfrModelMask = apicDfrModelFlat then
    let ldest := l.ldr >>> 24
    (dest &&& 0xff) &&& ldest ≠ 0
  else if l.dfr &&& apicDfrModelMask = apicDfrModelCluster then
    let cluster := if l.x2apic then l.ldr >>> 16 else l.ldr >>> 28
    let ldest := if l.x2apic then l.ldr &&& 0xffff else (l.ldr >>> 24) &&& 0xf
    cluster = mdaClusterId && mdaClusterLdest &&& ldest ≠ 0
  else false

/-- `vlapic_calcdest`. A physical destination need not be active. -/
def calcdest (dest : UInt32) (phys lowprio x2apicDest : Bool) : List ℕ :=
  if dest = (if x2apicDest then 0xffffffff else 0xff) then cpus vm.active
  else if phys then if dest.toNat < vmMaxcpu then [dest.toNat] else []
  else
    let found := (cpus vm.active).filter fun v => matchesLogical (vm.lapics v) dest x2apicDest
    if lowprio then found.take 1 else found

def lapicSetIntr (cpu vector : ℕ) (level : Bool) : Vm :=
  if cpu ≥ vmMaxcpu then vm
  else if vector < 16 ∨ vector > 255 then vm
  else vm.setLapic cpu (setIntrReady (vm.lapics cpu) vector level).1

def injectExtint (cpu : ℕ) : Vm :=
  { vm with extintPending := update vm.extintPending cpu true }

def deliverIntr (level : Bool) (dest : UInt32) (phys : Bool) (delmode : BitVec 64) (vec : ℕ) : Vm :=
  if delmode ≠ ioartDelfixed ∧ delmode ≠ ioartDellopri ∧ delmode ≠ ioartDelexint then vm
  else
    (calcdest vm dest phys (delmode = ioartDellopri) false).foldl
      (fun vm vcpuid =>
        if delmode = ioartDelexint then injectExtint vm vcpuid
        else lapicSetIntr vm vcpuid vec level) vm

/-- The vCPUs that an interrupt of the entry goes to. -/
def dests (reg : BitVec 64) : List ℕ :=
  calcdest vm (dest reg) (phys reg) (delmode reg = ioartDellopri) false

end Delivery

section Pins

variable (vm : Vm)

def sendIntr (pin : ℕ) : Vm :=
  let reg := (vm.rtbl pin).reg
  if masked reg then vm
  else
    let vm := if level reg then vm.setReg pin (reg ||| ioartRemIrr) else vm
    deliverIntr vm (level reg) (dest reg) (phys reg) (delmode reg) (vector reg)

/-- The assert count after a pin is asserted or deasserted. -/
def newcnt (newstate : Bool) (oldcnt : ℤ) : ℤ := if newstate then oldcnt + 1 else oldcnt - 1

def setPinstate (pin : ℕ) (newstate : Bool) : Vm :=
  let oldcnt := (vm.rtbl pin).acnt
  let vm := vm.setAcnt pin (newcnt newstate oldcnt)
  if oldcnt = 0 ∧ newcnt newstate oldcnt = 1 then sendIntr vm pin else vm

inductive Irqstate
  | assert
  | deassert
  | pulse
  deriving DecidableEq, Repr

/-- Does nothing for an interrupt that is not a pin (`EINVAL`). -/
def setIrqstate (irq : ℕ) (irqstate : Irqstate) : Vm :=
  if irq ≥ redirEntries then vm
  else match irqstate with
    | .assert => setPinstate vm irq true
    | .deassert => setPinstate vm irq false
    | .pulse => setPinstate (setPinstate vm irq true) irq false

/-- The trigger modes that the redirection table gives to one local APIC. -/
def updateTmr (vcpuid : ℕ) : Vm :=
  let tmr := (range redirEntries).foldl
    (fun tmr pin =>
      let reg := (vm.rtbl pin).reg
      if level reg && levelMode reg && (dests vm reg).contains vcpuid then tmr.set (vector reg)
      else tmr) (Bank.empty : Bank 32)
  vm.setLapic vcpuid { vm.lapics vcpuid with tmr := tmr }

/-- A guest's store to one half of a redirection entry. -/
def storeHalf (reg : BitVec 64) (high : Bool) (data : BitVec 32) : BitVec 64 :=
  let lshift := if high then 32 else 0
  let data64 := data.zeroExtend 64 <<< lshift
  let mask64 := (0xffffffff : BitVec 64) <<< lshift
  (reg &&& (~~~mask64 ||| rtblRoBits)) ||| (data64 &&& ~~~rtblRoBits)

/-- Whether a change of an entry is of more than mask and polarity. -/
def reroutes (last reg : BitVec 64) : Bool :=
  (last ^^^ reg) &&& ~~~(ioartIntmask ||| ioartIntpol) ≠ 0

/-- The pin and half that a register number names. -/
def redirection (regnum : ℕ) : Option (ℕ × Bool) :=
  if regnum ≥ ioapicRedtbl ∧ regnum < ioapicRedtbl + redirEntries * 2 then
    some ((regnum - ioapicRedtbl) / 2, (regnum - ioapicRedtbl) % 2 = 1)
  else none

/-- The end of `vioapic_write`: an asserted pin that waits for no EOI is sent again. -/
def regenerate (pin : ℕ) : Vm :=
  let e := vm.rtbl pin
  if !masked e.reg && !remIrr e.reg && e.acnt > 0 then sendIntr vm pin else vm

/-- `vioapic_write` up to the unlock, or to its end. Gives the pin of an unlocked write. -/
def writeBegin (addr data : UInt32) : Vm × Option ℕ :=
  let regnum := (addr &&& 0xff).toNat
  let vm := if regnum = ioapicId then { vm with id := data &&& apicIdMask } else vm
  match redirection regnum with
  | none => (vm, none)
  | some (pin, high) =>
    let last := (vm.rtbl pin).reg
    let reg := storeHalf last high data.toBitVec
    let vm := vm.setReg pin reg
    if reroutes last reg then (vm, some pin) else (regenerate vm pin, none)

/-- One pin of the loop of `vioapic_process_eoi`. -/
def eoiPin (vector : ℕ) (vm : Vm) (pin : ℕ) : Vm :=
  let e := vm.rtbl pin
  if !remIrr e.reg then vm
  else if Ioapic.vector e.reg ≠ vector then vm
  else
    let vm := vm.setReg pin (e.reg &&& ~~~ioartRemIrr)
    if e.acnt > 0 then sendIntr vm pin else vm

def processEoi (vector : ℕ) : Vm := (range redirEntries).foldl (eoiPin vector) vm

end Pins

/-- What `vioapic_init` and `vlapic_init` leave. -/
def Vm.init : Vm where
  id := 0
  rtbl := fun _ => ⟨0x0001000000010000, 0⟩
  lapics := fun v => Lapic.init v false
  active := fun _ => false
  extintPending := fun _ => false

variable {vm vm' : Vm} {pin p : ℕ} {reg m : BitVec 64} {pins : List ℕ}

theorem deliverIntr_rtbl (vm : Vm) (lvl : Bool) (d : UInt32) (ph : Bool) (dm : BitVec 64) (vec : ℕ) :
    (deliverIntr vm lvl d ph dm vec).rtbl = vm.rtbl := by
  unfold deliverIntr
  split
  · rfl
  · generalize calcdest vm d ph (dm = ioartDellopri) false = vs
    induction vs generalizing vm with
    | nil => rfl
    | cons v vs ih =>
      rw [foldl_cons, ih]
      split
      · rfl
      · unfold lapicSetIntr
        repeat' split
        all_goals rfl

/-- The entry as `vioapic_send_intr` leaves it. -/
def sentReg (reg : BitVec 64) : BitVec 64 :=
  if !masked reg && level reg then reg ||| ioartRemIrr else reg

theorem sendIntr_rtbl (vm : Vm) (pin : ℕ) : (sendIntr vm pin).rtbl =
      update vm.rtbl pin { vm.rtbl pin with reg := sentReg (vm.rtbl pin).reg } := by
  unfold sendIntr sentReg
  by_cases hm : masked (vm.rtbl pin).reg = true
  · simp [hm]
  · rw [if_neg hm, deliverIntr_rtbl]
    by_cases hl : level (vm.rtbl pin).reg = true
    · simp [hm, hl, Vm.setReg]
    · simp [hl]

theorem remIrr_or (reg : BitVec 64) : remIrr (reg ||| ioartRemIrr) = true := by
  have h : (reg ||| ioartRemIrr) &&& ioartRemIrr = ioartRemIrr := by
    ext i hi
    simp only [getElem_and, getElem_or]
    cases reg[i] <;> cases ioartRemIrr[i] <;> rfl
  rw [remIrr, h]
  decide

/-- The fields other than Remote IRR that a mask reads. -/
theorem or_remIrr_and (hm : ioartRemIrr &&& m = 0) (reg : BitVec 64) :
    (reg ||| ioartRemIrr) &&& m = reg &&& m := by
  rw [and_or_distrib_right, hm]
  exact or_zero

theorem and_not_remIrr_and (hm : ~~~ioartRemIrr &&& m = m) (reg : BitVec 64) :
    reg &&& ~~~ioartRemIrr &&& m = reg &&& m := by
  rw [BitVec.and_assoc, hm]

/-- Sending an interrupt for an entry leaves it held. -/
theorem remIrr_sentReg (hm : masked reg = false) (hl : level reg = true) :
    remIrr (sentReg reg) = true := by
  rw [sentReg, hm, hl]
  exact remIrr_or reg

theorem sentReg_fields (reg : BitVec 64) :
    masked (sentReg reg) = masked reg ∧ level (sentReg reg) = level reg := by
  unfold sentReg
  split
  · constructor
    · rw [masked, masked, or_remIrr_and (by decide)]
    · rw [level, level, or_remIrr_and (by decide)]
  · exact ⟨rfl, rfl⟩

/-- A store leaves the read-only bits as they are. -/
theorem storeHalf_ro (reg : BitVec 64) (high : Bool) (data : BitVec 32) :
    storeHalf reg high data &&& rtblRoBits = reg &&& rtblRoBits := by
  unfold storeHalf
  dsimp only
  generalize data.zeroExtend 64 <<< (if high = true then 32 else 0) = d
  generalize (0xffffffff : BitVec 64) <<< (if high = true then 32 else 0) = m
  ext i hi
  simp only [getElem_and, getElem_or, getElem_not]
  cases reg[i] <;> cases m[i] <;> cases d[i] <;> cases rtblRoBits[i] <;> rfl

/-- The virtual machine, and the pins of the writes that are between their unlock and re-lock. -/
structure World where
  vm : Vm
  writers : List ℕ

inductive Action
  | setIrqstate (irq : ℕ) (irqstate : Irqstate)
  /-- a guest's write, up to the unlock or to its end -/
  | write (addr data : UInt32)
  /-- a vCPU in the rendezvous of a write -/
  | updateTmr (vcpuid : ℕ)
  /-- a write for the pin locks again and ends -/
  | relock (pin : ℕ)
  | processEoi (vector : Fin 256)
  deriving DecidableEq, Repr

/-- No write of the pin is unlocked. -/
inductive Stop
  | disabled
  deriving DecidableEq, Repr

def step (s : World) : Action → Except Stop World
  | .setIrqstate irq irqstate => .ok { s with vm := setIrqstate s.vm irq irqstate }
  | .write addr data =>
    let r := writeBegin s.vm addr data
    .ok ⟨r.1, r.2.toList ++ s.writers⟩
  | .updateTmr vcpuid => .ok { s with vm := updateTmr s.vm vcpuid }
  | .relock pin =>
    if pin ∈ s.writers then .ok ⟨regenerate s.vm pin, s.writers.erase pin⟩ else .error .disabled
  | .processEoi vector => .ok { s with vm := processEoi s.vm vector }

/-- Each deassert undoes an assert. -/
def Balanced (s : World) : Action → Prop
  | .setIrqstate irq .deassert => irq < redirEntries → 0 < (s.vm.rtbl irq).acnt
  | _ => True

/-- An asserted, unmasked, level-triggered pin has had its interrupt sent. -/
def Rte.Held (e : Rte) : Prop :=
  masked e.reg = false → level e.reg = true → 0 < e.acnt → remIrr e.reg = true

/-- Every pin is held, or is one of those that a write will look at again. -/
structure Vm.Ok (vm : Vm) (pins : List ℕ) : Prop where
  held : ∀ pin, pin ∈ pins ∨ (vm.rtbl pin).Held
  acnt : ∀ pin, 0 ≤ (vm.rtbl pin).acnt

theorem sentReg_held (e : Rte) : Rte.Held { e with reg := sentReg e.reg } := by
  intro hm hl _
  obtain ⟨hm', hl'⟩ := sentReg_fields e.reg
  exact remIrr_sentReg (hm'.symm.trans hm) (hl'.symm.trans hl)

/-- The pin that was set apart is held after all. -/
theorem Vm.Ok.settle (h : vm.Ok (pin :: pins)) (hpin : (vm.rtbl pin).Held) : vm.Ok pins := by
  refine ⟨fun p => ?_, h.acnt⟩
  rcases h.held p with hmem | hheld
  · rcases List.mem_cons.mp hmem with rfl | hmem
    · exact .inr hpin
    · exact .inl hmem
  · exact .inr hheld

/-- An entry may become anything if the pin is set apart. -/
theorem Vm.Ok.change (h : vm.Ok pins) {e : Rte}
    (hrtbl : vm'.rtbl = update vm.rtbl pin e) (ha : 0 ≤ e.acnt) : vm'.Ok (pin :: pins) := by
  constructor
  · intro p
    by_cases hp : p = pin
    · exact .inl (hp ▸ mem_cons_self)
    · rw [hrtbl, update_of_ne hp]
      exact (h.held p).imp_left (mem_cons_of_mem _)
  · intro p
    by_cases hp : p = pin
    · rw [hrtbl, hp, update_self]
      exact ha
    · rw [hrtbl, update_of_ne hp]
      exact h.acnt p

theorem ok_setReg (h : vm.Ok pins) (reg : BitVec 64) : (vm.setReg pin reg).Ok (pin :: pins) :=
  have hrtbl : (vm.setReg pin reg).rtbl = update vm.rtbl pin { vm.rtbl pin with reg := reg } := rfl
  h.change hrtbl (h.acnt pin)

theorem ok_sendIntr (h : vm.Ok (pin :: pins)) : (sendIntr vm pin).Ok pins := by
  have hrtbl := sendIntr_rtbl vm pin
  have hheld : ((sendIntr vm pin).rtbl pin).Held := by
    rw [hrtbl, update_self]
    exact sentReg_held _
  exact ((h.change hrtbl (h.acnt pin)).settle hheld).settle hheld

/-- The end of a write leaves its pin held. -/
theorem ok_regenerate (h : vm.Ok (pin :: pins)) : (regenerate vm pin).Ok pins := by
  unfold regenerate
  dsimp only
  split
  · exact ok_sendIntr h
  · rename_i hno
    refine h.settle (fun hm _ ha => ?_)
    by_contra hr
    exact hno (by simp [hm, hr, ha])

theorem ok_setPinstate {newstate : Bool} (h : vm.Ok pins)
    (hbal : newstate = false → 0 < (vm.rtbl pin).acnt) : (setPinstate vm pin newstate).Ok pins := by
  have hacnt := h.acnt pin
  have hnn : 0 ≤ newcnt newstate (vm.rtbl pin).acnt := by
    cases newstate with
    | true => exact Int.le_add_one hacnt
    | false => exact Int.sub_nonneg_of_le (hbal rfl)
  have hrtbl : (vm.setAcnt pin (newcnt newstate (vm.rtbl pin).acnt)).rtbl = update vm.rtbl pin
      { vm.rtbl pin with acnt := newcnt newstate (vm.rtbl pin).acnt } := rfl
  have hchange := h.change hrtbl hnn
  unfold setPinstate
  dsimp only
  split
  · exact ok_sendIntr hchange
  · rename_i hno
    rcases h.held pin with hmem | hheld
    · refine ⟨fun p => (hchange.held p).imp_left fun hp => ?_, hchange.acnt⟩
      rcases List.mem_cons.mp hp with rfl | hp
      · exact hmem
      · exact hp
    · -- The pin was asserted before, so its interrupt was sent then.
      refine hchange.settle ?_
      simp only [Vm.setAcnt, update_self]
      intro hm hl ha
      refine hheld hm hl ?_
      cases newstate with
      | true =>
        simp only [newcnt, if_true] at hno
        omega
      | false => exact hbal rfl

theorem setPinstate_acnt (vm : Vm) (pin : ℕ) (newstate : Bool) :
    ((setPinstate vm pin newstate).rtbl pin).acnt = newcnt newstate (vm.rtbl pin).acnt := by
  unfold setPinstate
  dsimp only
  split
  · rw [sendIntr_rtbl]
    simp [Vm.setAcnt]
  · simp [Vm.setAcnt]

theorem ok_setIrqstate {irq : ℕ} {irqstate : Irqstate} (h : vm.Ok pins)
    (hbal : irqstate = .deassert → irq < redirEntries → 0 < (vm.rtbl irq).acnt) :
    (setIrqstate vm irq irqstate).Ok pins := by
  unfold setIrqstate
  split
  · exact h
  · rename_i hpin
    cases irqstate with
    | assert => exact ok_setPinstate h nofun
    | deassert => exact ok_setPinstate h (fun _ => hbal rfl (not_le.mp hpin))
    | pulse =>
      refine ok_setPinstate (ok_setPinstate h nofun) (fun _ => ?_)
      rw [setPinstate_acnt]
      exact Int.lt_add_one_of_le (h.acnt irq)

theorem ok_eoiPin (h : vm.Ok pins) (vector pin : ℕ) : (eoiPin vector vm pin).Ok pins := by
  unfold eoiPin
  dsimp only
  split
  · exact h
  · split
    · exact h
    · have hclear : (vm.setReg pin ((vm.rtbl pin).reg &&& ~~~ioartRemIrr)).Ok (pin :: pins) :=
        ok_setReg h _
      split_ifs with hno
      · exact ok_sendIntr hclear
      · refine hclear.settle (fun _ _ ha => ?_)
        simp only [Vm.setReg, update_self] at ha
        exact absurd ha hno

theorem ok_processEoi (h : vm.Ok pins) (vector : ℕ) : (processEoi vm vector).Ok pins := by
  unfold processEoi
  generalize range redirEntries = ps
  induction ps generalizing vm with
  | nil => exact h
  | cons p ps ih => exact ih (ok_eoiPin h vector p)

theorem ok_writeBegin (h : vm.Ok pins) (addr data : UInt32) :
    (writeBegin vm addr data).1.Ok ((writeBegin vm addr data).2.toList ++ pins) := by
  unfold writeBegin
  extract_lets regnum vm'
  have hid : vm'.Ok pins := by
    unfold vm'
    split
    · exact ⟨h.held, h.acnt⟩
    · exact h
  split
  · exact hid
  · dsimp only
    split
    · exact ok_setReg hid _
    · exact ok_regenerate (ok_setReg hid _)

variable {s s' : World}

theorem ok_step {a : Action} (hc : Balanced s a) (hs : step s a = .ok s')
    (hok : s.vm.Ok s.writers) : s'.vm.Ok s'.writers := by
  cases a with
  | setIrqstate irq irqstate =>
    cases hs
    refine ok_setIrqstate hok (fun hd => ?_)
    subst hd
    exact hc
  | write addr data =>
    cases hs
    exact ok_writeBegin hok addr data
  | updateTmr vcpuid =>
    cases hs
    exact ⟨hok.held, hok.acnt⟩
  | relock pin =>
    simp only [step] at hs
    split_ifs at hs with hmem
    cases hs
    have hperm := perm_cons_erase hmem
    exact ok_regenerate ⟨fun p => (hok.held p).imp_left fun hp => hperm.mem_iff.mp hp, hok.acnt⟩
  | processEoi vector =>
    cases hs
    exact ok_processEoi hok vector

theorem ok_init : Vm.init.Ok [] :=
  ⟨fun _ => .inr (fun _ _ ha => absurd ha (Int.lt_irrefl 0)), fun _ => Int.le_refl 0⟩

/-- A guest's write changes read-only bits only by sending the interrupt of its pin. -/
theorem writeBegin_ro (vm : Vm) (addr data : UInt32) :
    (∀ pin, ((writeBegin vm addr data).1.rtbl pin).reg &&& rtblRoBits =
      (vm.rtbl pin).reg &&& rtblRoBits) ∨
    ∃ vm' pin, (writeBegin vm addr data).1 = sendIntr vm' pin ∧
      ∀ p, (vm'.rtbl p).reg &&& rtblRoBits = (vm.rtbl p).reg &&& rtblRoBits := by
  unfold writeBegin
  extract_lets regnum vm₀
  have hid : vm₀.rtbl = vm.rtbl := by
    unfold vm₀
    split
    · rfl
    · rfl
  split
  · exact .inl (fun pin => by rw [hid])
  · rename_i pin high _
    have hstore : ∀ p, ((vm₀.setReg pin
        (storeHalf (vm₀.rtbl pin).reg high data.toBitVec)).rtbl p).reg &&& rtblRoBits =
        (vm.rtbl p).reg &&& rtblRoBits := by
      intro p
      rw [← hid]
      by_cases hp : p = pin
      · subst hp
        simp only [Vm.setReg, update_self]
        exact storeHalf_ro _ _ _
      · simp only [Vm.setReg, update_of_ne hp]
    dsimp only
    split
    · exact .inl hstore
    · unfold regenerate
      dsimp only
      split
      · exact .inr ⟨_, pin, rfl, hstore⟩
      · exact .inl hstore

/-- Pin 5 is asserted while its entry is made level-triggered, and again pending at the EOI. -/
def assertedInWrite : List Action :=
  [.write 0x1a 0x8030, .setIrqstate 5 .assert, .updateTmr 0, .relock 5, .processEoi 0x30]

end HyperCog.Ioapic
