import HyperCog.Lib.Run

/-! Guest writes of CR0 and EFER, and the mode of the next VM entry. -/
namespace HyperCog.LongMode

open Machine BitVec

def cr0Pe : BitVec 64 := 0x00000001
def cr0Et : BitVec 64 := 0x00000010
def cr0Ne : BitVec 64 := 0x00000020
def cr0Nw : BitVec 64 := 0x20000000
def cr0Cd : BitVec 64 := 0x40000000
def cr0Pg : BitVec 64 := 0x80000000
def eferLme : BitVec 64 := 0x100
def eferLma : BitVec 64 := 0x400
def vmEntryGuestLma : BitVec 64 := 0x200

def cr0OnesMask : BitVec 64 := cr0Ne ||| cr0Et
def cr0ZerosMask : BitVec 64 := cr0Nw ||| cr0Cd

/-- The fields of the VMCS that the two handlers touch. -/
structure Vmcs where
  cr0Shadow : BitVec 64
  guestCr0 : BitVec 64
  guestEfer : BitVec 64
  entryCtls : BitVec 64
  deriving DecidableEq, Repr

inductive Stop
  | unhandled
  deriving DecidableEq, Repr

/-- A flag is set: `x & mask` as a condition. -/
def has (x mask : BitVec 64) : Bool := x &&& mask ≠ 0

/-- The operand of the access, out of the guest's registers by number. -/
def operand (regs : BitVec 4 → BitVec 64) (exitqual : BitVec 64) : BitVec 64 :=
  regs ((exitqual >>> 8).setWidth 4)

def vmxEmulateCr0Access (v : Vmcs) (regs : BitVec 4 → BitVec 64) (exitqual : BitVec 64) :
    Except Stop Vmcs :=
  if exitqual &&& 0xf0 ≠ 0 then .error .unhandled
  else
    let regval := operand regs exitqual
    let v := { v with
      cr0Shadow := regval
      guestCr0 := (regval ||| cr0OnesMask) &&& ~~~cr0ZerosMask }
    .ok <|
      if has regval cr0Pg then
        if has v.guestEfer eferLme then
          { v with
            guestEfer := v.guestEfer ||| eferLma
            entryCtls := v.entryCtls ||| vmEntryGuestLma }
        else v
      else if has v.guestEfer eferLma then
        { v with
          guestEfer := v.guestEfer &&& ~~~eferLma
          entryCtls := v.entryCtls &&& ~~~vmEntryGuestLma }
      else v

/-- `vmx_wrmsr` for `MSR_EFER`. -/
def vmxWrmsrEfer (v : Vmcs) (val : BitVec 64) : Vmcs := { v with guestEfer := val }

inductive Action
  | cr0 (regs : BitVec 4 → BitVec 64) (exitqual : BitVec 64)
  | efer (val : BitVec 64)

def step (v : Vmcs) : Action → Except Stop Vmcs
  | .cr0 regs exitqual => vmxEmulateCr0Access v regs exitqual
  | .efer val => .ok (vmxWrmsrEfer v val)

/-- What a processor takes without #GP: paging needs protected mode, not-write-through needs the
cache disabled, and LME does not change while paging is on. Other reasons to refuse a write only
make the sequences fewer. -/
def Accepted (v : Vmcs) : Action → Prop
  | .cr0 regs exitqual =>
    (has (operand regs exitqual) cr0Pg → has (operand regs exitqual) cr0Pe) ∧
      (has (operand regs exitqual) cr0Nw → has (operand regs exitqual) cr0Cd)
  | .efer val => has v.guestCr0 cr0Pg → has val eferLme = has v.guestEfer eferLme

/-- LMA is set exactly while LME and PG are, and the next VM entry agrees. -/
structure Consistent (v : Vmcs) : Prop where
  active : has v.guestEfer eferLma = (has v.guestEfer eferLme && has v.guestCr0 cr0Pg)
  entry : has v.entryCtls vmEntryGuestLma = has v.guestEfer eferLma

/-- A write of EFER brings the read-only bit along as it is. -/
def KeepsLma (v : Vmcs) : Action → Prop
  | .cr0 _ _ => True
  | .efer val => has val eferLma = has v.guestEfer eferLma

instance (v : Vmcs) : (a : Action) → Decidable (Accepted v a)
  | .cr0 _ _ => inferInstanceAs (Decidable (_ ∧ _))
  | .efer _ => inferInstanceAs (Decidable (_ → _))

/-- A vCPU out of reset: EFER is 0, paging is off and the next entry is not in IA-32e mode. -/
structure Reset (v : Vmcs) : Prop where
  efer : v.guestEfer = 0
  paging : has v.guestCr0 cr0Pg = false
  entry : has v.entryCtls vmEntryGuestLma = false

section Bits

variable (x : BitVec 64)

theorem has_twoPow (i : Nat) (hi : i < 64) : has x (twoPow 64 i) = x[i] := by
  have hne : twoPow 64 i ≠ 0 := by
    intro h
    have hbit := congrArg (fun b => getLsbD b i) h
    simp [hi] at hbit
  rw [has, and_twoPow, getLsbD_eq_getElem hi]
  cases x[i] with
  | false => simp
  | true => simpa using hne

@[simp] theorem has_lme : has x eferLme = x[8] := has_twoPow x 8 (by decide)

@[simp] theorem has_lma : has x eferLma = x[10] := has_twoPow x 10 (by decide)

@[simp] theorem has_guestLma : has x vmEntryGuestLma = x[9] := has_twoPow x 9 (by decide)

@[simp] theorem has_pg : has x cr0Pg = x[31] := has_twoPow x 31 (by decide)

@[simp] theorem lma_bit : eferLma[10] = true := by decide

@[simp] theorem lma_lme : eferLma[8] = false := by decide

@[simp] theorem guestLma_bit : vmEntryGuestLma[9] = true := by decide

/-- The masks of CR0 leave PG alone. -/
@[simp] theorem cr0_masks_pg : cr0OnesMask[31] = false ∧ cr0ZerosMask[31] = false := by decide

end Bits

variable {v w u : Vmcs} {a : Action} {as : List Action}

theorem reset_consistent (h : Reset v) : Consistent v where
  active := by simp [h.efer]
  entry := by simp [h.entry, h.efer]

/-- Every write of CR0 brings LMA and the entry control to where they belong. -/
theorem cr0_consistent {regs : BitVec 4 → BitVec 64} {q : BitVec 64}
    (hs : vmxEmulateCr0Access v regs q = .ok w) (h : Consistent v) : Consistent w := by
  obtain ⟨hactive, hentry⟩ := h
  simp only [vmxEmulateCr0Access, has_lma, has_lme, has_pg] at hs
  split at hs
  · cases hs
  · -- on each path LMA and the entry control are both written or both left as they were
    cases hs
    constructor <;> split <;> split <;> simp_all

/-- An accepted write of EFER keeps the state consistent exactly when it does not touch LMA. -/
theorem efer_consistent_iff {val : BitVec 64} (ha : Accepted v (.efer val)) (h : Consistent v) :
    Consistent (vmxWrmsrEfer v val) ↔ KeepsLma v (.efer val) := by
  obtain ⟨hactive, hentry⟩ := h
  simp only [Accepted, KeepsLma, has_lma, has_lme, has_pg, has_guestLma] at *
  constructor
  · intro h
    have he := h.entry
    simp only [vmxWrmsrEfer, has_lma, has_guestLma] at he
    rw [← he, hentry]
  · intro hk
    constructor
    · simp only [vmxWrmsrEfer, has_lma, has_lme, has_pg]
      cases hpg : v.guestCr0[31] with
      | false => simp [hk, hactive, hpg]
      | true => simp [hk, hactive, hpg, ha hpg]
    · simp only [vmxWrmsrEfer, has_lma, has_guestLma]
      rw [hentry, hk]

theorem step_consistent_iff (ha : Accepted v a) (hs : step v a = .ok w) (h : Consistent v) :
    Consistent w ↔ KeepsLma v a := by
  cases a with
  | cr0 regs q => exact iff_of_true (cr0_consistent hs h) trivial
  | efer val =>
    cases hs
    exact efer_consistent_iff ha h

/-- The action leaves the state consistent. -/
def Leaves (v : Vmcs) (a : Action) : Prop := ∀ w, step v a = .ok w → Consistent w

/-- From reset, long mode is consistent after every operation exactly when no write of EFER changes
the LMA bit. -/
theorem long_mode_consistent_iff (hr : Reset v) (h : Run step Accepted v as u) :
    Run step Leaves v as u ↔ Run step KeepsLma v as u :=
  h.keeps_iff (J := fun _ => True) (fun _ _ _ ha hs _ hv => ⟨trivial, step_consistent_iff ha hs hv⟩) trivial
    (reset_consistent hr)

/-- A vCPU with the CR0 of `vcpu_reset`. -/
def resetVmcs : Vmcs :=
  { cr0Shadow := cr0Ne, guestCr0 := cr0Ne ||| cr0Et, guestEfer := 0, entryCtls := 0 }

theorem resetVmcs_reset : Reset resetVmcs where
  efer := rfl
  paging := by decide
  entry := by decide

/-- Long mode is entered: LME first, then paging. -/
def enterLongMode : List Action :=
  [.efer eferLme, .cr0 (fun _ => cr0Pg ||| cr0Pe) 0]

theorem long_mode_consistent_iff_entered :
    Reset resetVmcs ∧ ∃ u, Run step Leaves resetVmcs enterLongMode u := by
  refine ⟨resetVmcs_reset, _, (long_mode_consistent_iff resetVmcs_reset
    (run_of_checked (d := resetVmcs) (by decide))).mpr ?_⟩
  exact .stepL rfl rfl (.stepL trivial rfl .refl)

/-- With paging off a value of EFER with LMA set is taken over, bit and all. -/
theorem lma_taken_from_guest : Reset resetVmcs ∧ Accepted resetVmcs (.efer eferLma) ∧
      step resetVmcs (.efer eferLma) = .ok (vmxWrmsrEfer resetVmcs eferLma) ∧
      ¬ Consistent (vmxWrmsrEfer resetVmcs eferLma) := by
  refine ⟨resetVmcs_reset, by decide, rfl, ?_⟩
  intro h
  exact absurd h.active (by decide)

end HyperCog.LongMode
