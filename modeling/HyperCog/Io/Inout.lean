import HyperCog.Vmm.TaskSwitch
import Mathlib.Tactic.SplitIfs

/-! Port instructions: the exit they cause, and the two places that emulate them. -/
namespace HyperCog.Inout

open HyperCog.Task BitVec

/-- `struct vm_inout`, for an instruction that is no string instruction. -/
structure VmInout where
  bytes : ℕ
  isIn : Bool
  port : BitVec 16
  eax : BitVec 32

/-- The exit record that `vmx_exit_process` fills in for `EXIT_REASON_INOUT`. -/
def VmInout.ofExit (qual rax : BitVec 64) : VmInout where
  bytes := ((qual &&& 7).toNat + 1) % 8
  isIn := qual.getLsbD 3
  port := (qual >>> 16).setWidth 16
  eax := rax.setWidth 32

/-- A handler of a port: an error code, and the value it leaves in place of the one it is given. -/
abbrev Handler := (isIn : Bool) → (port : BitVec 16) → (bytes : ℕ) → BitVec 32 → Int × BitVec 32

/-- How an emulation ends; one that is done has called a handler, which left `val`. -/
inductive Emulated
  | userspace
  | failed
  | done (val : BitVec 32) (rax : BitVec 64)
  deriving DecidableEq, Repr

/-- `emulate_inout_port`; `val` is not initialised for an IN. -/
def emulateInoutPort (handler : Option Handler) (val : BitVec 32) (v : VmInout) (rax : BitVec 64) :
    Emulated :=
  match handler with
  | none => .userspace
  | some handler =>
    let mask := (size2mask v.bytes).setWidth 32
    let val := if v.isIn then val else v.eax &&& mask
    let r := handler v.isIn v.port v.bytes val
    if r.1 ≠ 0 then .failed
    else if v.isIn then .done r.2 ((v.eax &&& ~~~mask ||| r.2 &&& mask).setWidth 64)
    else .done r.2 rax

/-- An entry of `inout_handlers`. -/
structure PortEntry where
  handler : Handler
  isDefault : Bool
  flagIn : Bool
  flagOut : Bool

/-- `emulate_inout`; its masks have 64 bits, and `eax` has 32. -/
def emulateInout (e : PortEntry) (strict : Bool) (v : VmInout) (rax : BitVec 64) : Emulated :=
  if strict && e.isDefault then .failed
  else if !(if v.isIn then e.flagIn else e.flagOut) then .failed
  else
    let mask := size2mask v.bytes
    let r := e.handler v.isIn v.port v.bytes ((v.eax.setWidth 64 &&& mask).setWidth 32)
    if r.1 ≠ 0 then .failed
    else if v.isIn then
      let eax := (v.eax.setWidth 64 &&& ~~~mask).setWidth 32
      let eax := (eax.setWidth 64 ||| r.2.setWidth 64 &&& mask).setWidth 32
      .done r.2 (eax.setWidth 64)
    else .done r.2 rax

/-- The two places where an instruction is emulated. -/
inductive Path
  | kernel (handler : Option Handler) (val : BitVec 32)
  | userland (e : PortEntry) (strict : Bool)

def Path.emulate : Path → VmInout → BitVec 64 → Emulated
  | .kernel handler val => emulateInoutPort handler val
  | .userland e strict => emulateInout e strict

/-- What an IN leaves in RAX: the whole register for a double word, and else only its low bytes. -/
def inResult (bytes : ℕ) (rax : BitVec 64) (val : BitVec 32) : BitVec 64 :=
  if bytes = 4 then val.setWidth 64
  else rax &&& ~~~size2mask bytes ||| val.setWidth 64 &&& size2mask bytes

def UpperClear (rax : BitVec 64) : Prop := ∀ i, 32 ≤ i → rax.getLsbD i = false

/-- Both paths merge the value into the low half of RAX, and clear the upper half. -/
theorem merge_eq_iff (rax : BitVec 64) (val : BitVec 32) {mask : BitVec 64} (hm : UpperClear mask) :
    (rax.setWidth 32 &&& ~~~mask.setWidth 32 ||| val &&& mask.setWidth 32).setWidth 64 =
      rax &&& ~~~mask ||| val.setWidth 64 &&& mask ↔ UpperClear rax := by
  constructor
  · intro h i hi
    by_cases hl : i < 64
    · have hbit := congrArg (getLsbD · i) h
      have hmask : mask[i] = false := hm i hi
      simpa [hl, hmask, show ¬ i < 32 by omega] using hbit
    · exact getLsbD_of_ge rax i (by omega)
  · intro h
    apply eq_of_getLsbD_eq
    intro i hi
    by_cases hl : i < 32
    · simp [hi, hl]
    · simp [h i (by omega), hm i (by omega), hl]

theorem upperClear_size2mask (bytes : ℕ) (hb : bytes ≤ 4) : UpperClear (size2mask bytes) := by
  intro i hi
  rw [size2mask, getLsbD_ofNat]
  simp
  omega

theorem emulate_in (p : Path) {v : VmInout} {rax rax' : BitVec 64} {val : BitVec 32}
    (hin : v.isIn = true) (h : p.emulate v rax = .done val rax') :
    rax' = (v.eax &&& ~~~(size2mask v.bytes).setWidth 32 |||
      val &&& (size2mask v.bytes).setWidth 32).setWidth 64 := by
  cases p with
  | kernel handler val =>
    cases handler with
    | none => cases h
    | some handler =>
      simp only [Path.emulate, emulateInoutPort, hin, if_true] at h
      split_ifs at h
      cases h
      rfl
  | userland e strict =>
    simp only [Path.emulate, emulateInout, hin, if_true] at h
    split_ifs at h
    cases h
    congr 1
    ext i hi
    simp

/-- A completed IN is right exactly for a double word, or if the upper half of RAX was clear. -/
theorem in_result_iff (p : Path) (qual rax : BitVec 64) {val : BitVec 32} {rax' : BitVec 64}
    (hin : (VmInout.ofExit qual rax).isIn = true)
    (hb : (VmInout.ofExit qual rax).bytes = 1 ∨ (VmInout.ofExit qual rax).bytes = 2 ∨
      (VmInout.ofExit qual rax).bytes = 4)
    (h : p.emulate (VmInout.ofExit qual rax) rax = .done val rax') :
    rax' = inResult (VmInout.ofExit qual rax).bytes rax val ↔
      (VmInout.ofExit qual rax).bytes = 4 ∨ UpperClear rax := by
  have heax : (VmInout.ofExit qual rax).eax = rax.setWidth 32 := rfl
  rw [emulate_in p hin h, inResult, heax]
  rcases hb with hb | hb | hb
  · simpa [hb] using merge_eq_iff rax val (upperClear_size2mask 1 (by decide))
  · simpa [hb] using merge_eq_iff rax val (upperClear_size2mask 2 (by decide))
  · have hmask : (size2mask 4).setWidth 32 = allOnes 32 := by decide
    rw [hb, hmask, and_allOnes, not_allOnes, and_zero]
    simp

/-- A port that reads as all ones. -/
def ones : Path := .userland ⟨fun _ _ _ _ => (0, 0xffffffff), false, true, true⟩ false

theorem inb_ones : ones.emulate (.ofExit 8 0x11223344) 0x11223344 = .done 0xffffffff 0x112233ff ∧
    0x112233ff = inResult 1 0x11223344 0xffffffff := by
  refine ⟨rfl, (in_result_iff ones 8 0x11223344 rfl (.inl rfl) rfl).mpr (.inr fun i hi => ?_)⟩
  rw [show (0x11223344 : BitVec 64) = (0x11223344 : BitVec 32).setWidth 64 from rfl,
    getLsbD_setWidth, getLsbD_of_ge _ _ hi, Bool.and_false]

/-- A byte read while bit 32 of RAX is set. -/
theorem inb_clears_upper : ones.emulate (.ofExit 8 0x100000000) 0x100000000 = .done 0xffffffff 0xff ∧
      0xff ≠ inResult 1 0x100000000 0xffffffff := by
  decide

end HyperCog.Inout
