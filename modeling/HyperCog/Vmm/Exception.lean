import HyperCog.Vmm.Notify
import Mathlib.Data.Nat.Bitwise

/-! The events that a VM entry delivers: the event whose delivery a VM exit interrupted, the pending
exception, and their combination. -/
namespace HyperCog.Exception

open Machine BitVec
open Notify (VcpuState)

def vmIntinfoDelErrcode : BitVec 64 := 0x800
def vmIntinfoRsvd : BitVec 64 := 0x7ffff000
def vmIntinfoValid : BitVec 64 := 0x80000000
def vmIntinfoType : BitVec 64 := 0x700
def vmIntinfoHwintr : BitVec 64 := 0x000
def vmIntinfoNmi : BitVec 64 := 0x200
def vmIntinfoHwexception : BitVec 64 := 0x300
def vmIntinfoSwintr : BitVec 64 := 0x400

def idtDe : ℕ := 0
def idtNmi : ℕ := 2
def idtDf : ℕ := 8
def idtTs : ℕ := 10
def idtNp : ℕ := 11
def idtSs : ℕ := 12
def idtGp : ℕ := 13
def idtPf : ℕ := 14
def idtVe : ℕ := 20

inductive ExcClass
  | benign
  | contributory
  | pagefault
  deriving DecidableEq, Repr

inductive SuspendHow
  | reset
  | poweroff
  | halt
  | triplefault
  deriving DecidableEq, Repr

inductive Errno
  | EINVAL
  | EBUSY
  deriving DecidableEq, Repr

/-- A failed `KASSERT`, or the abort of `vm_restart_instruction`. -/
inductive Abort
  | notValid
  | invalidState
  deriving DecidableEq, Repr

/-- What the calls read and write of one vCPU, with the VM's `suspend`. -/
structure Vcpu where
  state : VcpuState
  exitintinfo : BitVec 64
  exceptionPending : Bool
  excVector : ℕ
  excErrcodeValid : Bool
  excErrcode : BitVec 32
  intrShadow : Bool
  rip : BitVec 64
  nextrip : BitVec 64
  /-- of `exitinfo` -/
  instLength : ℕ
  suspend : Option SuspendHow
  deriving DecidableEq, Repr

def valid (info : BitVec 64) : Bool := info &&& vmIntinfoValid ≠ 0

def typeOf (info : BitVec 64) : BitVec 64 := info &&& vmIntinfoType

def vectorOf (info : BitVec 64) : ℕ := (info &&& 0xff).toNat

def exceptionClass (info : BitVec 64) : Except Abort ExcClass :=
  if !valid info then .error .notValid
  else if typeOf info = vmIntinfoHwintr ∨ typeOf info = vmIntinfoSwintr
      ∨ typeOf info = vmIntinfoNmi then .ok .benign
  -- every other type is an exception: #BP and #OF have types of their own
  else if vectorOf info ∈ [idtPf, idtVe] then .ok .pagefault
  else if vectorOf info ∈ [idtDe, idtTs, idtNp, idtSs, idtGp] then .ok .contributory
  else .ok .benign

section Calls

variable (v : Vcpu)

/-- The first reason to suspend stays. -/
def vmSuspend (how : SuspendHow) : Vcpu := { v with suspend := some (v.suspend.getD how) }

def exitIntinfo (info : BitVec 64) : Option Errno × Vcpu :=
  if valid info then
    if typeOf info = vmIntinfoNmi ∧ vectorOf info ≠ idtNmi then (some .EINVAL, v)
    else if typeOf info = vmIntinfoHwexception ∧ vectorOf info ≥ 32 then (some .EINVAL, v)
    else if info &&& vmIntinfoRsvd ≠ 0 then (some .EINVAL, v)
    else (none, { v with exitintinfo := info })
  else (none, { v with exitintinfo := 0 })

/-- Gives back `*retinfo`, if it is to be delivered. -/
def nestedFault (info1 info2 : BitVec 64) : Except Abort (Vcpu × Option (BitVec 64)) :=
  if !valid info1 ∨ !valid info2 then .error .notValid
  else if typeOf info1 = vmIntinfoHwexception ∧ vectorOf info1 = idtDf then
    .ok (vmSuspend v .triplefault, none)
  else do
    let exc1 ← exceptionClass info1
    let exc2 ← exceptionClass info2
    if exc1 = .contributory ∧ exc2 = .contributory ∨ exc1 = .pagefault ∧ exc2 ≠ .benign then
      .ok (v, some (BitVec.ofNat 64 idtDf ||| (vmIntinfoValid ||| vmIntinfoHwexception)
        ||| vmIntinfoDelErrcode))
    else .ok (v, some info2)

def exceptionIntinfo : BitVec 64 :=
  if v.exceptionPending then
    let info := BitVec.ofNat 64 v.excVector &&& 0xff
    let info := info ||| (vmIntinfoValid ||| vmIntinfoHwexception)
    if v.excErrcodeValid then
      info ||| vmIntinfoDelErrcode ||| v.excErrcode.setWidth 64 <<< 32
    else info
  else 0

def entryIntinfo : Except Abort (Vcpu × Option (BitVec 64)) :=
  let info1 := v.exitintinfo
  let info2 := if v.exceptionPending then exceptionIntinfo v else 0
  let v := { v with exitintinfo := 0, exceptionPending := false }
  if valid info1 ∧ valid info2 then nestedFault v info1 info2
  else if valid info1 then .ok (v, some info1)
  else if valid info2 then .ok (v, some info2)
  else .ok (v, none)

def restartInstruction : Except Abort Vcpu :=
  match v.state with
  | .running => .ok { v with instLength := 0 }
  | .frozen => .ok { v with nextrip := v.rip }
  | .idle | .sleeping => .error .invalidState

/-- The shadow register is one that can be set. -/
def injectException (vector : ℤ) (errcodeValid : Bool) (errcode : BitVec 32) (restart : Bool) :
    Except Abort (Option Errno × Vcpu) :=
  if vector < 0 ∨ vector ≥ 32 then .ok (some .EINVAL, v)
  else if vector = idtDf then .ok (some .EINVAL, v)
  else if v.exceptionPending then .ok (some .EBUSY, v)
  else do
    let v := { v with intrShadow := false }
    let v ← if restart then restartInstruction v else .ok v
    .ok (none, { v with
      exceptionPending := true
      excVector := vector.toNat
      excErrcode := errcode
      excErrcodeValid := errcodeValid })

end Calls

/-- What kind of event an interruption information describes. -/
inductive Kind
  | hwintr
  | nmi
  | hwexception
  | swintr
  | other
  deriving DecidableEq, Repr

/-- An event of the processor. -/
structure Incident where
  kind : Kind
  vector : ℕ
  errcode : Option (BitVec 32)
  deriving DecidableEq, Repr

def kindOf (info : BitVec 64) : Kind :=
  if typeOf info = vmIntinfoHwintr then .hwintr
  else if typeOf info = vmIntinfoNmi then .nmi
  else if typeOf info = vmIntinfoHwexception then .hwexception
  else if typeOf info = vmIntinfoSwintr then .swintr
  else .other

def decode (info : BitVec 64) : Option Incident :=
  if valid info then
    some
      { kind := kindOf info
        vector := vectorOf info
        errcode :=
          if info &&& vmIntinfoDelErrcode ≠ 0 then some ((info >>> 32).setWidth 32) else none }
  else none

/-- The classes of the exceptions in the SDM. -/
def vectorClass : ℕ → ExcClass
  | 14 | 20 => .pagefault
  | 0 | 10 | 11 | 12 | 13 => .contributory
  | _ => .benign

/-- Interrupts are benign. -/
def Incident.excClass (x : Incident) : ExcClass :=
  match x.kind with
  | .hwintr | .nmi | .swintr => .benign
  | .hwexception | .other => vectorClass x.vector

/-- The conditions for generating a double fault of the SDM: the class of the first event, then of the
second. -/
def doubles : ExcClass → ExcClass → Bool
  | .contributory, .contributory => true
  | .pagefault, .contributory => true
  | .pagefault, .pagefault => true
  | _, _ => false

/-- #DF with the error code zero. -/
def doubleFault : Incident := ⟨.hwexception, 8, some 0⟩

inductive Outcome
  | nothing
  | deliver (x : Incident)
  | shutdown
  deriving DecidableEq, Repr

/-- What the processor does about an event whose delivery was interrupted and an exception. -/
def combine : Option Incident → Option Incident → Outcome
  | none, none => .nothing
  | some e, none => .deliver e
  | none, some x => .deliver x
  | some e, some x =>
    if e.kind = .hwexception ∧ e.vector = 8 then .shutdown
    else if doubles e.excClass x.excClass then .deliver doubleFault
    else .deliver x

/-- The pending exception of a vCPU. -/
def Vcpu.exception (v : Vcpu) : Option Incident :=
  if v.exceptionPending then
    some ⟨.hwexception, v.excVector, if v.excErrcodeValid then some v.excErrcode else none⟩
  else none

/-- What a VM entry found and did. -/
structure Entry where
  interrupted : Option Incident
  exception : Option Incident
  delivered : Option Incident
  suspend : Option SuspendHow
  suspend' : Option SuspendHow
  deriving DecidableEq, Repr

/-- An entry does what the processor would, and suspends the VM in place of a shutdown. -/
def Entry.Sdm (en : Entry) : Prop :=
  match combine en.interrupted en.exception with
  | .nothing => en.delivered = none ∧ en.suspend' = en.suspend
  | .deliver x => en.delivered = some x ∧ en.suspend' = en.suspend
  | .shutdown => en.delivered = none ∧ en.suspend' = some (en.suspend.getD .triplefault)

/-- What has happened on the vCPU. -/
inductive Event
  /-- a VM exit recorded the event whose delivery it interrupted, or that there was none -/
  | exited (e : Option Incident)
  | accepted (x : Incident)
  | refused (e : Errno)
  | entered (en : Entry)
  deriving DecidableEq, Repr

/-- The newest event is the first of the log. -/
structure World where
  vcpu : Vcpu
  log : List Event

inductive Action
  | exitIntinfo (info : BitVec 64)
  | injectException (vector : ℤ) (errcodeValid : Bool) (errcode : BitVec 32) (restart : Bool)
  | entryIntinfo
  /-- the guest runs, and the rest of the vCPU changes -/
  | resume (state : VcpuState) (rip nextrip : BitVec 64) (instLength : ℕ) (intrShadow : Bool)
  | suspend (how : SuspendHow)
  deriving DecidableEq, Repr

def step (s : World) : Action → Except Abort World
  | .exitIntinfo info =>
    match exitIntinfo s.vcpu info with
    | (none, v) => .ok ⟨v, .exited (decode info) :: s.log⟩
    | (some e, v) => .ok ⟨v, .refused e :: s.log⟩
  | .injectException vector errcodeValid errcode restart => do
    match ← injectException s.vcpu vector errcodeValid errcode restart with
    | (none, v) =>
      .ok ⟨v, .accepted ⟨.hwexception, vector.toNat, if errcodeValid then some errcode else none⟩
        :: s.log⟩
    | (some e, v) => .ok ⟨v, .refused e :: s.log⟩
  | .entryIntinfo => do
    let (v, retinfo) ← entryIntinfo s.vcpu
    .ok ⟨v, .entered
      { interrupted := decode s.vcpu.exitintinfo
        exception := s.vcpu.exception
        delivered := retinfo.bind decode
        suspend := s.vcpu.suspend
        suspend' := v.suspend } :: s.log⟩
  | .resume state rip nextrip instLength intrShadow =>
    .ok { s with vcpu := { s.vcpu with
      state := state, rip := rip, nextrip := nextrip, instLength := instLength,
      intrShadow := intrShadow } }
  | .suspend how => .ok { s with vcpu := vmSuspend s.vcpu how }

/-- The event recorded by the last VM exit since the last entry. -/
def lastExited : List Event → Option Incident
  | [] => none
  | .exited e :: _ => e
  | .entered _ :: _ => none
  | .accepted _ :: h => lastExited h
  | .refused _ :: h => lastExited h

/-- The exception accepted since the last entry. -/
def lastAccepted : List Event → Option Incident
  | [] => none
  | .accepted x :: _ => some x
  | .entered _ :: _ => none
  | .exited _ :: h => lastAccepted h
  | .refused _ :: h => lastAccepted h

/-- The exceptions accepted, oldest first. -/
def accepted : List Event → List Incident
  | [] => []
  | .accepted x :: h => accepted h ++ [x]
  | .entered _ :: h => accepted h
  | .exited _ :: h => accepted h
  | .refused _ :: h => accepted h

/-- The exceptions that the entries have dealt with, oldest first. -/
def settled : List Event → List Incident
  | [] => []
  | .entered en :: h => settled h ++ en.exception.toList
  | .accepted _ :: h => settled h
  | .exited _ :: h => settled h
  | .refused _ :: h => settled h

/-- Each entry deals with what was recorded since the entry before, and each exception is accepted while
no other is pending. -/
def Follows : List Event → Prop
  | [] => True
  | .exited _ :: h => Follows h
  | .refused _ :: h => Follows h
  | .accepted _ :: h => lastAccepted h = none ∧ Follows h
  | .entered en :: h =>
    en.interrupted = lastExited h ∧ en.exception = lastAccepted h ∧ en.Sdm ∧ Follows h

variable {m info : BitVec 64} {n : ℕ} {v v' : Vcpu} {x : Incident} {s t : World}

theorem shiftLeft_and_low (x : BitVec 64) (hm : m.toNat < 2 ^ 32) : (x <<< 32) &&& m = 0 := by
  ext i hi
  by_cases h : i < 32
  · simp [getElem_shiftLeft, h]
  · have hbit : m[i] = false := by
      rw [← getLsbD_eq_getElem]
      exact Nat.testBit_lt_two_pow (hm.trans_le (Nat.pow_le_pow_right (by omega) (by omega)))
    simp [hbit]

/-- The information of a pending exception, from its byte for the vector and its error code. -/
def encoded (b : BitVec 64) (errcode : Option (BitVec 32)) : BitVec 64 :=
  let info := b &&& 0xff ||| (vmIntinfoValid ||| vmIntinfoHwexception)
  match errcode with
  | some e => info ||| vmIntinfoDelErrcode ||| e.setWidth 64 <<< 32
  | none => info

/-- A field below bit 32 does not see the error code. -/
theorem encoded_and (hm : m.toNat < 2 ^ 32) (b : BitVec 64) (errcode : Option (BitVec 32)) :
    encoded b errcode &&& m = (b &&& (0xff &&& m)) |||
      ((vmIntinfoValid ||| vmIntinfoHwexception) &&& m) |||
      (if errcode.isSome then vmIntinfoDelErrcode &&& m else 0) := by
  cases errcode with
  | none => simp [encoded, BitVec.and_or_distrib_right, BitVec.and_assoc]
  | some e =>
    simp only [encoded, BitVec.and_or_distrib_right, BitVec.and_assoc, shiftLeft_and_low _ hm]
    simp

theorem getLsbD_of_low (hm : m.toNat < 2 ^ 32) {i : ℕ} (hi : 32 ≤ i) : m.getLsbD i = false :=
  Nat.testBit_lt_two_pow (hm.trans_le (Nat.pow_le_pow_right (by omega) hi))

theorem toNat_vector_byte (hn : n < 32) : (BitVec.ofNat 64 n &&& 0xff).toNat = n := by
  rw [toNat_and, toNat_ofNat, Nat.mod_eq_of_lt (by omega)]
  exact (Nat.and_two_pow_sub_one_eq_mod n 8).trans (Nat.mod_eq_of_lt (by omega))

theorem encoded_shiftRight (b : BitVec 64) (e : BitVec 32) :
    (encoded b (some e) >>> 32).setWidth 32 = e := by
  ext i hi
  have hlow : ∀ m : BitVec 64, m.toNat < 2 ^ 32 → m.getLsbD (32 + i) = false :=
    fun m hm => getLsbD_of_low hm (Nat.le_add_right 32 i)
  rw [getElem_setWidth, getLsbD_ushiftRight, encoded, getLsbD_or,
    getLsbD_or, getLsbD_or, getLsbD_and, hlow 0xff (by decide),
    hlow (vmIntinfoValid ||| vmIntinfoHwexception) (by decide),
    hlow vmIntinfoDelErrcode (by decide)]
  simp [hi, show 32 + i < 64 by omega]

theorem typeOf_encoded (b : BitVec 64) (errcode : Option (BitVec 32)) :
    typeOf (encoded b errcode) = vmIntinfoHwexception := by
  rw [typeOf, encoded_and (by decide), show 0xff &&& vmIntinfoType = 0 by decide]
  cases errcode <;> simp <;> decide

/-- The information that the code makes for a pending exception describes that exception. -/
theorem decode_encoded (hn : n < 32) (errcode : Option (BitVec 32)) :
    decode (encoded (BitVec.ofNat 64 n) errcode) = some ⟨.hwexception, n, errcode⟩ := by
  have hvalid : valid (encoded (BitVec.ofNat 64 n) errcode) = true := by
    rw [valid, encoded_and (by decide), show 0xff &&& vmIntinfoValid = 0 by decide]
    cases errcode <;> simp <;> decide
  have hkind : kindOf (encoded (BitVec.ofNat 64 n) errcode) = .hwexception := by
    rw [kindOf, typeOf_encoded]
    decide
  have hvector : vectorOf (encoded (BitVec.ofNat 64 n) errcode) = n := by
    rw [vectorOf, encoded_and (by decide),
      show (vmIntinfoValid ||| vmIntinfoHwexception) &&& 0xff = 0 by decide,
      show vmIntinfoDelErrcode &&& 0xff = 0 by decide]
    cases errcode <;> simpa using toNat_vector_byte hn
  have hdel : encoded (BitVec.ofNat 64 n) errcode &&& vmIntinfoDelErrcode =
      if errcode.isSome then vmIntinfoDelErrcode else 0 := by
    rw [encoded_and (by decide),
      show 0xff &&& vmIntinfoDelErrcode = 0 by decide,
      show (vmIntinfoValid ||| vmIntinfoHwexception) &&& vmIntinfoDelErrcode = 0 by decide]
    cases errcode <;> simp
  rw [decode, hvalid, hkind, hvector, hdel]
  cases errcode with
  | none => rfl
  | some e => rw [encoded_shiftRight]; rfl

theorem exceptionIntinfo_eq (hp : v.exceptionPending = true) :
    exceptionIntinfo v = encoded (BitVec.ofNat 64 v.excVector)
      (if v.excErrcodeValid then some v.excErrcode else none) := by
  rw [exceptionIntinfo, if_pos hp]
  by_cases he : v.excErrcodeValid = true
  · rw [if_pos he, if_pos he]; rfl
  · rw [if_neg he, if_neg he]; rfl

theorem decode_exceptionIntinfo (hv : v.excVector < 32) :
    decode (exceptionIntinfo v) = v.exception := by
  rw [Vcpu.exception]
  by_cases hp : v.exceptionPending = true
  · rw [if_pos hp, exceptionIntinfo_eq hp, decode_encoded hv]
  · rw [if_neg hp, exceptionIntinfo, if_neg hp]; rfl

theorem decode_zero : decode 0 = none := rfl

theorem isSome_decode (info : BitVec 64) : (decode info).isSome = valid info := by
  rw [decode]
  split <;> simp_all

/-- What `decode` gives of a valid information. -/
theorem decode_eq_some (h : decode info = some x) :
    valid info = true ∧ x.kind = kindOf info ∧ x.vector = vectorOf info := by
  rw [decode] at h
  split at h
  · cases h
    exact ⟨‹_›, rfl, rfl⟩
  · cases h

theorem vectorClass_eq (n : ℕ) : vectorClass n = if n ∈ [idtPf, idtVe] then .pagefault
      else if n ∈ [idtDe, idtTs, idtNp, idtSs, idtGp] then .contributory
      else .benign := by
  unfold vectorClass
  split
  any_goals rfl
  rw [if_neg] <;> simp_all [idtPf, idtVe, idtDe, idtTs, idtNp, idtSs, idtGp]

theorem exceptionClass_eq (h : decode info = some x) : exceptionClass info = .ok x.excClass := by
  obtain ⟨hvalid, hkind, hvector⟩ := decode_eq_some h
  rw [exceptionClass, if_neg (by simp [hvalid]), Incident.excClass, hkind, hvector, vectorClass_eq,
    kindOf]
  by_cases h0 : typeOf info = vmIntinfoHwintr
  · rw [if_pos (.inl h0), if_pos h0]
  by_cases h2 : typeOf info = vmIntinfoNmi
  · rw [if_pos (.inr (.inr h2)), if_neg h0, if_pos h2]
  by_cases h4 : typeOf info = vmIntinfoSwintr
  · have h3 : typeOf info ≠ vmIntinfoHwexception := by rw [h4]; decide
    rw [if_pos (.inr (.inl h4)), if_neg h0, if_neg h2, if_neg h3, if_pos h4]
  have hexc : ¬ (typeOf info = vmIntinfoHwintr ∨ typeOf info = vmIntinfoSwintr
      ∨ typeOf info = vmIntinfoNmi) := by
    simp [h0, h2, h4]
  split_ifs <;> rfl

/-- The test of `nested_fault` for a double fault is the table of the SDM. -/
theorem doubles_iff (c d : ExcClass) :
    doubles c d = true ↔ c = .contributory ∧ d = .contributory ∨ c = .pagefault ∧ d ≠ .benign := by
  cases c <;> cases d <;> decide

theorem kind_eq_hwexception : kindOf info = .hwexception ↔ typeOf info = vmIntinfoHwexception := by
  rw [kindOf]
  constructor
  · intro h
    split_ifs at h with h0 h2 h3
    · exact h3
  · intro h
    rw [h]
    decide

/-- What `nested_fault` does is the row of the table for the two events. -/
theorem nestedFault_eq {info1 info2 : BitVec 64} {e : Incident} (h1 : decode info1 = some e)
    (h2 : decode info2 = some x) :
    ∃ v' ret, nestedFault v info1 info2 = .ok (v', ret) ∧ v' = { v with suspend := v'.suspend } ∧
      Entry.Sdm ⟨some e, some x, ret.bind decode, v.suspend, v'.suspend⟩ := by
  obtain ⟨hvalid1, hkind, hvector⟩ := decode_eq_some h1
  obtain ⟨hvalid2, -, -⟩ := decode_eq_some h2
  have hdf : e.kind = .hwexception ∧ e.vector = 8 ↔
      typeOf info1 = vmIntinfoHwexception ∧ vectorOf info1 = idtDf := by
    rw [hkind, hvector, kind_eq_hwexception, idtDf]
  rw [nestedFault, if_neg (by simp [hvalid1, hvalid2])]
  simp only [Entry.Sdm, combine]
  by_cases htriple : typeOf info1 = vmIntinfoHwexception ∧ vectorOf info1 = idtDf
  · rw [if_pos htriple, if_pos (hdf.mpr htriple)]
    exact ⟨_, _, rfl, rfl, rfl, rfl⟩
  rw [if_neg htriple, if_neg (mt hdf.mp htriple), exceptionClass_eq h1, exceptionClass_eq h2]
  by_cases hd : doubles e.excClass x.excClass = true
  · refine ⟨v, _, if_pos ((doubles_iff _ _).mp hd), rfl, ?_⟩
    rw [if_pos hd]
    exact ⟨rfl, rfl⟩
  · refine ⟨v, _, if_neg (mt (doubles_iff _ _).mpr hd), rfl, ?_⟩
    rw [if_neg hd]
    exact ⟨h2, rfl⟩

theorem slot_exception (v : Vcpu) :
    (if v.exceptionPending = true then exceptionIntinfo v else 0) = exceptionIntinfo v := by
  by_cases hp : v.exceptionPending = true
  · rw [if_pos hp]
  · rw [if_neg hp, exceptionIntinfo, if_neg hp]

/-- An entry empties both slots and does what the SDM says with what they held. -/
theorem entryIntinfo_eq (hv : v.excVector < 32) : ∃ v' ret, entryIntinfo v = .ok (v', ret) ∧
      v' = { v with exitintinfo := 0, exceptionPending := false, suspend := v'.suspend } ∧
      Entry.Sdm ⟨decode v.exitintinfo, v.exception, ret.bind decode, v.suspend, v'.suspend⟩ := by
  rw [← decode_exceptionIntinfo hv, entryIntinfo, slot_exception]
  cases h1 : decode v.exitintinfo with
  | none =>
    have hvalid1 : valid v.exitintinfo = false := by rw [← isSome_decode, h1]; rfl
    cases h2 : decode (exceptionIntinfo v) with
    | none =>
      have hvalid2 : valid (exceptionIntinfo v) = false := by rw [← isSome_decode, h2]; rfl
      rw [if_neg (by simp [hvalid1]), if_neg (by simp [hvalid1]), if_neg (by simp [hvalid2])]
      exact ⟨_, _, rfl, rfl, rfl, rfl⟩
    | some x =>
      rw [if_neg (by simp [hvalid1]), if_neg (by simp [hvalid1]), if_pos (decode_eq_some h2).1]
      exact ⟨_, _, rfl, rfl, h2, rfl⟩
  | some e =>
    have hvalid1 : valid v.exitintinfo = true := (decode_eq_some h1).1
    cases h2 : decode (exceptionIntinfo v) with
    | none =>
      have hvalid2 : valid (exceptionIntinfo v) = false := by rw [← isSome_decode, h2]; rfl
      rw [if_neg (by simp [hvalid2]), if_pos hvalid1]
      exact ⟨_, _, rfl, rfl, h1, rfl⟩
    | some x =>
      rw [if_pos ⟨hvalid1, (decode_eq_some h2).1⟩]
      exact nestedFault_eq h1 h2

/-- What an entry returns is valid, and it is the interrupted event or an exception. -/
theorem entryIntinfo_returns {v' : Vcpu} (h : entryIntinfo v = .ok (v', some info)) :
    valid info = true ∧ (info = v.exitintinfo ∨ typeOf info = vmIntinfoHwexception) := by
  have htype : valid (exceptionIntinfo v) = true →
      typeOf (exceptionIntinfo v) = vmIntinfoHwexception := by
    intro hvalid
    by_cases hp : v.exceptionPending = true
    · rw [exceptionIntinfo_eq hp, typeOf_encoded]
    · rw [exceptionIntinfo, if_neg hp] at hvalid
      exact absurd hvalid (by decide)
  rw [entryIntinfo, slot_exception] at h
  split_ifs at h with hboth hfirst hsecond
  · rw [nestedFault, if_neg (by simp [hboth.1, hboth.2])] at h
    split_ifs at h
    · cases h
    · obtain ⟨c, -, h⟩ := bind_eq_ok.mp h
      obtain ⟨d, -, h⟩ := bind_eq_ok.mp h
      split_ifs at h
      · cases h; exact ⟨by decide, .inr (by decide)⟩
      · cases h; exact ⟨hboth.2, .inr (htype hboth.2)⟩
  · cases h; exact ⟨hfirst, .inl rfl⟩
  · cases h; exact ⟨hsecond, .inr (htype hsecond)⟩
  · cases h

/-- A vCPU as `vcpu_init` leaves it. -/
structure Initial (s : World) : Prop where
  exitintinfo : s.vcpu.exitintinfo = 0
  exceptionPending : s.vcpu.exceptionPending = false
  excVector : s.vcpu.excVector = 0
  log : s.log = []

/-- The invariant: the slots hold what the log says is owed to the next entry. -/
structure Owed (s : World) : Prop where
  exited : decode s.vcpu.exitintinfo = lastExited s.log
  exception : s.vcpu.exception = lastAccepted s.log
  vector : s.vcpu.excVector < 32
  follows : Follows s.log
  once : accepted s.log = settled s.log ++ (lastAccepted s.log).toList

theorem Initial.owed (h : Initial s) : Owed s where
  exited := by rw [h.exitintinfo, h.log]; rfl
  exception := by rw [Vcpu.exception, h.exceptionPending, h.log]; rfl
  vector := by rw [h.excVector]; decide
  follows := by rw [h.log]; trivial
  once := by rw [h.log]; rfl

/-- A refused call leaves the vCPU as it is, and a recorded event is the one given. -/
theorem exitIntinfo_cases (v : Vcpu) (info : BitVec 64) : (∃ e, exitIntinfo v info = (some e, v)) ∨
      ∃ info', exitIntinfo v info = (none, { v with exitintinfo := info' }) ∧
        decode info' = decode info := by
  rw [exitIntinfo]
  split_ifs with hvalid
  any_goals exact .inl ⟨_, rfl⟩
  · exact .inr ⟨info, rfl, rfl⟩
  · refine .inr ⟨0, rfl, ?_⟩
    rw [decode_zero, decode, if_neg hvalid]

theorem restartInstruction_eq_ok (h : restartInstruction v = .ok v') :
    v' = { v with nextrip := v'.nextrip, instLength := v'.instLength } := by
  rw [restartInstruction] at h
  split at h <;> cases h <;> rfl

/-- An exception is accepted only while none is pending, and a refused call leaves the vCPU as it is. -/
theorem injectException_cases {vector : ℤ} {errcodeValid : Bool} {errcode : BitVec 32}
    {restart : Bool} {r : Option Errno}
    (h : injectException v vector errcodeValid errcode restart = .ok (r, v')) :
    (∃ e, r = some e ∧ v' = v) ∨ (r = none ∧ v.exceptionPending = false ∧ vector.toNat < 32 ∧
        v' = { v with
          intrShadow := false
          nextrip := v'.nextrip
          instLength := v'.instLength
          exceptionPending := true
          excVector := vector.toNat
          excErrcode := errcode
          excErrcodeValid := errcodeValid }) := by
  rw [injectException] at h
  split_ifs at h with hrange hdf hpending
  any_goals
    cases h
    exact .inl ⟨_, rfl, rfl⟩
  · obtain ⟨w, hw, hv⟩ := bind_eq_ok.mp h
    cases hv
    refine .inr ⟨rfl, Bool.eq_false_iff.mpr hpending, by omega, ?_⟩
    rw [restartInstruction_eq_ok hw]
  · cases h
    exact .inr ⟨rfl, Bool.eq_false_iff.mpr hpending, by omega, rfl⟩

/-- One step keeps the invariant. -/
theorem owed_step {a : Action} (hstep : step s a = .ok t) (h : Owed s) : Owed t := by
  cases a with
  | exitIntinfo info =>
    obtain ⟨e, heq⟩ | ⟨info', heq, hdec⟩ := exitIntinfo_cases s.vcpu info
    · simp only [step, heq] at hstep
      cases hstep
      exact { h with }
    · simp only [step, heq] at hstep
      cases hstep
      exact { h with exited := hdec }
  | injectException vector errcodeValid errcode restart =>
    obtain ⟨⟨r, v'⟩, heq, ht⟩ := bind_eq_ok.mp hstep
    obtain ⟨e, rfl, rfl⟩ | ⟨rfl, hfree, hlt, hv'⟩ := injectException_cases heq
    · cases ht
      exact { h with }
    · cases ht
      have hnone : lastAccepted s.log = none := by
        rw [← h.exception, Vcpu.exception, hfree]
        rfl
      refine ⟨?_, ?_, ?_, ⟨hnone, h.follows⟩, ?_⟩
      · rw [hv']; exact h.exited
      · rw [hv']; rfl
      · rw [hv']; exact hlt
      · have honce := h.once
        rw [hnone, Option.toList_none, List.append_nil] at honce
        rw [accepted, settled, lastAccepted, honce, Option.toList_some]
  | entryIntinfo =>
    obtain ⟨v', ret, heq, hv', hsdm⟩ := entryIntinfo_eq h.vector
    simp only [step, heq] at hstep
    cases hstep
    refine ⟨?_, ?_, ?_, ⟨h.exited, h.exception, hsdm, h.follows⟩, ?_⟩
    · rw [hv']; exact decode_zero
    · rw [hv']; rfl
    · rw [hv']; exact h.vector
    · rw [accepted, settled, lastAccepted, h.exception, h.once, Option.toList_none, List.append_nil]
  | resume | suspend =>
    cases hstep
    exact { h with }

/-- In every run each entry delivers the pending exception, the interrupted event or what the SDM makes
of both, each accepted exception is dealt with by exactly one entry or still pending, and while it is
pending no other is accepted. -/
theorem exceptions_merged {as : List Action} (h0 : Initial s) (hrun : Run step Any s as t) :
    Follows t.log ∧ accepted t.log = settled t.log ++ (lastAccepted t.log).toList ∧
      t.vcpu.exception = lastAccepted t.log ∧ (∃ r, entryIntinfo t.vcpu = .ok r) ∧
      (t.vcpu.exceptionPending = true → ∀ vector errcodeValid errcode restart, ∃ e,
        injectException t.vcpu vector errcodeValid errcode restart = .ok (some e, t.vcpu)) := by
  have h : Owed t := hrun.invariant (fun _ _ _ _ hs hi => owed_step hs hi) h0.owed
  obtain ⟨v', ret, heq, -, -⟩ := entryIntinfo_eq h.vector
  refine ⟨h.follows, h.once, h.exception, ⟨_, heq⟩, fun hv vector errcodeValid errcode restart => ?_⟩
  rw [injectException]
  split_ifs <;> exact ⟨_, rfl⟩

/-- A page fault during the delivery of #GP is delivered alone, a second one during its delivery becomes
a double fault, and a fault during that delivery suspends the VM. -/
theorem exceptions_merged_triple_fault :
    let v : Vcpu :=
      { state := .running, exitintinfo := 0, exceptionPending := false, excVector := 0,
        excErrcodeValid := false, excErrcode := 0, intrShadow := true, rip := 0, nextrip := 0,
        instLength := 2, suspend := none }
    let pf : Action := .injectException 14 true 2 true
    let as : List Action :=
      [.exitIntinfo 0x80000b0d, pf, .entryIntinfo, .exitIntinfo 0x80000b0e, pf, pf, .entryIntinfo,
        .exitIntinfo 0x80000b08, pf, .entryIntinfo]
    ∃ t, Run step Any ⟨v, []⟩ as t ∧ Follows t.log ∧ t.vcpu.suspend = some .triplefault ∧
      t.log.filterMap (fun | .entered en => some en.delivered | _ => none) =
        [none, some doubleFault, some ⟨.hwexception, 14, some 2⟩] := by
  intro v pf as
  have hrun : Run step Any ⟨v, []⟩ as _ := run_of_isOk (d := ⟨v, []⟩) (by decide +kernel)
  exact ⟨_, hrun, (exceptions_merged ⟨rfl, rfl, rfl, rfl⟩ hrun).1, by decide +kernel,
    by decide +kernel⟩

end HyperCog.Exception
