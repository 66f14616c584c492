import Mathlib.Data.UInt

/-! Masks of 32-bit flag words: which bits a union, a difference or a test can see. -/
namespace Flags

open BitVec

theorem or_and (a b c : UInt32) : (a ||| b) &&& c = (a &&& c) ||| (b &&& c) := by
  apply UInt32.toBitVec_inj.mp
  exact and_or_distrib_right

/-- Setting the bits of `a` changes exactly those that were clear. -/
theorem xor_or (a b : UInt32) : b ^^^ (a ||| b) = a &&& ~~~b := by
  apply UInt32.toBitVec_inj.mp
  simp only [UInt32.toBitVec_and, UInt32.toBitVec_or, UInt32.toBitVec_xor, UInt32.toBitVec_not]
  ext i hi
  simp only [getElem_xor, getElem_or, getElem_and, getElem_not]
  cases a.toBitVec[i] <;> cases b.toBitVec[i] <;> rfl

theorem or_and_ne_zero_left {a b c : UInt32} (h : a &&& c ≠ 0) : (a ||| b) &&& c ≠ 0 := by
  rw [or_and]
  intro h0
  exact h (UInt32.or_eq_zero_iff.mp h0).1

/-- A word without bits outside `b` is its own part inside `b`. -/
theorem and_eq_self {a b : UInt32} (h : a &&& ~~~b = 0) : a &&& b = a := by
  apply UInt32.toBitVec_inj.mp
  have h' := congrArg UInt32.toBitVec h
  simp only [UInt32.toBitVec_and, UInt32.toBitVec_not] at h' ⊢
  ext i hi
  have hi' := congrArg (fun v : BitVec 32 => v[i]) h'
  simp only [getElem_and, getElem_not] at hi' ⊢
  cases ha : a.toBitVec[i] <;> simp_all

end Flags
