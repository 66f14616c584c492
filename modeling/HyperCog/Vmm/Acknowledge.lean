import HyperCog.Vmm.Pic

/-! The acknowledge of an interrupt: which pin the vector that was returned puts in service. -/
namespace HyperCog.Pic

open Inject BitVec

/-- Distinct vector bases, as ICW2 stores them. -/
structure Based (p : Vatpic) : Prop where
  master : p.master.irqBase % 8 = 0
  slave : p.slave.irqBase % 8 = 0
  apart : p.master.irqBase ≠ p.slave.irqBase

/-- A chip before and after: the pin is in service, or has the lowest priority if it is rotated under
automatic EOI; and without a pin nothing else is in service. -/
def Acked : Option ℕ → Atpic → Atpic → Prop
  | some pin, a, a' =>
    a'.service = (if a.aeoi then a.service else a.service ||| (1 : BitVec 8) <<< pin) ∧
      a'.lowprio = if a.aeoi && a.rotate then pin else a.lowprio
  | none, a, a' => a'.service = a.service

/-- What the acceptance of the vector is for: the pin that was selected, with that of the cascade. -/
def Exact (p p' : Vatpic) : Prop :=
  if p.master.highestIrrpin = some 2 then
    Acked p.slave.highestIrrpin p.slave p'.slave ∧ Acked (some 2) p.master p'.master
  else Acked p.master.highestIrrpin p.master p'.master ∧
    p'.slave.service = p.slave.service ∧ p'.slave.lowprio = p.slave.lowprio

/-- A pin is pending, or the spurious one leaves no mark. -/
def Marked (a : Atpic) : Prop := a.highestIrrpin = none → a.aeoi = true ∨ a.service.getLsbD 7 = true

variable {p : Vatpic} {a : Atpic} {base pin : ℕ}

theorem notifyIntr_serves (p : Vatpic) :
    p.notifyIntr.1.master.service = p.master.service ∧ p.notifyIntr.1.master.lowprio = p.master.lowprio ∧
      p.notifyIntr.1.slave.service = p.slave.service ∧ p.notifyIntr.1.slave.lowprio = p.slave.lowprio := by
  unfold Vatpic.notifyIntr
  split_ifs <;> simp [notifyMaster_eq, Vatpic.setCascade, raise]

theorem acked_congr {o : Option ℕ} {b c : Atpic} (hs : b.service = c.service) (hl : b.lowprio = c.lowprio) :
    Acked o a b ↔ Acked o a c := by
  cases o <;> rw [Acked, Acked, hs]
  rw [hl]

theorem acked_pinAccepted (a : Atpic) (pin : ℕ) : Acked (some pin) a (a.pinAccepted pin) := by
  rw [pinAccepted_eq, ofNat_one_shiftLeft]
  exact ⟨rfl, rfl⟩

theorem or_bit_seven (x : BitVec 8) : x ||| (1 : BitVec 8) <<< 7 = x ↔ x.getLsbD 7 = true := by
  revert x
  decide

/-- The pin that stands for none is the last one. -/
theorem acked_getD_iff (a : Atpic) :
    Acked a.highestIrrpin a (a.pinAccepted (a.highestIrrpin.getD 7)) ↔ Marked a := by
  cases h : a.highestIrrpin with
  | some pin => exact iff_of_true (acked_pinAccepted a pin) (by simp [Marked, h])
  | none =>
    have hack := (acked_pinAccepted a 7).1
    rw [Acked, Option.getD_none, hack, Marked, h]
    cases a.aeoi with
    | true => simp
    | false => simpa using or_bit_seven a.service

theorem getD_lt (a : Atpic) : a.highestIrrpin.getD 7 < 8 := by
  cases h : a.highestIrrpin with
  | none => decide
  | some pin => exact highestIrrpin_lt h

/-- The vector is taken apart again. -/
theorem intrAccepted_vector (hbase : base % 8 = 0) (hpin : pin < 8) : p.intrAccepted (base + pin) =
      if base = p.slave.irqBase then
        { p with slave := p.slave.pinAccepted pin, master := p.master.pinAccepted 2 }.notifyIntr
      else { p with master := p.master.pinAccepted pin }.notifyIntr := by
  have hmod : (base + pin) % 8 = pin := by omega
  rw [Vatpic.intrAccepted, hmod, Nat.add_sub_cancel]
  split_ifs <;> rfl

/-- The acceptance is exact except for a spurious interrupt that is put in service. -/
theorem acknowledge_exact_iff (p : Vatpic) (h : Based p) : Exact p (p.intrAccepted p.pendingIntr).1 ↔
      Marked (if p.master.highestIrrpin = some 2 then p.slave else p.master) := by
  unfold Exact
  split_ifs with htwo
  · have hvec : p.pendingIntr = p.slave.irqBase + p.slave.highestIrrpin.getD 7 := by
      unfold Vatpic.pendingIntr
      simp [htwo]
    rw [hvec, intrAccepted_vector h.slave (getD_lt _), if_pos rfl]
    obtain ⟨hms, hml, hss, hsl⟩ := notifyIntr_serves
      { p with slave := p.slave.pinAccepted (p.slave.highestIrrpin.getD 7), master := p.master.pinAccepted 2 }
    rw [acked_congr hss hsl, acked_congr hms hml, acked_getD_iff]
    exact and_iff_left (acked_pinAccepted _ 2)
  · have hvec : p.pendingIntr = p.master.irqBase + p.master.highestIrrpin.getD 7 := by
      unfold Vatpic.pendingIntr
      split
      · contradiction
      · rfl
    rw [hvec, intrAccepted_vector h.master (getD_lt _), if_neg h.apart]
    obtain ⟨hms, hml, hss, hsl⟩ := notifyIntr_serves
      { p with master := p.master.pinAccepted (p.master.highestIrrpin.getD 7) }
    rw [acked_congr hms hml, acked_getD_iff]
    exact and_iff_left ⟨hss, hsl⟩

/-- Two idle chips with the vectors 0x20 and 0x28, and a request at pin 0 of the master or none. -/
def idleChips (request : BitVec 8) : Vatpic where
  master := { initAtpic with irqBase := 0x20, request }
  slave := { initAtpic with irqBase := 0x28 }
  elc := 0

theorem acknowledge_timer : Exact (idleChips 1) ((idleChips 1).intrAccepted (idleChips 1).pendingIntr).1 :=
  (acknowledge_exact_iff (idleChips 1) ⟨rfl, rfl, by decide⟩).mpr fun h => absurd h (by decide)

/-- A request that is gone is answered with vector 0x27, which puts pin 7 in service. -/
theorem spurious_in_service : (idleChips 0).pendingIntr = 0x27 ∧
    ((idleChips 0).intrAccepted 0x27).1.master.service = 0x80 ∧
    ¬ Exact (idleChips 0) ((idleChips 0).intrAccepted 0x27).1 := by
  refine ⟨by decide, by decide, fun h => ?_⟩
  have hnone : (idleChips 0).master.highestIrrpin = none := by decide
  rw [Exact, hnone, if_neg nofun] at h
  exact absurd h.1 (by unfold Acked; decide)

end HyperCog.Pic
