import Mathlib.Data.Fin.Basic
import Mathlib.Data.List.Nodup
import Mathlib.Data.Nat.Find
import Mathlib.Data.Nat.ModEq

/-! A loop that goes round a ring of slots and handles those that are marked. -/
namespace Sweep

open Function List Bool

/-- What handling a slot comes to: its mark goes, its mark stays, or the loop ends. -/
inductive Fate
  | passes
  | stuck
  | halts
  deriving DecidableEq, Repr

section Positions

variable {n : ℕ} [NeZero n]

/-- The slot that is looked at `j` turns after `p`. -/
def slotAt (p : Fin n) (j : ℕ) : Fin n := p + Fin.ofNat n j

variable {p : Fin n} {i j : ℕ}

theorem val_slotAt : (slotAt p j).val = (p.val + j) % n := by
  rw [slotAt, Fin.val_add, Fin.val_ofNat, Nat.add_mod_mod]

theorem slotAt_zero : slotAt p 0 = p := by
  apply Fin.ext
  rw [val_slotAt, Nat.add_zero, Nat.mod_eq_of_lt p.isLt]

theorem slotAt_succ : slotAt (p + 1) j = slotAt p (j + 1) := by
  apply Fin.ext
  rw [val_slotAt, val_slotAt, Fin.val_add, Fin.val_one', Nat.add_mod_mod, Nat.mod_add_mod,
    Nat.add_assoc, Nat.add_comm 1 j]

/-- After a whole round the same slots come again. -/
theorem slotAt_round : slotAt p (n + j) = slotAt p j := by
  apply Fin.ext
  rw [val_slotAt, val_slotAt, Nat.add_left_comm, Nat.add_mod_left]

theorem slotAt_inj (hi : i < n) (hj : j < n) (h : slotAt p i = slotAt p j) : i = j := by
  have hv := congrArg Fin.val h
  rw [val_slotAt, val_slotAt] at hv
  have hmod : i ≡ j [MOD n] := Nat.ModEq.add_left_cancel' p.val hv
  exact hmod.eq_of_lt_of_lt hi hj

/-- Every slot comes up within a round. -/
theorem exists_slotAt (p u : Fin n) : ∃ j < n, slotAt p j = u := by
  have hp := p.isLt
  refine ⟨(n - p.val + u.val) % n, Nat.mod_lt _ (Nat.pos_of_neZero n), Fin.ext ?_⟩
  rw [val_slotAt, Nat.add_mod_mod, ← Nat.add_assoc, Nat.add_sub_cancel' hp.le, Nat.add_mod_left,
    Nat.mod_eq_of_lt u.isLt]

/-- The slot at hand does not come up again before the round is over. -/
theorem slotAt_succ_ne (hj : j + 1 < n) : slotAt (p + 1) j ≠ p := by
  rw [slotAt_succ]
  intro h
  have hzero := slotAt_inj hj (Nat.pos_of_neZero n) (h.trans slotAt_zero.symm)
  omega

end Positions

section Sweep

variable {n : ℕ} [NeZero n] {fate : ℕ → Fate} {marked : Fin n → Bool} {p : Fin n} {k j d fuel : ℕ}

/-- The slots handled in at most `fuel` turns, the fate of each told by the turn, and whether
the loop ended within them. -/
def sweep (fate : ℕ → Fate) : ℕ → ℕ → (Fin n → Bool) → Fin n → List (Fin n) × Bool
  | 0, _, _, _ => ([], false)
  | fuel + 1, k, marked, p =>
    if ∀ u, marked u = false then ([], true)
    else if marked p = false then sweep fate fuel (k + 1) marked (p + 1)
    else
      match fate k with
      | .halts => ([p], true)
      | .passes =>
        let r := sweep fate fuel (k + 1) (Function.update marked p false) (p + 1)
        (p :: r.1, r.2)
      | .stuck =>
        let r := sweep fate fuel (k + 1) marked (p + 1)
        (p :: r.1, r.2)

theorem sweep_none (h : ∀ u, marked u = false) : sweep fate (fuel + 1) k marked p = ([], true) := by
  rw [sweep, if_pos h]

theorem sweep_halts (hp : marked p = true) (hf : fate k = .halts) :
    sweep fate (fuel + 1) k marked p = ([p], true) := by
  rw [sweep, if_neg (fun h => by rw [h p] at hp; cases hp), if_neg (by simp [hp]), hf]

/-- The slots that the turn at `p` handles, and the marks it leaves when the loop goes on. -/
def handledAt (marked : Fin n → Bool) (p : Fin n) : List (Fin n) := if marked p then [p] else []

def marksAfter (f : Fate) (marked : Fin n → Bool) (p : Fin n) : Fin n → Bool :=
  if f = .passes then Function.update marked p false else marked

variable {f : Fate} {u v : Fin n} {l : List (Fin n)}

omit [NeZero n] in
theorem marksAfter_unmarked (hp : marked p = false) : marksAfter f marked p = marked := by
  rw [marksAfter, update_eq_self_iff.mpr hp.symm, ite_self]

theorem sweep_turn (hu : marked u = true) (hno : marked p = true → fate k ≠ .halts) :
    sweep fate (fuel + 1) k marked p =
      (handledAt marked p ++ (sweep fate fuel (k + 1) (marksAfter (fate k) marked p) (p + 1)).1,
        (sweep fate fuel (k + 1) (marksAfter (fate k) marked p) (p + 1)).2) := by
  rw [sweep, if_neg (fun h => by rw [h u] at hu; cases hu)]
  by_cases hp : marked p = true
  · cases hf : fate k with
    | halts => exact absurd hf (hno hp)
    | passes | stuck => simp [handledAt, marksAfter, hp]
  · rw [not_eq_true] at hp
    simp [handledAt, marksAfter_unmarked hp, hp]

omit [NeZero n] in
/-- A turn marks nothing, -/
theorem marked_of_marksAfter (hv : marksAfter f marked p v = true) : marked v = true := by
  unfold marksAfter at hv
  split at hv
  · by_cases hvp : v = p
    · rw [hvp, update_self] at hv
      cases hv
    · rwa [update_of_ne hvp] at hv
  · exact hv

omit [NeZero n] in
/-- and unmarks only the slot at hand. -/
theorem marksAfter_of_ne (hv : v ≠ p) : marksAfter f marked p v = marked v := by
  unfold marksAfter
  split
  · exact update_of_ne hv _ _
  · rfl

/-- Each of the next `d` slots is handled at most once, and no other. -/
def OnceWithin (d : ℕ) (p : Fin n) (l : List (Fin n)) : Prop :=
  l.Nodup ∧ ∀ u ∈ l, ∃ j < d, slotAt p j = u

theorem onceWithin_nil : OnceWithin d p [] := ⟨nodup_nil, by simp⟩

theorem OnceWithin.skip (h : OnceWithin d (p + 1) l) : OnceWithin (d + 1) p l := by
  refine ⟨h.1, fun u hu => ?_⟩
  obtain ⟨j, hj, rfl⟩ := h.2 u hu
  exact ⟨j + 1, by omega, slotAt_succ.symm⟩

theorem OnceWithin.cons (hd : d < n) (h : OnceWithin d (p + 1) l) : OnceWithin (d + 1) p (p :: l) := by
  refine ⟨nodup_cons.mpr ⟨fun hp => ?_, h.1⟩, fun u hu => ?_⟩
  · obtain ⟨j, hj, heq⟩ := h.2 p hp
    exact slotAt_succ_ne (by omega) heq
  · rcases mem_cons.mp hu with rfl | hu
    · exact ⟨0, by omega, slotAt_zero⟩
    · exact h.skip.2 u hu

theorem onceWithin_one (hd : 0 < d) : OnceWithin d p [p] := by
  refine ⟨nodup_singleton p, fun u hu => ⟨0, hd, ?_⟩⟩
  rw [mem_singleton.mp hu, slotAt_zero]

theorem OnceWithin.turn (hd : d < n) (h : OnceWithin d (p + 1) l) :
    OnceWithin (d + 1) p (handledAt marked p ++ l) := by
  unfold handledAt
  split
  · exact h.cons hd
  · exact h.skip

/-- A slot that ends the loop is reached within the round. -/
theorem sweep_until (hj : j < n) (hm : marked (slotAt p j) = true) (hf : fate (k + j) = .halts) :
    OnceWithin (j + 1) p (sweep fate fuel k marked p).1 ∧
      (j < fuel → (sweep fate fuel k marked p).2 = true) := by
  induction fuel generalizing j k marked p with
  | zero => exact ⟨onceWithin_nil, fun h => absurd h (Nat.not_lt_zero _)⟩
  | succ fuel ih =>
    by_cases hhalt : marked p = true ∧ fate k = .halts
    · rw [sweep_halts hhalt.1 hhalt.2]
      exact ⟨onceWithin_one (Nat.succ_pos _), fun _ => rfl⟩
    cases j with
    | zero =>
      rw [slotAt_zero] at hm
      exact absurd ⟨hm, hf⟩ hhalt
    | succ j =>
      rw [sweep_turn hm fun hp hf => hhalt ⟨hp, hf⟩]
      have hm' : marksAfter (fate k) marked p (slotAt (p + 1) j) = true := by
        rwa [marksAfter_of_ne (slotAt_succ_ne hj), slotAt_succ]
      have hf' : fate (k + 1 + j) = .halts := by rwa [Nat.add_assoc, Nat.add_comm 1 j]
      obtain ⟨honce, hend⟩ := ih (by omega) hm' hf'
      exact ⟨honce.turn hj, fun h => hend (by omega)⟩

/-- If no slot of the round is stuck, the loop ends with the round. -/
theorem sweep_all (hd : d ≤ n) (hm : ∀ u, marked u = true → ∃ j < d, slotAt p j = u)
    (hf : ∀ j < d, marked (slotAt p j) = true → fate (k + j) ≠ .stuck) :
    OnceWithin d p (sweep fate fuel k marked p).1 ∧
      (d < fuel → (sweep fate fuel k marked p).2 = true) := by
  induction fuel generalizing d k marked p with
  | zero => exact ⟨onceWithin_nil, fun h => absurd h (Nat.not_lt_zero _)⟩
  | succ fuel ih =>
    by_cases hnone : ∀ u, marked u = false
    · rw [sweep_none hnone]
      exact ⟨onceWithin_nil, fun _ => rfl⟩
    obtain ⟨u, hu⟩ := not_forall.mp hnone
    rw [not_eq_false] at hu
    cases d with
    | zero =>
      obtain ⟨j, hj, -⟩ := hm u hu
      omega
    | succ d =>
      by_cases hhalt : marked p = true ∧ fate k = .halts
      · rw [sweep_halts hhalt.1 hhalt.2]
        exact ⟨onceWithin_one (Nat.succ_pos _), fun _ => rfl⟩
      rw [sweep_turn hu fun hp hf => hhalt ⟨hp, hf⟩]
      have hgone : marksAfter (fate k) marked p p = false := by
        rw [← not_eq_true]
        intro hp
        have hmp := marked_of_marksAfter hp
        cases hfate : fate k with
        | halts => exact hhalt ⟨hmp, hfate⟩
        | stuck => exact hf 0 (by omega) (by rwa [slotAt_zero]) hfate
        | passes => simp [marksAfter, hfate] at hp
      -- what is still marked beyond the slot at hand comes up in the rest of the round
      obtain ⟨honce, hend⟩ := @ih (marksAfter (fate k) marked p) (p + 1) (k + 1) d (by omega)
        (fun v hv => by
          obtain ⟨j, hj, rfl⟩ := hm v (marked_of_marksAfter hv)
          cases j with
          | zero =>
            rw [slotAt_zero, hgone] at hv
            cases hv
          | succ j => exact ⟨j, by omega, slotAt_succ⟩)
        (fun j hj hv => by
          rw [Nat.add_assoc, Nat.add_comm 1 j]
          exact hf (j + 1) (by omega) (by rw [← slotAt_succ]; exact marked_of_marksAfter hv))
      exact ⟨honce.turn (by omega), fun h => hend (by omega)⟩

/-- A slot is reached when none before it is marked. -/
theorem sweep_reaches (hm : marked (slotAt p j) = true) (hno : ∀ i < j, marked (slotAt p i) = false) :
    slotAt p j ∈ (sweep fate (j + 1) k marked p).1 := by
  induction j generalizing k p with
  | zero =>
    by_cases hf : fate k = .halts
    · rw [slotAt_zero] at hm ⊢
      simp [sweep_halts hm hf]
    · rw [sweep_turn hm fun _ => hf]
      rw [slotAt_zero] at hm ⊢
      simp [handledAt, hm]
  | succ j ih =>
    have hp : marked p = false := by
      have h0 := hno 0 (by omega)
      rwa [slotAt_zero] at h0
    have hpass : marked p = true → fate k ≠ .halts := fun h => by rw [hp] at h; cases h
    rw [sweep_turn hm hpass, marksAfter_unmarked hp, ← slotAt_succ]
    refine mem_append_right _ (ih (by rwa [slotAt_succ]) fun i hi => ?_)
    rw [slotAt_succ]
    exact hno (i + 1) (by omega)

/-- What part of a round leaves when it does not end the loop and a slot `u` stays marked. -/
theorem sweep_round (hd : d ≤ n) (hu : marked u = true)
    (hno : ∀ i < d, marked (slotAt p i) = true → fate (k + i) ≠ .halts)
    (hst : ∀ i < d, slotAt p i = u → fate (k + i) = .stuck) :
    ∃ marked' : Fin n → Bool, marked' u = true ∧ (∀ v, marked' v = true → marked v = true) ∧
      (∀ i < d, fate (k + i) = .passes → marked' (slotAt p i) = false) ∧
      ∀ fuel, ∃ l, (∀ i < d, slotAt p i = u → u ∈ l) ∧ (sweep fate (d + fuel) k marked p).1 =
          l ++ (sweep fate fuel (k + d) marked' (slotAt p d)).1 := by
  induction d generalizing k marked p with
  | zero =>
    refine ⟨marked, hu, fun _ h => h, fun i hi => absurd hi (Nat.not_lt_zero i), fun fuel => ?_⟩
    refine ⟨[], fun i hi => absurd hi (Nat.not_lt_zero i), ?_⟩
    rw [slotAt_zero, Nat.zero_add, Nat.add_zero, nil_append]
  | succ d ih =>
    have hu₁ : marksAfter (fate k) marked p u = true := by
      by_cases hup : u = p
      · have hk : fate k = .stuck := hst 0 (by omega) (slotAt_zero.trans hup.symm)
        rwa [marksAfter, hk]
      · rwa [marksAfter_of_ne hup]
    have hshift : ∀ i, k + 1 + i = k + (i + 1) := fun i => by omega
    obtain ⟨m', hu', hsub', hpass', hrun'⟩ := ih (by omega) hu₁
      (fun i hi hm => by
        rw [hshift]
        exact hno (i + 1) (by omega) (marked_of_marksAfter (by rwa [slotAt_succ] at hm)))
      (fun i hi heq => by
        rw [hshift]
        exact hst (i + 1) (by omega) (by rwa [slotAt_succ] at heq))
    refine ⟨m', hu', fun v hv => marked_of_marksAfter (hsub' v hv), fun i hi hf => ?_,
      fun fuel => ?_⟩
    · cases i with
      | zero =>
        rw [slotAt_zero, ← not_eq_true]
        intro hp
        have hafter := hsub' p hp
        simp [marksAfter, show fate k = .passes from hf] at hafter
      | succ i =>
        rw [← slotAt_succ]
        exact hpass' i (by omega) (by rw [hshift]; exact hf)
    · obtain ⟨l, hl, heq⟩ := hrun' fuel
      refine ⟨handledAt marked p ++ l, fun i hi hiu => ?_, ?_⟩
      · cases i with
        | zero =>
          rw [slotAt_zero] at hiu
          subst hiu
          simp [handledAt, hu]
        | succ i => exact mem_append_right _ (hl i (by omega) (by rwa [slotAt_succ]))
      · have hgo : marked p = true → fate k ≠ .halts :=
          fun hp => hno 0 (by omega) (by rwa [slotAt_zero])
        rw [show d + 1 + fuel = d + fuel + 1 by omega, sweep_turn hu hgo, heq, append_assoc,
          hshift, slotAt_succ]

/-- A stuck slot in a round that does not end the loop is handled again in the next. -/
theorem sweep_again (hno : ∀ i < n, marked (slotAt p i) = true → fate (k + i) ≠ .halts)
    (hj : j < n) (hm : marked (slotAt p j) = true) (hst : fate (k + j) = .stuck)
    (hfirst : ∀ i < j, marked (slotAt p i) = true → fate (k + i) ≠ .stuck) :
    ¬ (sweep fate (n + (j + 1)) k marked p).1.Nodup := by
  obtain ⟨m', hu, hsub, hpass, hrun⟩ := sweep_round (Nat.le_refl n) hm hno (fun i hi heq => by
    rwa [slotAt_inj hi hj heq])
  obtain ⟨l, hl, heq⟩ := hrun (j + 1)
  have hround : slotAt p n = p := by
    have h := slotAt_round (p := p) (j := 0)
    rwa [slotAt_zero] at h
  have hclear : ∀ i < j, m' (slotAt p i) = false := by
    intro i hi
    rw [← not_eq_true]
    intro hm'
    have hmi := hsub _ hm'
    cases hfate : fate (k + i) with
    | halts => exact hno i (by omega) hmi hfate
    | stuck => exact hfirst i hi hmi hfate
    | passes =>
      rw [hpass i (by omega) hfate] at hm'
      cases hm'
  rw [heq, hround]
  intro hnodup
  exact disjoint_of_nodup_append hnodup (hl j hj rfl) (sweep_reaches hu hclear)

/-- If every slot is stuck whenever it comes up, the loop never ends. -/
theorem sweep_forever (hu : marked u = true) (hf : ∀ k, fate k = .stuck) :
    (sweep fate fuel k marked p).2 = false := by
  induction fuel generalizing k p with
  | zero => rfl
  | succ fuel ih =>
    have hsame : marksAfter (fate k) marked p = marked := by rw [hf k]; rfl
    rw [sweep_turn hu fun _ => by rw [hf k]; decide, hsame]
    exact ih

/-- No slot of the first round is stuck, or one of them ends the loop. -/
def Clears (fate : ℕ → Fate) (k : ℕ) (marked : Fin n → Bool) (p : Fin n) : Prop :=
  (∃ j < n, marked (slotAt p j) = true ∧ fate (k + j) = .halts) ∨
    ∀ j < n, marked (slotAt p j) = true → fate (k + j) ≠ .stuck

theorem sweep_ends (h : Clears fate k marked p) : ∃ N, (sweep fate N k marked p).2 = true := by
  rcases h with ⟨j, hj, hm, hf⟩ | hall
  · exact ⟨j + 1, (sweep_until hj hm hf).2 (Nat.lt_succ_self j)⟩
  · exact ⟨n + 1, (sweep_all (Nat.le_refl n) (fun u _ => exists_slotAt p u) hall).2
      (Nat.lt_succ_self n)⟩

/-- The loop handles no slot twice exactly under that condition, and then it ends as well. -/
theorem sweep_nodup_iff : (∀ fuel, (sweep fate fuel k marked p).1.Nodup) ↔ Clears fate k marked p := by
  constructor
  · intro honce
    by_contra hcon
    obtain ⟨hno, hstuck⟩ := not_or.mp hcon
    have hno' : ∀ i < n, marked (slotAt p i) = true → fate (k + i) ≠ .halts :=
      fun i hi hm hf => hno ⟨i, hi, hm, hf⟩
    have hex : ∃ j, j < n ∧ marked (slotAt p j) = true ∧ fate (k + j) = .stuck := by
      by_contra hnone
      exact hstuck fun j hj hm hf => hnone ⟨j, hj, hm, hf⟩
    classical
    obtain ⟨hj, hm, hf⟩ := Nat.find_spec hex
    refine sweep_again hno' hj hm hf (fun i hi hmi hfi => ?_) (honce _)
    exact Nat.find_min hex hi ⟨by omega, hmi, hfi⟩
  · rintro (⟨j, hj, hm, hf⟩ | hall) fuel
    · exact (sweep_until hj hm hf).1.1
    · exact (sweep_all (Nat.le_refl n) (fun u _ => exists_slotAt p u) hall).1.1

end Sweep

end Sweep
