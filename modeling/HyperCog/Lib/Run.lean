import Mathlib.Logic.Basic

/-! Finite runs of a step function that may refuse an action or stop the machine. -/
namespace Machine

variable {σ α ε : Type*}

/-- A finite run in which every action meets `C` in the state where it is taken. -/
inductive Run (step : σ → α → Except ε σ) (C : σ → α → Prop) : σ → List α → σ → Prop
  | refl {s : σ} : Run step C s [] s
  | stepL {s t u : σ} {a : α} {as : List α} (hc : C s a) (hs : step s a = .ok t)
      (ht : Run step C t as u) : Run step C s (a :: as) u

/-- The run condition that admits every action. -/
def Any (_ : σ) (_ : α) : Prop := True

/-- The executable counterpart of an unconditional run. -/
def exec (step : σ → α → Except ε σ) : σ → List α → Except ε σ
  | s, [] => .ok s
  | s, a :: as =>
    match step s a with
    | .ok t => exec step t as
    | .error e => .error e

variable {step : σ → α → Except ε σ} {C : σ → α → Prop} {s t u : σ} {as bs : List α}

/-- An invariant of every admitted step holds at the end of every run. -/
theorem Run.invariant {I : σ → Prop} (hI : ∀ s a t, C s a → step s a = .ok t → I s → I t)
    (h : Run step C s as t) (hs : I s) : I t := by
  induction h with
  | refl => exact hs
  | stepL hc hstep _ ih => exact ih (hI _ _ _ hc hstep hs)

theorem Run.append (h : Run step C s as t) (h' : Run step C t bs u) : Run step C s (as ++ bs) u := by
  induction h with
  | refl => exact h'
  | stepL hc hs _ ih => exact .stepL hc hs (ih h')

/-- A run keeps to `I` exactly if its actions meet the condition under which a step does. -/
theorem Run.keeps_iff {D : σ → α → Prop} {I J : σ → Prop}
    (hstep : ∀ s a t, C s a → step s a = .ok t → J s → I s → J t ∧ (I t ↔ D s a))
    (h : Run step C s as u) (hj : J s) (hi : I s) :
    Run step (fun s a => ∀ t, step s a = .ok t → I t) s as u ↔ Run step D s as u := by
  induction h with
  | refl => exact iff_of_true .refl .refl
  | @stepL s t u a as hc hs _ ih =>
    obtain ⟨hj', hiff⟩ := hstep s a t hc hs hj hi
    constructor
    · rintro (_ | ⟨hkeeps, hs', hrest⟩)
      cases hs.symm.trans hs'
      exact .stepL (hiff.mp (hkeeps t hs)) hs ((ih hj' (hkeeps t hs)).mp hrest)
    · rintro (_ | ⟨hd, hs', hrest⟩)
      cases hs.symm.trans hs'
      refine .stepL (fun t' ht' => ?_) hs ((ih hj' (hiff.mpr hd)).mpr hrest)
      cases hs.symm.trans ht'
      exact hiff.mpr hd

/-- A run under a condition is one under a weaker condition. -/
theorem Run.mono {D : σ → α → Prop} (h : Run step C s as t) (hD : ∀ s a, C s a → D s a) :
    Run step D s as t := by
  induction h with
  | refl => exact .refl
  | stepL hc hs _ ih => exact .stepL (hD _ _ hc) hs ih

/-- A condition that the actions meet wherever they are taken. -/
theorem Run.forall_mem (h : Run step Any s as t) (hC : ∀ a ∈ as, ∀ s, C s a) : Run step C s as t := by
  induction h with
  | refl => exact .refl
  | stepL _ hs _ ih =>
    obtain ⟨ha, has⟩ := List.forall_mem_cons.mp hC
    exact .stepL (ha _) hs (ih has)

theorem run_any_iff_exec : Run step Any s as t ↔ exec step s as = .ok t := by
  induction as generalizing s with
  | nil =>
    constructor
    · intro h; cases h; rfl
    · intro h; cases h; exact .refl
  | cons a as ih =>
    constructor
    · intro h
      cases h with
      | stepL _ hs ht => simpa [exec, hs] using ih.mp ht
    · intro h
      cases hs : step s a with
      | error e => simp [exec, hs] at h
      | ok v => exact .stepL trivial hs (ih.mpr (by simpa [exec, hs] using h))

theorem eq_ok_of_isOk {β : Type*} {x : Except ε β} {d : β} (h : x.isOk = true) :
    x = .ok (x.toOption.getD d) := by
  cases x with
  | error e => cases h
  | ok b => rfl

variable {β γ : Type} {d : σ} {f : β → Except ε γ} {c : γ} {b : β}

/-- A run that does not stop early ends where it is computed to end. -/
theorem run_of_isOk (h : (exec step s as).isOk = true) :
    Run step Any s as ((exec step s as).toOption.getD d) :=
  run_any_iff_exec.mpr (eq_ok_of_isOk h)

/-- A run under a condition, one computed step at a time. -/
theorem Run.computed {a : α} (hc : C s a) (hok : (step s a).isOk = true)
    (h : Run step C ((step s a).toOption.getD d) as u) : Run step C s (a :: as) u := by
  cases hx : step s a with
  | error e =>
    rw [hx] at hok
    cases hok
  | ok t =>
    rw [hx] at h
    exact .stepL hc hx h

/-- Whether every action meets the condition and succeeds. -/
def checked (step : σ → α → Except ε σ) (C : σ → α → Prop) [∀ s a, Decidable (C s a)] :
    σ → List α → Bool
  | _, [] => true
  | s, a :: as => decide (C s a) &&
    match step s a with
    | .ok t => checked step C t as
    | .error _ => false

theorem run_of_checked [∀ s a, Decidable (C s a)] (h : checked step C s as = true) :
    Run step C s as ((exec step s as).toOption.getD d) := by
  induction as generalizing s with
  | nil => exact .refl
  | cons a as ih =>
    rw [checked, Bool.and_eq_true, decide_eq_true_eq] at h
    cases hs : step s a with
    | error e =>
      rw [hs] at h
      cases h.2
    | ok t =>
      rw [hs] at h
      rw [exec, hs]
      exact .stepL h.1 hs (ih h.2)

/-- The computation stops early, with an error that passes the test. -/
def stopsIn {β : Type*} (p : ε → Bool) : Except ε β → Bool
  | .ok _ => false
  | .error e => p e

theorem exists_of_stopsIn {β : Type*} {p : ε → Bool} {x : Except ε β} (h : stopsIn p x = true) :
    ∃ e, x = .error e ∧ p e = true := by
  cases x with
  | ok b => cases h
  | error e => exact ⟨e, rfl, h⟩

/-- A sequence of fallible computations succeeds when both parts do. -/
theorem bind_eq_ok {x : Except ε β} : (x >>= f) = .ok c ↔ ∃ b, x = .ok b ∧ f b = .ok c := by
  cases x with
  | error | ok => simp [bind, Except.bind]

theorem bind_eq_error {x : Except ε β} {e : ε} :
    (x >>= f) = .error e ↔ x = .error e ∨ ∃ b, x = .ok b ∧ f b = .error e := by
  cases x with
  | error | ok => simp [bind, Except.bind]

theorem mapError_eq_ok {δ : Type} {x : Except ε β} {g : ε → δ} {b : β} :
    x.mapError g = .ok b ↔ x = .ok b := by
  cases x with
  | error e => exact ⟨nofun, nofun⟩
  | ok a =>
    constructor
    all_goals
      intro h
      cases h
      rfl

theorem exists_bind_eq_ok {x : Except ε β} :
    (∃ c, (x >>= f) = .ok c) ↔ ∃ b, x = .ok b ∧ ∃ c, f b = .ok c := by
  cases x with
  | error | ok => simp [bind, Except.bind]

theorem exists_bind_pure_eq_ok {x : Except ε β} {g : β → γ} :
    (∃ c, (x >>= fun b => pure (g b)) = .ok c) ↔ ∃ b, x = .ok b := by
  cases x with
  | error | ok => simp [bind, Except.bind, pure, Except.pure]

/-- A loop succeeds and keeps what its body keeps, stated over the elements still to come. -/
theorem foldlM_ok {ι : Type} {f : β → ι → Except ε β} {P : List ι → β → Prop}
    (h : ∀ i is b, P (i :: is) b → ∃ c, f b i = .ok c ∧ P is c) (is : List ι) (hb : P is b) :
    ∃ c, is.foldlM f b = .ok c ∧ P [] c := by
  induction is generalizing b with
  | nil => exact ⟨b, rfl, hb⟩
  | cons i is ih =>
    obtain ⟨c, hc, hP⟩ := h i is b hb
    obtain ⟨d, hd, hend⟩ := ih hP
    refine ⟨d, ?_, hend⟩
    rw [List.foldlM_cons, hc]
    exact hd

section Stateful

variable {τ : Type} {s s' : τ}

/-- The same for computations that also carry a state. -/
theorem bind_run_eq_ok {x : StateT τ (Except ε) β} {f : β → StateT τ (Except ε) γ} :
    (x >>= f) s = .ok (c, s') ↔ ∃ b r, x s = .ok (b, r) ∧ f b r = .ok (c, s') := by
  change (x s >>= fun p => f p.1 p.2) = _ ↔ _
  rw [bind_eq_ok]
  constructor
  · rintro ⟨⟨b, r⟩, hx, hf⟩
    exact ⟨b, r, hx, hf⟩
  · rintro ⟨b, r, hx, hf⟩
    exact ⟨(b, r), hx, hf⟩

theorem pure_run_eq_ok {c : β} :
    (pure b : StateT τ (Except ε) β) s = .ok (c, s') ↔ b = c ∧ s = s' := by
  change Except.ok (b, s) = Except.ok (c, s') ↔ _
  simp

end Stateful

end Machine
