import Mathlib.Logic.Basic

/-! Pre- and postconditions of computations that carry a state and may stop early. -/
namespace Machine

variable {σ ε α β : Type} {P P' : σ → Prop} {Q Q' : α → σ → Prop} {R : β → σ → Prop}
  {E E' : ε → Prop} {m : StateT σ (Except ε) α} {f : α → StateT σ (Except ε) β} {s s' : σ}

/-- What is asked of the outcome of a computation. -/
def Ends (Q : α → σ → Prop) (E : ε → Prop) : Except ε (α × σ) → Prop
  | .ok (a, s) => Q a s
  | .error e => E e

/-- What follows may use how the first part ran. -/
theorem ends_bind_run (hm : Ends Q E (m s))
    (hf : ∀ a s', m s = .ok (a, s') → Q a s' → Ends R E (f a s')) : Ends R E ((m >>= f) s) := by
  change Ends R E (m s >>= fun p => f p.1 p.2)
  cases hrun : m s with
  | error e =>
    rw [hrun] at hm
    exact hm
  | ok p =>
    rw [hrun] at hm
    exact hf p.1 p.2 hrun hm

theorem ends_bind (hm : Ends Q E (m s)) (hf : ∀ a s', Q a s' → Ends R E (f a s')) :
    Ends R E ((m >>= f) s) := ends_bind_run hm fun a s' _ => hf a s'

variable {x : Except ε (α × σ)} {c : Prop} {m' : StateT σ (Except ε) α} {a : α} {I : σ → Prop}

theorem ends_mono (h : Ends Q E x) (hQ : ∀ a s, Q a s → Q' a s) (hE : ∀ e, E e → E' e) :
    Ends Q' E' x := by
  cases x with
  | error e => exact hE e h
  | ok p => exact hQ p.1 p.2 h

theorem ends_and (h : Ends Q E x) (h' : Ends Q' E' x) :
    Ends (fun a s => Q a s ∧ Q' a s) (fun e => E e ∧ E' e) x := by
  cases x with
  | error | ok => exact ⟨h, h'⟩

theorem ends_ite [Decidable c] (ht : c → Ends Q E (m s)) (hf : ¬ c → Ends Q E (m' s)) :
    Ends Q E ((if c then m else m') s) := by
  split
  · rename_i hc
    exact ht hc
  · rename_i hc
    exact hf hc

/-- A step that is only sometimes taken. -/
theorem ends_when [Decidable c] {m : StateT σ (Except ε) Unit} {k : StateT σ (Except ε) β}
    {Q : σ → Prop} (ht : c → Ends (fun _ => Q) E (m s)) (hf : ¬ c → Q s)
    (hk : ∀ s', Q s' → Ends R E (k s')) :
    Ends R E ((if c then m >>= fun _ => k else k) s) := by
  split
  · rename_i hc
    exact ends_bind (ht hc) fun _ s' hs' => hk s' hs'
  · rename_i hc
    exact hk s (hf hc)

/-- From a state in `P` the computation ends in `Q`, or it stops with an error in `E`. -/
def Spec (P : σ → Prop) (m : StateT σ (Except ε) α) (Q : α → σ → Prop) (E : ε → Prop) : Prop :=
  ∀ s, P s → Ends Q E (m s)

/-- The computation keeps `I`. -/
def Keeps (I : σ → Prop) (E : ε → Prop) (m : StateT σ (Except ε) α) : Prop :=
  Spec I m (fun _ => I) E

theorem Spec.ok (h : Spec P m Q E) (hs : P s) (hm : m s = .ok (a, s')) : Q a s' := by
  have hend := h s hs
  rw [hm] at hend
  exact hend

theorem spec_bind (hm : Spec P m Q E) (hf : ∀ a, Spec (Q a) (f a) R E) :
    Spec P (m >>= f) R E := fun s hs => ends_bind (hm s hs) hf

theorem spec_ite [Decidable c] (ht : c → Spec P m Q E) (hf : ¬ c → Spec P m' Q E) :
    Spec P (if c then m else m') Q E :=
  fun s hs => ends_ite (fun hc => ht hc s hs) fun hc => hf hc s hs

theorem keeps_pure : Keeps I E (pure a) := fun _ hs => hs

theorem keeps_bind (hm : Keeps I E m) (hf : ∀ a, Keeps I E (f a)) :
    Keeps I E (m >>= f) := spec_bind hm hf

theorem keeps_ite [Decidable c] (ht : c → Keeps I E m) (hf : ¬ c → Keeps I E m') :
    Keeps I E (if c then m else m') :=
  spec_ite ht hf

end Machine
