import HyperCog.Ahci.Frame
import HyperCog.Blockif.Flight

/-! What the functions of a port with a disk do to it, one lemma for each. -/
namespace HyperCog.Ahci

open Virtio Blockif Machine List AhciPort

/-- The FISes and interrupts themselves; the other events tell the story of the slots. -/
def Event.isPost : Event → Bool
  | .post _ _ _ | .intr _ => true
  | .slot _ _ | .cmd _ _ _ | .ack _ _ | .complete _ _ _ _ _ | .request _ _ _ _
  | .cancel _ _ => false

def traceOf (l : List Event) : List Event := l.filter fun e => !e.isPost

@[simp] theorem traceOf_append (l l' : List Event) : traceOf (l ++ l') = traceOf l ++ traceOf l' :=
  filter_append ..

/-- Port `i` changed by `f`, interrupt status aside, and the events are new. -/
structure Effect (i : PortId) (f : AhciPort → AhciPort) (new : List Event) (s s' : Hba) : Prop where
  port : ∃ is, s'.port i = { f (s.port i) with is := is }
  other : ∀ j, j ≠ i → s'.port j = s.port j
  blk : s'.blk = s.blk
  trace : traceOf s'.log = traceOf s.log ++ new

/-- It ended in the fault, after the events. -/
def Died (s : Hba) (new : List Event) (f : Fault) (e : Crash) : Prop :=
  e.fault = f ∧ traceOf e.log = traceOf s.log ++ new

def Never (_ : Crash) : Prop := False

variable {α β : Type} {i : PortId} {s : Hba} {h : AhciPort → AhciPort} {f : Unit → AhciM β} {p : AhciPort}
  {g : Guest}
  {t : Slot} {c : Command}

/-- What never fails may be used where failures are expected. -/
theorem ends_sure {Q Q' : α → Hba → Prop} {E : Crash → Prop}
    {x : Except Crash (α × Hba)} (h : Ends Q Never x) (hQ : ∀ a s, Q a s → Q' a s) :
    Ends Q' E x := ends_mono h hQ fun _ hn => hn.elim

theorem run_modifyPort : (modifyPort i h >>= f) s = f () (s.setPort i (h (s.port i))) := rfl

theorem run_logEvent {e : Event} : (logEvent e >>= f) s = f () { s with log := s.log ++ [e] } := rfl

theorem run_orCrash_ok {a : α} {f : α → AhciM β} : (orCrash (.ok a) >>= f) s = f a s := rfl

@[simp] theorem setPort_port : (s.setPort i p).port i = p := by
  simp [Hba.setPort]

@[simp] theorem setPort_setPort {p' : AhciPort} : (s.setPort i p).setPort i p' = s.setPort i p' := by
  simp [Hba.setPort]

theorem setPort_other {j : PortId} (hj : j ≠ i) : (s.setPort i p).port j = s.port j := by
  simp [Hba.setPort, Function.update_of_ne hj]

/-- After a FIS; one that reports an error stops the port while FIS receive is on. -/
def AhciPort.posted (fails : Bool) (p : AhciPort) : AhciPort :=
  { p with waitforclear := p.waitforclear || (p.fisOn && fails) }

section Effect

variable {f : AhciPort → AhciPort} {new new' : List Event} {s₁ s₂ : Hba}

theorem effect_refl : Effect i (fun p => p) [] s s := ⟨⟨(s.port i).is, rfl⟩, fun _ _ => rfl, rfl, by simp⟩

theorem effect_setPort (p : AhciPort) : Effect i (fun _ => p) [] s (s.setPort i p) :=
  ⟨⟨p.is, by simp⟩, fun _ hj => setPort_other hj, rfl, (append_nil _).symm⟩

theorem Effect.event (he : Effect i f new s s₁) (e : Event) :
    Effect i f (new ++ traceOf [e]) s { s₁ with log := s₁.log ++ [e] } :=
  { he with trace := by rw [traceOf_append, he.trace, append_assoc] }

/-- Changes that do not look at the interrupt status follow one another. -/
theorem Effect.trans (h₁ : Effect i f new s s₁) (h₂ : Effect i h new' s₁ s₂)
    (hh : ∀ p x y, ({ h { p with is := x } with is := y } : AhciPort) = { h p with is := y }) :
    Effect i (fun p => h (f p)) (new ++ new') s s₂ := by
  obtain ⟨x, hx⟩ := h₁.port
  obtain ⟨y, hy⟩ := h₂.port
  refine ⟨⟨y, ?_⟩, fun j hj => (h₂.other j hj).trans (h₁.other j hj), h₂.blk.trans h₁.blk, ?_⟩
  · rw [hy, hx, hh]
  · rw [h₂.trace, h₁.trace, append_assoc]

/-- Only what becomes of the port at hand matters, and not its interrupt status. -/
theorem Effect.congr (he : Effect i f new s s₁)
    (hf : ({ f (s.port i) with is := 0 } : AhciPort) = { h (s.port i) with is := 0 }) :
    Effect i h new s s₁ := by
  obtain ⟨x, hx⟩ := he.port
  refine { he with port := ⟨x, ?_⟩ }
  have hf' := congrArg (fun p : AhciPort => { p with is := x }) hf
  rw [hx]
  exact hf'

/-- A FIS goes out after a change. -/
theorem Effect.post {b : Bool} (he : Effect i f new s s₁)
    (hp : Effect i (posted b) [] s₁ s₂) : Effect i (fun p => (f p).posted b) new s s₂ := by
  simpa using he.trans hp fun _ _ _ => rfl

end Effect

/-- The FIS reports an error and has a place. -/
def fisFails (ft : FisType) (fis : List UInt8) : Bool := ft.area.isSome && fisError fis

def Answer.fails (a : Answer) : Bool := decide (a ≠ .good)

/-- After a register FIS with the answer. -/
def AhciPort.answered (t : Slot) (a : Answer) (p : AhciPort) : AhciPort :=
  { p with
    ci := if a.fails then p.ci else clearSlot p.ci t
    tfd := a.tfd
    waitforclear := p.waitforclear || (p.fisOn && a.fails) }

/-- After a Set Device Bits FIS with the answer. -/
def AhciPort.settled (t : Slot) (a : Answer) (p : AhciPort) : AhciPort :=
  { p with
    sact := if a.fails then p.sact else clearSlot p.sact t
    tfd := (p.tfd &&& ~~~0x77) ||| (a.tfd &&& 0x77)
    waitforclear := p.waitforclear || (p.fisOn && a.fails) }

/-- After the acknowledgement of a queued command. -/
def AhciPort.acked (t : Slot) (p : AhciPort) : AhciPort :=
  { p with ci := clearSlot p.ci t, tfd := Answer.good.tfd }

theorem ends_generateIntr (hsc : (s.port i).prSc = true) :
    Ends (fun _ => Effect i (fun p => p) [] s) Never (ahciGenerateIntr g i s) := by
  unfold ahciGenerateIntr
  rw [run_logEvent, run_getPort, if_pos hsc]
  refine ⟨⟨(s.port i).is, ?_⟩, ?_, ?_, ?_⟩ <;> unfold Hba.raise <;> dsimp only <;> split
  any_goals rfl
  any_goals exact fun _ _ => rfl
  all_goals simp [traceOf, Event.isPost]

theorem ends_writeFis {ft : FisType} {fis : List UInt8} (hsc : (s.port i).prSc = true) :
    Ends (fun _ => Effect i (posted (fisFails ft fis)) [] s) Never
      (ahciWriteFis g i ft fis s) := by
  have hnone : (s.port i).fisOn = false ∨ fisFails ft fis = false →
      Effect i (posted (fisFails ft fis)) [] s s := by
    intro h
    refine ⟨⟨(s.port i).is, ?_⟩, fun _ _ => rfl, rfl, by simp⟩
    rcases h with h | h <;> simp [posted, h]
  unfold ahciWriteFis
  rw [run_getPort]
  cases hrfis : (s.port i).rfis with
  | none => exact hnone (.inl (by simp [fisOn, hrfis]))
  | some rfis =>
    cases harea : ft.area with
    | none => exact hnone (.inr (by simp [fisFails, harea]))
    | some p =>
      dsimp only
      split
      · rename_i hfre
        exact hnone (.inl (by simp [fisOn, hfre]))
      · rename_i hfre
        have hfis : fisFails ft fis = fisError fis := by simp [fisFails, harea]
        have hon : (s.port i).fisOn = true := by simpa [fisOn, hrfis] using hfre
        have heff : Effect i (posted (fisFails ft fis)) [] s
            { s.setPort i { s.port i with
                waitforclear := (s.port i).waitforclear || fisError fis
                is := (s.port i).is ||| fisIrq p.2 fis } with
              log := s.log ++ [.post i (rfis + p.1) fis] } := by
          refine ((effect_setPort _).event (.post i (rfis + p.1) fis)).congr ?_
          simp [posted, hfis, hon]
        split
        · refine ends_sure (ends_generateIntr ?_) fun _ s' h' => ?_
          · rw [setPort_port]
            exact hsc
          · exact heff.trans h' fun _ _ _ => rfl
        · exact heff

/-- The error bit of an answer is where the FISes show it. -/
theorem answer_error (a : Answer) : decide (a.tfd &&& ataSError ≠ 0) = a.fails := by
  cases a <;> decide

theorem answer_error_low (a : Answer) : decide (a.tfd &&& 0x77 &&& ataSError ≠ 0) = a.fails := by
  cases a <;> decide

theorem fisFails_answer (a : Answer) (x y : UInt8) (l : List UInt8) :
    fisFails .regd2h (x :: y :: byte a.tfd 0 :: l) = a.fails := by
  change (true && decide (byte a.tfd 0 &&& 0x01 ≠ 0)) = _
  cases a <;> decide

theorem fisFails_answer_low (a : Answer) (x y : UInt8) (l : List UInt8) :
    fisFails .setdevbits (x :: y :: byte (a.tfd &&& 0x77) 0 :: l) = a.fails := by
  change (true && decide (byte (a.tfd &&& 0x77) 0 &&& 0x01 ≠ 0)) = _
  cases a <;> decide

theorem fisFails_zero (ft : FisType) (x y : UInt8) (l : List UInt8) :
    fisFails ft (x :: y :: 0 :: l) = false := by
  simp [fisFails, fisError]

/-- A FIS without the error bit leaves the port running. -/
theorem posted_false (p : AhciPort) : p.posted false = p := by simp [posted]

/-- The event of a completion. -/
def completion (i : PortId) (t : Slot) (how : Completion) (a : Answer) (p : AhciPort) : Event :=
  .complete i t how (!a.fails) p.fisOn

section

variable (hsc : (s.port i).prSc = true) {a : Answer}

include hsc

theorem ends_writeFisD2h :
    Ends (fun _ => Effect i (answered t a) [completion i t .d2h a (s.port i)] s) Never
      (ahciWriteFisD2h g i t c a.tfd s) := by
  unfold ahciWriteFisD2h
  refine ends_sure (ends_writeFis (by simpa using hsc)) fun _ s' h' => ?_
  dsimp only [cons_append] at h'
  rw [fisFails_answer] at h'
  rw [answer_error] at h'
  exact (((effect_setPort _).event _).post h').congr rfl

theorem ends_writeFisSdb :
    Ends (fun _ => Effect i (settled t a) [completion i t .sdb a (s.port i)] s) Never
      (ahciWriteFisSdb g i t a.tfd s) := by
  unfold ahciWriteFisSdb
  refine ends_sure (ends_writeFis (by simpa using hsc)) fun _ s' h' => ?_
  dsimp only [cons_append] at h'
  rw [fisFails_answer_low] at h'
  rw [answer_error_low] at h'
  exact (((effect_setPort _).event _).post h').congr rfl

theorem ends_writeFisD2hNcq : Ends (fun _ => Effect i (acked t) [.ack i t] s) Never
      (ahciWriteFisD2hNcq g i t s) := by
  unfold ahciWriteFisD2hNcq
  refine ends_sure (ends_writeFis (by simpa using hsc)) fun _ s' h' => ?_
  have hpost : Effect i (posted false) [] _ s' := h'
  refine (((effect_setPort _).event _).post hpost).congr ?_
  rw [posted_false]
  rfl

theorem ends_writeFisPiosetup :
    Ends (fun _ => Effect i (fun p => p) [] s) Never (ahciWriteFisPiosetup g i s) := by
  refine ends_sure (ends_writeFis hsc) fun _ s' h' => ?_
  have hpost : Effect i (posted false) [] s s' := h'
  refine hpost.congr ?_
  rw [posted_false]

end

/-- A reset reports no error. -/
theorem ends_portReset (hb : (s.port i).bctx.isSome = true) (hsc : (s.port i).prSc = true) :
    Ends (fun _ => Effect i renewed [] s) Never (ahciPortReset g i s) := by
  unfold ahciPortReset
  rw [run_getPort, if_neg (by simp [Option.isSome_iff_ne_none.mp hb]), run_modifyPort,
    ahciWriteResetFisD2h, run_getPort]
  refine ends_sure (ends_writeFis (by rw [setPort_port]; exact hsc)) fun _ s' h' => ?_
  dsimp only [cons_append] at h'
  rw [fisFails_zero] at h'
  refine ((effect_setPort _).post h').congr ?_
  rw [posted_false]

/-- An answer whose data have nowhere to go kills the device before it is given. -/
theorem ends_reply {r : Reply} (hb : (s.port i).bctx.isSome = true) (hsc : (s.port i).prSc = true) :
    Ends (fun _ s' => r.deliver g c = .ok () ∧
        Effect i (answered t r.answer) [completion i t .d2h r.answer (s.port i)] s s')
      (fun e => ∃ f, r.deliver g c = .error f ∧ Died s [] f e) (reply g i t c r s) := by
  unfold reply
  rw [run_getPort, if_neg (by simp [Option.isSome_iff_ne_none.mp hb])]
  refine ends_when (Q := fun s' => Effect i (fun p => p) [] s s') (fun _ => ?_) (fun _ => effect_refl) ?_
  · exact ends_sure (ends_writeFisPiosetup hsc) fun _ _ h => h
  · intro s₁ h₁
    obtain ⟨x, hx⟩ := h₁.port
    cases hd : r.deliver g c with
    | error f => exact ⟨f, rfl, rfl, h₁.trace⟩
    | ok u =>
      have hsc₁ : (s₁.port i).prSc = true := by rw [hx]; exact hsc
      have hfis : (s₁.port i).fisOn = (s.port i).fisOn := by rw [hx]; rfl
      refine ends_sure (ends_writeFisD2h hsc₁) fun _ s' h' => ⟨rfl, ?_⟩
      have heff := h₁.trans h' fun _ _ _ => rfl
      rwa [completion, hfis] at heff

end HyperCog.Ahci
