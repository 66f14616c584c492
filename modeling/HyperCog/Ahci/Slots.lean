import HyperCog.Ahci.Launch

/-! What becomes of a slot: when it is issued, called back and cancelled. -/
namespace HyperCog.Ahci

open Virtio Blockif Machine List AhciPort

/-- After `ahci_handle_cmd` has begun. -/
def AhciPort.busied (p : AhciPort) : AhciPort := { p with tfd := p.tfd ||| ataSBusy }

/-- After a FIS that updates the control register. -/
def AhciPort.controlled (t : Slot) (c : Command) (p : AhciPort) : AhciPort :=
  let p := if c.cfis 15 &&& 0x04 ≠ 0 then { p with reset := true }
    else if p.reset then ({ p with reset := false } : AhciPort).renewed else p
  { p with ci := clearSlot p.ci t }

/-- The slot at hand is shown in `PxCMD`. -/
def AhciPort.shown (p : AhciPort) : AhciPort :=
  { p with cmd := (p.cmd &&& ~~~ahciPCmdCcsMask) ||| (BitVec.ofNat 32 p.ccs <<< 8) }

def AhciPort.advanced (p : AhciPort) : AhciPort := { p with ccs := p.ccs + 1 }

/-- The slot `ccs` names is issued and not in flight. -/
def AhciPort.issued (p : AhciPort) (t : Slot) : Bool := hasSlot (p.ci &&& ~~~p.pending) t

/-- How `ahci_handle_slot` can end. -/
inductive Handled (g : Guest) (i : PortId) (sectsz : ℕ) (m : HostMem) (t : Slot) (s s' : Hba) : Prop
  | ignored {c : Command} (hc : slotCommand g m (s.port i).cmdLst t = .ok c)
      (hfis : c.cfis 0 ≠ 0x27) (he : Effect i (fun p => p) [.slot i t] s s')
  | control {c : Command} (hc : slotCommand g m (s.port i).cmdLst t = .ok c)
      (hfis : c.cfis 0 = 0x27) (hctl : c.cfis 1 &&& 0x80 = 0)
      (he : Effect i (controlled t c) [.slot i t] s s')
  | command {c : Command} {l : Plan} {s₁ : Hba}
      (hc : slotCommand g m (s.port i).cmdLst t = .ok c) (hfis : c.cfis 0 = 0x27)
      (hctl : c.cfis 1 &&& 0x80 ≠ 0)
      (hl : plan g sectsz m t c (commandHandler (s.port i).atapi c) = .ok l)
      (he : Effect i busied [.slot i t, .cmd i t c] s s₁) (hcar : Carried i t s₁ s' l)

/-- How it can end the device. -/
inductive Killed (g : Guest) (i : PortId) (sectsz : ℕ) (m : HostMem) (t : Slot) (s : Hba)
    (e : Crash) : Prop
  | table {f : Fault} (hc : slotCommand g m (s.port i).cmdLst t = .error f)
      (hd : Died s [.slot i t] f e)
  | command {c : Command} {f : Fault} {new : List Event}
      (hc : slotCommand g m (s.port i).cmdLst t = .ok c) (hfis : c.cfis 0 = 0x27)
      (hctl : c.cfis 1 &&& 0x80 ≠ 0)
      (hl : plan g sectsz m t c (commandHandler (s.port i).atapi c) = .error f)
      (hnew : new = [] ∨ new = [completion i t .d2h .good (s.port i)])
      (hd : Died s ([.slot i t, .cmd i t c] ++ new) f e)

variable {g : Guest} {sectsz : ℕ} {m : HostMem} {t : Slot} {c : Command} {f : Fault} {i : PortId} {s s' : Hba}
  {bc : BlockifCtxt} {l : Plan} {a : IoreqId} {done : UInt32} {err : Option Errno} {io : AhciIoreq} {b : Answer}
  {atapi ncq : Bool}

/-- A read or a write is planned once its scatter list is built. -/
theorem planned_error {len : UInt32} {p : Part → Plan}
    (h : (do let part ← ahciBuildIov g.ram sectsz c.prdt len done; pure (p part)) = .error f) :
    f.FromGuest := by
  rcases bind_eq_error.mp h with hb | ⟨part, -, h⟩
  · exact buildIov_error hb
  · cases h

theorem planTrim_error (h : planTrim g sectsz m t c done = .error f) : f.FromGuest := by
  rcases bind_eq_error.mp h with hn | ⟨o, -, h⟩
  · exact trimNext_error hn
  · cases o <;> cases h

/-- Only the tables of the guest stand in the way of a plan. -/
theorem plan_error {hd : Handler} (h : plan g sectsz m t c hd = .error f) : f.FromGuest := by
  cases hd with
  | reply r =>
    rcases bind_eq_error.mp h with hd | ⟨u, -, h⟩
    · exact deliver_error hd
    · cases h
  | rw => exact planned_error h
  | flush => cases h
  | trim => exact planTrim_error h
  | read => exact planned_error h

/-- Whatever a plan was, its books are in order again. -/
theorem Carried.books (hc : Carried i t s s' l)
    (h : ∀ a, l = .answer a → Books i none [] [] s) : Books i none [] [] s' := by
  cases l with
  | answer a => exact (h a rfl).effect hc
  | trimmed first ncq => exact hc.1
  | launch io op fill ack early =>
    obtain ⟨s₁, -, hl⟩ := hc
    exact hl.books

/-- A command goes the way its plan says. -/
theorem ends_handleCmd (h : Books i none [] [] s) (hb : (s.port i).bctx = some bc)
    (ht : hasSlot (s.port i).pending t = false) :
    Ends (fun _ s' => ∃ l s₁, plan g bc.bcSectsz m t c (commandHandler (s.port i).atapi c) = .ok l ∧
        Effect i busied [.cmd i t c] s s₁ ∧ Carried i t s₁ s' l ∧ Books i none [] [] s')
      (fun e => ∃ f new, plan g bc.bcSectsz m t c (commandHandler (s.port i).atapi c) = .error f ∧
        (new = [] ∨ new = [completion i t .d2h .good (s.port i)]) ∧
        Died s ([.cmd i t c] ++ new) f e) (ahciHandleCmd g i m t c s) := by
  unfold ahciHandleCmd
  rw [run_logEvent, run_getPort, run_modifyPort]
  generalize hs₁ : Hba.setPort _ i _ = s₁
  have he : Effect i busied [.cmd i t c] s s₁ := by
    rw [← hs₁]
    exact ⟨⟨(s.port i).is, by rw [setPort_port]; rfl⟩, fun _ hj => setPort_other hj, rfl,
      traceOf_append _ _⟩
  have h₁ : Books i none [] [] s₁ := h.effect he
  obtain ⟨x, hx⟩ := he.port
  have hv : Books i (some t) [] [] s₁ := h₁.vacate (by rw [hx]; exact ht)
  have hb₁ : (s₁.port i).bctx = some bc := by rw [hx]; exact hb
  have hfis : completion i t .d2h .good (s₁.port i) = completion i t .d2h .good (s.port i) := by
    rw [hx]
    rfl
  have hdone : ∀ {pl} {β : Type} {x : Except Crash (β × Hba)}, ByPlan i t pl s₁ x →
      Ends (fun _ s' => ∃ l s₁, pl = .ok l ∧ Effect i busied [.cmd i t c] s s₁ ∧
          Carried i t s₁ s' l ∧ Books i none [] [] s')
        (fun e => ∃ f new, pl = .error f ∧ (new = [] ∨ new = [completion i t .d2h .good (s.port i)]) ∧
          Died s ([.cmd i t c] ++ new) f e) x := by
    intro pl β x hx
    refine ends_mono hx ?_ ?_
    · rintro _ s' ⟨l, hl, hc⟩
      exact ⟨l, s₁, hl, he, hc, hc.books fun _ _ => h₁⟩
    · rintro e ⟨f, new, hl, hnew, hf, htrace⟩
      rw [hfis] at hnew
      exact ⟨f, new, hl, hnew, hf, by rw [htrace, he.trace, append_assoc]⟩
  cases commandHandler (s.port i).atapi c with
  | reply r =>
    refine hdone (ends_mono (ends_reply h₁.disk h₁.sc) ?_ ?_)
    · rintro _ s' ⟨hd, hr⟩
      exact ⟨.answer r.answer, by rw [plan, hd]; rfl, hr⟩
    · rintro e ⟨f, hd, hf⟩
      exact ⟨f, [], by rw [plan, hd]; rfl, .inl rfl, hf⟩
  | rw => exact hdone (ends_handleRw hv hb₁)
  | flush => exact hdone (ends_sure (ends_handleFlush hv) fun _ s' hc => ⟨_, rfl, hc⟩)
  | trim => exact ends_bind (hdone (ends_handleDsmTrim hv hb₁)) fun _ _ h => h
  | read => exact hdone (ends_atapiRead hv hb₁)

theorem ends_controlFis (hb : (s.port i).bctx.isSome = true) (hsc : (s.port i).prSc = true) :
    Ends (fun _ => Effect i (controlled t c) [] s) Never (controlFis g i t c s) := by
  have hend : ∀ {f : AhciPort → AhciPort} {s₁ : Hba}, Effect i f [] s s₁ →
      Ends (fun _ => Effect i (fun p => { f p with ci := clearSlot (f p).ci t }) [] s) Never
        (modifyPort i (fun p => { p with ci := clearSlot p.ci t }) s₁) := by
    intro f s₁ he
    have hset : Effect i (fun p => { p with ci := clearSlot p.ci t }) [] s₁
        (s₁.setPort i { s₁.port i with ci := clearSlot (s₁.port i).ci t }) :=
      (effect_setPort _).congr rfl
    exact he.trans hset fun _ _ _ => rfl
  unfold controlFis
  rw [run_getPort]
  split_ifs with hset hreset
  · refine ends_sure (hend (effect_setPort _)) fun _ s' he => he.congr ?_
    simp only [controlled, if_pos hset]
  · rw [run_modifyPort]
    refine ends_bind (ends_portReset (by rw [setPort_port]; exact hb)
      (by rw [setPort_port]; exact hsc)) fun _ s₁ he => ?_
    have he₁ := (effect_setPort { s.port i with reset := false }).trans he fun _ _ _ => rfl
    refine ends_sure (hend he₁) fun _ s' he' => he'.congr ?_
    simp only [controlled, if_neg hset, if_pos hreset]
  · refine ends_sure (hend effect_refl) fun _ s' he => he.congr ?_
    simp only [controlled, if_neg hset, if_neg hreset]

theorem sameBooks_controlled (p : AhciPort) : SameBooks p (p.controlled t c) := by
  unfold controlled
  split
  · exact ⟨rfl, rfl, rfl, rfl, rfl, rfl⟩
  · split <;> exact ⟨rfl, rfl, rfl, rfl, rfl, rfl⟩

theorem controlled_is (p : AhciPort) (x y : BitVec 32) :
    ({ ({ p with is := x } : AhciPort).controlled t c with is := y } : AhciPort) =
      { p.controlled t c with is := y } := by
  unfold controlled
  split
  · rfl
  · split <;> rfl

theorem ends_handleSlot (h : Books i none [] [] s) (hb : (s.port i).bctx = some bc)
    (ht : hasSlot (s.port i).pending t = false) :
    Ends (fun _ s' => Books i none [] [] s' ∧ Handled g i bc.bcSectsz m t s s')
      (Killed g i bc.bcSectsz m t s) (ahciHandleSlot g i m t s) := by
  unfold ahciHandleSlot
  rw [run_logEvent, run_getPort]
  have h₁ : Books i none [] [] { s with log := s.log ++ [.slot i t] } :=
    h.congr ⟨rfl, rfl, rfl, rfl, rfl, rfl⟩ rfl
  have hslot : Effect i (fun p => p) [.slot i t] s { s with log := s.log ++ [.slot i t] } :=
    effect_refl.event (.slot i t)
  cases hc : slotCommand g m (s.port i).cmdLst t with
  | error f => exact .table hc ⟨rfl, hslot.trace⟩
  | ok c =>
    rw [run_orCrash_ok]
    split
    · rename_i hfis
      exact ⟨h₁, .ignored hc hfis hslot⟩
    · rename_i hfis
      rw [not_not] at hfis
      split_ifs with hctl
      · refine ends_mono (ends_handleCmd h₁ hb ht) ?_ ?_
        · rintro _ s' ⟨l, s₁, hl, he, hcar, hbooks⟩
          exact ⟨hbooks, .command hc hfis hctl hl (hslot.trans he fun _ _ _ => rfl) hcar⟩
        · rintro e ⟨f, new, hl, hnew, hf, htrace⟩
          refine .command hc hfis hctl hl hnew ⟨hf, ?_⟩
          rw [htrace, hslot.trace, append_assoc]
          rfl
      · rw [not_not] at hctl
        refine ends_sure (ends_controlFis h₁.disk h₁.sc) fun _ s' he => ?_
        have he' := hslot.trans he controlled_is
        exact ⟨h.effect he' (sameBooks_controlled _), .control hc hfis hctl he'⟩

/-- A turn of the loop: an issued slot is handled, and the next one is looked at. -/
def Turned (g : Guest) (i : PortId) (sectsz k : ℕ) (s s' : Hba) : Prop :=
  if (s.port i).issued (s.port i).ccs then
    ∃ s₁ s₂, Effect i shown [] s s₁ ∧
      Handled g i sectsz (g.mem k) (s.port i).ccs s₁ s₂ ∧ Effect i advanced [] s₂ s'
  else Effect i advanced [] s s'

theorem effect_advanced : Effect i advanced [] s (s.setPort i (s.port i).advanced) :=
  (effect_setPort _).congr rfl

theorem ends_issueTurn {k : ℕ} (h : Books i none [] [] s) (hb : (s.port i).bctx = some bc) :
    Ends (fun _ s' => Books i none [] [] s' ∧ Turned g i bc.bcSectsz k s s')
      (fun e => (s.port i).issued (s.port i).ccs = true ∧ ∃ s₁, Effect i shown [] s s₁ ∧
        Killed g i bc.bcSectsz (g.mem k) (s.port i).ccs s₁ e) (issueTurn g i k (s.port i) s) := by
  unfold issueTurn Turned
  by_cases hissued : (s.port i).issued (s.port i).ccs = true
  · rw [if_pos (show hasSlot _ _ = true from hissued), run_modifyPort]
    have hshown : Effect i shown [] s (s.setPort i (s.port i).shown) :=
      (effect_setPort _).congr rfl
    have h₁ := h.effect hshown
    have ht : hasSlot (s.port i).pending (s.port i).ccs = false := by
      rw [issued, hasSlot_and_not, Bool.and_eq_true, Bool.not_eq_true'] at hissued
      exact hissued.2
    refine ends_bind (ends_mono (ends_handleSlot h₁ (by rw [setPort_port]; exact hb)
      (by rw [setPort_port]; exact ht)) (fun _ _ h => h) fun e he => ⟨hissued, _, hshown, he⟩) ?_
    rintro _ s₂ ⟨h₂, hhandled⟩
    refine ⟨h₂.effect effect_advanced, ?_⟩
    rw [if_pos hissued]
    exact ⟨_, s₂, hshown, hhandled, effect_advanced⟩
  · rw [if_neg (show ¬ hasSlot _ _ = true from hissued)]
    refine ⟨h.effect effect_advanced, ?_⟩
    rw [if_neg hissued]
    exact effect_advanced

/-- The element is back on the free list. -/
def AhciPort.released (a : IoreqId) (p : AhciPort) : AhciPort :=
  { p with iobhd := p.iobhd.erase a, iofhd := p.iofhd ++ [a] }

/-- The next part of a command; on a packet port it is always taken for a packet read. -/
def planNext (g : Guest) (sectsz : ℕ) (m : HostMem) (atapi : Bool) (io : AhciIoreq) (c : Command) :
    Except Fault Plan :=
  if atapi then planRead g sectsz io.slot c io.done
  else if c.isDsm then planTrim g sectsz m io.slot c io.done
  else planRw g sectsz io.slot c io.done

/-- How a callback answers. -/
def finalAnswer (atapi : Bool) (err : Option Errno) : Answer :=
  if err.isNone then .good else if atapi then .illegalRequest else .abort

def finalHow (atapi : Bool) (c : Command) : Completion := if !atapi && c.isNcq then .sdb else .d2h

def AhciPort.finished (t : Slot) (how : Completion) (a : Answer) (p : AhciPort) : AhciPort :=
  match how with
  | .d2h => p.answered t a
  | .sdb => p.settled t a

/-- How a callback can go: on to the next part, or to the end of the command. -/
inductive CalledBack (g : Guest) (i : PortId) (sectsz : ℕ) (m : HostMem) (a : IoreqId)
    (err : Option Errno) (s s' : Hba) : Prop
  | next {l : Plan} {s₁ : Hba} (herr : err = none) (hmore : ((s.port i).ioreq a).more = true)
      (hl : planNext g sectsz m (s.port i).atapi ((s.port i).ioreq a)
        (flightCommand m (s.port i) ((s.port i).ioreq a)) = .ok l)
      (he : Effect i (released a) [] s s₁)
      (hcar : Carried i ((s.port i).ioreq a).slot s₁ s' l)
  | finish {t : Slot} {how : Completion} {b : Answer} (hlast : err ≠ none ∨ ((s.port i).ioreq a).more = false)
      (ht : t = ((s.port i).ioreq a).slot)
      (hhow : how = finalHow (s.port i).atapi (flightCommand m (s.port i) ((s.port i).ioreq a)))
      (hb : b = finalAnswer (s.port i).atapi err)
      (he : Effect i (fun p => ((p.released a).finished t how b).retired t)
        [completion i t how b (s.port i)] s s')

/-- How it can end the device. -/
def CallbackKilled (g : Guest) (i : PortId) (sectsz : ℕ) (m : HostMem) (a : IoreqId)
    (err : Option Errno) (s : Hba) (e : Crash) : Prop :=
  err = none ∧ ((s.port i).cmdLst = none ∧ Died s [] .segfault e ∨
    ∃ f new, planNext g sectsz m (s.port i).atapi ((s.port i).ioreq a)
        (flightCommand m (s.port i) ((s.port i).ioreq a)) = .error f ∧
      (new = [] ∨ new = [completion i ((s.port i).ioreq a).slot .d2h .good (s.port i)]) ∧
      Died s new f e)

theorem effect_released : Effect i (released a) [] s (s.setPort i ((s.port i).released a)) :=
  (effect_setPort _).congr rfl

/-- The beginning of both callbacks. -/
theorem ends_released {R : Bool → Hba → Prop} {E : Crash → Prop} {k : AhciM Bool}
    (hdied : err = none → (s.port i).cmdLst = none → E ⟨.segfault, s.log⟩)
    (hk : Ends R E (k (s.setPort i ((s.port i).released a)))) :
    Ends R E ((releaseIoreq i a >>= fun _ =>
      if err.isNone = true then storePrdbc (s.port i) >>= fun _ => k else k) s) := by
  unfold releaseIoreq
  split
  · rename_i herr
    rw [Option.isNone_iff_eq_none] at herr
    unfold storePrdbc
    split_ifs with hlst
    · exact hdied herr (Option.isNone_iff_eq_none.mp hlst)
    · exact hk
  · exact hk

/-- The end of both callbacks. -/
theorem ends_finish (how : Completion) (h : Books i (some io.slot) [] [] s)
    (he : Effect i (finished io.slot how b) [completion i io.slot how b (s.port i)] s s') :
    Ends (fun _ s' => Books i none [] [] s' ∧
        Effect i (fun p => (p.finished io.slot how b).retired io.slot)
          [completion i io.slot how b (s.port i)] s s') Never
      ((retire i io.slot >>= fun _ => (pure true : AhciM Bool)) s') := by
  refine ends_bind (ends_retired h he ?_) fun _ _ h' => h'
  cases how <;> exact ⟨rfl, rfl, rfl, rfl, rfl, rfl⟩

theorem ends_ataFinish (h : Books i (some io.slot) [] [] s) : Ends (fun _ s' => Books i none [] [] s' ∧
        Effect i (fun p => (p.finished io.slot (finalHow false c) b).retired io.slot)
          [completion i io.slot (finalHow false c) b (s.port i)] s s') Never
      (ataFinish g i c io b s) := by
  unfold ataFinish finalHow
  cases c.isNcq with
  | true => exact ends_bind (ends_writeFisSdb h.sc) fun _ _ he => ends_finish .sdb h he
  | false => exact ends_bind (ends_writeFisD2h h.sc) fun _ _ he => ends_finish .d2h h he

theorem ends_atapiFinish (h : Books i (some io.slot) [] [] s) :
    Ends (fun _ s' => Books i none [] [] s' ∧
        Effect i (fun p => (p.finished io.slot .d2h b).retired io.slot)
          [completion i io.slot .d2h b (s.port i)] s s') Never (atapiFinish g i c io b s) :=
  ends_bind (ends_writeFisD2h h.sc) fun _ _ he => ends_finish .d2h h he

theorem planNext_error (h : planNext g sectsz m atapi io c = .error f) : f.FromGuest := by
  unfold planNext at h
  split_ifs at h
  · exact planned_error h
  · exact planTrim_error h
  · exact planned_error h

/-- The next part of a command is a request, or the end of a trim. -/
theorem planNext_ne_answer (hl : planNext g sectsz m atapi io c = .ok l) : l ≠ .answer b := by
  rintro rfl
  unfold planNext at hl
  split_ifs at hl
  · obtain ⟨part, -, hl⟩ := bind_eq_ok.mp hl
    cases hl
  · obtain ⟨o, -, hl⟩ := bind_eq_ok.mp hl
    cases o <;> cases hl
  · obtain ⟨part, -, hl⟩ := bind_eq_ok.mp hl
    cases hl

theorem finished_released_is (t : Slot) (how : Completion) (b : Answer) (p : AhciPort)
    (x y : BitVec 32) :
    ({ (({ p with is := x } : AhciPort).finished t how b).retired t with is := y } : AhciPort) =
      { (p.finished t how b).retired t with is := y } := by
  cases how with
  | d2h => exact retired_is (p.answered t b) x y
  | sdb => exact retired_is (p.settled t b) x y

/-- A callback that goes on to the next part of the command. -/
theorem ends_next {β : Type} {x : Except Crash (β × Hba)}
    (hmore : (err.isNone && ((s.port i).ioreq a).more) = true)
    (hx : ByPlan i ((s.port i).ioreq a).slot
      (planNext g sectsz m (s.port i).atapi ((s.port i).ioreq a)
        (flightCommand m (s.port i) ((s.port i).ioreq a))) (s.setPort i ((s.port i).released a)) x) :
    Ends (fun _ s' => Books i none [] [] s' ∧ CalledBack g i sectsz m a err s s')
      (CallbackKilled g i sectsz m a err s) x := by
  rw [Bool.and_eq_true, Option.isNone_iff_eq_none] at hmore
  refine ends_mono hx ?_ ?_
  · rintro _ s' ⟨l, hl, hcar⟩
    exact ⟨hcar.books fun b hb => absurd hb (planNext_ne_answer hl),
      .next hmore.1 hmore.2 hl effect_released hcar⟩
  · rintro e ⟨f, new, hl, hnew, hf⟩
    rw [setPort_port] at hnew
    exact ⟨hmore.1, .inr ⟨f, new, hl, hnew, hf⟩⟩

/-- A callback that ends the command. -/
theorem calledBack_finish {how : Completion}
    (hlast : ¬ (err.isNone && ((s.port i).ioreq a).more) = true)
    (hhow : how = finalHow (s.port i).atapi (flightCommand m (s.port i) ((s.port i).ioreq a)))
    (hans : b = finalAnswer (s.port i).atapi err)
    (he : Effect i (fun p => (p.finished ((s.port i).ioreq a).slot how b).retired ((s.port i).ioreq a).slot)
      [completion i ((s.port i).ioreq a).slot how b ((s.setPort i ((s.port i).released a)).port i)]
      (s.setPort i ((s.port i).released a)) s') :
    CalledBack g i sectsz m a err s s' := by
  have hsame : completion i ((s.port i).ioreq a).slot how b
      ((s.setPort i ((s.port i).released a)).port i) =
        completion i ((s.port i).ioreq a).slot how b (s.port i) := by
    rw [setPort_port]
    rfl
  rw [hsame] at he
  refine .finish ?_ rfl hhow hans (effect_released.trans he (finished_released_is _ how b))
  cases err with
  | none => exact .inr (by simpa using hlast)
  | some x => exact .inl (by simp)

section

variable (h : Books i (some ((s.port i).ioreq a).slot) [] [a] s) (hb : (s.port i).bctx = some bc)

include h hb

theorem ends_atapiIoreqDone (hatapi : (s.port i).atapi = true) :
    Ends (fun _ s' => Books i none [] [] s' ∧ CalledBack g i bc.bcSectsz m a err s s')
      (CallbackKilled g i bc.bcSectsz m a err s) (atapiIoreqDone g i m a err s) := by
  have h₁ := h.release rfl
  have hb₁ : ((s.setPort i ((s.port i).released a)).port i).bctx = some bc := by
    rw [setPort_port]
    exact hb
  unfold atapiIoreqDone
  refine ends_released (fun herr hlst => ⟨herr, .inl ⟨hlst, rfl, (append_nil _).symm⟩⟩) ?_
  split
  · rename_i hmore
    refine ends_bind (ends_next hmore ?_) fun _ _ h => h
    rw [hatapi]
    exact ends_atapiRead h₁ hb₁
  · rename_i hlast
    refine ends_sure (ends_atapiFinish h₁) fun _ s' h' => ⟨h'.1, calledBack_finish hlast ?_ ?_ h'.2⟩
    all_goals
      rw [hatapi]
      rfl

theorem ends_ataIoreqDone (hatapi : (s.port i).atapi = false) :
    Ends (fun _ s' => Books i none [] [] s' ∧ CalledBack g i bc.bcSectsz m a err s s')
      (CallbackKilled g i bc.bcSectsz m a err s) (ataIoreqDone g i m a err s) := by
  have h₁ := h.release rfl
  have hb₁ : ((s.setPort i ((s.port i).released a)).port i).bctx = some bc := by
    rw [setPort_port]
    exact hb
  unfold ataIoreqDone
  refine ends_released (fun herr hlst => ⟨herr, .inl ⟨hlst, rfl, (append_nil _).symm⟩⟩) ?_
  split
  · rename_i hmore
    unfold ataContinue
    split_ifs with hdsm
    · refine ends_next hmore ?_
      rw [hatapi, planNext, if_neg Bool.false_ne_true, if_pos hdsm]
      exact ends_handleDsmTrim h₁ hb₁
    · refine ends_bind (ends_next hmore ?_) fun _ _ h => h
      rw [hatapi, planNext, if_neg Bool.false_ne_true, if_neg hdsm]
      exact ends_handleRw h₁ hb₁
  · rename_i hlast
    refine ends_sure (ends_ataFinish h₁) fun _ s' h' => ⟨h'.1, calledBack_finish hlast ?_ ?_ h'.2⟩
    · rw [hatapi]
    · rw [hatapi]
      rfl

theorem ends_ioreqDone :
    Ends (fun _ s' => Books i none [] [] s' ∧ CalledBack g i bc.bcSectsz m a err s s')
      (CallbackKilled g i bc.bcSectsz m a err s) (ioreqDone g i m a err s) := by
  unfold ioreqDone
  rw [run_getPort]
  split_ifs with hatapi
  · exact ends_atapiIoreqDone h hb hatapi
  · exact ends_ataIoreqDone h hb (Bool.not_eq_true _ ▸ hatapi)

end

/-- A cancellation by `ahci_port_stop`. -/
structure Cancelled (i : PortId) (a : IoreqId) (s s' : Hba) : Prop where
  busy : a ∈ (s.port i).iobhd
  port : ∃ ncq : Bool, s'.port i = { s.port i with
    sact := if ncq then clearSlot (s.port i).sact ((s.port i).ioreq a).slot else (s.port i).sact
    ci := if ncq then (s.port i).ci else clearSlot (s.port i).ci ((s.port i).ioreq a).slot
    pending := clearSlot (s.port i).pending ((s.port i).ioreq a).slot
    iobhd := (s.port i).iobhd.erase a
    iofhd := (s.port i).iofhd ++ [a] }
  other : ∀ j, j ≠ i → s'.port j = s.port j
  trace : traceOf s'.log = traceOf s.log ++ [.cancel i ((s.port i).ioreq a).slot]

/-- The disk gave the request back; the books of its slot are to be closed. -/
theorem Books.recall {blk : World IoreqId} (h : Books i none [] [] s) (hok : blk.Ok)
    (hp : s.blk.inFlight.Perm (a :: blk.inFlight)) :
    Books i (some ((s.port i).ioreq a).slot) [] [a] { s with blk := blk } :=
  ⟨h.disk, h.sc, hok, h.pool.recall hp⟩

/-- A request is cancelled, or with the worker, or being called back. -/
theorem ends_cancelRequest (h : Books i none [] [] s) :
    Ends (fun r s' => ∃ blk, s' = { s with blk := blk } ∧ match r with
        | none => blk.Ok ∧ s.blk.inFlight.Perm (a :: blk.inFlight)
        | some _ => blk = s.blk) (fun e => e.fault = .blocked ∨ ∃ f, e.fault = .disk f)
      (cancelRequest a s) := by
  unfold cancelRequest
  cases hc : blockifCancel s.blk a with
  | error x =>
    cases x with
    | blocked => exact .inl rfl
    | assertion => exact absurd hc (blockifCancel_ne_assertion h.ok)
    | fault f => exact .inr ⟨f, rfl⟩
  | ok p =>
    obtain ⟨blk, r⟩ := p
    cases r with
    | none => exact ⟨blk, rfl, ok_cancel h.ok hc, inFlight_cancel h.ok hc⟩
    | some x => exact ⟨blk, rfl, blockifCancel_refused h.ok hc⟩

theorem ends_cancelled (h : Books i (some t) [] [a] s) (ht : ((s.port i).ioreq a).slot = t) :
    Ends (fun _ s' => Books i none [] [] s' ∧ Cancelled i a s s') Never
      (cancelled i t a ncq s) := by
  have hmark : Books i (some t) [] [a] (s.setPort i { s.port i with
      sact := if ncq then clearSlot (s.port i).sact t else (s.port i).sact
      ci := if ncq then (s.port i).ci else clearSlot (s.port i).ci t
      pending := clearSlot (s.port i).pending t }) := by
    refine ⟨?_, ?_, h.ok, ?_⟩ <;> rw [setPort_port]
    · exact h.disk
    · exact h.sc
    · exact h.pool.remark fun u hu => by simp [Ne.symm hu]
  have hrel := hmark.release (by rw [setPort_port]; exact ht)
  rw [setPort_setPort] at hrel
  have hclose := hrel.close (by simp)
  unfold cancelled releaseIoreq
  rw [run_modifyPort, run_modifyPort, setPort_setPort]
  refine ⟨hclose.congr ⟨rfl, rfl, rfl, rfl, rfl, rfl⟩ rfl,
    h.pool.flight.subset mem_cons_self, ⟨ncq, ?_⟩, fun _ hj => setPort_other hj, ?_⟩
  · rw [ht]
    simp
  · rw [ht]
    exact traceOf_append _ _

/-- An invariant of single cancellations is kept by the whole loop. -/
theorem ends_stopLoop {J : Hba → Prop} {l : List IoreqId}
    (hJ : ∀ a s s', Books i none [] [] s → J s → Cancelled i a s s' → Books i none [] [] s' → J s')
    (h : Books i none [] [] s) (hj : J s) :
    Ends (fun _ s' => Books i none [] [] s' ∧ J s')
      (fun e => e.fault = .blocked ∨ ∃ f, e.fault = .disk f) (stopLoop i m l ncq s) := by
  induction l generalizing s ncq with
  | nil => exact ⟨h, hj⟩
  | cons a l ih =>
    refine ends_bind (ends_cancelRequest h) fun r s₁ hr => ?_
    obtain ⟨blk, rfl, hr⟩ := hr
    cases r with
    | some x =>
      rw [hr]
      exact ih h hj
    | none =>
      obtain ⟨hok, hperm⟩ := hr
      dsimp only
      rw [run_getPort]
      refine ends_bind (ends_sure (ends_cancelled (h.recall hok hperm) rfl) fun _ _ h' => h') ?_
      rintro _ s' ⟨h', hc⟩
      exact ih h' (hJ a s s' h hj { hc with } h')

end HyperCog.Ahci
