import HyperCog.Ahci.Accounting
import HyperCog.Lib.Sweep

/-! The issue loop of a port as a sweep over its slots, and when it ends. -/
namespace HyperCog.Ahci

open Virtio Blockif Machine Sweep List AhciPort

attribute [local simp] answered occupied acked

/-- What becomes of an issued slot in the loop, by the table that is found for it: only a
command that is refused while FIS receive is off, or one in a FIS of another type, leaves the
slot as it was. -/
def fate (g : Guest) (sectsz : ℕ) (p : AhciPort) (m : HostMem) (t : Slot) : Fate :=
  match slotCommand g m p.cmdLst t with
  | .error _ => .halts
  | .ok c =>
    if c.cfis 0 ≠ 0x27 then .stuck
    else if c.cfis 1 &&& 0x80 = 0 then .passes
    else
      match plan g sectsz m t c (commandHandler p.atapi c) with
      | .error _ => .halts
      | .ok (.answer a) => if a.fails then if p.fisOn then .halts else .stuck else .passes
      | .ok (.trimmed _ _) => .passes
      | .ok (.launch _ _ _ ack early) => if ack || early then .passes else .halts

/-- Neither busy nor waiting to be cleared. -/
def AhciPort.calm (p : AhciPort) : Prop :=
  p.tfd &&& (ataSBusy ||| ataSDrq) = 0 ∧ p.waitforclear = false

/-- What the fates of the slots depend on. -/
structure SameView (p p' : AhciPort) : Prop where
  cmdLst : p'.cmdLst = p.cmdLst
  atapi : p'.atapi = p.atapi
  fisOn : p'.fisOn = p.fisOn
  bctx : p'.bctx = p.bctx
  started : p'.cmd &&& ahciPCmdSt = p.cmd &&& ahciPCmdSt

/-- The slot that `ahci_handle_slot` is entered for. -/
def Event.handled (i : PortId) : Event → Option Slot
  | .slot j t => if j = i then some t else none
  | .cmd _ _ _ | .intr _ | .post _ _ _ | .ack _ _ | .complete _ _ _ _ _ | .request _ _ _ _
  | .cancel _ _ => none

/-- The slots that port `i` handled. -/
def slotsOf (i : PortId) (l : List Event) : List Slot := l.filterMap (Event.handled i)

/-- What handling the slot `t` makes of a port. -/
structure Moved (t : Slot) (f : Fate) (p p' : AhciPort) : Prop where
  view : SameView p p'
  ccs : p'.ccs = p.ccs
  others : ∀ u, u ≠ t → p'.issued u = p.issued u
  outcome : match f with
    | .passes => p'.issued t = false ∧ p'.calm
    | .stuck => p'.issued t = true ∧ p'.calm
    | .halts => ¬ p'.calm

variable {g : Guest} {sectsz k fuel : ℕ} {p p' q : AhciPort} {m : HostMem} {t u : Slot}
  {c : Command} {f : Fate} {io : AhciIoreq} {ncq : Bool} {i : PortId} {s s' : Hba} {e : Crash}
  {bc : BlockifCtxt} {x : BitVec 32} {a : IoreqId} {rest : List IoreqId} {l : Plan}
  {new : List Event}

theorem SameView.trans {p'' : AhciPort} (h : SameView p p') (h' : SameView p' p'') : SameView p p'' :=
  ⟨h'.cmdLst.trans h.cmdLst, h'.atapi.trans h.atapi, h'.fisOn.trans h.fisOn,
    h'.bctx.trans h.bctx, h'.started.trans h.started⟩

theorem fate_congr (h : SameView p p') : fate g sectsz p' m t = fate g sectsz p m t := by
  unfold fate
  rw [h.cmdLst, h.atapi, h.fisOn]

theorem calm_iff : p.halted ↔ (∀ t, p.issued t = false) ∨ ¬ p.calm := by
  unfold halted calm issued
  rw [eq_zero_iff_hasSlot, not_and_or, Bool.not_eq_false]

theorem issued_eq : p.issued t = (hasSlot p.ci t && !hasSlot p.pending t) :=
  hasSlot_and_not _ _ _

/-- Showing the slot at hand leaves the low bits of `PxCMD` alone. -/
theorem shown_cmd {mask : BitVec 32} (hm : mask &&& ahciPCmdCcsMask = 0)
    (hlow : ∀ u : Slot, (BitVec.ofNat 32 u <<< 8) &&& mask = 0) :
    p.shown.cmd &&& mask = p.cmd &&& mask := by
  have hslot := hlow p.ccs
  apply BitVec.eq_of_getLsbD_eq
  intro j hj
  have hmj := congrArg (fun v : BitVec 32 => v.getLsbD j) hm
  have hsj := congrArg (fun v : BitVec 32 => v.getLsbD j) hslot
  simp only [BitVec.getLsbD_and, BitVec.ofNat_eq_ofNat, BitVec.getLsbD_zero] at hmj hsj
  simp only [shown, BitVec.getLsbD_and, BitVec.getLsbD_or, BitVec.getLsbD_not, hj,
    decide_true, Bool.true_and]
  cases hbit : mask.getLsbD j with
  | false => simp
  | true =>
    rw [hbit] at hmj hsj
    rw [Bool.true_and] at hmj
    rw [Bool.and_true] at hsj
    simp [hmj, hsj]

theorem sameView_shown : SameView p p.shown := by
  have hfre : p.shown.cmd &&& ahciPCmdFre = p.cmd &&& ahciPCmdFre :=
    shown_cmd (by decide) (by decide)
  refine ⟨rfl, rfl, ?_, rfl, shown_cmd (by decide) (by decide)⟩
  rw [fisOn, hfre]
  rfl

theorem slotsOf_traceOf (i : PortId) (l : List Event) : slotsOf i (traceOf l) = slotsOf i l := by
  unfold slotsOf traceOf
  rw [filterMap_filter]
  refine filterMap_congr fun e _ => ?_
  cases e <;> rfl

theorem slotsOf_append (i : PortId) (l l' : List Event) :
    slotsOf i (l ++ l') = slotsOf i l ++ slotsOf i l' := filterMap_append

/-- The interrupt status plays no part. -/
theorem Moved.withIs (h : Moved t f p p') : Moved t f p { p' with is := x } :=
  ⟨{ h.view with }, h.ccs, h.others, by cases f <;> exact h.outcome⟩

theorem clearSlot_other {v : BitVec 32} (hu : u ≠ t) : hasSlot (clearSlot v t) u = hasSlot v u := by
  simp [Ne.symm hu]

theorem answer_calm (a : Answer) : a.tfd &&& (ataSBusy ||| ataSDrq) = 0 := by
  cases a <;> decide

theorem moved_self (hc : p.calm) (ht : p.issued t = true) : Moved t .stuck p p :=
  ⟨⟨rfl, rfl, rfl, rfl, rfl⟩, rfl, fun _ _ => rfl, ht, hc⟩

theorem moved_answered {a : Answer} (hc : p.calm) (ht : p.issued t = true) :
    Moved t (if a.fails then if p.fisOn then .halts else .stuck else .passes) p
      (p.busied.answered t a) := by
  refine ⟨⟨rfl, rfl, rfl, rfl, rfl⟩, rfl, fun u hu => ?_, ?_⟩
  · rw [issued_eq, issued_eq]
    cases hf : a.fails with
    | true => simp [busied, hf]
    | false => simp [busied, hf, Ne.symm hu]
  · have hfis : p.busied.fisOn = p.fisOn := rfl
    cases hf : a.fails with
    | false =>
      refine ⟨?_, answer_calm a, ?_⟩
      · rw [issued_eq]
        simp [hf]
      · simpa [busied, hf] using hc.2
    | true =>
      cases hon : p.fisOn with
      | true =>
        intro hcalm
        have hw := hcalm.2
        simp [hf, hfis, hon] at hw
      | false =>
        refine ⟨?_, answer_calm a, ?_⟩
        · rw [issued_eq] at ht ⊢
          simpa [busied, hf] using ht
        · change (p.waitforclear || (p.fisOn && a.fails)) = false
          rw [hc.2, hon]
          rfl

theorem moved_controlled (hc : p.calm) : Moved t .passes p (p.controlled t c) := by
  have hrenewed : ∀ b : Bool, (1 <<< 8 ||| ataSDsc ||| ataSDma |||
      (if b then 0 else ataSReady)) &&& (ataSBusy ||| ataSDrq) = 0 := by decide
  unfold controlled
  split_ifs
  · refine ⟨⟨rfl, rfl, rfl, rfl, rfl⟩, rfl, fun u hu => ?_, ?_, hc⟩
    · rw [issued_eq, issued_eq, clearSlot_other hu]
    · simp [issued_eq]
  · refine ⟨⟨rfl, rfl, rfl, rfl, rfl⟩, rfl, fun u hu => ?_, ?_, hrenewed p.atapi, hc.2⟩
    · rw [issued_eq, issued_eq, clearSlot_other hu]
      rfl
    · simp [issued_eq]
  · refine ⟨⟨rfl, rfl, rfl, rfl, rfl⟩, rfl, fun u hu => ?_, ?_, hc⟩
    · rw [issued_eq, issued_eq, clearSlot_other hu]
    · simp [issued_eq]

/-- A port that runs is not found stopped. -/
theorem checkStopped_started (hst : p.cmd &&& ahciPCmdSt ≠ 0) : p.checkStopped = p := by
  unfold checkStopped
  rw [if_neg fun h => hst h.1]

/-- A trim without entries is answered at once, queued or not. -/
theorem moved_trimmed (hc : p.calm) (hst : p.cmd &&& ahciPCmdSt ≠ 0) :
    Moved t .passes p ((p.busied.trimmed t true ncq).retired t) := by
  have hq : (p.busied.trimmed t true ncq).retired t = { p.busied.trimmed t true ncq with
      pending := clearSlot (p.busied.trimmed t true ncq).pending t } := by
    refine checkStopped_started ?_
    cases ncq <;> exact hst
  have hci : (p.busied.trimmed t true ncq).ci = clearSlot p.ci t := by cases ncq <;> rfl
  have hpend : (p.busied.trimmed t true ncq).pending = p.pending := by cases ncq <;> rfl
  have hsettled : ((Answer.good.tfd &&& ~~~0x77) ||| (Answer.good.tfd &&& 0x77)) &&&
      (ataSBusy ||| ataSDrq) = 0 := by decide
  have htfd : (p.busied.trimmed t true ncq).tfd &&& (ataSBusy ||| ataSDrq) = 0 := by
    cases ncq with
    | true => exact hsettled
    | false => exact answer_calm .good
  have hwait : (p.busied.trimmed t true ncq).waitforclear = false := by
    cases ncq <;> simpa [trimmed, settled, busied, Answer.fails] using hc.2
  rw [hq]
  refine ⟨?_, by cases ncq <;> rfl, fun u hu => ?_, ?_, htfd, hwait⟩
  · cases ncq <;> exact ⟨rfl, rfl, rfl, rfl, rfl⟩
  · rw [issued_eq, issued_eq]
    rw [hci, hpend, clearSlot_other hu, clearSlot_other hu]
  · rw [issued_eq]
    dsimp only
    rw [hci]
    simp

theorem busied_not_calm : ¬ p.busied.calm := by
  rintro ⟨h, -⟩
  have hbit := congrArg (fun v : BitVec 32 => v.getLsbD 7) h
  simp [busied, ataSBusy, ataSDrq] at hbit

theorem issued_occupied_other (hu : u ≠ t) : (q.occupied t a rest io).issued u = q.issued u := by
  rw [issued_eq, issued_eq]
  simp [Ne.symm hu]

/-- A request is started while the port is busy with the command. -/
theorem moved_occupied : Moved t .halts p (p.busied.occupied t a rest io) :=
  ⟨⟨rfl, rfl, rfl, rfl, rfl⟩, rfl, fun _ hu => issued_occupied_other hu, busied_not_calm⟩

/-- A request is started for a command that was answered before. -/
theorem moved_occupied_early (hc : p.calm) :
    Moved t .passes p ((p.busied.answered t .good).occupied t a rest io) := by
  refine ⟨⟨rfl, rfl, rfl, rfl, rfl⟩, rfl, fun u hu => ?_, by simp [issued_eq], answer_calm .good, ?_⟩
  · rw [issued_occupied_other hu, issued_eq, issued_eq]
    simp [busied, Answer.fails, Ne.symm hu]
  · simpa [busied, Answer.fails] using hc.2

/-- A request is started for a queued command. -/
theorem moved_occupied_acked (hc : p.calm) :
    Moved t .passes p ((p.busied.occupied t a rest io).acked t) := by
  refine ⟨⟨rfl, rfl, rfl, rfl, rfl⟩, rfl, fun u hu => ?_, ?_, answer_calm .good, hc.2⟩
  · rw [issued_eq, issued_eq]
    simp [busied, Ne.symm hu]
  · rw [issued_eq]
    simp

theorem slotsOf_trace {log log' : List Event} (h : traceOf log' = traceOf log ++ new) :
    slotsOf i log' = slotsOf i log ++ slotsOf i new := by
  rw [← slotsOf_traceOf, h, slotsOf_append, slotsOf_traceOf]

theorem slotsOf_slot (hnew : slotsOf i new = []) : slotsOf i (.slot i t :: new) = [t] := by
  have hone : slotsOf i [.slot i t] = [t] := by simp [slotsOf, Event.handled]
  rw [← singleton_append, slotsOf_append, hone, hnew, append_nil]

/-- What a handler does is not the handling of another slot. -/
theorem Carried.slots (h : Carried i t s s' l) : slotsOf i s'.log = slotsOf i s.log := by
  cases l with
  | answer a => exact (slotsOf_trace h.trace).trans (append_nil _)
  | trimmed first ncq =>
    refine (slotsOf_trace h.2.trace).trans ?_
    cases ncq <;> cases first <;> exact append_nil _
  | launch io op fill ack early =>
    obtain ⟨s₁, he, hl⟩ := h
    obtain ⟨a, rest, is, -, -, htrace⟩ := hl.elem
    rw [append_assoc] at htrace
    have h₁ : slotsOf i s₁.log = slotsOf i s.log := by
      refine (slotsOf_trace he.trace).trans ?_
      cases early <;> exact append_nil _
    refine ((slotsOf_trace htrace).trans ?_).trans h₁
    cases ack <;> exact append_nil _

/-- In the first part of a command, a trim without entries is acknowledged as well, and no
command is both acknowledged and answered early. -/
def Plan.First : Plan → Prop
  | .answer _ => True
  | .trimmed first _ => first = true
  | .launch _ _ _ ack early => ack = true → early = false

theorem plan_first {h : Handler} (hl : plan g sectsz m t c h = .ok l) : l.First := by
  cases h with
  | reply r =>
    obtain ⟨u, -, hl⟩ := bind_eq_ok.mp hl
    cases hl
    trivial
  | rw =>
    obtain ⟨part, -, hl⟩ := bind_eq_ok.mp hl
    cases hl
    exact fun _ => rfl
  | flush =>
    cases hl
    exact fun _ => rfl
  | trim =>
    obtain ⟨o, -, hl⟩ := bind_eq_ok.mp hl
    cases o with
    | none =>
      cases hl
      exact rfl
    | some e =>
      cases hl
      exact fun _ => rfl
  | read =>
    obtain ⟨part, -, hl⟩ := bind_eq_ok.mp hl
    cases hl
    rintro ⟨⟩

theorem trimmed_retired_is {first : Bool} (p : AhciPort) (x y : BitVec 32) :
    ({ (({ p with is := x } : AhciPort).trimmed t first ncq).retired t with is := y } : AhciPort) =
      { (p.trimmed t first ncq).retired t with is := y } := by
  have hret := retired_is (t := t) (p.trimmed t first ncq) x y
  cases ncq <;> cases first <;> exact hret

/-- The port after a launch, interrupt status aside. -/
theorem Launched.port {op : Blockop} {fill : BlockifReq → BlockifReq} {ack : Bool}
    {z : BitVec 32} (h : Launched i t io op fill ack s s')
    (hq : s.port i = { q with is := z }) :
    ∃ a rest is, s'.port i =
      { (if ack then (q.occupied t a rest io).acked t else q.occupied t a rest io) with
        is := is } := by
  obtain ⟨a, rest, is, -, hport, -⟩ := h.elem
  rw [hq] at hport
  refine ⟨a, rest, is, ?_⟩
  rw [hport]
  cases ack <;> rfl

/-- A slot meets the fate that its table tells. -/
theorem Handled.moved (hst : (s.port i).cmd &&& ahciPCmdSt ≠ 0) (hc : (s.port i).calm)
    (ht : (s.port i).issued t = true) (h : Handled g i sectsz m t s s') :
    Moved t (fate g sectsz (s.port i) m t) (s.port i) (s'.port i) ∧
      slotsOf i s'.log = slotsOf i s.log ++ [t] := by
  cases h with
  | @ignored c hcmd hfis he =>
    have hfate : fate g sectsz (s.port i) m t = .stuck := by
      simp only [fate, hcmd, if_pos hfis]
    obtain ⟨x, hx⟩ := he.port
    rw [hfate, hx]
    exact ⟨(moved_self hc ht).withIs, by rw [slotsOf_trace he.trace, slotsOf_slot rfl]⟩
  | @control c hcmd hfis hctl he =>
    have hfate : fate g sectsz (s.port i) m t = .passes := by
      simp only [fate, hcmd, if_neg (not_not.mpr hfis), if_pos hctl]
    obtain ⟨x, hx⟩ := he.port
    rw [hfate, hx]
    exact ⟨(moved_controlled hc).withIs, by rw [slotsOf_trace he.trace, slotsOf_slot rfl]⟩
  | @command c l s₁ hcmd hfis hctl hl he hcar =>
    have hslots : slotsOf i s'.log = slotsOf i s.log ++ [t] := by
      rw [hcar.slots, slotsOf_trace he.trace, slotsOf_slot rfl]
    refine ⟨?_, hslots⟩
    simp only [fate, hcmd, if_neg (not_not.mpr hfis), if_neg hctl, hl]
    obtain ⟨x, hx⟩ := he.port
    have hfirst := plan_first hl
    cases l with
    | answer a =>
      obtain ⟨y, hy⟩ := hcar.port
      rw [hy, hx]
      exact (moved_answered hc ht).withIs
    | trimmed first ncq =>
      obtain ⟨y, hy⟩ := (he.trans hcar.2 trimmed_retired_is).port
      cases hfirst
      rw [hy]
      exact (moved_trimmed hc hst).withIs
    | launch io op fill ack early =>
      obtain ⟨s₂, he₂, hl₂⟩ := hcar
      obtain ⟨z, hz⟩ := (he.trans he₂ fun _ _ _ => by cases early <;> rfl).port
      obtain ⟨a, rest, y, hy⟩ := hl₂.port hz
      rw [hy]
      cases ack with
      | true =>
        cases hfirst rfl
        exact (moved_occupied_acked hc).withIs
      | false =>
        cases early with
        | true => exact (moved_occupied_early hc).withIs
        | false => exact moved_occupied.withIs

theorem Killed.halts (h : Killed g i sectsz m t s e) :
    fate g sectsz (s.port i) m t = .halts ∧ slotsOf i e.log = slotsOf i s.log ++ [t] ∧
      e.fault.FromGuest := by
  cases h with
  | @table f hcmd hd =>
    refine ⟨by simp only [fate, hcmd], by rw [slotsOf_trace hd.2, slotsOf_slot rfl], ?_⟩
    rw [hd.1]
    exact slotCommand_error hcmd
  | @command c f new hcmd hfis hctl hl hnew hd =>
    refine ⟨?_, ?_, by rw [hd.1]; exact plan_error hl⟩
    · simp only [fate, hcmd, if_neg (not_not.mpr hfis), if_neg hctl, hl]
    · rw [slotsOf_trace hd.2, cons_append, slotsOf_slot]
      rcases hnew with rfl | rfl <;> rfl

/-- A port with a disk that runs and is neither busy nor waiting. -/
structure Ready (i : PortId) (bc : BlockifCtxt) (s : Hba) : Prop where
  books : Books i none [] [] s
  disk : (s.port i).bctx = some bc
  started : (s.port i).cmd &&& ahciPCmdSt ≠ 0
  calm : (s.port i).calm

/-- A turn of the loop that goes on in `s'` with the slots `marks` issued, after the slots in
`new` were handled. -/
structure GoesOn (g : Guest) (i : PortId) (bc : BlockifCtxt) (k : ℕ) (marks : Slot → Bool)
    (new : List Slot) (s s' : Hba) : Prop where
  ready : Ready i bc s'
  issued : (s'.port i).issued = marks
  ccs : (s'.port i).ccs = (s.port i).ccs + 1
  view : SameView (s.port i) (s'.port i)
  slots : slotsOf i s'.log = slotsOf i s.log ++ new
  loop : ∀ fuel, issueLoop g i (fuel + 1) k s = issueLoop g i fuel (k + 1) s'

/-- What a call did, up to its end. -/
def logOf : Except Crash (Unit × Hba) → List Event
  | .ok (_, s) => s.log
  | .error e => e.log

/-- The loop has not come to an end. -/
def Spinning : Except Crash (Unit × Hba) → Prop
  | .ok _ => False
  | .error e => e.fault = .spinning

theorem issueLoop_halted (h : (s.port i).halted) : issueLoop g i (fuel + 1) k s = .ok ((), s) := by
  unfold halted at h
  rw [issueLoop, run_getPort, if_pos h]
  rfl

theorem logOf_halted (h : (s.port i).halted) : logOf (issueLoop g i fuel k s) = s.log := by
  cases fuel with
  | zero => rfl
  | succ fuel => rw [issueLoop_halted h, logOf]

theorem issueLoop_turn (h : ¬ (s.port i).halted) : issueLoop g i (fuel + 1) k s =
      issueTurn g i k (s.port i) s >>= fun p => issueLoop g i fuel (k + 1) p.2 := by
  unfold halted at h
  rw [issueLoop, run_getPort, if_neg h]
  rfl

theorem issueLoop_goes (h : ¬ (s.port i).halted) (hrun : issueTurn g i k (s.port i) s = .ok ((), s')) :
    issueLoop g i (fuel + 1) k s = issueLoop g i fuel (k + 1) s' := by
  rw [issueLoop_turn h, hrun]
  rfl

theorem issueLoop_dies (h : ¬ (s.port i).halted) (hrun : issueTurn g i k (s.port i) s = .error e) :
    issueLoop g i (fuel + 1) k s = .error e := by
  rw [issueLoop_turn h, hrun]
  rfl

theorem Ready.not_halted (hr : Ready i bc s) (hu : (s.port i).issued u = true) :
    ¬ (s.port i).halted := by
  rw [calm_iff]
  rintro (hnone | hnot)
  · rw [hnone u] at hu
    cases hu
  · exact hnot hr.calm

/-- The slot at hand is not issued. -/
theorem turn_skips (hr : Ready i bc s) (hu : (s.port i).issued u = true)
    (ht : (s.port i).issued (s.port i).ccs = false) :
    ∃ s', GoesOn g i bc k (s.port i).issued [] s s' := by
  have hgo := hr.not_halted hu
  have hends := ends_issueTurn (g := g) (k := k) hr.books hr.disk
  cases hrun : issueTurn g i k (s.port i) s with
  | error e =>
    rw [hrun] at hends
    rw [hends.1] at ht
    cases ht
  | ok p =>
    obtain ⟨_, s'⟩ := p
    rw [hrun] at hends
    obtain ⟨hbooks, hturn⟩ := hends
    rw [Turned, if_neg (by simp [ht])] at hturn
    obtain ⟨x, hx⟩ := hturn.port
    refine ⟨s', ⟨hbooks, ?_, ?_, ?_⟩, ?_, ?_, ?_, slotsOf_trace hturn.trace,
      fun fuel => issueLoop_goes hgo hrun⟩
    all_goals rw [hx]
    · exact hr.disk
    · exact hr.started
    · exact hr.calm
    · rfl
    · rfl
    · exact ⟨rfl, rfl, rfl, rfl, rfl⟩

/-- A turn that handles the slot at hand. -/
theorem turn_moved (hr : Ready i bc s) (ht : (s.port i).issued (s.port i).ccs = true)
    (hturn : Turned g i bc.bcSectsz k s s') :
    ∃ q x, Moved (s.port i).ccs (fate g bc.bcSectsz (s.port i) (g.mem k) (s.port i).ccs)
        (s.port i) q ∧ s'.port i = { q.advanced with is := x } ∧
      slotsOf i s'.log = slotsOf i s.log ++ [(s.port i).ccs] := by
  rw [Turned, if_pos ht] at hturn
  obtain ⟨s₁, s₂, he₁, hhandled, he₂⟩ := hturn
  obtain ⟨x, hx⟩ := he₁.port
  obtain ⟨y, hy⟩ := he₂.port
  have hview : SameView (s.port i) (s₁.port i) := by
    rw [hx]
    exact sameView_shown.trans ⟨rfl, rfl, rfl, rfl, rfl⟩
  have hst₁ : (s₁.port i).cmd &&& ahciPCmdSt ≠ 0 := by
    rw [hview.started]
    exact hr.started
  have hcalm₁ : (s₁.port i).calm := by
    rw [hx]
    exact hr.calm
  have hissued₁ : (s₁.port i).issued = (s.port i).issued := by
    rw [hx]
    rfl
  have hccs₁ : (s₁.port i).ccs = (s.port i).ccs := by
    rw [hx]
    rfl
  obtain ⟨hmoved, hslots⟩ := hhandled.moved hst₁ hcalm₁ (by rw [hissued₁]; exact ht)
  rw [fate_congr hview] at hmoved
  refine ⟨s₂.port i, y, ⟨hview.trans hmoved.view, hmoved.ccs.trans hccs₁, fun u hu => ?_,
    hmoved.outcome⟩, hy, ?_⟩
  · rw [hmoved.others u hu, hissued₁]
  · have h₁ := slotsOf_trace (i := i) he₁.trace
    have h₂ := slotsOf_trace (i := i) he₂.trace
    rw [h₂, hslots, h₁]
    exact (append_nil _).trans (by rw [show slotsOf i [] = [] from rfl, append_nil])

theorem Moved.goes (h : Moved t f p q) (ht : p.issued t = true)
    (hf : f ≠ .halts) : q.issued = marksAfter f p.issued t ∧ q.calm := by
  cases f with
  | halts => exact absurd rfl hf
  | passes =>
    refine ⟨funext fun u => ?_, h.outcome.2⟩
    rw [marksAfter, if_pos rfl]
    by_cases hu : u = t
    · rw [hu, Function.update_self]
      exact h.outcome.1
    · rw [Function.update_of_ne hu]
      exact h.others u hu
  | stuck =>
    refine ⟨funext fun u => ?_, h.outcome.2⟩
    by_cases hu : u = t
    · rw [hu]
      exact h.outcome.1.trans ht.symm
    · exact h.others u hu

/-- The slot at hand is issued, and meets its fate. -/
theorem turn_handles (hr : Ready i bc s) (ht : (s.port i).issued (s.port i).ccs = true)
    (hf : f = fate g bc.bcSectsz (s.port i) (g.mem k) (s.port i).ccs) :
    (f = .halts ∧ ∀ fuel, slotsOf i (logOf (issueLoop g i (fuel + 1) k s)) =
        slotsOf i s.log ++ [(s.port i).ccs] ∧ ¬ Spinning (issueLoop g i (fuel + 2) k s)) ∨
      f ≠ .halts ∧ ∃ s', GoesOn g i bc k
        (marksAfter f (s.port i).issued (s.port i).ccs) [(s.port i).ccs] s s' := by
  have hgo := hr.not_halted ht
  have hends := ends_issueTurn (g := g) (k := k) hr.books hr.disk
  cases hrun : issueTurn g i k (s.port i) s with
  | error e =>
    rw [hrun] at hends
    obtain ⟨-, s₁, he, hkilled⟩ := hends
    obtain ⟨x, hx⟩ := he.port
    obtain ⟨hfate, hslots, hguest⟩ := hkilled.halts
    have hview : SameView (s.port i) (s₁.port i) := by
      rw [hx]
      exact sameView_shown.trans ⟨rfl, rfl, rfl, rfl, rfl⟩
    have h₁ : slotsOf i s₁.log = slotsOf i s.log :=
      (slotsOf_trace he.trace).trans (append_nil _)
    rw [fate_congr hview, ← hf] at hfate
    refine .inl ⟨hfate, fun fuel => ?_⟩
    rw [issueLoop_dies hgo hrun, issueLoop_dies hgo hrun]
    refine ⟨by rw [logOf, hslots, h₁], fun hspin => ?_⟩
    rcases hguest with h | h | h <;> rw [hspin] at h <;> cases h
  | ok p =>
    obtain ⟨_, s'⟩ := p
    rw [hrun] at hends
    obtain ⟨hbooks, hturn⟩ := hends
    obtain ⟨q, x, hmoved, hq, hslots⟩ := turn_moved hr ht hturn
    rw [← hf] at hmoved
    by_cases hhalts : f = .halts
    · rw [hhalts] at hmoved
      have hhalted : (s'.port i).halted := by
        rw [calm_iff, hq]
        exact .inr hmoved.outcome
      refine .inl ⟨hhalts, fun fuel => ?_⟩
      rw [issueLoop_goes hgo hrun, issueLoop_goes hgo hrun]
      refine ⟨by rw [logOf_halted hhalted, hslots], ?_⟩
      rw [issueLoop_halted hhalted]
      exact fun h => h
    · obtain ⟨hmarks, hcalm⟩ := hmoved.goes ht hhalts
      have hview : SameView (s.port i) (s'.port i) := by
        rw [hq]
        exact hmoved.view.trans ⟨rfl, rfl, rfl, rfl, rfl⟩
      refine .inr ⟨hhalts, s', ⟨hbooks, by rw [hview.bctx]; exact hr.disk,
        by rw [hview.started]; exact hr.started, ?_⟩, ?_, ?_, hview, hslots,
        fun fuel => issueLoop_goes hgo hrun⟩
      · rw [hq]
        exact hcalm
      · rw [hq, ← hmarks]
        rfl
      · rw [hq, ← hmoved.ccs]
        rfl

/-- The fates from turn `k` on, as the port and memory tell them. -/
def Tells (g : Guest) (bc : BlockifCtxt) (p : AhciPort) (k : ℕ) (f : ℕ → Fate) : Prop :=
  ∀ j, f (k + j) = fate g bc.bcSectsz p (g.mem (k + j)) (slotAt p.ccs j)

section Follows

variable {f : ℕ → Fate}

theorem Tells.now (h : Tells g bc p k f) : f k = fate g bc.bcSectsz p (g.mem k) p.ccs := by
  have h0 := h 0
  rwa [slotAt_zero] at h0

theorem GoesOn.tells {marks : Slot → Bool} {new : List Slot}
    (h : GoesOn g i bc k marks new s s') (hf : Tells g bc (s.port i) k f) :
    Tells g bc (s'.port i) (k + 1) f := by
  intro j
  have hshift : k + 1 + j = k + (j + 1) := by omega
  rw [fate_congr h.view, h.ccs, slotAt_succ, hshift]
  exact hf (j + 1)

variable (hr : Ready i bc s) (hf : Tells g bc (s.port i) k f)
include hr hf

/-- A turn of the loop is a turn of the sweep. -/
theorem turn_cases : (∀ u, (s.port i).issued u = false) ∨
      ((∀ fuel, sweep f (fuel + 1) k (s.port i).issued (s.port i).ccs = ([(s.port i).ccs], true)) ∧
        ∀ fuel, slotsOf i (logOf (issueLoop g i (fuel + 1) k s)) =
          slotsOf i s.log ++ [(s.port i).ccs] ∧ ¬ Spinning (issueLoop g i (fuel + 2) k s)) ∨
      ∃ marks new s', GoesOn g i bc k marks new s s' ∧
        ∀ fuel, sweep f (fuel + 1) k (s.port i).issued (s.port i).ccs =
          (new ++ (sweep f fuel (k + 1) (s'.port i).issued (s'.port i).ccs).1,
            (sweep f fuel (k + 1) (s'.port i).issued (s'.port i).ccs).2) := by
  by_cases hnone : ∀ u, (s.port i).issued u = false
  · exact .inl hnone
  obtain ⟨u, hu⟩ := not_forall.mp hnone
  rw [Bool.not_eq_false] at hu
  by_cases ht : (s.port i).issued (s.port i).ccs = true
  · rcases turn_handles hr ht hf.now with ⟨hfate, hturn⟩ | ⟨hfate, s', hs'⟩
    · exact .inr (.inl ⟨fun fuel => sweep_halts ht hfate, hturn⟩)
    · refine .inr (.inr ⟨_, _, s', hs', fun fuel => ?_⟩)
      rw [sweep_turn hu fun _ => hfate, handledAt, if_pos ht, hs'.issued, hs'.ccs]
  · rw [Bool.not_eq_true] at ht
    obtain ⟨s', hs'⟩ := turn_skips hr hu ht
    refine .inr (.inr ⟨_, _, s', hs', fun fuel => ?_⟩)
    have hpass : (s.port i).issued (s.port i).ccs = true → f k ≠ .halts :=
      fun h => by rw [ht] at h; cases h
    rw [sweep_turn hu hpass, handledAt, marksAfter_unmarked ht, hs'.issued, hs'.ccs, ht]
    rfl

/-- The slots that the loop handles are those of the sweep. -/
theorem slotsOf_issueLoop : slotsOf i (logOf (issueLoop g i fuel k s)) =
      slotsOf i s.log ++ (sweep f fuel k (s.port i).issued (s.port i).ccs).1 := by
  induction fuel generalizing k s with
  | zero => exact (append_nil _).symm
  | succ fuel ih =>
    rcases turn_cases hr hf with hnone | ⟨hsweep, hturn⟩ | ⟨marks, new, s', hs', hsweep⟩
    · rw [issueLoop_halted (calm_iff.mpr (.inl hnone)), sweep_none hnone]
      exact (append_nil _).symm
    · rw [hsweep]
      exact (hturn fuel).1
    · rw [hs'.loop, ih hs'.ready (hs'.tells hf), hs'.slots, hsweep, append_assoc]

/-- Once the sweep has ended, so has the loop. -/
theorem issueLoop_ends {more : ℕ}
    (hend : (sweep f fuel k (s.port i).issued (s.port i).ccs).2 = true) (hmore : fuel < more) :
    ¬ Spinning (issueLoop g i more k s) := by
  induction fuel generalizing k s more with
  | zero => cases hend
  | succ fuel ih =>
    obtain ⟨more, rfl⟩ : ∃ m, more = m + 2 := ⟨more - 2, by omega⟩
    rcases turn_cases hr hf with hnone | ⟨-, hturn⟩ | ⟨marks, new, s', hs', hsweep⟩
    · rw [issueLoop_halted (calm_iff.mpr (.inl hnone))]
      exact fun h => h
    · exact (hturn more).2
    · rw [hsweep] at hend
      rw [hs'.loop]
      exact ih hs'.ready (hs'.tells hf) hend (by omega)

/-- While the sweep goes on, so does the loop. -/
theorem issueLoop_spins (hend : (sweep f fuel k (s.port i).issued (s.port i).ccs).2 = false) :
    Spinning (issueLoop g i fuel k s) := by
  induction fuel generalizing k s with
  | zero => rfl
  | succ fuel ih =>
    rcases turn_cases hr hf with hnone | ⟨hsweep, -⟩ | ⟨marks, new, s', hs', hsweep⟩
    · rw [sweep_none hnone] at hend
      cases hend
    · rw [hsweep] at hend
      cases hend
    · rw [hsweep] at hend
      rw [hs'.loop]
      exact ih hs'.ready (hs'.tells hf) hend

end Follows

/-- `ahci_handle_port` ends, however long it is watched from some point on, and has handled no
slot twice. -/
def HandlesOnce (g : Guest) (i : PortId) (s : Hba) : Prop :=
  (∃ n, ∀ fuel, n ≤ fuel → ¬ Spinning (ahciHandlePort { g with turns := fuel } i s)) ∧
    ∀ fuel t, (slotsOf i (logOf (ahciHandlePort { g with turns := fuel } i s))).count t ≤
      (slotsOf i s.log).count t + 1

theorem handlePort_started (hst : (s.port i).cmd &&& ahciPCmdSt ≠ 0) :
    ahciHandlePort g i s = issueLoop g i g.turns 1 s := by
  rw [ahciHandlePort, run_getPort, if_neg hst]

/-- What the slot of turn `n` of a call meets. -/
def fateAt (g : Guest) (bc : BlockifCtxt) (p : AhciPort) (n : ℕ) : Fate :=
  fate g bc.bcSectsz p (g.mem n) (slotAt p.ccs (n - 1))

theorem fateAt_add (j : ℕ) :
    fateAt g bc p (1 + j) = fate g bc.bcSectsz p (g.mem (1 + j)) (slotAt p.ccs j) := by
  rw [fateAt, Nat.add_sub_cancel_left]

theorem tells_fateAt (fuel : ℕ) :
    Tells { g with turns := fuel } bc p 1 (fateAt g bc p) := fun j => fateAt_add j

/-- The loop ends and handles every slot at most once exactly if it does not even begin, or a
slot of the first round ends it, or none of them stays issued without ending it. -/
theorem handle_port_once_iff (h : Books i none [] [] s) (hb : (s.port i).bctx = some bc)
    (hst : (s.port i).cmd &&& ahciPCmdSt ≠ 0) :
    HandlesOnce g i s ↔ ¬ (s.port i).calm ∨
      (∃ j < ahciMaxSlots, (s.port i).issued (slotAt (s.port i).ccs j) = true ∧
        fate g bc.bcSectsz (s.port i) (g.mem (1 + j)) (slotAt (s.port i).ccs j) = .halts) ∨
      ∀ j < ahciMaxSlots, (s.port i).issued (slotAt (s.port i).ccs j) = true →
        fate g bc.bcSectsz (s.port i) (g.mem (1 + j)) (slotAt (s.port i).ccs j) ≠ .stuck := by
  have hrun : ∀ fuel, ahciHandlePort { g with turns := fuel } i s =
      issueLoop { g with turns := fuel } i fuel 1 s := fun fuel => handlePort_started hst
  by_cases hc : (s.port i).calm
  · have hr : Ready i bc s := ⟨h, hb, hst, hc⟩
    have hclears : Clears (fateAt g bc (s.port i)) 1 (s.port i).issued (s.port i).ccs ↔ _ ∨ _ :=
      Iff.rfl
    simp only [fateAt_add] at hclears
    rw [or_iff_right (not_not.mpr hc), ← hclears, ← sweep_nodup_iff]
    constructor
    · rintro ⟨-, honce⟩ fuel
      rw [nodup_iff_count_le_one]
      intro t
      have hle := honce fuel t
      rw [hrun, slotsOf_issueLoop hr (tells_fateAt fuel), count_append] at hle
      omega
    · intro honce
      obtain ⟨N, hN⟩ := sweep_ends (sweep_nodup_iff.mp honce)
      refine ⟨⟨N + 1, fun fuel hfuel => ?_⟩, fun fuel t => ?_⟩
      · rw [hrun]
        exact issueLoop_ends hr (tells_fateAt fuel) hN hfuel
      · have hle := nodup_iff_count_le_one.mp (honce fuel) t
        rw [hrun, slotsOf_issueLoop hr (tells_fateAt fuel), count_append]
        omega
  · have hhalted : (s.port i).halted := calm_iff.mpr (.inr hc)
    refine iff_of_true ⟨⟨1, fun fuel hfuel => ?_⟩, fun fuel t => ?_⟩ (.inl hc)
    · obtain ⟨n, rfl⟩ : ∃ n, fuel = n + 1 := ⟨fuel - 1, by omega⟩
      rw [hrun, issueLoop_halted hhalted]
      exact fun h => h
    · rw [hrun, logOf_halted hhalted]
      omega

/-- The first port is started, with FIS receive or without. -/
def startFirst (m : HostMem) (value : BitVec 32) : List Action :=
  [.write (guestOf m) 0x118 4 value]

/-- It runs, and its first slot has just been issued. -/
def issuing (m : HostMem) (value : BitVec 32) : Hba :=
  let s := (exec (step macBuild) (Hba.start plainFile false) (startFirst m value)).toOption.getD
    (Hba.start plainFile false)
  s.setPort 0 { s.port 0 with ci := 1 }

theorem books_issuing {value : BitVec 32}
    (hok : (exec (step macBuild) (Hba.start plainFile false) (startFirst m value)).isOk = true) :
    Books 0 none [] [] (issuing m value) := by
  have hrun := run_of_isOk (d := Hba.start plainFile false) hok
  refine (sound_reached hrun).books.congr ?_ rfl
  rw [issuing, setPort_port]
  exact ⟨rfl, rfl, rfl, rfl, rfl, rfl⟩

/-- A command that is refused while FIS receive is on stops the loop. -/
theorem handle_port_once_refused :
    fate (guestOf nopTable) 512 ((issuing nopTable 0x11).port 0) nopTable 0 = .halts ∧
      HandlesOnce (guestOf nopTable) 0 (issuing nopTable 0x11) := by
  have hfate : fate (guestOf nopTable) 512 ((issuing nopTable 0x11).port 0) nopTable 0 = .halts := by
    decide +kernel
  have hbooks : Books 0 none [] [] (issuing nopTable 0x11) := books_issuing rfl
  have hdisk : ((issuing nopTable 0x11).port 0).bctx = some plainFile := rfl
  have hst : ((issuing nopTable 0x11).port 0).cmd &&& ahciPCmdSt ≠ 0 := by decide +kernel
  refine ⟨hfate, (handle_port_once_iff hbooks hdisk hst).mpr
    (.inr (.inl ⟨0, by decide, ?_, ?_⟩))⟩
  all_goals decide +kernel

/-- While FIS receive is off it is refused again and again. -/
theorem refused_forever (fuel : ℕ) :
    Spinning (ahciHandlePort { guestOf nopTable with turns := fuel } 0 (issuing nopTable 0x01)) := by
  have hready : Ready 0 plainFile (issuing nopTable 0x01) :=
    ⟨books_issuing rfl, by decide +kernel, by decide +kernel, by decide +kernel, by decide +kernel⟩
  have hissued : ((issuing nopTable 0x01).port 0).issued 0 = true := rfl
  have hfate : ∀ t, fate (guestOf nopTable) 512 ((issuing nopTable 0x01).port 0) nopTable t =
      .stuck := by decide +kernel
  have hforever : ∀ n, fateAt (guestOf nopTable) plainFile ((issuing nopTable 0x01).port 0) n =
      .stuck := fun n => hfate _
  rw [handlePort_started hready.started]
  exact issueLoop_spins hready (tells_fateAt fuel) (sweep_forever hissued hforever)

theorem port_spins : ¬ HandlesOnce (guestOf nopTable) 0 (issuing nopTable 0x01) := by
  rintro ⟨⟨n, hn⟩, -⟩
  exact hn n (Nat.le_refl n) (refused_forever n)

end HyperCog.Ahci
