import HyperCog.Ahci.Issue

/-! The lives of commands as the log tells them, and a rule for what holds of them all. -/
namespace HyperCog.Ahci

open Virtio Blockif Machine List AhciPort

attribute [local simp] occupied

/-- How the life of a command ends. -/
inductive Ending
  | running
  | completed (how : Completion) (ok fisOn : Bool)
  /-- taken back by `ahci_port_stop` -/
  | withdrawn
  deriving DecidableEq, Repr

/-- A command from the moment it is handled: whether it was acknowledged, the block requests
made for it, and its end. -/
structure Life where
  cmd : Command
  acked : Bool
  requests : List (Blockop × BlockifReq)
  ending : Ending
  deriving DecidableEq, Repr

def Life.begin (c : Command) : Life := ⟨c, false, [], .running⟩
def Life.acks (l : Life) (ack : Bool) : Life := if ack then { l with acked := true } else l
def Life.request (l : Life) (op : Blockop) (br : BlockifReq) : Life :=
  { l with requests := l.requests ++ [(op, br)] }
def Life.finish (l : Life) (e : Ending) : Life := { l with ending := e }

/-- Nothing was done for the command yet. -/
def Life.Fresh (l : Life) : Prop := l.acked = false ∧ l.requests = []

variable {e : Ending} {ack atapi : Bool} {op : Blockop} {br : BlockifReq} {t u : Slot} {s s' : Hba} {p : AhciPort}
  {ls : List Life} {P : Life → Prop} {K : Life → AhciIoreq → Prop} {x : Life} {f : AhciPort → AhciPort}
  {c : Command}
  {io : AhciIoreq} {how : Completion} {g : Guest} {sectsz : ℕ} {m : HostMem}

section Life

variable {l : Life}

@[simp] theorem Life.finish_cmd : (l.finish e).cmd = l.cmd := rfl
@[simp] theorem Life.finish_acked : (l.finish e).acked = l.acked := rfl
@[simp] theorem Life.finish_requests : (l.finish e).requests = l.requests := rfl
@[simp] theorem Life.request_cmd : (l.request op br).cmd = l.cmd := rfl
@[simp] theorem Life.request_acked : (l.request op br).acked = l.acked := rfl
@[simp] theorem Life.request_requests : (l.request op br).requests = l.requests ++ [(op, br)] := rfl
@[simp] theorem Life.acks_cmd : (l.acks ack).cmd = l.cmd := by cases ack <;> rfl
@[simp] theorem Life.acks_acked : (l.acks ack).acked = (l.acked || ack) := by
  cases ack <;> simp [Life.acks]
@[simp] theorem Life.acks_requests : (l.acks ack).requests = l.requests := by cases ack <;> rfl
@[simp] theorem Life.acks_ending : (l.acks ack).ending = l.ending := by cases ack <;> rfl

end Life

def Event.slotOf : Event → Option Slot
  | .slot _ t | .cmd _ t _ | .ack _ t | .complete _ t _ _ _ | .request _ t _ _ | .cancel _ t => some t
  | .intr _ | .post _ _ _ => none

/-- A change of the life that is running. -/
def onRunning (f : Life → Life) : List Life → Option (List Life)
  | [] => none
  | l :: ls => if l.ending = .running then some (f l :: ls) else none

attribute [local simp] onRunning

/-- One more event in the lives of a slot, the newest life first. An event that fits no life,
such as a second completion or a request for a command that was completed, makes it `none`, and
so does an acknowledgement that comes late. -/
def tell (ls : List Life) : Event → Option (List Life)
  | .cmd _ _ c => if ∃ l ∈ ls, l.ending = .running then none else some (.begin c :: ls)
  | .ack _ _ =>
    if ∃ l ∈ ls.head?, l.acked = true ∨ l.requests ≠ [] then none
    else onRunning (fun l => l.acks true) ls
  | .request _ _ op br => onRunning (fun l => l.request op br) ls
  | .complete _ _ how ok fisOn => onRunning (fun l => l.finish (.completed how ok fisOn)) ls
  | .cancel _ _ => onRunning (fun l => l.finish .withdrawn) ls
  | .slot _ _ | .intr _ | .post _ _ _ => some ls

attribute [local simp] tell

/-- The lives of the commands that port 0 had in slot `t`. -/
def livesOf (t : Slot) (log : List Event) : Option (List Life) :=
  ((storyOf log).filter fun e => e.slotOf = some t).foldlM tell []

section Rules

variable (atapi : Bool) (bc : BlockifCtxt) (P : Life → Prop) (K : Life → AhciIoreq → Prop)

/-- The lives of a slot are in order: those that ended meet `P`, one is running only while the
slot is in flight, and `K` connects it with the element in use. -/
def Told (t : Slot) (s : Hba) : Prop :=
  ∃ ls, livesOf t s.log = some ls ∧ (∀ l ∈ ls, l.ending ≠ .running → P l) ∧
    (hasSlot (s.port 0).pending t = false → ∀ l ∈ ls, l.ending ≠ .running) ∧
    ∀ a ∈ (s.port 0).iobhd, ((s.port 0).ioreq a).slot = t →
      ∃ l rest, ls = l :: rest ∧ l.ending = .running ∧ K l ((s.port 0).ioreq a)

structure Chronicle (s : Hba) : Prop where
  atapi : (s.port 0).atapi = atapi
  disk : (s.port 0).bctx = some bc
  told : ∀ t, Told P K t s

/-- The slot at hand is issued with the command `c`. -/
structure Issues (g : Guest) (k : ℕ) (s : Hba) (c : Command) : Prop where
  issued : (s.port 0).issued (s.port 0).ccs = true
  table : slotCommand g (g.mem k) (s.port 0).cmdLst (s.port 0).ccs = .ok c
  fis : c.cfis 0 = 0x27
  command : c.cfis 1 &&& 0x80 ≠ 0

/-- The element `a` is in use for the life `x`. -/
structure Serves (a : IoreqId) (s : Hba) (x : Life) : Prop where
  lives : ∃ rest, livesOf ((s.port 0).ioreq a).slot s.log = some (x :: rest)
  running : x.ending = .running
  known : K x ((s.port 0).ioreq a)

/-- What the next part of the life `x` has to see to. -/
def Goes (x : Life) (fisOn : Bool) : Plan → Prop
  | .answer a => P (x.finish (.completed .d2h (!a.fails) fisOn))
  | .trimmed first ncq => ((ncq && first) = true → x.Fresh) ∧
    P ((x.acks (ncq && first)).finish (.completed (if ncq then .sdb else .d2h) true fisOn))
  | .launch io op fill ack early => early = false ∧ (ack = true → x.Fresh) ∧
    ∀ br, K ((x.acks ack).request op (fill br)) io

/-- What the conditions on turns and callbacks have to give for `P` and `K` to be kept. -/
structure Rules (T : TurnCond) (B : CallbackCond) : Prop where
  issue : ∀ {g k s c l}, (s.port 0).atapi = atapi → T g k s → Issues g k s c →
    plan g bc.bcSectsz (g.mem k) (s.port 0).ccs c (commandHandler atapi c) = .ok l →
    Goes P K (.begin c) (s.port 0).fisOn l
  next : ∀ {g a s x l}, (s.port 0).atapi = atapi → B g a none s → Serves K a s x →
    ((s.port 0).ioreq a).more = true →
    planNext g bc.bcSectsz (g.mem 0) atapi ((s.port 0).ioreq a)
      (flightCommand (g.mem 0) (s.port 0) ((s.port 0).ioreq a)) = .ok l →
    Goes P K x (s.port 0).fisOn l
  finish : ∀ {g a err s x}, (s.port 0).atapi = atapi → B g a err s → Serves K a s x →
    err ≠ none ∨ ((s.port 0).ioreq a).more = false →
    P (x.finish (.completed
      (finalHow atapi (flightCommand (g.mem 0) (s.port 0) ((s.port 0).ioreq a)))
      (!(finalAnswer atapi err).fails) (s.port 0).fisOn))
  withdraw : ∀ {x io}, x.ending = .running → K x io → P (x.finish .withdrawn)

end Rules

/-- Nothing changed for the other slots. -/
structure AsidePort (t : Slot) (p p' : AhciPort) : Prop where
  atapi : p'.atapi = p.atapi
  bctx : p'.bctx = p.bctx
  fisOn : p'.fisOn = p.fisOn
  pending : ∀ u, u ≠ t → hasSlot p'.pending u = hasSlot p.pending u
  busy : ∀ a ∈ p'.iobhd, (p'.ioreq a).slot ≠ t → a ∈ p.iobhd ∧ p'.ioreq a = p.ioreq a

/-- And the events are those of the slot `t`. -/
structure Aside (t : Slot) (new : List Event) (s s' : Hba) : Prop where
  port : AsidePort t (s.port 0) (s'.port 0)
  story : storyOf s'.log = storyOf s.log ++ new
  slots : ∀ e ∈ new, e.slotOf = some t

variable {new log log' new' : List Event} {s₁ : Hba} {a : IoreqId} {ls' : List Life}

theorem storyOf_trace (h : traceOf log' = traceOf log ++ new) (hnew : ∀ e ∈ new, e.port = 0) :
    storyOf log' = storyOf log ++ new := by
  rw [storyOf, h, filter_append]
  congr 1
  exact filter_eq_self.mpr fun e he => by simp [hnew e he]

/-- The lives go on with the events of the slot. -/
theorem livesOf_story (h : storyOf log' = storyOf log ++ new) : livesOf t log' = (livesOf t log).bind
      (List.foldlM tell · (new.filter fun e => e.slotOf = some t)) := by
  rw [livesOf, h, filter_append, foldlM_append]
  rfl

theorem AsidePort.trans {p₁ p' : AhciPort} (h : AsidePort t p p₁) (h' : AsidePort t p₁ p') :
    AsidePort t p p' where
  atapi := h'.atapi.trans h.atapi
  bctx := h'.bctx.trans h.bctx
  fisOn := h'.fisOn.trans h.fisOn
  pending u hu := (h'.pending u hu).trans (h.pending u hu)
  busy a ha hslot := by
    obtain ⟨ha₁, hio₁⟩ := h'.busy a ha hslot
    obtain ⟨ha₀, hio₀⟩ := h.busy a ha₁ (by rwa [← hio₁])
    exact ⟨ha₀, hio₁.trans hio₀⟩

theorem Aside.trans (h : Aside t new s s₁) (h' : Aside t new' s₁ s') : Aside t (new ++ new') s s' where
  port := h.port.trans h'.port
  story := by rw [h'.story, h.story, append_assoc]
  slots e he := (mem_append.mp he).elim (h.slots e) (h'.slots e)

/-- Events of one slot say nothing about another. -/
theorem Aside.other (h : Aside t new s s') (hu : u ≠ t) : livesOf u s'.log = livesOf u s.log := by
  have hnone : (new.filter fun e => e.slotOf = some u) = [] := by
    refine filter_eq_nil_iff.mpr fun e he => ?_
    simp [h.slots e he, Ne.symm hu]
  rw [livesOf_story h.story, hnone]
  cases livesOf u s.log <;> rfl

theorem Aside.own (h : Aside t new s s') (hls : livesOf t s.log = some ls) :
    livesOf t s'.log = new.foldlM tell ls := by
  have hall : (new.filter fun e => e.slotOf = some t) = new :=
    filter_eq_self.mpr fun e he => by simp [h.slots e he]
  rw [livesOf_story h.story, hall, hls]
  rfl

theorem Aside.told (h : Aside t new s s') (hu : u ≠ t) (hs : Told P K u s) : Told P K u s' := by
  obtain ⟨ls, hls, hended, hidle, hbusy⟩ := hs
  refine ⟨ls, by rw [h.other hu, hls], hended, ?_, fun a ha hslot => ?_⟩
  · rw [h.port.pending u hu]
    exact hidle
  · obtain ⟨ha', hio⟩ := h.port.busy a ha (by rw [hslot]; exact hu)
    rw [hio] at hslot ⊢
    exact hbusy a ha' hslot

theorem told_same (h : SameStory s s') (hs : Told P K t s) : Told P K t s' := by
  unfold Told livesOf
  rw [h.pending, h.ioreq, h.iobhd, h.story]
  exact hs

/-- A slot with nothing in flight has only lives that ended. -/
theorem told_idle (hb : Books 0 none [] [] s) (hls : livesOf t s.log = some ls)
    (hp : hasSlot (s.port 0).pending t = false)
    (hended : ∀ l ∈ ls, l.ending ≠ .running ∧ P l) : Told P K t s := by
  refine ⟨ls, hls, fun l hl _ => (hended l hl).2, fun _ l hl => (hended l hl).1,
    fun a ha hslot => ?_⟩
  rw [(hb.pool.marked t (by simp)).mpr ⟨a, ha, hslot⟩] at hp
  cases hp

/-- A slot in flight, with its element. -/
theorem told_running (hb : Books 0 none [] [] s) (hls : livesOf t s.log = some (x :: ls))
    (ha : a ∈ (s.port 0).iobhd) (hslot : ((s.port 0).ioreq a).slot = t) (hx : x.ending = .running)
    (hk : K x ((s.port 0).ioreq a)) (hended : ∀ l ∈ ls, l.ending ≠ .running → P l) :
    Told P K t s := by
  have hp : hasSlot (s.port 0).pending t = true := (hb.pool.marked t (by simp)).mpr ⟨a, ha, hslot⟩
  refine ⟨x :: ls, hls, ?_, fun h => ?_, fun b hb' hslot' => ?_⟩
  · intro l hl hend
    rcases mem_cons.mp hl with rfl | hl
    · exact absurd hx hend
    · exact hended l hl hend
  · rw [hp] at h
    cases h
  · cases hb.pool.inj b hb' a ha (hslot'.trans hslot.symm)
    exact ⟨x, ls, rfl, hx, hk⟩

/-- Of the lives of a slot only the newest can be running. -/
theorem onRunning_ended {f : Life → Life} (h : onRunning f ls = some ls')
    (hls : ∀ l ∈ ls.tail, l.ending ≠ .running) : ∀ l ∈ ls'.tail, l.ending ≠ .running := by
  cases ls with
  | nil => cases h
  | cons l ls =>
    rw [onRunning] at h
    split_ifs at h
    cases h
    exact hls

theorem tell_ended {e : Event} (h : tell ls e = some ls')
    (hls : ∀ l ∈ ls.tail, l.ending ≠ .running) : ∀ l ∈ ls'.tail, l.ending ≠ .running := by
  cases e with
  | slot i t | intr i | post i a fis =>
    cases h
    exact hls
  | cmd i t c =>
    rw [tell] at h
    split_ifs at h with hnone
    cases h
    exact fun l hl hrun => hnone ⟨l, hl, hrun⟩
  | ack i t =>
    rw [tell] at h
    split_ifs at h
    exact onRunning_ended h hls
  | complete | request | cancel => exact onRunning_ended h hls

theorem lives_ended {es : List Event} (h : es.foldlM tell ls = some ls')
    (hls : ∀ l ∈ ls.tail, l.ending ≠ .running) : ∀ l ∈ ls'.tail, l.ending ≠ .running := by
  induction es generalizing ls with
  | nil =>
    cases h
    exact hls
  | cons e es ih =>
    obtain ⟨ls₁, h₁, h₂⟩ := Option.bind_eq_some_iff.mp h
    exact ih h₂ (tell_ended h₁ hls)

theorem livesOf_ended (h : livesOf t s.log = some ls) : ∀ l ∈ ls.tail, l.ending ≠ .running :=
  lives_ended h (by simp)

section Ports

theorem aside_effect (he : Effect 0 f new s s') (hf : AsidePort t (s.port 0) (f (s.port 0)))
    (hnew : ∀ e ∈ new, e.port = 0 ∧ e.slotOf = some t) : Aside t new s s' := by
  obtain ⟨x, hx⟩ := he.port
  refine ⟨?_, storyOf_trace he.trace fun e he => (hnew e he).1, fun e he => (hnew e he).2⟩
  rw [hx]
  exact { hf with }

theorem asidePort_refl : AsidePort t p p :=
  ⟨rfl, rfl, rfl, fun _ _ => rfl, fun _ ha _ => ⟨ha, rfl⟩⟩

theorem asidePort_controlled : AsidePort t p (p.controlled t c) := by
  unfold controlled
  split
  · exact ⟨rfl, rfl, rfl, fun _ _ => rfl, fun _ ha _ => ⟨ha, rfl⟩⟩
  · split <;> exact ⟨rfl, rfl, rfl, fun _ _ => rfl, fun _ ha _ => ⟨ha, rfl⟩⟩

variable {a : Answer}

theorem asidePort_answered : AsidePort t p (p.answered t a) :=
  ⟨rfl, rfl, rfl, fun _ _ => rfl, fun _ ha _ => ⟨ha, rfl⟩⟩

theorem asidePort_released {a : IoreqId} : AsidePort t p (p.released a) :=
  ⟨rfl, rfl, rfl, fun _ _ => rfl, fun _ ha _ => ⟨mem_of_mem_erase ha, rfl⟩⟩

theorem asidePort_finished : AsidePort t p (p.finished t how a) := by
  cases how <;> exact ⟨rfl, rfl, rfl, fun _ _ => rfl, fun _ ha _ => ⟨ha, rfl⟩⟩

theorem asidePort_trimmed {first ncq : Bool} : AsidePort t p (p.trimmed t first ncq) := by
  cases ncq <;> cases first <;> exact ⟨rfl, rfl, rfl, fun _ _ => rfl, fun _ ha _ => ⟨ha, rfl⟩⟩

theorem checkStopped_fisOn : p.checkStopped.fisOn = p.fisOn := by
  have hfre : ~~~(ahciPCmdCr ||| ahciPCmdCcsMask) &&& ahciPCmdFre = ahciPCmdFre := by decide
  unfold checkStopped
  split
  · rw [fisOn, fisOn, BitVec.and_assoc, hfre]
  · rfl

theorem asidePort_checkStopped : AsidePort t p p.checkStopped := by
  have hsame := sameBooks_checkStopped p
  refine ⟨?_, hsame.bctx, checkStopped_fisOn, fun _ _ => by rw [hsame.pending], fun a ha _ => ?_⟩
  · unfold checkStopped
    split <;> rfl
  · rw [hsame.iobhd] at ha
    exact ⟨ha, by rw [hsame.ioreq]⟩

theorem asidePort_retired : AsidePort t p (p.retired t) := by
  have hclear : AsidePort t p { p with pending := clearSlot p.pending t } :=
    ⟨rfl, rfl, rfl, fun u hu => clearSlot_other hu, fun _ ha _ => ⟨ha, rfl⟩⟩
  exact hclear.trans asidePort_checkStopped

theorem retired_pending : hasSlot (p.retired t).pending t = false := by
  rw [retired, (sameBooks_checkStopped _).pending]
  simp

/-- The element of a launch is that of its slot. -/
theorem asidePort_occupied (p : AhciPort) (a : IoreqId) (rest : List IoreqId) (ack : Bool)
    (hio : io.slot = t) : AsidePort t p
      (if ack then (p.occupied t a rest io).acked t else p.occupied t a rest io) := by
  have hocc : AsidePort t p (p.occupied t a rest io) := by
    refine ⟨rfl, rfl, rfl, fun u hu => ?_, fun b hb hslot => ?_⟩
    · simp [Ne.symm hu]
    · have hne : b ≠ a := by
        rintro rfl
        simp [hio] at hslot
      refine ⟨(mem_cons.mp hb).resolve_left hne, ?_⟩
      simp [Function.update_of_ne hne]
  cases ack with
  | true => exact { hocc with }
  | false => exact hocc

/-- What a launch leaves behind. -/
theorem Launched.aside {fill : BlockifReq → BlockifReq}
    (h : Launched 0 t io op fill ack s s') (hio : io.slot = t) :
    ∃ a br, a ∈ (s'.port 0).iobhd ∧ (s'.port 0).ioreq a = io ∧
      Aside t ((if ack then [.ack 0 t] else []) ++ [.request 0 t op (fill br)]) s s' := by
  obtain ⟨a, rest, is, -, hport, htrace⟩ := h.elem
  have hocc := asidePort_occupied (s.port 0) a rest ack hio
  rw [append_assoc] at htrace
  have hnew : ∀ e ∈ (if ack then [.ack 0 t] else []) ++ [Event.request 0 t op (fill (s.blk.reqs a))],
      e.port = 0 ∧ e.slotOf = some t := by
    cases ack <;> simp [Event.port, Event.slotOf]
  refine ⟨a, s.blk.reqs a, ?_, ?_, ?_, storyOf_trace htrace fun e he => (hnew e he).1,
    fun e he => (hnew e he).2⟩
  · rw [hport]
    cases ack <;> exact mem_cons_self
  · rw [hport]
    cases ack <;> simp [acked]
  · rw [hport]
    exact { hocc with }

end Ports

/-- The element that a plan fills in is for its slot. -/
def Plan.For (t : Slot) : Plan → Prop
  | .launch io _ _ _ _ => io.slot = t
  | .answer _ | .trimmed _ _ => True

variable {l : Plan} {done : UInt32} {rest : List Life} {bc : BlockifCtxt} {T : TurnCond} {B : CallbackCond}
  {a : IoreqId} {k : ℕ}

theorem planRw_for (hl : planRw g sectsz t c done = .ok l) : l.For t := by
  obtain ⟨part, -, hl⟩ := bind_eq_ok.mp hl
  cases hl
  exact rfl

theorem planRead_for (hl : planRead g sectsz t c done = .ok l) : l.For t := by
  obtain ⟨part, -, hl⟩ := bind_eq_ok.mp hl
  cases hl
  exact rfl

theorem planTrim_for (hl : planTrim g sectsz m t c done = .ok l) : l.For t := by
  obtain ⟨o, -, hl⟩ := bind_eq_ok.mp hl
  cases o with
  | none =>
    cases hl
    trivial
  | some e =>
    cases hl
    exact rfl

theorem plan_for {h : Handler} (hl : plan g sectsz m t c h = .ok l) : l.For t := by
  cases h with
  | reply r =>
    obtain ⟨u, -, hl⟩ := bind_eq_ok.mp hl
    cases hl
    trivial
  | rw => exact planRw_for hl
  | flush =>
    cases hl
    exact rfl
  | trim => exact planTrim_for hl
  | read => exact planRead_for hl

theorem planNext_for (hl : planNext g sectsz m atapi io c = .ok l) : l.For io.slot := by
  unfold planNext at hl
  split_ifs at hl
  · exact planRead_for hl
  · exact planTrim_for hl
  · exact planRw_for hl

section

variable (hx : x.ending = .running)

include hx

theorem tell_acks (hfresh : ack = true → x.Fresh) :
    (if ack then [Event.ack 0 t] else []).foldlM tell (x :: rest) = some (x.acks ack :: rest) := by
  cases ack with
  | false => rfl
  | true =>
    obtain ⟨hack, hreq⟩ := hfresh rfl
    simp [hx, hack, hreq]

theorem tell_complete {ok fisOn : Bool} : [Event.complete 0 t how ok fisOn].foldlM tell (x :: rest) =
      some (x.finish (.completed how ok fisOn) :: rest) := by
  simp [hx]

theorem tell_cancel :
    [Event.cancel 0 t].foldlM tell (x :: rest) = some (x.finish .withdrawn :: rest) := by
  simp [hx]

theorem tell_request :
    [Event.request 0 t op br].foldlM tell (x :: rest) = some (x.request op br :: rest) := by
  simp [hx]

end

/-- The newest life has come to its end. -/
theorem told_finished (hb : Books 0 none [] [] s) (hls : livesOf t s.log = some (x.finish e :: rest))
    (hp : hasSlot (s.port 0).pending t = false) (he : e ≠ .running) (hP : P (x.finish e))
    (hrest : ∀ y ∈ rest, y.ending ≠ .running ∧ P y) : Told P K t s := by
  refine told_idle hb hls hp fun z hz => ?_
  rcases mem_cons.mp hz with rfl | hz
  · exact ⟨he, hP⟩
  · exact hrest z hz

/-- The lives of a slot go on as the plan says. -/
theorem Goes.told (hgo : Goes P K x (s.port 0).fisOn l) (hb : Books 0 none [] [] s')
    (hcar : Carried 0 t s s' l) (hfor : l.For t) (hls : livesOf t s.log = some (x :: rest))
    (hx : x.ending = .running) (hrest : ∀ y ∈ rest, y.ending ≠ .running ∧ P y)
    (hp : ∀ b, l = .answer b → hasSlot (s.port 0).pending t = false) :
    (∃ new, Aside t new s s') ∧ Told P K t s' := by
  cases l with
  | answer a =>
    have haside := aside_effect hcar (asidePort_answered)
      (by simp [completion, Event.port, Event.slotOf])
    obtain ⟨y, hy⟩ := hcar.port
    have hlives := (haside.own hls).trans (tell_complete hx)
    exact ⟨⟨_, haside⟩, told_finished hb hlives (by rw [hy]; exact hp a rfl) (by simp) hgo hrest⟩
  | trimmed first ncq =>
    obtain ⟨hfresh, hP⟩ := hgo
    have haside := aside_effect hcar.2 (asidePort_trimmed.trans (asidePort_retired)) (by
      unfold trimEvents completion
      split <;> simp [Event.port, Event.slotOf])
    obtain ⟨y, hy⟩ := hcar.2.port
    have hlives : livesOf t s'.log = some ((x.acks (ncq && first)).finish
        (.completed (if ncq then .sdb else .d2h) true (s.port 0).fisOn) :: rest) := by
      rw [haside.own hls, trimEvents, foldlM_append, tell_acks hx hfresh]
      exact tell_complete (Life.acks_ending.trans hx)
    refine ⟨⟨_, haside⟩, told_finished hb hlives ?_ (by simp) hP hrest⟩
    rw [hy]
    exact retired_pending
  | launch io op fill ack early =>
    obtain ⟨hearly, hfresh, hK⟩ := hgo
    subst hearly
    obtain ⟨s₁, he, hlaunched⟩ := hcar
    have hfirst : Aside t [] s s₁ := aside_effect he asidePort_refl (by simp)
    obtain ⟨a, br, ha, hio, hlast⟩ := hlaunched.aside hfor
    have haside := hfirst.trans hlast
    have hlives : livesOf t s'.log = some ((x.acks ack).request op (fill br) :: rest) := by
      rw [haside.own hls, nil_append, foldlM_append, tell_acks hx hfresh]
      exact tell_request (Life.acks_ending.trans hx)
    refine ⟨⟨_, haside⟩, told_running hb hlives ha (by rw [hio]; exact hfor)
      (Life.acks_ending.trans hx) (by rw [hio]; exact hK br) fun y hy _ => (hrest y hy).2⟩

/-- Only the slot that was worked on has to be looked at. -/
theorem Chronicle.aside (h : Chronicle atapi bc P K s) (ha : Aside t new s s')
    (ht : Told P K t s') : Chronicle atapi bc P K s' := by
  refine ⟨ha.port.atapi.trans h.atapi, ha.port.bctx.trans h.disk, fun u => ?_⟩
  by_cases hu : u = t
  · rw [hu]
    exact ht
  · exact ha.told hu (h.told u)

/-- The lives of a slot that is not in flight. -/
theorem Told.idle (h : Told P K t s) (hp : hasSlot (s.port 0).pending t = false) :
    ∃ ls, livesOf t s.log = some ls ∧ ∀ l ∈ ls, l.ending ≠ .running ∧ P l := by
  obtain ⟨ls, hls, hended, hidle, -⟩ := h
  exact ⟨ls, hls, fun l hl => ⟨hidle hp l hl, hended l hl (hidle hp l hl)⟩⟩

/-- The life that an element is in use for. -/
theorem Told.serves (h : Told P K ((s.port 0).ioreq a).slot s) (ha : a ∈ (s.port 0).iobhd) :
    ∃ x rest, livesOf ((s.port 0).ioreq a).slot s.log = some (x :: rest) ∧ Serves K a s x ∧
      ∀ y ∈ rest, y.ending ≠ .running ∧ P y := by
  obtain ⟨ls, hls, hended, -, hbusy⟩ := h
  obtain ⟨x, rest, rfl, hx, hk⟩ := hbusy a ha rfl
  have htail := livesOf_ended hls
  exact ⟨x, rest, hls, ⟨⟨rest, hls⟩, hx, hk⟩,
    fun y hy => ⟨htail y hy, hended y (mem_cons_of_mem _ hy) (htail y hy)⟩⟩

theorem Chronicle.same (h : Chronicle atapi bc P K s) (hs : SameStory s s') :
    Chronicle atapi bc P K s' :=
  ⟨hs.atapi.trans h.atapi, hs.bctx.trans h.disk, fun t => told_same hs (h.told t)⟩

theorem issued_idle (h : p.issued t = true) : hasSlot p.pending t = false := by
  rw [issued_eq, Bool.and_eq_true, Bool.not_eq_true'] at h
  exact h.2

/-- A slot that is handled without being a command keeps its lives. -/
theorem Chronicle.passed (h : Chronicle atapi bc P K s)
    (hb : Books 0 none [] [] s') (hp : hasSlot (s.port 0).pending t = false)
    (he : Effect 0 f [.slot 0 t] s s') (hf : AsidePort t (s.port 0) (f (s.port 0)))
    (hpend : (f (s.port 0)).pending = (s.port 0).pending) : Chronicle atapi bc P K s' := by
  have haside := aside_effect he hf (by simp [Event.port, Event.slotOf])
  obtain ⟨x, hx⟩ := he.port
  obtain ⟨ls, hls, hended⟩ := (h.told t).idle hp
  refine h.aside haside (told_idle hb ((haside.own hls).trans rfl) ?_ hended)
  rw [hx]
  exact (congrArg (hasSlot · t) hpend).trans hp

theorem chronicle_handled (hb' : Books 0 none [] [] s')
    (hgo : ∀ {c l}, Issues g k s c → plan g bc.bcSectsz (g.mem k) (s.port 0).ccs c
    (commandHandler atapi c) = .ok l → Goes P K (.begin c) (s.port 0).fisOn l)
    (h : Chronicle atapi bc P K s) (hissued : (s.port 0).issued (s.port 0).ccs = true)
    (hhandled : Handled g 0 bc.bcSectsz (g.mem k) (s.port 0).ccs s s') :
    Chronicle atapi bc P K s' := by
  have hp := issued_idle hissued
  cases hhandled with
  | ignored hc hfis he => exact h.passed hb' hp he asidePort_refl rfl
  | control hc hfis hctl he =>
    exact h.passed hb' hp he asidePort_controlled (sameBooks_controlled _).pending
  | @command c l s₁ hc hfis hctl hl he hcar =>
    rw [h.atapi] at hl
    have hbegin : Aside (s.port 0).ccs _ s s₁ :=
      aside_effect he ⟨rfl, rfl, rfl, fun _ _ => rfl, fun _ ha _ => ⟨ha, rfl⟩⟩
        (by simp [Event.port, Event.slotOf])
    obtain ⟨ls, hls, hended⟩ := (h.told (s.port 0).ccs).idle hp
    have hlives : livesOf (s.port 0).ccs s₁.log = some (.begin c :: ls) := by
      have hnone : ¬ ∃ l ∈ ls, l.ending = .running := by
        rintro ⟨l, hl, hrun⟩
        exact (hended l hl).1 hrun
      rw [hbegin.own hls]
      simp [hnone]
    have hgoes := hgo ⟨hissued, hc, hfis, hctl⟩ hl
    rw [← hbegin.port.fisOn] at hgoes
    obtain ⟨x, hx⟩ := he.port
    obtain ⟨⟨new, haside⟩, htold⟩ := hgoes.told hb' hcar (plan_for hl) hlives rfl hended
      (fun _ _ => by rw [hx]; exact hp)
    exact h.aside (hbegin.trans haside) htold

theorem Handled.books (hb : Books 0 none [] [] s)
    (h : Handled g 0 sectsz m t s s') : Books 0 none [] [] s' := by
  cases h with
  | ignored hc hfis he => exact hb.effect he
  | control hc hfis hctl he => exact hb.effect he (sameBooks_controlled _)
  | command hc hfis hctl hl he hcar =>
    exact hcar.books fun _ _ => hb.effect he

section

variable (hr : Rules atapi bc P K T B)

include hr

theorem chronicle_turn (hb : Books 0 none [] [] s) (hT : T g k s)
    (h : Chronicle atapi bc P K s) (hturn : Turned g 0 bc.bcSectsz k s s') :
    Chronicle atapi bc P K s' := by
  unfold Turned at hturn
  split at hturn
  · rename_i hissued
    obtain ⟨s₁, s₂, he₁, hhandled, he₂⟩ := hturn
    obtain ⟨x, hx⟩ := he₁.port
    have hb₁ := hb.effect he₁
    have h₁ := h.same (sameStory_effect he₁)
    have hccs : (s₁.port 0).ccs = (s.port 0).ccs := by
      rw [hx]
      rfl
    have hfis : (s₁.port 0).fisOn = (s.port 0).fisOn := by
      rw [hx]
      exact (sameView_shown (p := s.port 0)).fisOn
    have hiss : (s₁.port 0).issued = (s.port 0).issued := by
      rw [hx]
      rfl
    have hlst : (s₁.port 0).cmdLst = (s.port 0).cmdLst := by
      rw [hx]
      rfl
    rw [← hccs] at hhandled
    have hb₂ := hhandled.books hb₁
    have h₂ : Chronicle atapi bc P K s₂ := by
      refine chronicle_handled hb₂ ?_ h₁ (by rw [hccs, hiss]; exact hissued) hhandled
      intro c l hissues hl
      rw [hccs] at hl
      rw [hfis]
      refine hr.issue h.atapi hT ⟨hissued, ?_, hissues.fis, hissues.command⟩ hl
      rw [← hccs, ← hlst]
      exact hissues.table
    exact h₂.same (sameStory_effect he₂)
  · exact h.same (sameStory_effect hturn)

theorem chronicle_callback {err : Option Errno}
    (hb : Books 0 (some ((s.port 0).ioreq a).slot) [] [a] s) (hB : B g a err s)
    (h : Chronicle atapi bc P K s) (hcall : CalledBack g 0 bc.bcSectsz (g.mem 0) a err s s')
    (hb' : Books 0 none [] [] s') : Chronicle atapi bc P K s' := by
  have ha : a ∈ (s.port 0).iobhd := hb.pool.flight.subset mem_cons_self
  obtain ⟨x, rest, hls, hserves, hrest⟩ := (h.told ((s.port 0).ioreq a).slot).serves ha
  cases hcall with
  | @next l s₁ herr hmore hl he hcar =>
    subst herr
    rw [h.atapi] at hl
    have hrel : Aside ((s.port 0).ioreq a).slot [] s s₁ :=
      aside_effect he asidePort_released (by simp)
    have hgoes := hr.next h.atapi hB hserves hmore hl
    rw [← hrel.port.fisOn] at hgoes
    obtain ⟨⟨new, haside⟩, htold⟩ := hgoes.told hb' hcar (planNext_for hl)
      ((hrel.own hls).trans rfl) hserves.running hrest
      (fun b hlb => absurd hlb (planNext_ne_answer hl))
    exact h.aside (hrel.trans haside) htold
  | @finish t how b hlast ht hhow hans he =>
    subst ht hans
    rw [h.atapi] at hhow he
    have haside := aside_effect he
      ((asidePort_released.trans asidePort_finished).trans asidePort_retired)
      (by simp [completion, Event.port, Event.slotOf])
    have hlives := (haside.own hls).trans (tell_complete hserves.running)
    obtain ⟨y, hy⟩ := he.port
    have hP := hr.finish h.atapi hB hserves hlast
    rw [← hhow] at hP
    refine h.aside haside (told_finished hb' hlives ?_ (by simp) hP hrest)
    rw [hy]
    exact retired_pending

theorem chronicle_cancel (h : Chronicle atapi bc P K s)
    (hc : Cancelled 0 a s s') (hb' : Books 0 none [] [] s') :
    Chronicle atapi bc P K s' := by
  obtain ⟨x, rest, hls, hserves, hrest⟩ := (h.told ((s.port 0).ioreq a).slot).serves hc.busy
  obtain ⟨ncq, hport⟩ := hc.port
  have haside : Aside ((s.port 0).ioreq a).slot [.cancel 0 ((s.port 0).ioreq a).slot] s s' := by
    refine ⟨?_, storyOf_trace hc.trace (by simp [Event.port]), by simp [Event.slotOf]⟩
    rw [hport]
    exact ⟨rfl, rfl, rfl, fun u hu => clearSlot_other hu, fun b hb _ => ⟨mem_of_mem_erase hb, rfl⟩⟩
  have hlives := (haside.own hls).trans (tell_cancel hserves.running)
  refine h.aside haside (told_finished hb' hlives ?_ (by simp)
    (hr.withdraw hserves.running hserves.known) hrest)
  rw [hport]
  simp

theorem stable_chronicle : Stable T B (Chronicle atapi bc P K) where
  same hs h := h.same hs
  turn hb hbc hT h _ hturn _ := by
    cases hbc.symm.trans h.disk
    exact chronicle_turn hr hb hT h hturn
  callback hb hbc hB h hcall hb' := by
    cases hbc.symm.trans h.disk
    exact chronicle_callback hr hb hB h hcall hb'
  cancel _ h hc hb' := chronicle_cancel hr h hc hb'

end

theorem chronicle_init : Chronicle atapi bc P K (Hba.init bc atapi) := by
  refine ⟨rfl, rfl, fun t => ⟨[], rfl, by simp, by simp, ?_⟩⟩
  intro a ha
  simp [Hba.init, emptyPort] at ha

/-- In every run whose steps meet the conditions, the lives of all slots are in order. -/
theorem chronicle_run {b : Build} {as : List Action} (hr : Rules atapi bc P K T B)
    (hrun : Run (step b) (Meets T B) (Hba.start bc atapi) as s) :
    s.Sound ∧ Chronicle atapi bc P K s :=
  sound_run (stable_chronicle hr) chronicle_init hrun

end HyperCog.Ahci
