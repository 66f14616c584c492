import HyperCog.Ahci.Effects
import HyperCog.Lib.Tagged

/-! The elements of a port, and the requests it starts with them. -/
namespace HyperCog.Ahci

open Virtio Blockif Machine List Function AhciPort

attribute [local simp] Hba.setPort

/-- The books of a port with a disk: its elements are a pool tagged with slots, out with the
disk while they are busy. -/
structure Books (i : PortId) (hole : Option Slot) (held due : List IoreqId) (s : Hba) : Prop where
  disk : (s.port i).bctx.isSome = true
  sc : (s.port i).prSc = true
  ok : s.blk.Ok
  pool : Pool.Tagged hole held due s.blk.inFlight (s.port i).iofhd (s.port i).iobhd
    (hasSlot (s.port i).pending) fun a => ((s.port i).ioreq a).slot

/-- A change that the books do not see. -/
structure SameBooks (p p' : AhciPort) : Prop where
  bctx : p'.bctx = p.bctx
  prSc : p'.prSc = p.prSc
  pending : p'.pending = p.pending
  ioreq : p'.ioreq = p.ioreq
  iofhd : p'.iofhd = p.iofhd
  iobhd : p'.iobhd = p.iobhd

/-- The port with a new busy element, its slot in flight. -/
def AhciPort.occupied (p : AhciPort) (t : Slot) (a : IoreqId) (rest : List IoreqId)
    (io : AhciIoreq) : AhciPort :=
  { p with
    ioreq := update p.ioreq a io
    pending := setSlot p.pending t
    iofhd := rest
    iobhd := a :: p.iobhd }

/-- What starting a request comes to. -/
structure Launched (i : PortId) (t : Slot) (io : AhciIoreq) (op : Blockop)
    (fill : BlockifReq → BlockifReq) (ack : Bool) (s s' : Hba) : Prop where
  books : Books i none [] [] s'
  other : ∀ j, j ≠ i → s'.port j = s.port j
  elem : ∃ a rest is, (s.port i).iofhd = a :: rest ∧
    s'.port i = { (if ack then ((s.port i).occupied t a rest io).acked t
      else (s.port i).occupied t a rest io) with is := is } ∧
    traceOf s'.log = traceOf s.log ++ (if ack then [.ack i t] else []) ++
      [.request i t op (fill (s.blk.reqs a))]

variable {i : PortId} {s s' : Hba} {t : Slot} {a : IoreqId} {rest held due : List IoreqId} {f : AhciPort → AhciPort}
  {new : List Event} {io : AhciIoreq} {g : Guest} {c : Command} {done : UInt32} {op : Blockop} {ack first ncq : Bool}
  {β : Type} {hole : Option Slot} {m : HostMem} {bc : BlockifCtxt}

theorem Books.congr (h : Books i hole held due s) (hp : SameBooks (s.port i) (s'.port i))
    (hb : s'.blk = s.blk) : Books i hole held due s' := by
  obtain ⟨hd, hsc, hok, hpool⟩ := h
  refine ⟨?_, ?_, ?_, ?_⟩
  · rwa [hp.bctx]
  · rwa [hp.prSc]
  · rwa [hb]
  · rwa [hb, hp.iofhd, hp.iobhd, hp.pending, hp.ioreq]

theorem Books.effect (h : Books i hole held due s) (he : Effect i f new s s')
    (hf : SameBooks (s.port i) (f (s.port i)) := by exact ⟨rfl, rfl, rfl, rfl, rfl, rfl⟩) :
    Books i hole held due s' := by
  obtain ⟨x, hx⟩ := he.port
  refine h.congr ?_ he.blk
  rw [hx]
  exact { hf with }

/-- An element is free. -/
theorem Books.exists_free (h : Books i hole [] due s) : (s.port i).iofhd ≠ [] :=
  h.pool.exists_free (by rw [Fintype.card_fin, Fintype.card_fin]; decide)

/-- The disk has room for another request. -/
theorem Books.room (h : Books i hole held [a] s) : s.blk.inFlight.length + 1 < blockifMaxreq := by
  have hlen := h.pool.length_out
  have hmax : Fintype.card Slot = 32 := Fintype.card_fin 32
  have hreq : blockifMaxreq = 129 := rfl
  omega

theorem Books.vacate (h : Books i none held [] s) (ht : hasSlot (s.port i).pending t = false) :
    Books i (some t) held [] s := { h with pool := h.pool.vacate ht }

theorem Books.close (h : Books i (some t) held [] s)
    (ht : hasSlot (s.port i).pending t = false) : Books i none held [] s :=
  { h with pool := h.pool.close ht }

/-- The mark of a vacant slot is cleared. -/
theorem Books.clear (h : Books i (some t) held [] s) :
    Books i none held [] (s.setPort i { s.port i with pending := clearSlot (s.port i).pending t }) := by
  have hset : Books i (some t) held []
      (s.setPort i { s.port i with pending := clearSlot (s.port i).pending t }) := by
    refine ⟨?_, ?_, h.ok, ?_⟩ <;> rw [setPort_port]
    · exact h.disk
    · exact h.sc
    · exact h.pool.remark fun u hu => by simp [Ne.symm hu]
  exact hset.close (by simp)

theorem Books.pull (h : Books i (some t) [] [] s) (hfree : (s.port i).iofhd = a :: rest) :
    Books i (some t) [a] [] (s.setPort i { s.port i with iofhd := rest }) := by
  obtain ⟨hd, hsc, hok, hpool⟩ := h
  rw [hfree] at hpool
  refine ⟨?_, ?_, hok, ?_⟩ <;> rw [setPort_port]
  · exact hd
  · exact hsc
  · exact hpool.pull

/-- The element goes to the busy list, and its slot is marked. -/
theorem Books.occupy (h : Books i (some t) [a] [] s) (hio : io.slot = t) :
    Books i none [] [a] (s.setPort i { s.port i with
      ioreq := update (s.port i).ioreq a io
      pending := setSlot (s.port i).pending t
      iobhd := a :: (s.port i).iobhd }) := by
  obtain ⟨hd, hsc, hok, hpool⟩ := h
  refine ⟨?_, ?_, hok, ?_⟩ <;> rw [setPort_port]
  · exact hd
  · exact hsc
  · refine hpool.occupy ?_ ?_ ?_ ?_
    · simpa using hio
    · intro b hb
      simp [update_of_ne hb]
    · simp
    · intro u hu
      simp [Ne.symm hu]

/-- A pulled element is not with the disk, so its request may be filled in. -/
theorem Books.fill (h : Books i hole [a] [] s) (br : BlockifReq) :
    Books i hole [a] [] { s with blk := s.blk.fill a br } := by
  have ha : a ∉ s.blk.inFlight := by
    intro ha
    exact (Pool.mem_inuse_iff h.pool.split).mp (h.pool.flight.subset ha) (by simp)
  exact { h with ok := ok_fill h.ok (not_pending ha) }

/-- An element that the disk gave back goes to the end of the free list. -/
theorem Books.release (h : Books i (some t) [] [a] s) (ht : ((s.port i).ioreq a).slot = t) :
    Books i (some t) [] [] (s.setPort i { s.port i with
      iobhd := (s.port i).iobhd.erase a
      iofhd := (s.port i).iofhd ++ [a] }) := by
  obtain ⟨hd, hsc, hok, hpool⟩ := h
  refine ⟨?_, ?_, hok, ?_⟩ <;> rw [setPort_port]
  · exact hd
  · exact hsc
  · exact hpool.release (by rw [ht])

section Launch

variable {fill : BlockifReq → BlockifReq}

/-- The disk takes a request that is due. -/
theorem ends_blockRequest (h : Books i none [] [a] s) :
    Ends (fun _ s' => Books i none [] [] s' ∧ s'.port = s.port ∧
        s'.log = s.log ++ [.request i t op (s.blk.reqs a)]) Never (blockRequest i t a op s) := by
  obtain ⟨blk, hreq, hok, hperm⟩ := blockifRequest_accepted a op h.ok h.room
  unfold blockRequest
  rw [if_neg (by simp [Option.isSome_iff_ne_none.mp h.disk]), hreq]
  exact ⟨⟨h.disk, h.sc, hok, h.pool.send hperm⟩, rfl, rfl⟩

theorem run_pullIoreq {f : IoreqId → AhciM β} (hfree : (s.port i).iofhd = a :: rest) :
    (pullIoreq i >>= f) s = f a (s.setPort i { s.port i with iofhd := rest }) := by
  change (pullIoreq i s >>= fun p => f p.1 p.2) = _
  rw [pullIoreq_cons hfree]
  rfl

/-- The request on the element that was pulled is accepted. -/
theorem ends_submit (h : Books i (some t) [] [] s) (hfree : (s.port i).iofhd = a :: rest)
    (hio : io.slot = t) :
    Ends (fun _ => Launched i t io op fill ack s) Never
      (submit g i t a io fill op ack (s.setPort i { s.port i with iofhd := rest })) := by
  unfold submit
  have hbooks := ((h.pull hfree).fill (fill (s.blk.reqs a))).occupy hio
  refine ends_when (Q := fun s' => Books i none [] [a] s' ∧ (∀ j, j ≠ i → s'.port j = s.port j) ∧
    s'.blk.reqs a = fill (s.blk.reqs a) ∧ (∃ is, s'.port i =
      { (if ack then ((s.port i).occupied t a rest io).acked t
        else (s.port i).occupied t a rest io) with is := is }) ∧
    traceOf s'.log = traceOf s.log ++ if ack then [.ack i t] else []) ?_ ?_ ?_
  · intro hack
    refine ends_sure (ends_writeFisD2hNcq hbooks.sc) fun _ s' he => ?_
    obtain ⟨x, hx⟩ := he.port
    refine ⟨hbooks.effect he, ?_, ?_, ⟨x, ?_⟩, ?_⟩
    · intro j hj
      rw [he.other j hj]
      simp [update_of_ne hj]
    · rw [he.blk]
      simp [World.fill]
    · rw [hx, if_pos hack]
      simp [occupied]
    · rw [he.trace, if_pos hack]
      rfl
  · intro hack
    refine ⟨hbooks, ?_, ?_, ⟨(s.port i).is, ?_⟩, ?_⟩
    · intro j hj
      simp [update_of_ne hj]
    · simp [World.fill]
    · rw [if_neg hack]
      simp [occupied]
    · simp [hack]
  · rintro s₁ ⟨hb, hother, hreq, ⟨x, hx⟩, htrace⟩
    refine ends_sure (ends_blockRequest hb) fun _ s' he => ?_
    obtain ⟨hb', hport, hlog⟩ := he
    refine ⟨hb', fun j hj => by rw [hport]; exact hother j hj, a, rest, x, hfree, ?_, ?_⟩
    · rw [hport, hx]
    · rw [hlog, traceOf_append, htrace, hreq]
      rfl

end Launch

/-- The slot is no longer in flight. -/
def AhciPort.retired (t : Slot) (p : AhciPort) : AhciPort :=
  ({ p with pending := clearSlot p.pending t } : AhciPort).checkStopped

/-- The answer to a trim: queued or not, acknowledged now or before. -/
def AhciPort.trimmed (t : Slot) (first ncq : Bool) (p : AhciPort) : AhciPort :=
  if ncq then (if first then p.acked t else p).settled t .good else p.answered t .good

def trimEvents (i : PortId) (t : Slot) (first ncq : Bool) (p : AhciPort) : List Event :=
  (if ncq && first then [.ack i t] else []) ++ [completion i t (if ncq then .sdb else .d2h) .good p]

/-- What a handler makes of a command from `done` on, given that the disk takes every request:
an answer, the end of a trim, or a request. With `early` the command is answered as well. -/
inductive Plan
  | answer (a : Answer)
  | trimmed (first ncq : Bool)
  | launch (io : AhciIoreq) (op : Blockop) (fill : BlockifReq → BlockifReq) (ack early : Bool)

section Plan

variable (g : Guest) (sectsz : ℕ) (m : HostMem) (t : Slot) (c : Command) (done : UInt32)

def planRw : Except Fault Plan := do
  let part ← ahciBuildIov g.ram sectsz c.prdt (c.rwLen sectsz) done
  pure (.launch ⟨c.addr, c.rwLen sectsz, part.done, t, part.more⟩
    (if c.isWrite then .write else .read)
    (fun _ => ⟨part.iov, (c.rwOffset sectsz + done.toUInt64).toInt64, part.todo⟩)
    (c.isFpdma && done = 0) false)

def planTrim : Except Fault Plan := do
  match ← trimNext g m c done with
  | none => pure (.trimmed (done = 0) c.trimNcq)
  | some e =>
    pure (.launch ⟨c.addr, c.trimLen, e.done, t, c.trimLen ≠ e.done⟩ .delete
      (fun br =>
        { br with
          brOffset := (e.elba * .ofNat sectsz).toInt64
          brResid := (e.elen * .ofNat sectsz).toNat })
      (c.trimNcq && done = 0) false)

def planRead : Except Fault Plan := do
  let part ← ahciBuildIov g.ram sectsz c.prdt c.readLen done
  pure (.launch ⟨c.addr, c.readLen, part.done, t, part.more⟩ .read
    (fun _ => ⟨part.iov, (c.readOffset + done.toUInt64).toInt64, part.todo⟩) false
    (c.readSectors = 0))

/-- A command just issued. -/
def plan : Handler → Except Fault Plan
  | .reply r => do
    r.deliver g c
    pure (.answer r.answer)
  | .rw => planRw g sectsz t c 0
  | .flush => pure (.launch ⟨c.addr, 0, 0, t, false⟩ .flush id false false)
  | .trim => planTrim g sectsz m t c 0
  | .read => planRead g sectsz t c 0

end Plan

/-- The plan was carried out. -/
def Carried (i : PortId) (t : Slot) (s s' : Hba) : Plan → Prop
  | .answer a => Effect i (answered t a) [completion i t .d2h a (s.port i)] s s'
  | .trimmed first ncq => Books i none [] [] s' ∧
    Effect i (fun p => (p.trimmed t first ncq).retired t) (trimEvents i t first ncq (s.port i)) s s'
  | .launch io op fill ack early => ∃ s₁, Effect i (fun p => if early then p.answered t .good else p)
      (if early then [completion i t .d2h .good (s.port i)] else []) s s₁ ∧
    Launched i t io op fill ack s₁ s'

/-- The plan is carried out, or there is none; an empty packet read may have been answered. -/
def ByPlan {β : Type} (i : PortId) (t : Slot) (l : Except Fault Plan) (s : Hba) :
    Except Crash (β × Hba) → Prop :=
  Ends (fun _ s' => ∃ p, l = .ok p ∧ Carried i t s s' p) fun e => ∃ f new, l = .error f ∧
    (new = [] ∨ new = [completion i t .d2h .good (s.port i)]) ∧ Died s new f e

theorem sameBooks_checkStopped (p : AhciPort) : SameBooks p p.checkStopped := by
  unfold checkStopped
  split <;> exact ⟨rfl, rfl, rfl, rfl, rfl, rfl⟩

theorem run_sectsz {f : ℕ → AhciM β} (bc : BlockifCtxt) (hb : (s.port i).bctx = some bc) :
    (blockifSectsz i >>= f) s = f bc.bcSectsz s := by
  change (blockifSectsz i s >>= fun p => f p.1 p.2) = _
  rw [blockifSectsz, run_getPort, hb]
  rfl

/-- A launch with no answer before it. -/
theorem Launched.carried {fill : BlockifReq → BlockifReq} (h : Launched i t io op fill ack s s') :
    Carried i t s s' (.launch io op fill ack false) := ⟨s, effect_refl, h⟩

theorem ends_handleRw (h : Books i (some t) [] [] s) (hb : (s.port i).bctx = some bc) :
    ByPlan i t (planRw g bc.bcSectsz t c done) s (ahciHandleRw g i t c done s) := by
  unfold ahciHandleRw planRw
  obtain ⟨a, rest, hfree⟩ := exists_cons_of_ne_nil h.exists_free
  rw [run_sectsz bc hb, run_pullIoreq hfree]
  cases hbuild : ahciBuildIov g.ram bc.bcSectsz c.prdt (c.rwLen bc.bcSectsz) done with
  | error f => exact ⟨f, [], rfl, .inl rfl, rfl, (append_nil _).symm⟩
  | ok part =>
    rw [run_orCrash_ok]
    exact ends_sure (ends_submit h hfree rfl) fun _ s' h' => ⟨_, rfl, h'.carried⟩

theorem ends_handleFlush (h : Books i (some t) [] [] s) :
    Ends (fun _ s' => Carried i t s s' (.launch ⟨c.addr, 0, 0, t, false⟩ .flush id false false))
      Never (ahciHandleFlush g i t c s) := by
  unfold ahciHandleFlush
  obtain ⟨a, rest, hfree⟩ := exists_cons_of_ne_nil h.exists_free
  rw [run_pullIoreq hfree]
  exact ends_sure (ends_submit h hfree rfl) fun _ _ h' => h'.carried

theorem retired_is (p : AhciPort) (x y : BitVec 32) :
    ({ ({ p with is := x } : AhciPort).retired t with is := y } : AhciPort) =
      { p.retired t with is := y } := by
  unfold retired checkStopped
  split <;> rfl

/-- The mark of a vacant slot is cleared, and the check that follows is made. -/
theorem ends_retired {s₁ : Hba} (h : Books i (some t) [] [] s) (he : Effect i f new s s₁)
    (hf : SameBooks (s.port i) (f (s.port i))) :
    Ends (fun _ s' => Books i none [] [] s' ∧ Effect i (fun p => (f p).retired t) new s s') Never
      (retire i t s₁) := by
  have hrun : retire i t s₁ = .ok ((), s₁.setPort i ((s₁.port i).retired t)) := by
    rw [retire, run_modifyPort, ahciCheckStopped, modifyPort, setPort_port, setPort_setPort]
    rfl
  rw [hrun]
  refine ⟨(h.effect he hf).clear.congr ?_ rfl, ?_⟩
  · rw [setPort_port, setPort_port]
    exact sameBooks_checkStopped _
  · have hr : Effect i (retired t) [] s₁ (s₁.setPort i ((s₁.port i).retired t)) :=
      (effect_setPort _).congr rfl
    simpa using he.trans hr retired_is

theorem sameBooks_trimmed (p : AhciPort) : SameBooks p (p.trimmed t first ncq) := by
  cases ncq <;> cases first <;> exact ⟨rfl, rfl, rfl, rfl, rfl, rfl⟩

theorem ends_trimAnswer (hsc : (s.port i).prSc = true) :
    Ends (fun _ => Effect i (trimmed t first ncq) (trimEvents i t first ncq (s.port i)) s)
      Never (trimAnswer g i t c first ncq s) := by
  unfold trimAnswer
  cases ncq with
  | false => exact ends_writeFisD2h hsc
  | true =>
    rw [if_pos rfl]
    refine ends_when (Q := fun s₁ => Effect i (fun p => if first then p.acked t else p)
      (if first then [.ack i t] else []) s s₁) ?_ ?_ ?_
    · rintro rfl
      exact ends_writeFisD2hNcq hsc
    · intro hfirst
      rw [Bool.not_eq_true] at hfirst
      subst hfirst
      exact effect_refl
    · intro s₁ he₁
      obtain ⟨x, hx⟩ := he₁.port
      have hsc₁ : (s₁.port i).prSc = true := by
        rw [hx]
        cases first <;> exact hsc
      have hfis : (s₁.port i).fisOn = (s.port i).fisOn := by
        rw [hx]
        cases first <;> rfl
      refine ends_sure (ends_writeFisSdb (a := .good) hsc₁) fun _ s₂ he₂ => ?_
      have he := he₁.trans he₂ fun _ _ _ => rfl
      rwa [completion, hfis] at he

section

variable (h : Books i (some t) [] [] s)

include h

theorem ends_trimDone :
    Ends (fun _ s' => Books i none [] [] s' ∧ Effect i (fun p => (p.trimmed t first ncq).retired t)
        (trimEvents i t first ncq (s.port i)) s s') Never (trimDone g i t c first ncq s) :=
  ends_bind (ends_trimAnswer h.sc) fun _ _ he => ends_retired h he (sameBooks_trimmed _)

theorem ends_handleDsmTrim (hb : (s.port i).bctx = some bc) :
    ByPlan i t (planTrim g bc.bcSectsz m t c done) s (ahciHandleDsmTrim g i m t c done s) := by
  unfold ahciHandleDsmTrim planTrim
  cases hnext : trimNext g m c done with
  | error f => exact ⟨f, [], rfl, .inl rfl, rfl, (append_nil _).symm⟩
  | ok o =>
    rw [run_orCrash_ok]
    cases o with
    | none =>
      refine ends_bind (ends_sure (ends_trimDone h) fun _ _ h => h) fun _ s' h' => ?_
      exact ⟨_, rfl, h'⟩
    | some e =>
      obtain ⟨a, rest, hfree⟩ := exists_cons_of_ne_nil h.exists_free
      dsimp only
      rw [run_pullIoreq hfree, run_sectsz bc (by rw [setPort_port]; exact hb)]
      refine ends_bind (ends_sure (ends_submit h hfree rfl) fun _ _ h' => h') fun _ s' h' => ?_
      exact ⟨_, rfl, h'.carried⟩

theorem ends_atapiRead (hb : (s.port i).bctx = some bc) :
    ByPlan i t (planRead g bc.bcSectsz t c done) s (atapiRead g i t c done s) := by
  unfold atapiRead planRead
  refine ends_when (Q := fun s₁ => Effect i
    (fun p => if c.readSectors = 0 then p.answered t .good else p)
    (if c.readSectors = 0 then [completion i t .d2h .good (s.port i)] else []) s s₁) ?_ ?_ ?_
  · intro hzero
    refine ends_sure (ends_writeFisD2h (a := .good) h.sc) fun _ s₁ he => ?_
    simpa only [hzero, if_true] using he
  · intro hcount
    simpa only [hcount, if_false] using effect_refl
  · intro s₁ he
    obtain ⟨x, hx⟩ := he.port
    have hsame : SameBooks (s.port i)
        (if c.readSectors = 0 then (s.port i).answered t .good else s.port i) := by
      split <;> exact ⟨rfl, rfl, rfl, rfl, rfl, rfl⟩
    have h₁ := h.effect he hsame
    have hb₁ : (s₁.port i).bctx = some bc := by
      rw [hx]
      exact hsame.bctx.trans hb
    obtain ⟨a, rest, hfree⟩ := exists_cons_of_ne_nil h₁.exists_free
    rw [run_pullIoreq hfree, run_sectsz bc (by rw [setPort_port]; exact hb₁)]
    cases hbuild : ahciBuildIov g.ram bc.bcSectsz c.prdt c.readLen done with
    | error f =>
      refine ⟨f, _, rfl, ?_, rfl, he.trace⟩
      split
      · exact .inr rfl
      · exact .inl rfl
    | ok part =>
      rw [run_orCrash_ok]
      refine ends_sure (ends_submit h₁ hfree rfl) fun _ s' h' => ⟨_, rfl, s₁, ?_, h'⟩
      simpa only [decide_eq_true_eq] using he

end

end HyperCog.Ahci
