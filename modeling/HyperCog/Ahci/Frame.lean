import HyperCog.Ahci.Controller
import HyperCog.Lib.Hoare

/-! What the work of one port leaves alone: the other ports, and the disk unless it has one. -/
namespace HyperCog.Ahci

open Virtio Blockif Machine

attribute [local simp] Hba.setPort

def Event.port : Event → PortId
  | .slot i _ | .cmd i _ _ | .intr i | .post i _ _ | .ack i _ | .complete i _ _ _ _
  | .request i _ _ _ | .cancel i _ => i

/-- The log grew by events of one port. -/
def LogFrom (i : PortId) (l l' : List Event) : Prop :=
  ∃ new, l' = l ++ new ∧ ∀ e ∈ new, e.port = i

/-- The port whose assertion failed. -/
def Fault.port : Fault → Option PortId
  | .noIoreq i | .refused i => some i
  | .segfault | .partialSector | .overread | .badAccess | .spinning | .blocked | .queue
  | .disk _ => none

/-- What the tables of a guest can bring about. -/
def Fault.FromGuest (f : Fault) : Prop := f = .segfault ∨ f = .partialSector ∨ f = .overread

/-- Port `i` has no elements, free or busy. -/
def Hba.Bare (s : Hba) (i : PortId) : Prop := (s.port i).iofhd = [] ∧ (s.port i).iobhd = []

/-- The same wiring: the disk, what kind it is, and the lists of elements. -/
structure Wired (p p' : AhciPort) : Prop where
  bctx : p'.bctx = p.bctx
  prSc : p'.prSc = p.prSc
  atapi : p'.atapi = p.atapi
  iofhd : p'.iofhd = p.iofhd
  iobhd : p'.iobhd = p.iobhd

/-- From `s₀` to `s` only port `i` was at work; one known to be bare stayed so and did not
reach the disk. -/
structure Stays (i : PortId) (bare : Bool) (s₀ s : Hba) : Prop where
  other : ∀ j, j ≠ i → s.port j = s₀.port j
  bctx : (s.port i).bctx = (s₀.port i).bctx
  prSc : (s.port i).prSc = (s₀.port i).prSc
  atapi : (s.port i).atapi = (s₀.port i).atapi
  log : LogFrom i s₀.log s.log
  disk : bare = true → s.Bare i ∧ s.blk = s₀.blk

/-- A crash of port `i`. -/
structure Crash.From (i : PortId) (l : List Event) (e : Crash) : Prop where
  log : LogFrom i l e.log
  fault : ∀ j, e.fault.port = some j → j = i

/-- The computation is the work of port `i`. -/
def Local {α : Type} (i : PortId) (bare : Bool) (m : AhciM α) : Prop :=
  ∀ s₀, Keeps (Stays i bare s₀) (Crash.From i s₀.log) m

variable {f : Fault} {done : UInt32} {m : HostMem} {g : Guest} {c : Command} {r : Reply}
  {fuel offset len k : ℕ} {t : Slot} {β : Type} {i : PortId} {bare ncq : Bool} {s₀ s : Hba}
  {p : AhciPort} {a : IoreqId} {value tfd : BitVec 32} {ram : GuestRam} {prdt : List PrdtEntry}
  {buf : ℕ → UInt8} {err : Option Errno} {I : Hba → Prop} {E : Crash → Prop}

theorem fromGuest_port (hf : f.FromGuest) : f.port = none := by
  rcases hf with rfl | rfl | rfl <;> rfl

theorem buildIov_error {sectsz : ℕ} {len : UInt32}
    (h : ahciBuildIov ram sectsz prdt len done = .error f) : f.FromGuest := by
  unfold ahciBuildIov at h
  dsimp only at h
  split_ifs at h
  cases h
  exact .inr (.inl rfl)

theorem readPrdt_error {off : ℕ} (h : readPrdt ram m prdt off len buf = .error f) : f.FromGuest := by
  induction prdt generalizing off len buf with
  | nil => cases h
  | cons e es ih =>
    unfold readPrdt at h
    split at h
    · cases h
    · split at h
      · cases h
        exact .inl rfl
      · exact ih h

theorem writePrdt_error (h : writePrdt ram prdt len = .error f) : f.FromGuest := by
  induction prdt generalizing len with
  | nil => cases h
  | cons e es ih =>
    unfold writePrdt at h
    split at h
    · cases h
    · split at h
      · cases h
        exact .inl rfl
      · exact ih h

theorem deliver_error (h : r.deliver g c = .error f) : f.FromGuest := by
  unfold Reply.deliver at h
  split at h
  · cases h
  · exact writePrdt_error h

theorem trimScan_error {len : UInt32} (h : trimScan buf len fuel done = .error f) : f.FromGuest := by
  induction fuel generalizing done with
  | zero =>
    cases h
    exact .inr (.inr rfl)
  | succ fuel ih =>
    unfold trimScan at h
    dsimp only at h
    split_ifs at h
    · exact ih h
    · cases h
      exact .inr (.inr rfl)

theorem trimNext_error (h : trimNext g m c done = .error f) : f.FromGuest := by
  rcases bind_eq_error.mp h with hr | ⟨buf, -, hs⟩
  · exact readPrdt_error hr
  · exact trimScan_error hs

theorem slotCommand_error {cmdLst : Option ℕ} (h : slotCommand g m cmdLst t = .error f) :
    f.FromGuest := by
  unfold slotCommand at h
  split at h
  · cases h
    exact .inl rfl
  · dsimp only at h
    split at h
    · cases h
      exact .inl rfl
    · cases h

section Rules

variable {α : Type} {m : AhciM α}

variable {e : Event} {c : Prop}

theorem LogFrom.snoc {l l' : List Event} (h : LogFrom i l l') (he : e.port = i) :
    LogFrom i l (l' ++ [e]) := by
  obtain ⟨new, rfl, hnew⟩ := h
  refine ⟨new ++ [e], by simp, ?_⟩
  intro x hx
  rcases List.mem_append.mp hx with hx | hx
  · exact hnew x hx
  · rw [List.mem_singleton.mp hx]
    exact he

theorem stays_refl (hb : bare = true → s.Bare i) : Stays i bare s s :=
  ⟨fun _ _ => rfl, rfl, rfl, rfl, ⟨[], by simp, by simp⟩, fun h => ⟨hb h, rfl⟩⟩

theorem local_pure {a : α} : Local i bare (pure a) := fun _ => keeps_pure

theorem local_bind {f : α → AhciM β} (hm : Local i bare m) (hf : ∀ a, Local i bare (f a)) :
    Local i bare (m >>= f) := fun s₀ => keeps_bind (hm s₀) fun a => hf a s₀

theorem local_ite [Decidable c] {m' : AhciM α} (ht : c → Local i bare m)
    (hf : ¬ c → Local i bare m') : Local i bare (if c then m else m') :=
  fun s₀ => keeps_ite (fun hc => ht hc s₀) fun hc => hf hc s₀

theorem local_when [Decidable c] {m : AhciM Unit} {k : AhciM β} (hm : Local i bare m)
    (hk : Local i bare k) :
    Local i bare (if c then m >>= fun _ => k else k) :=
  local_ite (fun _ => local_bind hm fun _ => hk) fun _ => hk

theorem local_crash (hf : ∀ j, f.port = some j → j = i) :
    Local i bare (crash f : AhciM α) := fun _ _ hs => ⟨hs.log, hf⟩

theorem local_segfault : Local i bare (crash .segfault : AhciM α) :=
  local_crash fun _ hj => nomatch hj

theorem local_orCrash {x : Except Fault α} (hx : ∀ f, x = .error f → f.FromGuest) :
    Local i bare (orCrash x) := by
  cases x with
  | ok a => exact local_pure
  | error f =>
    refine local_crash fun j hj => ?_
    rw [fromGuest_port (hx f rfl)] at hj
    cases hj

theorem local_getPort {j : PortId} : Local i bare (getPort j) := fun _ _ hs => hs

/-- A change of the port that keeps what `Stays` asks of it. -/
theorem Stays.setPort (h : Stays i bare s₀ s) (hb : p.bctx = (s.port i).bctx)
    (hsc : p.prSc = (s.port i).prSc) (ha : p.atapi = (s.port i).atapi)
    (hl : (s.port i).iofhd = [] → (s.port i).iobhd = [] → p.iofhd = [] ∧ p.iobhd = []) :
    Stays i bare s₀ (s.setPort i p) := by
  refine ⟨?_, ?_, ?_, ?_, h.log, ?_⟩
  · intro j hj
    simpa [Function.update_of_ne hj] using h.other j hj
  · simpa [hb] using h.bctx
  · simpa [hsc] using h.prSc
  · simpa [ha] using h.atapi
  · intro hbare
    obtain ⟨⟨hf, hbusy⟩, hblk⟩ := h.disk hbare
    exact ⟨by simpa [Hba.Bare] using hl hf hbusy, hblk⟩

theorem local_modifyPort {f : AhciPort → AhciPort} (hf : ∀ p, Wired p (f p)) :
    Local i bare (modifyPort i f) := by
  intro s₀ s hs
  obtain ⟨hb, hsc, ha, hl, hl'⟩ := hf (s.port i)
  refine hs.setPort hb hsc ha fun hfree hbusy => ?_
  rw [hl, hl', hfree, hbusy]
  exact ⟨rfl, rfl⟩

theorem local_logEvent (he : e.port = i) : Local i bare (logEvent e) := by
  intro s₀ s hs
  exact { hs with log := hs.log.snoc he }

/-- A change that `Stays` does not see. -/
theorem Stays.congr {s' : Hba} (h : Stays i bare s₀ s) (hp : s'.port = s.port)
    (hb : s'.blk = s.blk) (hl : s'.log = s.log) : Stays i bare s₀ s' := by
  obtain ⟨hother, hbctx, hsc, ha, hlog, hdisk⟩ := h
  refine ⟨?_, ?_, ?_, ?_, hl ▸ hlog, ?_⟩
  any_goals rwa [hp]
  · rw [Hba.Bare, hp, hb]
    exact hdisk

end Rules

theorem local_raiseIntr : Local i bare (raiseIntr g) := by
  intro s₀ s hs
  refine hs.congr ?_ ?_ ?_ <;> unfold Hba.raise <;> dsimp only <;> split <;> rfl

theorem local_generateIntr : Local i bare (ahciGenerateIntr g i) :=
  local_bind (local_logEvent rfl) fun _ => local_bind local_getPort fun _ =>
    local_ite (fun _ => local_raiseIntr) fun _ => local_segfault

theorem local_writeFis {ft : FisType} {fis : List UInt8} : Local i bare (ahciWriteFis g i ft fis) := by
  refine local_bind local_getPort fun p => ?_
  split
  · exact local_ite (fun _ => local_pure) fun _ =>
      local_bind (local_modifyPort fun _ => ⟨rfl, rfl, rfl, rfl, rfl⟩) fun _ =>
        local_bind (local_logEvent rfl) fun _ =>
          local_ite (fun _ => local_generateIntr) fun _ => local_pure
  · exact local_pure

theorem local_writeFisSdb : Local i bare (ahciWriteFisSdb g i t tfd) :=
  local_bind local_getPort fun _ =>
    local_bind (local_modifyPort fun _ => ⟨rfl, rfl, rfl, rfl, rfl⟩) fun _ =>
      local_bind (local_logEvent rfl) fun _ => local_writeFis

theorem local_writeFisD2h : Local i bare (ahciWriteFisD2h g i t c tfd) :=
  local_bind local_getPort fun _ =>
    local_bind (local_modifyPort fun _ => ⟨rfl, rfl, rfl, rfl, rfl⟩) fun _ =>
      local_bind (local_logEvent rfl) fun _ => local_writeFis

theorem local_writeFisD2hNcq : Local i bare (ahciWriteFisD2hNcq g i t) :=
  local_bind (local_modifyPort fun _ => ⟨rfl, rfl, rfl, rfl, rfl⟩) fun _ =>
    local_bind (local_logEvent rfl) fun _ => local_writeFis

theorem local_portReset : Local i bare (ahciPortReset g i) :=
  local_bind local_getPort fun _ => local_ite
    (fun _ => local_modifyPort fun _ => ⟨rfl, rfl, rfl, rfl, rfl⟩)
    fun _ => local_bind (local_modifyPort fun _ => ⟨rfl, rfl, rfl, rfl, rfl⟩) fun _ =>
      local_bind local_getPort fun _ => local_writeFis

section Disk

/-- A port with a disk may also move its elements and reach the disk. -/
theorem Stays.ofDisk {blk : World IoreqId} (h : Stays i false s₀ s)
    (hb : p.bctx = (s.port i).bctx) (hsc : p.prSc = (s.port i).prSc)
    (ha : p.atapi = (s.port i).atapi) :
    Stays i false s₀ { s.setPort i p with blk := blk } := by
  refine ⟨?_, ?_, ?_, ?_, h.log, by simp⟩
  · intro j hj
    simpa [Function.update_of_ne hj] using h.other j hj
  · simpa [hb] using h.bctx
  · simpa [hsc] using h.prSc
  · simpa [ha] using h.atapi

theorem local_sectsz : Local i bare (blockifSectsz i) := by
  refine local_bind local_getPort fun p => ?_
  split
  · exact local_segfault
  · exact local_pure

theorem run_getPort {f : AhciPort → AhciM β} : (getPort i >>= f) s = f (s.port i) s := rfl

theorem pullIoreq_nil (hfree : (s.port i).iofhd = []) :
    pullIoreq i s = .error ⟨.noIoreq i, s.log⟩ := by
  rw [pullIoreq, run_getPort, hfree]
  rfl

variable {f : BlockifReq → BlockifReq} {op : Blockop} {first : Bool}

theorem pullIoreq_cons {rest : List IoreqId} (hfree : (s.port i).iofhd = a :: rest) :
    pullIoreq i s = .ok (a, s.setPort i { s.port i with iofhd := rest }) := by
  rw [pullIoreq, run_getPort, hfree]
  rfl

/-- A bare port has no element to pull. -/
theorem local_pull {f : IoreqId → AhciM β} (hf : ∀ a, Local i false (f a)) :
    Local i bare (pullIoreq i >>= f) := by
  intro s₀
  refine spec_bind (Q := fun _ s => bare = false ∧ Stays i bare s₀ s) ?_ fun a => ?_
  · intro s hs
    cases hfree : (s.port i).iofhd with
    | nil =>
      rw [pullIoreq_nil hfree]
      exact ⟨hs.log, fun _ hj => (Option.some.inj hj).symm⟩
    | cons a rest =>
      rw [pullIoreq_cons hfree]
      have hbare : bare = false := by
        by_contra hne
        have hnil := (hs.disk (Bool.eq_true_of_not_eq_false hne)).1.1
        rw [hfree] at hnil
        cases hnil
      subst hbare
      exact ⟨rfl, hs.ofDisk rfl rfl rfl⟩
  · intro s hs
    obtain ⟨rfl, hs⟩ := hs
    exact hf a s₀ s hs

theorem local_blockRequest : Local i false (blockRequest i t a op) := by
  intro s₀ s hs
  unfold blockRequest
  split
  · exact ⟨hs.log, fun _ hj => nomatch hj⟩
  · split
    · rename_i e he
      refine ⟨hs.log, ?_⟩
      cases e <;> exact fun _ hj => nomatch hj
    · exact ⟨hs.log, fun _ hj => (Option.some.inj hj).symm⟩
    · exact { hs with log := hs.log.snoc rfl, disk := by simp }

theorem local_submit {io : AhciIoreq} {ack : Bool} : Local i false (submit g i t a io f op ack) := by
  refine local_bind (fun _ _ hs => { hs with disk := by simp }) fun _ => local_bind ?_ fun _ =>
    local_when local_writeFisD2hNcq local_blockRequest
  exact fun s₀ s hs => hs.ofDisk rfl rfl rfl

theorem local_handleRw : Local i bare (ahciHandleRw g i t c done) :=
  local_bind local_sectsz fun _ => local_pull fun _ =>
    local_bind (local_orCrash fun _ => buildIov_error) fun _ => local_submit

theorem local_checkStopped : Local i bare (ahciCheckStopped i) := by
  refine local_modifyPort fun p => ?_
  unfold AhciPort.checkStopped
  split <;> exact ⟨rfl, rfl, rfl, rfl, rfl⟩

theorem local_retire : Local i bare (retire i t) :=
  local_bind (local_modifyPort fun _ => ⟨rfl, rfl, rfl, rfl, rfl⟩) fun _ => local_checkStopped

theorem local_trimAnswer : Local i bare (trimAnswer g i t c first ncq) :=
  local_ite (fun _ => local_when local_writeFisD2hNcq local_writeFisSdb) fun _ => local_writeFisD2h

theorem local_handleDsmTrim : Local i bare (ahciHandleDsmTrim g i m t c done) := by
  refine local_bind (local_orCrash fun _ => trimNext_error) fun o => ?_
  cases o with
  | none => exact local_bind (local_bind local_trimAnswer fun _ => local_retire) fun _ => local_pure
  | some e =>
    exact local_pull fun _ => local_bind local_sectsz fun _ =>
      local_bind local_submit fun _ => local_pure

theorem local_atapiRead : Local i bare (atapiRead g i t c done) :=
  local_when local_writeFisD2h (local_pull fun _ => local_bind local_sectsz fun _ =>
    local_bind (local_orCrash fun _ => buildIov_error) fun _ => local_submit)

end Disk

theorem local_reply : Local i bare (reply g i t c r) :=
  local_bind local_getPort fun _ => local_ite (fun _ => local_segfault) fun _ =>
    local_when local_writeFis
      (local_bind (local_orCrash fun _ => deliver_error) fun _ => local_writeFisD2h)

theorem local_handleCmd : Local i bare (ahciHandleCmd g i m t c) := by
  refine local_bind (local_logEvent rfl) fun _ => local_bind local_getPort fun p =>
    local_bind (local_modifyPort fun _ => ⟨rfl, rfl, rfl, rfl, rfl⟩) fun _ => ?_
  cases commandHandler p.atapi c with
  | reply r => exact local_reply
  | rw => exact local_handleRw
  | flush => exact local_pull fun _ => local_submit
  | trim => exact local_bind local_handleDsmTrim fun _ => local_pure
  | read => exact local_atapiRead

theorem local_controlFis : Local i bare (controlFis g i t c) := by
  have hrest : Local i bare (modifyPort i fun p => { p with ci := clearSlot p.ci t }) :=
    local_modifyPort fun _ => ⟨rfl, rfl, rfl, rfl, rfl⟩
  exact local_bind local_getPort fun _ => local_ite
    (fun _ => local_bind (local_modifyPort fun _ => ⟨rfl, rfl, rfl, rfl, rfl⟩) fun _ => hrest)
    fun _ => local_ite (fun _ => local_bind (local_modifyPort fun _ => ⟨rfl, rfl, rfl, rfl, rfl⟩)
      fun _ => local_bind local_portReset fun _ => hrest) fun _ => hrest

theorem local_handleSlot : Local i bare (ahciHandleSlot g i m t) :=
  local_bind (local_logEvent rfl) fun _ => local_bind local_getPort fun _ =>
    local_bind (local_orCrash fun _ => slotCommand_error) fun _ =>
      local_ite (fun _ => local_pure) fun _ =>
        local_ite (fun _ => local_handleCmd) fun _ => local_controlFis

theorem local_issueTurn : Local i bare (issueTurn g i k p) := by
  have hrest : Local i bare (modifyPort i fun p => { p with ccs := p.ccs + 1 }) :=
    local_modifyPort fun _ => ⟨rfl, rfl, rfl, rfl, rfl⟩
  exact local_ite (fun _ => local_bind (local_modifyPort fun _ => ⟨rfl, rfl, rfl, rfl, rfl⟩)
    fun _ => local_bind local_handleSlot fun _ => hrest) fun _ => hrest

theorem local_issueLoop : Local i bare (issueLoop g i fuel k) := by
  induction fuel generalizing k with
  | zero => exact local_crash fun _ hj => nomatch hj
  | succ fuel ih =>
    exact local_bind local_getPort fun p => local_ite (fun _ => local_pure) fun _ =>
      local_bind local_issueTurn fun _ => ih

theorem local_handlePort : Local i bare (ahciHandlePort g i) :=
  local_bind local_getPort fun _ => local_ite (fun _ => local_pure) fun _ => local_issueLoop

theorem local_release : Local i false (releaseIoreq i a) := fun _ _ hs => hs.ofDisk rfl rfl rfl

theorem local_storePrdbc : Local i false (storePrdbc p) :=
  local_ite (fun _ => local_segfault) fun _ => local_pure

theorem local_ataIoreqDone : Local i false (ataIoreqDone g i m a err) := by
  refine local_bind local_getPort fun p => local_bind local_release fun _ =>
    local_when local_storePrdbc (local_ite (fun _ => local_ite (fun _ => local_handleDsmTrim)
      fun _ => local_bind local_handleRw fun _ => local_pure) fun _ => local_ite (fun _ => ?_)
        fun _ => ?_)
  · exact local_bind local_writeFisSdb fun _ => local_bind local_retire fun _ => local_pure
  · exact local_bind local_writeFisD2h fun _ => local_bind local_retire fun _ => local_pure

theorem local_atapiIoreqDone : Local i false (atapiIoreqDone g i m a err) :=
  local_bind local_getPort fun _ => local_bind local_release fun _ =>
    local_when local_storePrdbc (local_ite
      (fun _ => local_bind local_atapiRead fun _ => local_pure) fun _ =>
        local_bind local_writeFisD2h fun _ => local_bind local_retire fun _ => local_pure)

theorem local_ioreqCb : Local i false (ioreqCb g i m a err) :=
  local_bind (local_bind local_getPort fun _ => local_ite (fun _ => local_atapiIoreqDone)
    fun _ => local_ataIoreqDone) fun _ => local_ite (fun _ => local_handlePort) fun _ => local_pure

theorem local_cancel : Local i false (cancelRequest a) := by
  intro s₀ s hs
  unfold cancelRequest
  split
  · rename_i e he
    refine ⟨hs.log, ?_⟩
    cases e <;> exact fun _ hj => nomatch hj
  · exact { hs with disk := by simp }

theorem local_stopLoop {l : List IoreqId} : Local i false (stopLoop i m l ncq) := by
  induction l generalizing ncq with
  | nil => exact local_pure
  | cons a l ih =>
    refine local_bind local_cancel fun r => ?_
    cases r with
    | some e => exact ih
    | none =>
      exact local_bind local_getPort fun p => local_bind (local_bind
        (local_modifyPort fun _ => ⟨rfl, rfl, rfl, rfl, rfl⟩) fun _ =>
          local_bind local_release fun _ => local_logEvent rfl) fun _ => ih

/-- A bare port has nothing to stop. -/
theorem local_portStop : Local i bare (ahciPortStop i m) := by
  intro s₀
  refine spec_bind (Q := fun p s => Stays i bare s₀ s ∧ p = s.port i) (fun s hs => ⟨hs, rfl⟩)
    fun p => spec_bind ?_ fun _ => local_checkStopped s₀
  intro s hs
  obtain ⟨hs, rfl⟩ := hs
  cases bare with
  | false => exact local_stopLoop s₀ s hs
  | true =>
    rw [(hs.disk rfl).1.2]
    exact hs

theorem local_cmdStart : Local i bare (cmdStart g i value) :=
  local_ite (fun _ => local_portStop) fun _ =>
    local_modifyPort fun _ => ⟨rfl, rfl, rfl, rfl, rfl⟩

theorem wired_cmdBits (p : AhciPort) : Wired p (cmdBits g value p) := by
  unfold cmdBits
  split <;> split <;> split <;> exact ⟨rfl, rfl, rfl, rfl, rfl⟩

theorem local_writeCmd : Local i bare (writeCmd g i value) :=
  local_bind (local_bind (local_modifyPort fun _ => ⟨rfl, rfl, rfl, rfl, rfl⟩) fun _ =>
    local_bind local_cmdStart fun _ => local_modifyPort wired_cmdBits) fun _ => local_handlePort

theorem local_writeSctl : Local i bare (writeSctl g i value) :=
  local_bind (local_modifyPort fun _ => ⟨rfl, rfl, rfl, rfl, rfl⟩) fun _ =>
    local_bind local_getPort fun _ => local_ite (fun _ => local_portReset) fun _ => local_pure

theorem local_portWrite : Local i bare (pciAhciPortWrite g i offset value) := by
  have hset (f : AhciPort → AhciPort) (h : ∀ p, Wired p (f p)) : Local i bare (modifyPort i f) :=
    local_modifyPort h
  refine local_ite (fun _ => hset _ ?_) fun _ => local_ite (fun _ => hset _ ?_) fun _ =>
    local_ite (fun _ => hset _ ?_) fun _ => local_ite (fun _ => hset _ ?_) fun _ =>
    local_ite (fun _ => hset _ ?_) fun _ => local_ite
      (fun _ => local_bind (hset _ ?_) fun _ => local_raiseIntr) fun _ =>
    local_ite (fun _ => local_writeCmd) fun _ => local_ite (fun _ => local_writeSctl) fun _ =>
    local_ite (fun _ => hset _ ?_) fun _ => local_ite (fun _ => hset _ ?_) fun _ =>
    local_ite (fun _ => local_bind (hset _ ?_) fun _ => local_handlePort) fun _ => local_pure
  all_goals exact fun _ => ⟨rfl, rfl, rfl, rfl, rfl⟩

theorem local_resetPort : Local i bare (resetPort g i) :=
  local_bind (local_modifyPort fun _ => ⟨rfl, rfl, rfl, rfl, rfl⟩) fun _ => local_portReset

theorem keeps_resetPorts (hreset : ∀ i, Keeps I E (resetPort g i)) (l : List PortId) :
    Keeps I E (resetPorts g l) := by
  induction l with
  | nil => exact keeps_pure
  | cons j js ih => exact keeps_bind (hreset j) fun _ => ih

/-- What every port keeps, and what does not depend on the registers of the host, is kept by
a register write. -/
theorem ends_pciAhciWrite {size : ℕ} (hs : I s)
    (hhost : ∀ s ghc is lintr, I s → I { s with ghc := ghc, is := is, lintr := lintr })
    (hbad : E ⟨.badAccess, s.log⟩)
    (hport : ∀ (i : PortId) (r : ℕ), size = 4 → offset = ahciOffset + ahciStep * i + r →
      r < ahciStep → Ends (fun _ => I) E (pciAhciPortWrite g i r value s))
    (hreset : ∀ i, Keeps I E (resetPort g i)) :
    Ends (fun _ => I) E (pciAhciWrite g offset size value s) := by
  have hmodify (f : Hba → Hba)
      (hf : ∀ s, ∃ ghc is lintr, f s = { s with ghc := ghc, is := is, lintr := lintr }) :
      Keeps I E (modify f) := by
    intro s hs
    obtain ⟨ghc, is, lintr, heq⟩ := hf s
    change I (f s)
    rw [heq]
    exact hhost s ghc is lintr hs
  have hraise : Keeps I E (raiseIntr g) := by
    intro s hs
    unfold raiseIntr Hba.raise
    dsimp only
    split
    all_goals exact hhost s s.ghc _ _ hs
  have hhostwrite : Keeps I E (pciAhciHostWrite g offset value) := by
    refine keeps_ite (fun _ => keeps_ite (fun _ => ?_) fun _ => keeps_ite (fun _ => ?_) fun _ =>
      keeps_pure) fun _ => keeps_ite (fun _ => ?_) fun _ => keeps_pure
    · exact keeps_bind (hmodify _ fun s => ⟨_, _, _, rfl⟩) fun _ => keeps_resetPorts hreset _
    all_goals exact keeps_bind (hmodify _ fun s => ⟨_, _, _, rfl⟩) fun _ => hraise
  unfold pciAhciWrite
  split
  · rename_i hsize
    split
    · exact hhostwrite s hs
    · have hat : offset = ahciOffset + ahciStep * ((offset - ahciOffset) / ahciStep) +
          (offset - ahciOffset) % ahciStep := by
        rw [Nat.add_assoc, Nat.div_add_mod]
        omega
      have hlt : (offset - ahciOffset) % ahciStep < ahciStep := Nat.mod_lt _ (by decide)
      revert hat hlt
      split_ifs with hi
      · exact @hport ⟨_, hi⟩ _ hsize.2
      · exact fun _ _ => hs
  · exact hbad

end HyperCog.Ahci
