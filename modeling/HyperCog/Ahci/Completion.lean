import HyperCog.Ahci.Lives
import HyperCog.Ahci.Scatter

/-! Every command is completed once, and in the way it was accepted. -/
namespace HyperCog.Ahci

open Virtio Blockif Machine List Life Event Command

attribute [local simp] begin

/-- A life that went as it should. A command was accepted as a queued one if it was
acknowledged; a queued command that is refused has not been started. -/
def Life.Whole (x : Life) : Prop :=
  match x.ending with
  | .completed how ok fisOn =>
    (how = .sdb ↔ x.acked = true) ∧ (x.acked = true → x.cmd.isNcq = true) ∧
      (x.cmd.isNcq = true → x.acked = true ∨ x.requests = [] ∧ ok = false) ∧
      fisOn = true ∧ x.requests.length ≤ 2 ^ 31
  | .running | .withdrawn => True

/-- A command whose request is with the disk: every part moved it forward. -/
structure Life.Underway (atapi : Bool) (x : Life) (io : AhciIoreq) : Prop where
  acked : x.acked = x.cmd.isNcq
  unqueued : atapi = true → x.cmd.isNcq = false
  begun : x.requests ≠ []
  progress : x.requests.length ≤ io.done.toNat + 1
  more : io.more = true → x.requests.length ≤ io.done.toNat
  small : io.done.toNat < 2 ^ 31

/-- What the handlers rely on without looking: the port can tell the guest, a packet read reads
something, queued commands go to an ATA port, and lengths are positive as an `int`. -/
structure Command.Proper (atapi fisOn : Bool) (sectsz : ℕ) (c : Command) : Prop where
  heard : fisOn = true
  counted : commandHandler atapi c = .read → c.readSectors ≠ 0 ∧ c.readLen.toNat < 2 ^ 31
  short : commandHandler atapi c = .rw → (c.rwLen sectsz).toNat < 2 ^ 31
  unqueued : atapi = true → c.isNcq = true → ∃ r, commandHandler atapi c = .reply r

/-- The commands that are issued are proper. -/
def properTurn (bc : BlockifCtxt) : TurnCond := fun g k s =>
  ∀ c, Issues g k s c → c.Proper (s.port 0).atapi (s.port 0).fisOn bc.bcSectsz

/-- The next part as the callback of the port takes it. -/
def Command.ProperNext (atapi : Bool) (sectsz : ℕ) (c : Command) : Prop :=
  if atapi then c.readSectors ≠ 0 ∧ c.readLen.toNat < 2 ^ 31
  else c.isDsm = false → (c.rwLen sectsz).toNat < 2 ^ 31

/-- The guest can be told, and the table that is read again is still that of a queued command or
still not. -/
def properCallback (bc : BlockifCtxt) : CallbackCond := fun g a err s =>
  let io := (s.port 0).ioreq a
  let c := flightCommand (g.mem 0) (s.port 0) io
  (s.port 0).fisOn = true ∧
    ((s.port 0).atapi = false → ∀ x rest, livesOf io.slot s.log = some (x :: rest) →
      c.isNcq = x.cmd.isNcq) ∧
    (err = none → io.more = true → c.ProperNext (s.port 0).atapi bc.bcSectsz)

variable {atapi fisOn : Bool} {c : Command} {g : Guest} {m : HostMem} {t : Slot} {l : Plan} {x : Life}
  {fuel sectsz : ℕ}
  {io : AhciIoreq} {b : Build} {bc : BlockifCtxt} {as : List Action} {s : Hba} {T : TurnCond} {done len : UInt32}

theorem isNcq_iff : c.isNcq = true ↔ c.isFpdma = true ∨ c.cfis 2 = ataSendFpdmaQueued := by
  simp only [isNcq, isFpdma, mem_cons, not_mem_nil, or_false, decide_eq_true_eq]
  tauto

theorem handler_fpdma (h : c.isFpdma = true) : commandHandler atapi c = .rw := by
  have hop : c.cfis 2 = ataReadFpdmaQueued ∨ c.cfis 2 = ataWriteFpdmaQueued := by
    simpa [isFpdma] using h
  unfold commandHandler
  rcases hop with hop | hop <;>
    rw [if_neg (by rw [hop]; decide), if_neg (by rw [hop]; decide), if_neg (by rw [hop]; decide),
      if_pos (.inr (.inr h))]

/-- A trim is started or refused, queued or not. -/
theorem handler_trims (atapi : Bool)
    (h : c.cfis 2 = ataDataSetManagement ∨ c.cfis 2 = ataSendFpdmaQueued) :
    commandHandler atapi c = .trim ∨ commandHandler atapi c = .reply .aborted := by
  have hcode : ¬ (c.is28 = true ∨ c.is48 = true ∨ c.isFpdma = true) := by
    rcases h with h | h <;> simp [is28, is48, isFpdma, h] <;> decide
  unfold commandHandler
  rw [if_neg (by rcases h with h | h <;> rw [h] <;> decide),
    if_neg (by rcases h with h | h <;> rw [h] <;> decide),
    if_neg (by rcases h with h | h <;> rw [h] <;> decide), if_neg hcode,
    if_neg (by rcases h with h | h <;> rw [h] <;> decide)]
  rcases h with h | h
  · rw [if_pos h]
    split_ifs <;> simp
  · rw [if_pos h]
    split_ifs <;> simp

theorem ite_ne {p : Prop} [Decidable p] {a b x : Handler} (ha : a ≠ x) (hb : b ≠ x) :
    (if p then a else b) ≠ x := by
  split
  · exact ha
  · exact hb

theorem handler_trim (h : commandHandler atapi c = .trim) :
    c.cfis 2 = ataDataSetManagement ∨ c.cfis 2 = ataSendFpdmaQueued := by
  by_contra hnot
  rw [not_or] at hnot
  revert h
  unfold commandHandler
  dsimp only
  rw [if_neg hnot.1, if_neg hnot.2]
  repeat' apply ite_ne
  all_goals nofun

theorem handler_read (h : commandHandler atapi c = .read) : c.cfis 2 = ataPacketCmd := by
  by_contra hnot
  revert h
  unfold commandHandler
  dsimp only
  rw [if_neg hnot]
  repeat' apply ite_ne
  all_goals nofun

/-- Packets are for packet ports. -/
theorem atapi_of_read (h : commandHandler atapi c = .read) : atapi = true := by
  cases atapi with
  | true => rfl
  | false =>
    revert h
    unfold commandHandler
    rw [if_pos (show (!false) = true from rfl)]
    intro h
    exfalso
    revert h
    repeat' apply ite_ne
    all_goals nofun

theorem handler_flush (h : commandHandler atapi c = .flush) :
    c.cfis 2 = ataFlushcache ∨ c.cfis 2 = ataFlushcache48 := by
  by_contra hnot
  revert h
  unfold commandHandler
  dsimp only
  rw [if_neg hnot]
  repeat' apply ite_ne
  all_goals nofun

theorem fpdma_of_rw (h : commandHandler atapi c = .rw) : c.isFpdma = c.isNcq := by
  rw [Bool.eq_iff_iff, isNcq_iff]
  refine ⟨.inl, fun hq => hq.resolve_right fun hsend => ?_⟩
  rcases handler_trims atapi (.inr hsend) with hs | hs <;> rw [hs] at h <;> cases h

theorem aborted_of_reply {r : Reply} (h : commandHandler atapi c = .reply r)
    (hq : c.isNcq = true) : r = .aborted := by
  rcases isNcq_iff.mp hq with hf | hsend
  · rw [handler_fpdma hf] at h
    cases h
  · rcases handler_trims atapi (.inr hsend) with hs | hs <;> rw [hs] at h <;> cases h
    rfl

theorem trimNcq_eq (h : c.cfis 2 = ataDataSetManagement ∨ c.cfis 2 = ataSendFpdmaQueued) :
    c.trimNcq = c.isNcq := by
  rcases h with h | h <;> simp [trimNcq, isNcq, h] <;> decide

theorem isDsm_code (h : c.isDsm = true) :
    c.cfis 2 = ataDataSetManagement ∨ c.cfis 2 = ataSendFpdmaQueued := by
  rcases of_decide_eq_true h with h | ⟨h, -⟩
  · exact .inl h
  · exact .inr h

theorem unqueued_of_read (h : commandHandler atapi c = .read) : c.isNcq = false := by
  simp [isNcq, handler_read h]
  decide

/-- A part brought the transfer forward, if another is to follow. -/
structure Forward (done : UInt32) (io : AhciIoreq) : Prop where
  le : done.toNat ≤ io.done.toNat
  small : io.done.toNat < 2 ^ 31
  more : io.more = true → done.toNat < io.done.toNat

theorem IsPart.forward {ram : GuestRam} {es : List PrdtEntry} {p : Part} {addr : ℕ}
    (h : IsPart ram sectsz es len done p) (hlen : len.toNat < 2 ^ 31) (hdone : done.toNat < 2 ^ 31) :
    Forward done ⟨addr, len, p.done, t, p.more⟩ := by
  have hrest := h.rest
  have hcount := h.count
  unfold restOf at hrest
  refine ⟨?_, ?_, fun hmore => ?_⟩ <;> dsimp only
  · omega
  · omega
  · have hpos := (h.more hmore).1
    omega

theorem trimScan_forward {buf : ℕ → UInt8} {e : TrimEntry}
    (h : trimScan buf len fuel done = .ok (some e)) :
    done.toNat < e.done.toNat ∧ e.done.toNat ≤ 512 := by
  induction fuel generalizing done with
  | zero => cases h
  | succ fuel ih =>
    unfold trimScan at h
    split_ifs at h
    have hstep : (done + 8).toNat = done.toNat + 8 := by
      change (done.toNat + 8) % 2 ^ 32 = _
      omega
    dsimp only at h
    split_ifs at h
    · cases h
    · have hnext := ih h
      omega
    · cases h
      dsimp only
      omega

/-- Only the first part of a queued command is acknowledged. -/
theorem fresh_of_ack {q : Bool} (hfresh : done = 0 → x.Fresh) (h : (q && decide (done = 0)) = true) :
    x.Fresh := by
  rw [Bool.and_eq_true, decide_eq_true_eq] at h
  exact hfresh h.2

/-- A request for the next part. -/
theorem underway_launch {op : Blockop} {ack : Bool} {br : BlockifReq}
    (done : UInt32) (hx : x.requests.length ≤ done.toNat) (hf : Forward done io)
    (hacked : (x.acked || ack) = x.cmd.isNcq) (hq : atapi = true → x.cmd.isNcq = false) :
    ((x.acks ack).request op br).Underway atapi io := by
  have hlen : ((x.acks ack).request op br).requests.length = x.requests.length + 1 := by simp
  have hle := hf.le
  refine ⟨?_, ?_, by simp, by omega, fun hmore => ?_, hf.small⟩
  · rw [request_acked, acks_acked, request_cmd, acks_cmd, hacked]
  · rw [request_cmd, acks_cmd]
    exact hq
  · have hlt := hf.more hmore
    omega

section Plans

variable (hx : x.requests.length ≤ done.toNat) (hdone : done.toNat < 2 ^ 31)
  (hq : atapi = true → x.cmd.isNcq = false)

include hx hdone hq

theorem goes_rw (hl : planRw g sectsz t c done = .ok l) (hlen : (c.rwLen sectsz).toNat < 2 ^ 31)
    (hacked : (x.acked || (c.isFpdma && decide (done = 0))) = x.cmd.isNcq)
    (hfresh : done = 0 → x.Fresh) : Goes Life.Whole (Life.Underway atapi) x fisOn l := by
  obtain ⟨part, hb, hl⟩ := bind_eq_ok.mp hl
  cases hl
  exact ⟨rfl, fresh_of_ack hfresh, fun br => underway_launch done hx
    ((buildIov_isPart hlen hdone hb).forward hlen hdone) hacked hq⟩

theorem goes_read (hl : planRead g sectsz t c done = .ok l) (hcount : c.readSectors ≠ 0)
    (hlen : c.readLen.toNat < 2 ^ 31) (hacked : x.acked = x.cmd.isNcq) :
    Goes Life.Whole (Life.Underway atapi) x fisOn l := by
  obtain ⟨part, hb, hl⟩ := bind_eq_ok.mp hl
  cases hl
  refine ⟨decide_eq_false hcount, nofun, fun br => underway_launch done hx
    ((buildIov_isPart hlen hdone hb).forward hlen hdone) ?_ hq⟩
  rw [Bool.or_false]
  exact hacked

theorem goes_trim (hl : planTrim g sectsz m t c done = .ok l)
    (hacked : (x.acked || (c.trimNcq && decide (done = 0))) = x.cmd.isNcq)
    (hsame : c.trimNcq = x.cmd.isNcq) (hfresh : done = 0 → x.Fresh) (hfis : fisOn = true) :
    Goes Life.Whole (Life.Underway atapi) x fisOn l := by
  obtain ⟨o, ho, hl⟩ := bind_eq_ok.mp hl
  cases o with
  | none =>
    cases hl
    have hack : (x.acks (c.trimNcq && decide (done = 0))).acked = x.cmd.isNcq := by
      rw [acks_acked, hacked]
    refine ⟨fresh_of_ack hfresh, ?_, ?_, ?_, hfis, ?_⟩
    · rw [finish_acked, hack, ← hsame]
      cases c.trimNcq <;> simp
    · rw [finish_acked, hack, finish_cmd, acks_cmd]
      exact id
    · rw [finish_acked, hack, finish_cmd, acks_cmd]
      exact .inl
    · rw [finish_requests, acks_requests]
      omega
  | some e =>
    obtain ⟨buf, -, hscan⟩ := bind_eq_ok.mp ho
    obtain ⟨hlt, hle⟩ := trimScan_forward hscan
    cases hl
    exact ⟨rfl, fresh_of_ack hfresh, fun br => underway_launch done hx
      ⟨by dsimp only; omega, by dsimp only; omega, fun _ => hlt⟩ hacked hq⟩

end Plans

theorem fresh_begin : (begin c).Fresh := ⟨rfl, rfl⟩

/-- What becomes of a proper command when it is issued. -/
theorem goes_issue (hc : c.Proper atapi fisOn bc.bcSectsz)
    (hl : plan g bc.bcSectsz m t c (commandHandler atapi c) = .ok l) :
    Goes Life.Whole (Life.Underway atapi) (.begin c) fisOn l := by
  have hq : (∀ r, commandHandler atapi c ≠ .reply r) → atapi = true → c.isNcq = false := by
    intro hne hat
    by_contra hncq
    rw [Bool.not_eq_false] at hncq
    obtain ⟨r, hr⟩ := hc.unqueued hat hncq
    exact hne r hr
  cases hh : commandHandler atapi c with
  | reply r =>
    rw [hh] at hl
    obtain ⟨u, -, hl⟩ := bind_eq_ok.mp hl
    cases hl
    refine ⟨by simp [finish], by simp [finish],
      fun hncq => .inr ⟨rfl, ?_⟩, hc.heard, by simp [finish]⟩
    rw [aborted_of_reply hh hncq]
    rfl
  | rw =>
    rw [hh] at hl
    refine goes_rw (by simp) (by decide) (hq (by simp [hh])) hl (hc.short hh) ?_
      fun _ => fresh_begin
    simp [fpdma_of_rw hh]
  | flush =>
    rw [hh] at hl
    cases hl
    have hncq : c.isNcq = false := by
      rcases handler_flush hh with h | h <;> simp [isNcq, h] <;> decide
    exact ⟨rfl, nofun, fun br => underway_launch 0 (by simp)
      ⟨by simp, by simp, by simp⟩ (by simp [hncq]) fun _ => hncq⟩
  | trim =>
    rw [hh] at hl
    have hsame := trimNcq_eq (handler_trim hh)
    refine goes_trim (by simp) (by decide) (hq (by simp [hh])) hl ?_ hsame
      (fun _ => fresh_begin) hc.heard
    simp [hsame]
  | read =>
    rw [hh] at hl
    have hncq := unqueued_of_read hh
    exact goes_read (by simp) (by decide) (fun _ => hncq) hl (hc.counted hh).1
      (hc.counted hh).2 hncq.symm

/-- Another part follows only where one has been done. -/
theorem Life.Underway.done_ne_zero (h : x.Underway atapi io) (hmore : io.more = true) :
    io.done ≠ 0 := by
  intro hzero
  have hpos : 0 < x.requests.length := length_pos_iff.mpr h.begun
  have hle := h.more hmore
  rw [hzero] at hle
  have hnone : x.requests.length ≤ 0 := hle
  omega

/-- What becomes of it when a part has been done and another follows. -/
theorem goes_next (hc : c.ProperNext atapi bc.bcSectsz) (hx : x.Underway atapi io)
    (hmore : io.more = true) (hsame : atapi = false → c.isNcq = x.cmd.isNcq) (hfis : fisOn = true)
    (hl : planNext g bc.bcSectsz m atapi io c = .ok l) :
    Goes Life.Whole (Life.Underway atapi) x fisOn l := by
  have hlen := hx.more hmore
  have hdone := hx.done_ne_zero hmore
  have hfresh : io.done = 0 → x.Fresh := fun h => absurd h hdone
  cases atapi with
  | true => exact goes_read hlen hx.small hx.unqueued hl hc.1 hc.2 hx.acked
  | false =>
    unfold planNext at hl
    rw [if_neg Bool.false_ne_true] at hl
    split_ifs at hl with hdsm
    · refine goes_trim hlen hx.small hx.unqueued hl ?_
        ((trimNcq_eq (isDsm_code hdsm)).trans (hsame rfl)) hfresh hfis
      simp [hdone, hx.acked]
    · refine goes_rw hlen hx.small hx.unqueued hl (hc (by simpa using hdsm)) ?_ hfresh
      simp [hdone, hx.acked]

/-- Completion by a callback is as the command was accepted. -/
theorem whole_finish {err : Option Errno} (hx : x.Underway atapi io)
    (hsame : atapi = false → c.isNcq = x.cmd.isNcq) (hfis : fisOn = true) :
    (x.finish (.completed (finalHow atapi c) (!(finalAnswer atapi err).fails) fisOn)).Whole := by
  have hprog := hx.progress
  have hsmall := hx.small
  refine ⟨?_, fun hack => ?_, fun hncq => .inl ?_, hfis, ?_⟩
  · rw [finish_acked, hx.acked]
    cases atapi with
    | true => simp [finalHow, hx.unqueued rfl]
    | false =>
      rw [← hsame rfl]
      cases hncq : c.isNcq <;> simp [finalHow, hncq]
  · exact hx.acked ▸ hack
  · exact hx.acked.trans hncq
  · change x.requests.length ≤ _
    omega

theorem rules_whole :
    Rules atapi bc Life.Whole (Life.Underway atapi) (properTurn bc) (properCallback bc) where
  issue hat hT hissues hl := goes_issue (hat ▸ hT _ hissues) hl
  next hat hB hserves hmore hl := by
    obtain ⟨rest, hlives⟩ := hserves.lives
    exact goes_next (hat ▸ hB.2.2 rfl hmore) hserves.known hmore
      (fun ha => hB.2.1 (hat.trans ha) _ rest hlives) hB.1 hl
  finish hat hB hserves _ := by
    obtain ⟨rest, hlives⟩ := hserves.lives
    exact whole_finish hserves.known (fun ha => hB.2.1 (hat.trans ha) _ rest hlives) hB.1
  withdraw _ _ := trivial

/-- Command `t` is handled. -/
def Event.begins (t : Slot) : Event → Bool
  | .cmd _ u _ => u = t
  | .slot _ _ | .intr _ | .post _ _ _ | .ack _ _ | .complete _ _ _ _ _ | .request _ _ _ _
  | .cancel _ _ => false

def Event.completes (t : Slot) : Event → Bool
  | .complete _ u _ _ _ => u = t
  | .slot _ _ | .cmd _ _ _ | .intr _ | .post _ _ _ | .ack _ _ | .request _ _ _ _ | .cancel _ _ => false

def Event.withdraws (t : Slot) : Event → Bool
  | .cancel _ u => u = t
  | .slot _ _ | .cmd _ _ _ | .intr _ | .post _ _ _ | .ack _ _ | .complete _ _ _ _ _
  | .request _ _ _ _ => false

def Life.isRunning (x : Life) : Bool := decide (x.ending = .running)

variable {ls : List Life} {k : ℕ}

section Counts

attribute [local simp] begins completes withdraws

variable {ls' : List Life}

theorem onRunning_length {f : Life → Life} (h : onRunning f ls = some ls') :
    ls'.length = ls.length ∧ ∃ x rest, ls = x :: rest ∧ x.isRunning = true ∧ ls' = f x :: rest := by
  cases ls with
  | nil => cases h
  | cons x ls =>
    rw [onRunning] at h
    split_ifs at h with hx
    cases h
    exact ⟨rfl, x, ls, rfl, by simp [isRunning, hx], rfl⟩

/-- What one event adds to the lives of a slot and takes from those that are running. -/
theorem tell_count {e : Event} (he : e.slotOf = some t) (h : tell ls e = some ls') :
    ls'.length = ls.length + (if e.begins t then 1 else 0) ∧
      ls'.countP isRunning + (if e.completes t then 1 else 0) + (if e.withdraws t then 1 else 0) =
        ls.countP isRunning + (if e.begins t then 1 else 0) := by
  cases e with
  | intr i | post i a fis => cases he
  | slot i u =>
    cases h
    simp
  | cmd i u c =>
    cases he
    rw [tell] at h
    split_ifs at h
    cases h
    simp [isRunning]
  | ack i u =>
    rw [tell] at h
    split_ifs at h
    obtain ⟨hlen, x, rest, rfl, hx, rfl⟩ := onRunning_length h
    have hx' : (x.acks true).isRunning = true := hx
    simp [hx, hx']
  | complete i u how ok fisOn =>
    cases he
    obtain ⟨hlen, x, rest, rfl, hx, rfl⟩ := onRunning_length h
    have hx' : (x.finish (.completed how ok fisOn)).isRunning = false := rfl
    simp [hx, hx']
  | request i u op br =>
    obtain ⟨hlen, x, rest, rfl, hx, rfl⟩ := onRunning_length h
    have hx' : (x.request op br).isRunning = true := hx
    simp [hx, hx']
  | cancel i u =>
    cases he
    obtain ⟨hlen, x, rest, rfl, hx, rfl⟩ := onRunning_length h
    have hx' : (x.finish .withdrawn).isRunning = false := rfl
    simp [hx, hx']

theorem lives_count {es : List Event} (hes : ∀ e ∈ es, e.slotOf = some t)
    (h : es.foldlM tell ls = some ls') :
    ls'.length = ls.length + es.countP (begins t) ∧
      ls'.countP isRunning + es.countP (completes t) + es.countP (withdraws t) =
        ls.countP isRunning + es.countP (begins t) := by
  induction es generalizing ls with
  | nil =>
    cases h
    simp
  | cons e es ih =>
    obtain ⟨ls₁, h₁, h₂⟩ := Option.bind_eq_some_iff.mp h
    obtain ⟨he, hes⟩ := forall_mem_cons.mp hes
    have hone := tell_count he h₁
    have hrest := ih hes h₂
    simp only [countP_cons]
    omega

/-- Only the events of a slot are counted for it. -/
theorem countP_slot {p : Event → Bool} (hp : ∀ e, p e = true → e.slotOf = some t) (es : List Event) :
    (es.filter fun e => e.slotOf = some t).countP p = es.countP p := by
  rw [countP_filter]
  refine countP_congr fun e _ => ?_
  simp only [Bool.and_eq_true, decide_eq_true_eq]
  exact ⟨And.left, fun h => ⟨h, hp e h⟩⟩

theorem livesOf_count {log : List Event} (h : livesOf t log = some ls) :
    (storyOf log).countP (begins t) = ls.length ∧
      (storyOf log).countP (begins t) = (storyOf log).countP (completes t) +
        (storyOf log).countP (withdraws t) + ls.countP isRunning := by
  have hcount := lives_count (t := t) (by simp) h
  rw [countP_slot (by intro e he; cases e <;> simp_all [begins, slotOf]),
    countP_slot (by intro e he; cases e <;> simp_all [completes, slotOf]),
    countP_slot (by intro e he; cases e <;> simp_all [withdraws, slotOf])] at hcount
  simp only [length_nil, countP_nil] at hcount
  omega

end Counts

/-- A slot is in flight exactly while its newest life is running. -/
theorem pending_iff_running {P : Life → Prop} {K : Life → AhciIoreq → Prop} (hs : s.Sound)
    (h : Told P K t s) (hls : livesOf t s.log = some ls) :
    hasSlot (s.port 0).pending t = true ↔ ∃ l ∈ ls.head?, l.ending = .running := by
  obtain ⟨ls', hls', -, hidle, hbusy⟩ := h
  cases hls.symm.trans hls'
  constructor
  · intro hp
    obtain ⟨a, ha, hslot⟩ := (hs.books.pool.marked t (by simp)).mp hp
    obtain ⟨l, rest, rfl, hl, -⟩ := hbusy a ha hslot
    exact ⟨l, by simp, hl⟩
  · rintro ⟨l, hl, hrun⟩
    by_contra hp
    rw [Bool.not_eq_true] at hp
    exact hidle hp l (mem_of_mem_head? hl) hrun

theorem countP_running (htail : ∀ l ∈ ls.tail, l.ending ≠ .running)
    (hiff : hasSlot (s.port 0).pending t = true ↔ ∃ l ∈ ls.head?, l.ending = .running) :
    ls.countP isRunning = if hasSlot (s.port 0).pending t then 1 else 0 := by
  cases ls with
  | nil =>
    rw [if_neg (by rw [hiff]; simp)]
    rfl
  | cons l rest =>
    have hrest : rest.countP isRunning = 0 := by
      rw [countP_eq_zero]
      intro x hx hrun
      exact htail x hx (by simpa [isRunning] using hrun)
    have hhead : (∃ x ∈ (l :: rest).head?, x.ending = .running) ↔ l.isRunning = true := by
      simp [isRunning]
    rw [countP_cons, hrest, Nat.zero_add]
    simp only [hiff, hhead]

instance (p : AhciPort) : Decidable p.halted := inferInstanceAs (Decidable (_ ∨ _ ∨ _))

/-- The call returns with the issue loop at its end, if it returns. -/
def endsHalted : Except Crash (Unit × Hba) → Bool
  | .ok (_, s) => decide (s.port 0).halted
  | .error _ => true

theorem halted_of_ends {x : Except Crash (Unit × Hba)} (h : endsHalted x = true) :
    ∀ s, x = .ok ((), s) → (s.port 0).halted := by
  rintro s rfl
  exact of_decide_eq_true h

theorem portMeets_halted (h : (s.port 0).halted) : PortMeets T g s := by
  right
  cases g.turns with
  | zero => trivial
  | succ n => exact .inl h

/-- One turn, after which the loop is at its end. -/
theorem portMeets_once (hT : T g 1 s)
    (h : endsHalted (issueTurn g 0 1 (s.port 0) s) = true) : PortMeets T g s := by
  right
  cases g.turns with
  | zero => trivial
  | succ n =>
    refine .inr ⟨hT, fun s' hs' => ?_⟩
    cases n with
    | zero => trivial
    | succ n => exact .inl (halted_of_ends h s' hs')

section Issued

variable (m : HostMem)

def startPort : Action := .write (guestOf m) 0x118 4 0x11
def issueSlot : Action := .write (guestOf m) 0x138 4 0x1

def portStarted : Hba :=
  (step macBuild (Hba.start plainFile false) (startPort m)).toOption.getD (Hba.start plainFile false)

def slotIssued : Hba := (step macBuild (portStarted m) (issueSlot m)).toOption.getD (portStarted m)

/-- The slot is about to be handled. -/
def slotReady : Hba :=
  (portStarted m).setPort 0
    { (portStarted m).port 0 with ci := ((portStarted m).port 0).ci ||| 0x1 }

/-- A slot whose command ends the issue loop. -/
theorem issue_run {B : CallbackCond} (hT : T (guestOf m) 1 (slotReady m))
    (hset : endsHalted (setCmd (guestOf m) 0 0x11 (Hba.start plainFile false)) = true)
    (hstart : (step macBuild (Hba.start plainFile false) (startPort m)).isOk = true)
    (hturn : endsHalted (issueTurn (guestOf m) 0 1 ((slotReady m).port 0) (slotReady m)) = true)
    (hissue : (step macBuild (portStarted m) (issueSlot m)).isOk = true) :
    Run (step macBuild) (Meets T B) (Hba.start plainFile false) [startPort m, issueSlot m]
      (slotIssued m) := by
  have hnext : Run (step macBuild) (Meets T B) (portStarted m) [issueSlot m] (slotIssued m) :=
    .computed (fun _ => ⟨fun h => absurd h (by decide), fun _ => portMeets_once hT hturn⟩)
      hissue .refl
  exact .computed (fun _ => ⟨fun _ s₁ hs => portMeets_halted (halted_of_ends hset s₁ hs),
    fun h => absurd h (by decide)⟩) hstart hnext

variable {m}

/-- The command is the one in memory. -/
theorem issues_read {n : ℕ} (h : Issues (guestOf m) 1 (slotReady m) c)
    (htable : (slotCommand (guestOf m) m ((slotReady m).port 0).cmdLst
      ((slotReady m).port 0).ccs).toOption = some (read m 0x400 n)) :
    c = read m 0x400 n := by
  have heq : slotCommand (guestOf m) m _ _ = _ := h.table
  rw [heq] at htable
  exact Option.some.inj htable

end Issued

/-- IDLE IMMEDIATE in the first slot. -/
def idleTable : HostMem := listAt 0 [0x27, 0x80, 0xe1]

theorem idle_proper : properTurn plainFile (guestOf idleTable) 1 (slotReady idleTable) := by
  intro c hissues
  have hc : c = read idleTable 0x400 0 := issues_read hissues rfl
  have hh : commandHandler ((slotReady idleTable).port 0).atapi c = .reply .plain := by
    rw [hc]
    rfl
  refine ⟨by decide +kernel, fun hr => ?_, fun hr => ?_, fun _ _ => ⟨.plain, hh⟩⟩
  all_goals
    rw [hh] at hr
    cases hr

/-- A packet read of nothing. -/
def emptyRead : HostMem := listAt 0 ([0x27, 0x80, 0xa0] ++ List.replicate 61 0 ++ [0x28])

/-- It is issued, and the disk is given time to answer. -/
def readNothing : List Action :=
  issueFirst emptyRead ++ List.replicate 3 (.worker willing (guestOf emptyRead))

def nothingRead : Hba :=
  (exec (step macBuild) (Hba.start plainFile true) readNothing).toOption.getD
    (Hba.start plainFile true)

end HyperCog.Ahci
