import HyperCog.Ahci.Completion

/-! The parts of a transfer follow one another without a gap, on the disk and in the guest. -/
namespace HyperCog.Ahci

open Virtio Blockif Machine

/-- The direction, first byte and length of a transfer. -/
def Command.transfer (atapi : Bool) (sectsz : ℕ) (c : Command) : Option (Blockop × ℕ × ℕ) :=
  match commandHandler atapi c with
  | .rw => some (if c.isWrite then .write else .read, c.lba.toNat * sectsz, c.sectors.toNat * sectsz)
  | .read => some (.read, be32dec c.acmd 2 * 2048, c.readSectors.toNat * 2048)
  | .reply _ | .flush | .trim => none

/-- The bytes that requests move. -/
def movedBy (rs : List (Blockop × BlockifReq)) : ℕ := (rs.map fun r => iovecLen r.2.brIov).sum

/-- Each request begins on the disk where the one before it ends. -/
def Consecutive : ℕ → List (Blockop × BlockifReq) → Prop
  | _, [] => True
  | off, r :: rs => r.2.brOffset.toInt = off ∧ r.2.brResid = iovecLen r.2.brIov ∧
    Consecutive (off + iovecLen r.2.brIov) rs

/-- The requests of a transfer so far, `done` bytes from `off` on: one direction, consecutive on
the disk, and in the guest the first bytes of the scatter list in order. -/
structure Seam (ram : GuestRam) (es : List PrdtEntry) (op : Blockop) (off done : ℕ)
    (rs : List (Blockop × BlockifReq)) : Prop where
  direction : ∀ r ∈ rs, r.1 = op
  disk : Consecutive off rs
  guest : Covers ram (rs.flatMap fun r => r.2.brIov) ((scatterBytes es).take done)
  count : movedBy rs = done

/-- How far a transfer goes: to the end of its length or of its scatter list. -/
def Command.reach (c : Command) (len : ℕ) : ℕ := min len (scatterBytes c.prdt).length

/-- A transfer is whole when it reached its end, or whole sectors of it if what was left took all
the segments of its last request. -/
def Reached (ram : GuestRam) (sectsz : ℕ) (c : Command) (len done : ℕ)
    (rs : List (Blockop × BlockifReq)) : Prop :=
  done = c.reach len ∨ done = c.reach len - c.reach len % sectsz ∧
    ∃ r ∈ rs.getLast?, ∃ len' done' : UInt32, len'.toNat = len ∧
      done'.toNat + iovecLen r.2.brIov = done ∧ Limited ram c.prdt len' done'

section Seams

variable (ram : GuestRam) (atapi : Bool) (sectsz : ℕ)

/-- What holds of a transfer that was completed. -/
def Life.Seamless (x : Life) : Prop :=
  ∀ op off len how fisOn, x.cmd.transfer atapi sectsz = some (op, off, len) →
    x.ending = .completed how true fisOn →
    ∃ done, Seam ram x.cmd.prdt op off done x.requests ∧ Reached ram sectsz x.cmd len done x.requests

/-- And of one that is under way. -/
def Life.Seaming (x : Life) (io : AhciIoreq) : Prop :=
  ∀ op off len, x.cmd.transfer atapi sectsz = some (op, off, len) →
    (commandHandler atapi x.cmd = .rw → atapi = false) ∧ len < 2 ^ 31 ∧ off + len < 2 ^ 63 ∧
    Seam ram x.cmd.prdt op off io.done.toNat x.requests ∧
    (io.more = true → io.done.toNat % sectsz = 0 ∧ io.done.toNat ≤ x.cmd.reach len) ∧
    (io.more = false → Reached ram sectsz x.cmd len io.done.toNat x.requests)

/-- A transfer that the arithmetic of the device can hold, on a port of the right kind. -/
structure Command.Straight (c : Command) : Prop where
  kind : commandHandler atapi c = .rw → atapi = false
  fits : ∀ op off len, c.transfer atapi sectsz = some (op, off, len) →
    len < 2 ^ 31 ∧ off + len < 2 ^ 63

end Seams

/-- Proper commands, straight transfers, and guest RAM as it is. -/
def straightTurn (ram : GuestRam) (bc : BlockifCtxt) : TurnCond := fun g k s =>
  properTurn bc g k s ∧ g.ram = ram ∧ ∀ c, Issues g k s c → c.Straight (s.port 0).atapi bc.bcSectsz

/-- The guest leaves the table of a command alone while it is in flight. -/
def straightCallback (ram : GuestRam) (bc : BlockifCtxt) : CallbackCond := fun g a err s =>
  properCallback bc g a err s ∧ g.ram = ram ∧
    ∀ x rest, livesOf ((s.port 0).ioreq a).slot s.log = some (x :: rest) →
      flightCommand (g.mem 0) (s.port 0) ((s.port 0).ioreq a) = x.cmd

variable {ram : GuestRam} {sectsz off done : ℕ} {op : Blockop} {p : Part} {o : Int64} {c : Command}
  {atapi fisOn : Bool}
  {x : Life} {g : Guest} {t : Slot} {l : Plan} {es : List PrdtEntry} {rs : List (Blockop × BlockifReq)}
  {r : Blockop × BlockifReq} {io : AhciIoreq} {m : HostMem}

@[simp] theorem movedBy_nil : movedBy [] = 0 := rfl

@[simp] theorem movedBy_cons : movedBy (r :: rs) = iovecLen r.2.brIov + movedBy rs := by simp [movedBy]

theorem movedBy_snoc : movedBy (rs ++ [r]) = movedBy rs + iovecLen r.2.brIov := by simp [movedBy]

theorem Consecutive.snoc (h : Consecutive off rs) (hr : r.2.brOffset.toInt = off + movedBy rs)
    (hlen : r.2.brResid = iovecLen r.2.brIov) : Consecutive off (rs ++ [r]) := by
  induction rs generalizing off with
  | nil => exact ⟨by simpa using hr, hlen, trivial⟩
  | cons q rs ih =>
    refine ⟨h.1, h.2.1, ih h.2.2 ?_⟩
    rw [hr, movedBy_cons]
    omega

theorem seam_nil : Seam ram es op off 0 [] := ⟨by simp, trivial, by simpa using Covers.nil, rfl⟩

/-- One more part. -/
theorem Seam.snoc {len done : UInt32} (h : Seam ram es op off done.toNat rs)
    (hp : IsPart ram sectsz es len done p) (ho : o.toInt = off + done.toNat) :
    Seam ram es op off p.done.toNat (rs ++ [(op, ⟨p.iov, o, p.todo⟩)]) := by
  refine ⟨?_, h.disk.snoc (by rw [h.count]; exact ho) (congrArg Nat.cast hp.todo), ?_, ?_⟩
  · intro r hr
    rcases List.mem_append.mp hr with hr | hr
    · exact h.direction r hr
    · rw [List.mem_singleton.mp hr]
  · rw [hp.count, List.take_add]
    simpa using h.guest.append hp.covers
  · rw [movedBy_snoc, h.count, hp.count, ← hp.todo]

/-- Rounding the rest down is rounding the whole down, after whole sectors. -/
theorem round_rest {m k : ℕ} (hk : k % sectsz = 0) (hle : k ≤ m) :
    k + ((m - k) - (m - k) % sectsz) = m - m % sectsz := by
  have hmod : (m - k) % sectsz = m % sectsz := by
    obtain ⟨q, rfl⟩ := Nat.dvd_of_mod_eq_zero hk
    exact Nat.sub_mul_mod hle
  have hsub : m % sectsz ≤ m - k := by
    rw [← hmod]
    exact Nat.mod_le ..
  omega

theorem toInt_part {x : UInt64} {done : UInt32} (h : x.toNat + done.toNat < 2 ^ 63) :
    (x + done.toUInt64).toInt64.toInt = x.toNat + done.toNat := by
  have hx : (x + done.toUInt64).toInt64 = Int64.ofNat (x.toNat + done.toNat) := by
    apply Int64.toBitVec_inj.mp
    apply BitVec.eq_of_toNat_eq
    simp
  rw [hx, Int64.toInt_ofNat_of_lt h]
  rfl

theorem toNat_rwOffset (h : c.lba.toNat * sectsz < 2 ^ 63) :
    (c.rwOffset sectsz).toNat = c.lba.toNat * sectsz := by
  rw [Command.rwOffset, UInt64.toNat_mul, UInt64.toNat_ofNat', Nat.mul_mod_mod,
    Nat.mod_eq_of_lt (by omega)]

theorem toNat_rwLen (h : c.sectors.toNat * sectsz < 2 ^ 31) :
    (c.rwLen sectsz).toNat = c.sectors.toNat * sectsz := by
  rw [Command.rwLen, UInt32.toNat_mul, UInt32.toNat_ofNat', Nat.mul_mod_mod,
    Nat.mod_eq_of_lt (by omega)]

theorem be32dec_lt (b : ℕ → UInt8) (k : ℕ) : be32dec b k < 2 ^ 32 := by
  have h₀ := (b k).toNat_lt
  have h₁ := (b (k + 1)).toNat_lt
  have h₂ := (b (k + 2)).toNat_lt
  have h₃ := (b (k + 3)).toNat_lt
  unfold be32dec be16dec
  rw [show k + 2 + 1 = k + 3 by omega]
  omega

theorem toNat_readOffset : c.readOffset.toNat = be32dec c.acmd 2 * 2048 := by
  have hlt := be32dec_lt c.acmd 2
  rw [Command.readOffset, UInt64.toNat_mul, UInt64.toNat_ofNat']
  change be32dec c.acmd 2 % 2 ^ 64 * 2048 % 2 ^ 64 = _
  omega

theorem toNat_readLen (h : c.readSectors.toNat * 2048 < 2 ^ 31) :
    c.readLen.toNat = c.readSectors.toNat * 2048 := by
  rw [Command.readLen, UInt32.toNat_mul]
  change c.readSectors.toNat * 2048 % 2 ^ 32 = _
  omega

section Parts

variable {len : ℕ} {done len' : UInt32}

variable {z : ℕ}

theorem transfer_rw (h : commandHandler atapi c = .rw) : c.transfer atapi z =
    some (if c.isWrite then .write else .read, c.lba.toNat * z, c.sectors.toNat * z) := by
  rw [Command.transfer, h]

theorem transfer_read (h : commandHandler atapi c = .read) : c.transfer atapi z =
    some (.read, be32dec c.acmd 2 * 2048, c.readSectors.toNat * 2048) := by
  rw [Command.transfer, h]

theorem restOf_eq : restOf c.prdt len done.toNat = c.reach len - done.toNat := by
  unfold restOf Command.reach
  omega

/-- What a transfer is when its next part begins. -/
structure Life.Seamed (ram : GuestRam) (atapi : Bool) (sectsz : ℕ) (x : Life) (done : UInt32) :
    Prop where
  straight : x.cmd.Straight atapi sectsz
  seam : ∀ op off len, x.cmd.transfer atapi sectsz = some (op, off, len) →
    Seam ram x.cmd.prdt op off done.toNat x.requests ∧ done.toNat % sectsz = 0 ∧
      done.toNat ≤ x.cmd.reach len

/-- A part is sewn on. -/
theorem Life.Seamed.part {ack : Bool} {addr : ℕ} (h : x.Seamed ram atapi sectsz done)
    (htr : x.cmd.transfer atapi sectsz = some (op, off, len)) (hlen : len'.toNat = len)
    (hp : IsPart ram sectsz x.cmd.prdt len' done p)
    (ho : off + done.toNat < 2 ^ 63 → o.toInt = off + done.toNat) :
    ((x.acks ack).request op ⟨p.iov, o, p.todo⟩).Seaming ram atapi sectsz
      ⟨addr, len', p.done, t, p.more⟩ := by
  obtain ⟨hsmall, hoff⟩ := h.straight.fits op off len htr
  obtain ⟨hseam, hmod, hle⟩ := h.seam op off len htr
  have hreach : x.cmd.reach len ≤ len := Nat.min_le_left ..
  have hcount := hp.count
  have hrest := hp.rest
  rw [hlen, restOf_eq] at hrest
  intro op' off' len'' htr'
  rw [Life.request_cmd, Life.acks_cmd] at htr' ⊢
  rw [htr] at htr'
  cases htr'
  rw [Life.request_requests, Life.acks_requests]
  refine ⟨h.straight.kind, hsmall, hoff, hseam.snoc hp (ho (by omega)), fun hmore => ?_,
    fun hlast => ?_⟩
  · have hwhole := (hp.more hmore).2
    rw [hcount]
    exact ⟨by rw [Nat.add_mod, hmod, hwhole]; simp, by omega⟩
  · have hend := hp.last hlast
    rw [hlen, restOf_eq] at hend
    rw [hcount]
    rcases hend with hend | ⟨hlim, hend⟩
    · exact .inl (by omega)
    · refine .inr ⟨?_, _, List.getLast?_concat, len', done, hlen, ?_, hlim⟩
      · rw [hend]
        exact round_rest hmod hle
      · rw [hp.todo]

theorem seam_rw (h : x.Seamed g.ram false sectsz done) (hh : commandHandler false x.cmd = .rw)
    (hdone : done.toNat < 2 ^ 31) (hfresh : done = 0 → x.Fresh)
    (hl : planRw g sectsz t x.cmd done = .ok l) :
    Goes (Life.Seamless g.ram false sectsz) (Life.Seaming g.ram false sectsz) x fisOn l := by
  obtain ⟨part, hb, hl⟩ := bind_eq_ok.mp hl
  have htr := transfer_rw (z := sectsz) hh
  obtain ⟨hsmall, hoff⟩ := h.straight.fits _ _ _ htr
  have hlen := toNat_rwLen hsmall
  have hpart := buildIov_isPart (by omega) hdone hb
  cases hl
  refine ⟨rfl, fresh_of_ack hfresh, fun br => h.part htr hlen hpart fun hfit => ?_⟩
  rw [← toNat_rwOffset (by omega)] at hfit ⊢
  exact toInt_part hfit

theorem seam_read (h : x.Seamed g.ram atapi sectsz done) (hh : commandHandler atapi x.cmd = .read)
    (hcount : x.cmd.readSectors ≠ 0) (hdone : done.toNat < 2 ^ 31)
    (hl : planRead g sectsz t x.cmd done = .ok l) :
    Goes (Life.Seamless g.ram atapi sectsz) (Life.Seaming g.ram atapi sectsz) x fisOn l := by
  obtain ⟨part, hb, hl⟩ := bind_eq_ok.mp hl
  have htr := transfer_read (z := sectsz) hh
  obtain ⟨hsmall, hoff⟩ := h.straight.fits _ _ _ htr
  have hlen := toNat_readLen hsmall
  have hpart := buildIov_isPart (by omega) hdone hb
  cases hl
  refine ⟨decide_eq_false hcount, nofun,
    fun br => h.part htr hlen hpart fun hfit => ?_⟩
  rw [← toNat_readOffset] at hfit ⊢
  exact toInt_part hfit

end Parts

variable {bc : BlockifCtxt} {P P' : Life → Prop} {K K' : Life → AhciIoreq → Prop}

theorem Goes.and (h : Goes P K x fisOn l) (h' : Goes P' K' x fisOn l) :
    Goes (fun x => P x ∧ P' x) (fun x io => K x io ∧ K' x io) x fisOn l := by
  cases l with
  | answer a => exact ⟨h, h'⟩
  | trimmed first ncq => exact ⟨h.1, h.2, h'.2⟩
  | launch io op fill ack early => exact ⟨h.1, h.2.1, fun br => ⟨h.2.2 br, h'.2.2 br⟩⟩

/-- A command that moves no data has nothing to keep together. -/
theorem Goes.other (h : Goes P K x fisOn l) (hx : x.cmd.transfer atapi sectsz = none) :
    Goes (Life.Seamless ram atapi sectsz) (Life.Seaming ram atapi sectsz) x fisOn l := by
  cases l with
  | answer a =>
    intro op off len how fisOn htr
    rw [Life.finish_cmd, hx] at htr
    cases htr
  | trimmed first ncq =>
    refine ⟨h.1, fun op off len how fisOn htr => ?_⟩
    rw [Life.finish_cmd, Life.acks_cmd, hx] at htr
    cases htr
  | launch io op fill ack early =>
    refine ⟨h.1, h.2.1, fun br op' off len htr => ?_⟩
    rw [Life.request_cmd, Life.acks_cmd, hx] at htr
    cases htr

theorem seamed_begin (hc : c.Straight atapi sectsz) : (Life.begin c).Seamed ram atapi sectsz 0 :=
  ⟨hc, fun _ _ _ _ => ⟨seam_nil, Nat.zero_mod _, Nat.zero_le _⟩⟩

theorem Life.Seaming.seamed (h : x.Seaming ram atapi sectsz io) (hmore : io.more = true)
    (hkind : commandHandler atapi x.cmd = .rw → atapi = false) :
    x.Seamed ram atapi sectsz io.done := by
  refine ⟨⟨hkind, fun op off len htr => ?_⟩, fun op off len htr => ?_⟩
  · obtain ⟨-, hlen, hoff, -⟩ := h op off len htr
    exact ⟨hlen, hoff⟩
  · obtain ⟨-, -, -, hseam, hnext, -⟩ := h op off len htr
    exact ⟨hseam, hnext hmore⟩

theorem seam_issue (hc : c.Proper atapi fisOn bc.bcSectsz) (hs : c.Straight atapi bc.bcSectsz)
    (hl : plan g bc.bcSectsz m t c (commandHandler atapi c) = .ok l) :
    Goes (Life.Seamless g.ram atapi bc.bcSectsz) (Life.Seaming g.ram atapi bc.bcSectsz) (.begin c)
      fisOn l := by
  have hwhole := goes_issue hc hl
  cases hh : commandHandler atapi c with
  | reply | flush | trim => exact hwhole.other (by simp [Life.begin, Command.transfer, hh])
  | rw =>
    rw [hh] at hl
    cases hs.kind hh
    exact seam_rw (seamed_begin hs) hh (by decide) (fun _ => fresh_begin) hl
  | read =>
    rw [hh] at hl
    exact seam_read (seamed_begin hs) hh (hc.counted hh).1 (by decide) hl

theorem not_dsm_of_rw (h : commandHandler atapi c = .rw) : c.isDsm = false := by
  by_contra hdsm
  rw [Bool.not_eq_false] at hdsm
  rcases handler_trims atapi (isDsm_code hdsm) with hs | hs <;> rw [hs] at h <;> cases h

theorem seam_next (hc : x.cmd.ProperNext atapi bc.bcSectsz) (hx : x.Underway atapi io)
    (hseam : x.Seaming g.ram atapi bc.bcSectsz io) (hmore : io.more = true)
    (hfis : fisOn = true) (hl : planNext g bc.bcSectsz m atapi io x.cmd = .ok l) :
    Goes (Life.Seamless g.ram atapi bc.bcSectsz) (Life.Seaming g.ram atapi bc.bcSectsz) x fisOn l := by
  have hwhole : Goes Life.Whole (Life.Underway atapi) x fisOn l :=
    goes_next hc hx hmore (fun _ => rfl) hfis hl
  cases hh : commandHandler atapi x.cmd with
  | reply | flush | trim => exact hwhole.other (by simp [Command.transfer, hh])
  | rw =>
    have hat : atapi = false := (hseam _ _ _ (transfer_rw hh)).1 hh
    subst hat
    have hdone : io.done = 0 → x.Fresh := fun h => absurd h (hx.done_ne_zero hmore)
    rw [planNext, if_neg Bool.false_ne_true, if_neg (by simp [not_dsm_of_rw hh])] at hl
    exact seam_rw (hseam.seamed hmore fun _ => rfl) hh hx.small hdone hl
  | read =>
    have hat := atapi_of_read hh
    subst hat
    exact seam_read (hseam.seamed hmore (by simp [hh])) hh hc.1 hx.small hl

theorem seamless_finish {err : Option Errno} {how : Completion}
    (hseam : x.Seaming ram atapi sectsz io) (hlast : err ≠ none ∨ io.more = false) :
    (x.finish (.completed how (!(finalAnswer atapi err).fails) fisOn)).Seamless ram atapi sectsz := by
  intro op off len how' fisOn' htr hend
  have hok : (!(finalAnswer atapi err).fails) = true := by
    injection hend
  obtain ⟨-, -, -, hs, -, hreached⟩ := hseam op off len htr
  have herr : err = none := by
    cases err with
    | none => rfl
    | some e => cases atapi <;> cases hok
  exact ⟨_, hs, hreached (hlast.resolve_left (not_not.mpr herr))⟩

theorem rules_seamless : Rules atapi bc (fun x => x.Whole ∧ x.Seamless ram atapi bc.bcSectsz)
    (fun x io => x.Underway atapi io ∧ x.Seaming ram atapi bc.bcSectsz io)
    (straightTurn ram bc) (straightCallback ram bc) where
  issue hat hT hissues hl := by
    obtain ⟨hproper, rfl, hstraight⟩ := hT
    have hc := hat ▸ hproper _ hissues
    exact (goes_issue hc hl).and (seam_issue hc (hat ▸ hstraight _ hissues) hl)
  next hat hB hserves hmore hl := by
    obtain ⟨hproper, rfl, hsame⟩ := hB
    obtain ⟨rest, hlives⟩ := hserves.lives
    have hc := hat ▸ hproper.2.2 rfl hmore
    rw [hsame _ rest hlives] at hl hc
    exact (goes_next hc hserves.known.1 hmore (fun _ => rfl) hproper.1 hl).and
      (seam_next hc hserves.known.1 hserves.known.2 hmore hproper.1 hl)
  finish hat hB hserves hlast := by
    obtain ⟨hproper, -, hsame⟩ := hB
    obtain ⟨rest, hlives⟩ := hserves.lives
    exact ⟨whole_finish hserves.known.1 (fun ha => hproper.2.1 (hat.trans ha) _ rest hlives)
      hproper.1, seamless_finish hserves.known.2 hlast⟩
  withdraw _ _ := ⟨trivial, nofun⟩

/-- A read of the first sector with one entry of `n + 1` bytes. -/
def readTable (n : ℕ) : HostMem :=
  listAt 1 ([0x27, 0x80, 0x25] ++ List.replicate 9 0 ++ [0x01] ++ List.replicate 127 0 ++
    [.ofNat n, .ofNat (n / 256)])

theorem read_straight : straightTurn (guestOf (readTable 511)).ram plainFile
    (guestOf (readTable 511)) 1 (slotReady (readTable 511)) := by
  have hat : ((slotReady (readTable 511)).port 0).atapi = false := rfl
  have hread : ∀ c, Issues (guestOf (readTable 511)) 1 (slotReady (readTable 511)) c →
      c = Command.read (readTable 511) 0x400 1 := fun c h => issues_read h rfl
  have hh : commandHandler false (Command.read (readTable 511) 0x400 1) = .rw := rfl
  have htr : (Command.read (readTable 511) 0x400 1).transfer false 512 = some (.read, 0, 512) := by
    decide +kernel
  refine ⟨fun c h => ?_, rfl, fun c h => ?_⟩
  · rw [hread c h, hat]
    refine ⟨by decide +kernel, fun hr => ?_, fun _ => by decide +kernel, nofun⟩
    cases hr
  · rw [hread c h, hat]
    refine ⟨fun _ => rfl, fun op off len h => ?_⟩
    rw [show plainFile.bcSectsz = 512 from rfl, htr] at h
    cases h
    decide

/-- The requests in the lives of a slot. -/
def requestsOf (ls : Option (List Life)) : List (Blockop × BlockifReq) :=
  (ls.getD []).flatMap Life.requests

def shortRead : Hba :=
  (exec (step macBuild) (Hba.start plainFile false) (issueFirst (readTable 99))).toOption.getD
    (Hba.start plainFile false)

end HyperCog.Ahci
