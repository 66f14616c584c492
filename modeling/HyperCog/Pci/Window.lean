import HyperCog.Pci.Alloc

/-! The windows that `init_pci` records for the buses, and the BARs that it places in them. -/
namespace HyperCog.Pci

open Machine List BitVec

/-- A call of `pci_emul_alloc_bar`. -/
structure BarRequest (ι : Type) where
  dev : ι
  idx : ℕ
  type : BarType
  size : BitVec 64
  malloc : Bool
  deriving DecidableEq, Repr

structure BusInfo where
  iobase : BitVec 16
  iolimit : BitVec 16
  membase32 : BitVec 32
  memlimit32 : BitVec 32
  membase64 : BitVec 64
  memlimit64 : BitVec 64
  /-- the BARs of its devices, as they were allocated -/
  bars : List Pcibar
  deriving DecidableEq, Repr

variable {ι : Type} {x size addr : BitVec 64} {b b' : Bases}

section Init

variable [DecidableEq ι] (w : Setup ι)

/-- There is no host address for the BAR. -/
def allocBar (q : BarRequest ι) : Except SetupStop (Setup ι) :=
  allocPbar w ⟨q.dev, q.idx, 0, q.type, q.size, q.malloc⟩

/-- The requests of the devices on a bus. -/
def allocBars (w : Setup ι) : List (BarRequest ι) → Except SetupStop (Setup ι × List Pcibar)
  | [] => .ok (w, [])
  | q :: qs => do
    let w ← allocBar w q
    let (w', bars) ← allocBars w qs
    .ok (w', (w.world.devs q.dev).bar q.idx :: bars)

/-- The base of the 64-bit window passes through 32 bits. -/
def initBus (qs : List (BarRequest ι)) : Except SetupStop (Setup ι × BusInfo) := do
  let (w', bars) ← allocBars w qs
  let bases := w'.bases.nextBus
  .ok ({ w' with bases := bases, bus := w'.bus + 1 },
    { iobase := w.bases.iobase.setWidth 16
      iolimit := bases.iobase.setWidth 16
      membase32 := w.bases.membase32.setWidth 32
      memlimit32 := bases.membase32.setWidth 32
      membase64 := (w.bases.membase64.setWidth 32).setWidth 64
      memlimit64 := bases.membase64
      bars := bars })

/-- The configured buses, each with the requests of its devices. -/
def initPci (malloc : Bool) (w : Setup ι) :
    List (List (BarRequest ι)) → Except SetupStop (World ι × List BusInfo)
  | [] => (registerEcfg malloc w.world).map fun s => (s, [])
  | qs :: buses => do
    let (w, bi) ← initBus w qs
    let (s, bis) ← initPci malloc w buses
    .ok (s, bi :: bis)

end Init

/-- The arena whose limit and window are those of a BAR. -/
def arenaOf (type : BarType) (size : BitVec 64) : Arena :=
  match type with
  | .io => .io
  | .mem64 => if size > 32 * 1024 * 1024 then .high else .low
  | _ => .low

def Pcibar.arena (b : Pcibar) : Arena := arenaOf b.type b.size

structure Window where
  base : ℕ
  limit : ℕ

def Window.holds (x : Window) (p : ℕ) : Prop := x.base ≤ p ∧ p < x.limit

def BusInfo.window (bi : BusInfo) : Arena → Window
  | .io => ⟨bi.iobase.toNat, bi.iolimit.toNat⟩
  | .low => ⟨bi.membase32.toNat, bi.memlimit32.toNat⟩
  | .high => ⟨bi.membase64.toNat, bi.memlimit64.toNat⟩

/-- What the tables for the firmware rely on. -/
structure Sound (bis : List BusInfo) : Prop where
  size : ∀ bi ∈ bis, ∀ b ∈ bi.bars, ∃ k, b.size.toNat = 2 ^ k
  aligned : ∀ bi ∈ bis, ∀ b ∈ bi.bars, b.size.toNat ∣ b.addr.toNat
  limit : ∀ bi ∈ bis, ∀ b ∈ bi.bars, b.addr.toNat + b.size.toNat ≤ b.arena.limit.toNat
  apart : (bis.flatMap BusInfo.bars).Pairwise fun b b' => b.type = b'.type → b.extent.Apart b'.extent
  window : ∀ bi ∈ bis, ∀ b ∈ bi.bars, (bi.window b.arena).base ≤ b.addr.toNat ∧
    b.addr.toNat + b.size.toNat ≤ (bi.window b.arena).limit
  windows : bis.Pairwise fun bi bi' => ∀ ar p, ¬((bi.window ar).holds p ∧ (bi'.window ar).holds p)

/-- The type and the rounded size of a BAR. -/
abbrev Shape := BarType × BitVec 64

def BarRequest.shape {ι : Type} (q : BarRequest ι) : Shape := (q.type, barSize q.type q.size)

def Pcibar.shape (b : Pcibar) : Shape := (b.type, b.size)

/-- The BAR is placed at the host address that the device gave, which is zero. -/
def Shape.atHost (x : Shape) : Prop := x.1 = .mem64 ∧ x.2 = 0x100000000

/-- A BAR in memory of the 64-bit type that lies below 4 GiB. -/
def Shape.below (x : Shape) : Prop := x.1 = .mem64 ∧ (x.2 ≤ 32 * 1024 * 1024 ∨ x.2 = 0x100000000)

def Compatible (x y : Shape) : Prop := ¬(x.atHost ∧ y.below) ∧ ¬(y.atHost ∧ x.below)

/-- Where blocks end that are placed one after the other, each at a multiple of its size. -/
def packed (base : ℕ) (sizes : List ℕ) : ℕ := sizes.foldl (fun p size => (p + size - 1) / size * size + size) base

def ioSizes (xs : List Shape) : List ℕ := (xs.filter fun x => x.1 = .io).map fun x => x.2.toNat

/-- At most one bus, no size at which the addition wraps, nothing of the 64-bit type where a BAR of 4 GiB lies, and
ports that end low enough for the slop. -/
structure Benign {ι : Type} (buses : List (List (BarRequest ι))) : Prop where
  single : buses.length ≤ 1
  wraps : ∀ q ∈ buses.flatten, q.shape.2 ≠ twoPow 64 63
  host : (buses.flatten.map BarRequest.shape).Pairwise Compatible
  ports : packed pciEmulIobase.toNat (ioSizes (buses.flatten.map BarRequest.shape)) ≤ 0xffc0

instance (x : Shape) : Decidable x.atHost := inferInstanceAs (Decidable (_ ∧ _))

instance (x : Shape) : Decidable x.below := inferInstanceAs (Decidable (_ ∧ _))

instance (x y : Shape) : Decidable (Compatible x y) := inferInstanceAs (Decidable (_ ∧ _))

variable {bars : List Pcibar} {bar bar' : Pcibar} {bi : BusInfo} {bis : List BusInfo} {b'' : Bases} {type : BarType}
  {w w' : Setup ι} {qs : List (BarRequest ι)} {s : World ι}

section Steps

variable [DecidableEq ι] {q : BarRequest ι}

variable {t : World ι} {i : ι} {malloc : ℕ → Bool} {idx : ℕ}

theorem registerBar_devs (h : registerBar s i malloc idx = .ok t) : t.devs = s.devs := by
  have hio : ∀ x : Except Abort (Option Errno × (ℕ → Port ι)), x >>= assertIo s = .ok t →
    t.devs = s.devs := by
    intro x hx
    obtain ⟨⟨_ | e, g⟩, -, hg⟩ := bind_eq_ok.mp hx
    · cases hg
      rfl
    · cases hg
  have hmem : ∀ x : Option Errno × List (MemRange ι), assertMem s x = .ok t → t.devs = s.devs := by
    rintro ⟨_ | e, g⟩ hg
    · cases hg
      rfl
    · cases hg
  unfold registerBar modifyBarRegistration at h
  split at h
  · exact hio _ h
  · exact hmem _ h
  · exact hmem _ h
  · cases h
  · cases h

theorem registerBar_space (h : registerBar s i malloc idx = .ok t) :
    ((s.devs i).bar idx).type.space ≠ none := by
  unfold registerBar modifyBarRegistration at h
  intro hnone
  split at h
  case h_4 | h_5 => cases h
  all_goals
    rename_i htype
    rw [htype] at hnone
    cases hnone

theorem allocBar_eq_ok (h : allocBar w q = .ok w') : ∃ addr bases,
    allocAddr w.bases 0 q.type (barSize q.type q.size) = .ok (addr, bases) ∧ q.type.space ≠ none ∧
      w'.bases = bases ∧ w'.bus = w.bus ∧
      (w'.world.devs q.dev).bar q.idx = ⟨q.type, barSize q.type q.size, addr⟩ := by
  obtain ⟨addr, bases, haddr, -, hreg, hbases, hbus⟩ := allocPbar_eq_ok h
  have hdevs := registerBar_devs hreg
  have hspace := registerBar_space hreg
  have hself : ((w.world.setDev q.dev (placeBar (w.world.devs q.dev) q.idx
    ⟨q.type, barSize q.type q.size, addr⟩)).devs
      q.dev).bar q.idx = ⟨q.type, barSize q.type q.size, addr⟩ := by
    dsimp only [World.setDev]
    rw [Function.update_self, bar_placeBar, if_pos rfl]
  refine ⟨addr, bases, haddr, ?_, hbases, hbus, ?_⟩
  · dsimp only at hspace
    rw [hself] at hspace
    exact hspace
  · rw [hdevs]
    exact hself

/-- The BARs have the types and sizes that were asked for. -/
theorem allocBars_shape (h : allocBars w qs = .ok (w', bars)) :
    bars.map Pcibar.shape = qs.map BarRequest.shape ∧ w'.bus = w.bus := by
  induction qs generalizing w bars with
  | nil =>
    cases h
    exact ⟨rfl, rfl⟩
  | cons q qs ih =>
    rw [allocBars, bind_eq_ok] at h
    obtain ⟨w₁, hw₁, h⟩ := h
    obtain ⟨⟨w₂, bars₂⟩, hrest, h⟩ := bind_eq_ok.mp h
    cases h
    obtain ⟨addr, bases, -, -, -, hbus, hbar⟩ := allocBar_eq_ok hw₁
    obtain ⟨hshape, hbus'⟩ := ih hrest
    refine ⟨?_, hbus'.trans hbus⟩
    rw [map_cons, map_cons, hshape, hbar]
    rfl

end Steps

section Rounding

variable {limit next : BitVec 64} {k : ℕ}

/-- Every size is rounded to a power of two. -/
theorem barSize_twoPow (type : BarType) (size : BitVec 64) : ∃ k ≤ 63, barSize type size = twoPow 64 k := by
  refine barSize_eq (by decide) type ?_
  by_cases hle : size.toNat ≤ 2 ^ 63
  · exact roundSize_eq (by decide) hle
  · -- the shift by 64 leaves nothing
    left
    have hlt := size.isLt
    have hlog : size.toNat.log2 = 63 := (Nat.log2_eq_iff (by omega)).mpr (by omega)
    have h0 : size ≠ 0 := by
      rintro rfl
      exact hle (by decide)
    have hfls : Bank.fls size = 64 := by rw [Bank.fls, if_neg h0, hlog]
    have hand : size &&& (size - 1) ≠ 0 := by
      intro hcon
      have hpow := congrArg BitVec.toNat hcon
      have hone : 1 ≤ size.toNat := by omega
      have hsub : (size - 1).toNat = size.toNat - 1 := toNat_sub_of_le (le_def.mpr hone)
      rw [toNat_and, hsub] at hpow
      have heq := Align.eq_two_pow_of_and_pred (by omega) hpow
      rw [hlog] at heq
      omega
    rw [roundSize, if_pos hand, hfls]
    decide

theorem div_mul_of_multiple {a m r : ℕ} (hm : 0 < m) (hdvd : m ∣ r) (hle : a ≤ r) (hlt : r < a + m) :
    (a + m - 1) / m * m = r := by
  obtain ⟨c, rfl⟩ := hdvd
  have hdiv : (a + m - 1) / m = c := by
    refine Nat.div_eq_of_lt_le ?_ ?_
    · rw [Nat.mul_comm]
      omega
    · rw [Nat.succ_mul, Nat.mul_comm]
      omega
  rw [hdiv, Nat.mul_comm]

end Rounding

/-- The next block of an arena that starts at `p`. -/
def Pcibar.packs (bar : Pcibar) (p : ℕ) : ℕ :=
  (p + bar.size.toNat - 1) / bar.size.toNat * bar.size.toNat + bar.size.toNat

/-- How one BAR is placed. -/
structure Step (b b' : Bases) (bar : Pcibar) : Prop where
  size : ∃ k ≤ 62, bar.size = twoPow 64 k
  aligned : bar.size.toNat ∣ bar.addr.toNat
  host : bar.shape.atHost → bar.addr = 0 ∧ b' = b
  arena : ¬bar.shape.atHost → (b.next bar.arena).toNat ≤ bar.addr.toNat ∧
    (b'.next bar.arena).toNat = bar.addr.toNat + bar.size.toNat ∧
    bar.addr.toNat + bar.size.toNat ≤ bar.arena.limit.toNat ∧
    (b'.next bar.arena).toNat = bar.packs (b.next bar.arena).toNat
  other : ∀ ar, ar ≠ bar.arena → b'.next ar = b.next ar

/-- The arena that `allocAddr_eq` finds is that of the BAR. -/
theorem allocAddr_arena (htype : type.space ≠ none) (hsize : ¬Shape.atHost (type, size)) (b : Bases) :
    allocAddr b 0 type size = (allocResource (b.next (arenaOf type size)) (arenaOf type size).limit size).map
      fun r => (r.1, b.withNext r.2 (arenaOf type size)) := by
  cases type with
  | none | memhi64 => exact absurd rfl htype
  | io => rfl
  | mem32 => rfl
  | mem64 =>
    unfold allocAddr arenaOf
    by_cases hbig : size > 32 * 1024 * 1024
    · have hne : size ≠ 0x100000000 := fun heq => hsize ⟨rfl, heq⟩
      simp only [if_pos hbig, if_neg hne]
      rfl
    · simp only [if_neg hbig]
      rfl

theorem allocAddr_step (htype : type.space ≠ none)
    (hpow : ∃ k ≤ 62, size = twoPow 64 k) (hb : ∀ ar, (b.next ar).toNat ≤ 2 ^ 41)
    (h : allocAddr b 0 type size = .ok (addr, b')) : Step b b' ⟨type, size, addr⟩ := by
  obtain ⟨k, hk, rfl⟩ := hpow
  obtain ⟨htwo, -⟩ := toNat_twoPow_le hk
  by_cases hhost : Shape.atHost (type, twoPow 64 k)
  · obtain ⟨htype, hsize⟩ := hhost
    dsimp only at htype hsize
    have hzero : addr = 0 ∧ b' = b := by
      rw [htype, hsize] at h
      cases h
      exact ⟨by decide, rfl⟩
    obtain ⟨rfl, rfl⟩ := hzero
    exact ⟨⟨k, hk, rfl⟩, Nat.dvd_zero _, fun _ => ⟨rfl, rfl⟩, fun hnot => absurd ⟨htype, hsize⟩ hnot,
      fun _ _ => rfl⟩
  · rw [allocAddr_arena htype hhost] at h
    generalize har : arenaOf type (twoPow 64 k) = ar at h
    have harena : (⟨type, twoPow 64 k, addr⟩ : Pcibar).arena = ar := har
    cases hres : allocResource (b.next ar) ar.limit (twoPow 64 k) with
    | error e =>
      rw [hres] at h
      cases h
    | ok r =>
      obtain ⟨addr', next⟩ := r
      rw [hres] at h
      cases h
      obtain ⟨hmul, hle, hlt, hnext, hlimit⟩ := allocResource_ok hk (hb ar) hres
      have hdvd : 2 ^ k ∣ addr'.toNat := Align.dvd_of_and_eq_zero (by omega) hmul
      have hself : (b.withNext next ar).next ar = next := by cases ar <;> rfl
      refine ⟨⟨k, hk, rfl⟩, by rw [htwo]; exact hdvd, fun hcon => absurd hcon hhost, fun _ => ?_,
        fun ar' har' => ?_⟩
      · rw [harena, hself]
        simp only [Pcibar.packs, htwo]
        rw [div_mul_of_multiple (Nat.two_pow_pos k) hdvd hle hlt]
        exact ⟨hle, hnext, by rw [← hnext]; exact hlimit, hnext⟩
      · rw [harena] at har'
        rcases next_withNext b next ar ar' with ⟨-, heq⟩ | heq
        · exact absurd heq har'
        · exact heq

/-- How the BARs of a bus are placed, one after the other. -/
structure Laid (b b' : Bases) (bars : List Pcibar) : Prop where
  size : ∀ bar ∈ bars, ∃ k ≤ 62, bar.size = twoPow 64 k
  aligned : ∀ bar ∈ bars, bar.size.toNat ∣ bar.addr.toNat
  host : ∀ bar ∈ bars, bar.shape.atHost → bar.addr = 0
  arena : ∀ bar ∈ bars, ¬bar.shape.atHost → (b.next bar.arena).toNat ≤ bar.addr.toNat ∧
    bar.addr.toNat + bar.size.toNat ≤ (b'.next bar.arena).toNat ∧
    bar.addr.toNat + bar.size.toNat ≤ bar.arena.limit.toNat
  mono : ∀ ar, (b.next ar).toNat ≤ (b'.next ar).toNat
  reach : ∀ ar, b'.next ar = b.next ar ∨ ∃ bar ∈ bars, ¬bar.shape.atHost ∧ bar.arena = ar ∧
    bar.addr.toNat + bar.size.toNat = (b'.next ar).toNat
  apart : bars.Pairwise fun bar bar' =>
    Compatible bar.shape bar'.shape → bar.type = bar'.type → bar.extent.Apart bar'.extent
  io : (b'.next .io).toNat = packed (b.next .io).toNat (ioSizes (bars.map Pcibar.shape))

theorem laid_nil (b : Bases) : Laid b b [] :=
  ⟨by simp, by simp, by simp, by simp, fun _ => Nat.le_refl _, fun _ => .inl rfl, .nil, rfl⟩

/-- The next address of an arena moves only to the end of the BAR. -/
theorem Step.next (h : Step b b' bar) (ar : Arena) : b'.next ar = b.next ar ∨ ¬bar.shape.atHost ∧
    bar.arena = ar ∧
    bar.addr.toNat + bar.size.toNat = (b'.next ar).toNat := by
  by_cases har : bar.arena = ar
  · by_cases hh : bar.shape.atHost
    · exact .inl (by rw [(h.host hh).2])
    · subst har
      exact .inr ⟨hh, rfl, (h.arena hh).2.1.symm⟩
  · exact .inl (h.other ar (Ne.symm har))

theorem Step.mono (h : Step b b' bar) (ar : Arena) : (b.next ar).toNat ≤ (b'.next ar).toNat := by
  rcases h.next ar with heq | ⟨hh, rfl, hend⟩
  · rw [heq]
  · have hle := (h.arena hh).1
    omega

theorem arena_eq_high (ht : bar.type = .mem64) (hb : ¬bar.shape.below) : bar.arena = .high := by
  have hbig : bar.size > 32 * 1024 * 1024 := by
    by_contra hle
    exact hb ⟨ht, .inl (BitVec.not_lt.mp hle)⟩
  unfold Pcibar.arena arenaOf
  rw [ht]
  exact if_pos hbig

theorem arena_of_type (h : bar.type = bar'.type) :
    bar.arena = bar'.arena ∨ bar.arena = .low ∧ bar'.arena = .high ∨ bar.arena = .high ∧ bar'.arena = .low := by
  unfold Pcibar.arena arenaOf
  rw [h]
  split
  · exact .inl rfl
  · split_ifs <;> simp
  · exact .inl rfl

theorem span_atHost (h : bar.shape.atHost) (ha : bar.addr = 0) : bar.addr.toNat = 0 ∧ bar.size.toNat = 2 ^ 32 :=
  ⟨congrArg BitVec.toNat ha, congrArg BitVec.toNat h.2⟩

/-- Two BARs of one type, the second placed after the first. -/
theorem Step.apart (h : Step b b' bar) (hhigh : pciEmulMembase64.toNat ≤ (b.next .high).toNat)
    (hhost : bar'.shape.atHost → bar'.addr = 0)
    (harena : ¬bar'.shape.atHost → (b'.next bar'.arena).toNat ≤ bar'.addr.toNat ∧
      bar'.addr.toNat + bar'.size.toNat ≤ bar'.arena.limit.toNat)
    (hc : Compatible bar.shape bar'.shape) (ht : bar.type = bar'.type) :
    bar.extent.Apart bar'.extent := by
  change bar.addr.toNat + bar.size.toNat ≤ bar'.addr.toNat ∨ bar'.addr.toNat + bar'.size.toNat ≤ bar.addr.toNat
  have hfar : 2 ^ 32 ≤ pciEmulMembase64.toNat := by decide
  have hlimit : Arena.limit .low ≤ pciEmulMembase64 := by decide
  rw [le_def] at hlimit
  have hnext := h.mono .high
  by_cases h1 : bar.shape.atHost
  · have hnot : ¬bar'.shape.below := fun hb => hc.1 ⟨h1, hb⟩
    have hh : bar'.arena = .high := arena_eq_high (ht ▸ h1.1) hnot
    have h2 : ¬bar'.shape.atHost := fun h2 => hnot ⟨h2.1, .inr h2.2⟩
    have hle := (harena h2).1
    rw [hh] at hle
    obtain ⟨hzero, hsize⟩ := span_atHost h1 (h.host h1).1
    omega
  obtain ⟨hle, hend, hlim, -⟩ := h.arena h1
  by_cases h2 : bar'.shape.atHost
  · have hh : bar.arena = .high := arena_eq_high (ht.trans h2.1) fun hb => hc.2 ⟨h2, hb⟩
    rw [hh] at hle
    obtain ⟨hzero, hsize⟩ := span_atHost h2 (hhost h2)
    omega
  obtain ⟨hle', hlim'⟩ := harena h2
  rcases arena_of_type ht with heq | ⟨hlow, hh⟩ | ⟨hh, hlow⟩
  · rw [← heq] at hle'
    omega
  · rw [hlow] at hlim
    rw [hh] at hle'
    omega
  · rw [hlow] at hlim'
    rw [hh] at hle
    omega

theorem ioSizes_cons (bar : Pcibar) (bars : List Pcibar) : ioSizes ((bar :: bars).map Pcibar.shape) =
    if bar.type = .io then bar.size.toNat :: ioSizes (bars.map Pcibar.shape) else ioSizes (bars.map Pcibar.shape) := by
  unfold ioSizes
  by_cases ht : bar.type = .io
  all_goals simp [Pcibar.shape, ht]

theorem arena_eq_io : bar.arena = .io ↔ bar.type = .io := by
  unfold Pcibar.arena arenaOf
  cases ht : bar.type <;> simp
  split_ifs <;> simp

theorem Step.laid (h : Step b b' bar) (hl : Laid b' b'' bars)
    (hhigh : pciEmulMembase64.toNat ≤ (b.next .high).toNat) : Laid b b'' (bar :: bars) := by
  refine ⟨?_, ?_, ?_, ?_, fun ar => Nat.le_trans (h.mono ar) (hl.mono ar), fun ar => ?_, ?_, ?_⟩
  · exact forall_mem_cons.mpr ⟨h.size, hl.size⟩
  · exact forall_mem_cons.mpr ⟨h.aligned, hl.aligned⟩
  · exact forall_mem_cons.mpr ⟨fun hh => (h.host hh).1, hl.host⟩
  · refine forall_mem_cons.mpr ⟨fun hh => ?_, fun bar' hb' hh => ?_⟩
    · obtain ⟨hle, hend, hlim, -⟩ := h.arena hh
      exact ⟨hle, by rw [← hend]; exact hl.mono _, hlim⟩
    · obtain ⟨hle, hend, hlim⟩ := hl.arena bar' hb' hh
      exact ⟨Nat.le_trans (h.mono _) hle, hend, hlim⟩
  · rcases hl.reach ar with heq | ⟨bar', hb', hh, har, hend⟩
    · rw [heq]
      exact (h.next ar).imp_right fun hnext => ⟨bar, mem_cons_self, hnext⟩
    · exact .inr ⟨bar', mem_cons_of_mem _ hb', hh, har, hend⟩
  · refine pairwise_cons.mpr ⟨fun bar' hb' => ?_, hl.apart⟩
    refine h.apart hhigh (hl.host bar' hb') fun hh => ?_
    obtain ⟨hle, -, hlim⟩ := hl.arena bar' hb' hh
    exact ⟨hle, hlim⟩
  · rw [hl.io, ioSizes_cons]
    by_cases ht : bar.type = .io
    · have har : bar.arena = .io := arena_eq_io.mpr ht
      have hh : ¬bar.shape.atHost := fun hcon => by cases ht.symm.trans hcon.1
      obtain ⟨-, -, -, hpack⟩ := h.arena hh
      rw [har] at hpack
      rw [if_pos ht, hpack]
      rfl
    · have har : Arena.io ≠ bar.arena := fun hcon => ht (arena_eq_io.mp hcon.symm)
      rw [if_neg ht, h.other .io har]

theorem Step.bound {bus : ℕ} (h : Step b b' bar) (hb : ∀ ar : Arena, (b.next ar).toNat ≤ ar.bound bus)
    (ar : Arena) :
    (b'.next ar).toNat ≤ ar.bound bus := by
  rcases h.next ar with heq | ⟨hh, rfl, hend⟩
  · rw [heq]
    exact hb ar
  · rw [← hend]
    exact Nat.le_trans (h.arena hh).2.2.1 (Arena.limit_le_bound _ bus)

/-- The next addresses of the arenas, before the devices of a bus. -/
structure Cursors (w : Setup ι) : Prop where
  bound : ∀ ar : Arena, (w.bases.next ar).toNat ≤ ar.bound w.bus
  bus : w.bus ≤ maxbuses
  high : pciEmulMembase64.toNat ≤ (w.bases.next .high).toNat

/-- After a bus. -/
theorem Cursors.nextBus (hw : Cursors w) (hlt : w.bus < maxbuses) (hb : w'.bases = w.bases.nextBus)
    (hbus : w'.bus = w.bus + 1) : Cursors w' := by
  have hnext := nextBus_ok hlt hw.bound
  refine ⟨fun ar => ?_, by rw [hbus]; exact hlt, ?_⟩
  · rw [hb, hbus]
    exact (hnext ar).2
  · rw [hb]
    exact Nat.le_trans hw.high (hnext .high).1

theorem cursors_start (devs : ι → Devinst) (ports : ℕ → Bool) (lowmem : BitVec 32) :
    Cursors (start devs ports lowmem) := by
  have hlow : (lowmem.setWidth 64).toNat ≤ 2 ^ 32 := by
    rw [toNat_setWidth_of_le (by decide)]
    exact Nat.le_of_lt lowmem.isLt
  refine ⟨fun ar => ?_, Nat.zero_le _, Nat.le_refl _⟩
  cases ar with
  | io => exact (by decide : pciEmulIobase.toNat ≤ Arena.bound 0 .io)
  | low => exact Nat.le_trans hlow (by decide : 2 ^ 32 ≤ Arena.bound 0 .low)
  | high => exact (by decide : pciEmulMembase64.toNat ≤ Arena.bound 0 .high)

section Buses

variable [DecidableEq ι] {buses : List (List (BarRequest ι))} {malloc : Bool}

theorem allocBars_laid (h : allocBars w qs = .ok (w', bars))
    (hwraps : ∀ q ∈ qs, q.shape.2 ≠ twoPow 64 63) (hw : Cursors w) :
    Laid w.bases w'.bases bars ∧ Cursors w' := by
  induction qs generalizing w bars with
  | nil =>
    cases h
    exact ⟨laid_nil _, hw⟩
  | cons q qs ih =>
    rw [allocBars, bind_eq_ok] at h
    obtain ⟨w₁, hw₁, h⟩ := h
    obtain ⟨⟨w₂, bars₂⟩, hrest, h⟩ := bind_eq_ok.mp h
    cases h
    obtain ⟨addr, bases, haddr, htype, rfl, hbus, hbar⟩ := allocBar_eq_ok hw₁
    obtain ⟨hne, hwraps⟩ := forall_mem_cons.mp hwraps
    have hpow : ∃ k ≤ 62, barSize q.type q.size = twoPow 64 k := by
      obtain ⟨k, hk, heq⟩ := barSize_twoPow q.type q.size
      refine ⟨k, ?_, heq⟩
      by_contra hlt
      have hk63 : k = 63 := by omega
      exact hne (heq.trans (by rw [hk63]))
    have hsmall : ∀ ar, (w.bases.next ar).toNat ≤ 2 ^ 41 := fun ar =>
      Nat.le_trans (Nat.le_trans (hw.bound ar) (ar.bound_le hw.bus)) (by decide)
    have hstep := allocAddr_step htype hpow hsmall haddr
    rw [← hbar] at hstep
    have hcur : Cursors w₁ := by
      refine ⟨?_, hbus ▸ hw.bus, Nat.le_trans hw.high (hstep.mono .high)⟩
      rw [hbus]
      exact hstep.bound hw.bound
    obtain ⟨hlaid, hcur'⟩ := ih hrest hwraps hcur
    exact ⟨hstep.laid hlaid hw.high, hcur'⟩

theorem initBus_eq_ok (h : initBus w qs = .ok (w', bi)) : ∃ w₁, allocBars w qs = .ok (w₁, bi.bars) ∧
    w'.bases = w₁.bases.nextBus ∧ w'.bus = w₁.bus + 1 ∧
    bi.iobase = w.bases.iobase.setWidth 16 ∧ bi.iolimit = w'.bases.iobase.setWidth 16 ∧
    bi.membase32 = w.bases.membase32.setWidth 32 ∧ bi.memlimit32 = w'.bases.membase32.setWidth 32 ∧
    bi.membase64 = (w.bases.membase64.setWidth 32).setWidth 64 ∧ bi.memlimit64 = w'.bases.membase64 := by
  unfold initBus at h
  obtain ⟨⟨w₁, bars⟩, hbars, h⟩ := bind_eq_ok.mp h
  cases h
  exact ⟨w₁, hbars, rfl, rfl, rfl, rfl, rfl, rfl, rfl, rfl⟩

theorem initPci_cons (h : initPci malloc w (qs :: buses) = .ok (s, bis)) : ∃ w' bi bis',
    initBus w qs = .ok (w', bi) ∧
    initPci malloc w' buses = .ok (s, bis') ∧ bis = bi :: bis' := by
  rw [initPci] at h
  obtain ⟨⟨w', bi⟩, hbus, h⟩ := bind_eq_ok.mp h
  obtain ⟨⟨s', bis'⟩, hrest, h⟩ := bind_eq_ok.mp h
  cases h
  exact ⟨w', bi, bis', hbus, hrest, rfl⟩

theorem initPci_nil (h : initPci malloc w [] = .ok (s, bis)) : bis = [] := by
  rw [initPci] at h
  cases hreg : registerEcfg malloc w.world with
  | error e =>
    rw [hreg] at h
    cases h
  | ok t =>
    rw [hreg] at h
    cases h
    rfl

theorem initPci_shape (h : initPci malloc w buses = .ok (s, bis)) :
    (bis.flatMap BusInfo.bars).map Pcibar.shape = buses.flatten.map BarRequest.shape := by
  induction buses generalizing w bis with
  | nil =>
    rw [initPci_nil h]
    rfl
  | cons qs buses ih =>
    obtain ⟨w', bi, bis', hbus, hrest, rfl⟩ := initPci_cons h
    obtain ⟨w₁, hbars, -⟩ := initBus_eq_ok hbus
    rw [flatMap_cons, map_append, flatten_cons, map_append, ih hrest, (allocBars_shape hbars).1]

/-- The BAR of half the address space is beyond every limit. -/
theorem Sound.wraps (hs : Sound bis) (h : initPci malloc w buses = .ok (s, bis)) :
    ∀ q ∈ buses.flatten, q.shape.2 ≠ twoPow 64 63 := by
  intro q hq heq
  have hmem : q.shape ∈ (bis.flatMap BusInfo.bars).map Pcibar.shape := by
    rw [initPci_shape h]
    exact mem_map_of_mem hq
  obtain ⟨b, hb, hshape⟩ := mem_map.mp hmem
  obtain ⟨bi, hbi, hbar⟩ := mem_flatMap.mp hb
  have hlimit := hs.limit bi hbi b hbar
  have hsize : b.size = twoPow 64 63 := (congrArg Prod.snd hshape).trans heq
  have hsmall : ∀ ar : Arena, ar.limit.toNat < 2 ^ 63 := by
    intro ar
    cases ar <;> decide
  have hlt := hsmall b.arena
  rw [hsize, toNat_twoPow_of_lt (by decide)] at hlimit
  omega

/-- The window above 4 GiB starts below it. -/
theorem initBus_high (h : initBus w qs = .ok (w', bi)) (hwraps : ∀ q ∈ qs, q.shape.2 ≠ twoPow 64 63)
    (hw : Cursors w) (hlt : w.bus < maxbuses) :
    (bi.window .high).base < 2 ^ 32 ∧ 2 ^ 32 ≤ (bi.window .high).limit ∧ Cursors w' ∧ w'.bus = w.bus + 1 := by
  obtain ⟨w₁, hbars, hb, hbus, -, -, -, -, hbase, hlimit⟩ := initBus_eq_ok h
  obtain ⟨-, hcur⟩ := allocBars_laid hbars hwraps hw
  have hbus₁ := (allocBars_shape hbars).2
  have hcur' : Cursors w' := hcur.nextBus (hbus₁ ▸ hlt) hb hbus
  have hfar : 2 ^ 32 ≤ pciEmulMembase64.toNat := by decide
  refine ⟨?_, ?_, hcur', by rw [hbus, hbus₁]⟩
  · change bi.membase64.toNat < 2 ^ 32
    rw [hbase, toNat_setWidth_of_le (by decide)]
    exact (w.bases.membase64.setWidth 32).isLt
  · change 2 ^ 32 ≤ bi.memlimit64.toNat
    rw [hlimit]
    exact Nat.le_trans hfar hcur'.high

/-- The windows above 4 GiB of two buses overlap. -/
theorem Sound.single (hs : Sound bis) (h : initPci malloc w buses = .ok (s, bis)) (hw : Cursors w)
    (hbus : w.bus + 1 < maxbuses) :
    buses.length ≤ 1 := by
  have hwraps := hs.wraps h
  rcases buses with _ | ⟨qs, _ | ⟨qs', buses⟩⟩
  · exact Nat.zero_le 1
  · exact Nat.le_refl 1
  exfalso
  obtain ⟨w₁, bi, bis₁, hfirst, hrest, rfl⟩ := initPci_cons h
  obtain ⟨w₂, bi', bis₂, hsecond, -, rfl⟩ := initPci_cons hrest
  obtain ⟨hlt, hle, hcur, hbus₁⟩ := initBus_high hfirst (fun q hq => hwraps q (mem_append_left _ hq)) hw
    (by omega)
  obtain ⟨hlt', hle', -, -⟩ := initBus_high hsecond
    (fun q hq => hwraps q (mem_append_right _ (mem_append_left _ hq))) hcur (by omega)
  have hapart := (pairwise_cons.mp hs.windows).1 bi' mem_cons_self .high
    (max (bi.window .high).base (bi'.window .high).base)
  refine hapart ⟨⟨le_max_left _ _, ?_⟩, le_max_right _ _, ?_⟩ <;> omega

end Buses

section OneBus

theorem Laid.reach_limit (h : Laid b b' bars) (ar : Arena) :
    b'.next ar = b.next ar ∨ (b'.next ar).toNat ≤ ar.limit.toNat := by
  rcases h.reach ar with heq | ⟨bar, hbar, hh, rfl, hend⟩
  · exact .inl heq
  · right
    rw [← hend]
    exact (h.arena bar hbar hh).2.2

/-- The end of the ports with the slop, in 32 bits and then in 16. -/
theorem iolimit_eq (hx : x.toNat ≤ 0x10000) : ∃ r, 32 ∣ r ∧ x.toNat + 32 ≤ r ∧ r < x.toNat + 64 ∧
      ((roundup2 (x + busioRoundup) busioRoundup &&& 0xffffffff).setWidth 16).toNat = r % 2 ^ 16 := by
  have hsum : (x + busioRoundup).toNat = x.toNat + 32 := by
    rw [toNat_add]
    exact Nat.mod_eq_of_lt (by change x.toNat + 32 < 2 ^ 64; omega)
  obtain ⟨hmul, hle, hlt⟩ := roundup2_ok (x := x + busioRoundup) (k := 5) (by decide) (by omega)
  have hdvd : 2 ^ 5 ∣ (roundup2 (x + busioRoundup) busioRoundup).toNat := Align.dvd_of_and_eq_zero (by decide) hmul
  have hmask : (roundup2 (x + busioRoundup) busioRoundup &&& 0xffffffff).toNat =
      (roundup2 (x + busioRoundup) busioRoundup).toNat % 2 ^ 32 :=
    (toNat_and _ _).trans (Nat.and_two_pow_sub_one_eq_mod _ 32)
  refine ⟨(roundup2 (x + busioRoundup) busioRoundup).toNat, hdvd, ?_, ?_, ?_⟩
  · exact hsum ▸ hle
  · have h32 : (roundup2 (x + busioRoundup) busioRoundup).toNat < (x + busioRoundup).toNat + 2 ^ 5 := hlt
    omega
  · rw [toNat_setWidth, hmask]
    omega

theorem Laid.size_pos (h : Laid b b' bars) (hbar : bar ∈ bars) : 0 < bar.size.toNat := by
  obtain ⟨k, hk, hsize⟩ := h.size bar hbar
  rw [hsize, toNat_twoPow_of_lt (by omega)]
  exact Nat.two_pow_pos k

theorem arena_atHost (h : bar.shape.atHost) : bar.arena = .high := by
  obtain ⟨ht, hsize⟩ := h
  have ht' : bar.type = .mem64 := ht
  have hsize' : bar.size = 0x100000000 := hsize
  unfold Pcibar.arena
  rw [ht', hsize']
  rfl

section

variable (h : Laid b b' bars)

include h

/-- A BAR of 4 GiB at address zero covers every other one of its type below 4 GiB. -/
theorem Laid.not_apart (hbar : bar ∈ bars)
    (hbar' : bar' ∈ bars) (hh : bar.shape.atHost) (hb : bar'.shape.below) :
    ¬bar.extent.Apart bar'.extent := by
  have hpos := h.size_pos hbar'
  obtain ⟨hzero, hwhole⟩ := span_atHost hh (h.host bar hbar hh)
  have hin : bar'.addr.toNat + bar'.size.toNat ≤ 2 ^ 32 := by
    by_cases hh' : bar'.shape.atHost
    · obtain ⟨hzero', hwhole'⟩ := span_atHost hh' (h.host bar' hbar' hh')
      omega
    · obtain ⟨-, -, hlim⟩ := h.arena bar' hbar' hh'
      obtain ⟨ht, hsize | hsize⟩ := hb
      · have ht' : bar'.type = .mem64 := ht
        have hlow : bar'.arena = .low := by
          unfold Pcibar.arena arenaOf
          rw [ht']
          exact if_neg (BitVec.not_lt.mpr hsize)
        rw [hlow] at hlim
        exact Nat.le_trans hlim (by decide)
      · exact absurd ⟨ht, hsize⟩ hh'
  change ¬(bar.addr.toNat + bar.size.toNat ≤ bar'.addr.toNat ∨
    bar'.addr.toNat + bar'.size.toNat ≤ bar.addr.toNat)
  omega

theorem Laid.compatible
    (hapart : bars.Pairwise fun bar bar' => bar.type = bar'.type → bar.extent.Apart bar'.extent) :
    (bars.map Pcibar.shape).Pairwise Compatible := by
  rw [pairwise_map]
  refine hapart.imp_of_mem fun {bar bar'} hbar hbar' hap => ⟨fun hc => ?_, fun hc => ?_⟩
  · exact h.not_apart hbar hbar' hc.1 hc.2 (hap (hc.1.1.trans hc.2.1.symm))
  · exact h.not_apart hbar' hbar hc.1 hc.2 (hap (hc.2.1.trans hc.1.1.symm)).symm

theorem Laid.pairwise_apart (hc : (bars.map Pcibar.shape).Pairwise Compatible) :
    bars.Pairwise fun bar bar' => bar.type = bar'.type → bar.extent.Apart bar'.extent := by
  rw [pairwise_map] at hc
  exact (h.apart.and hc).imp fun hap => hap.1 hap.2

theorem Laid.limit (hbar : bar ∈ bars) : bar.addr.toNat + bar.size.toNat ≤ bar.arena.limit.toNat := by
  by_cases hh : bar.shape.atHost
  · obtain ⟨hzero, hwhole⟩ := span_atHost hh (h.host bar hbar hh)
    have hlim : 2 ^ 32 ≤ (Arena.limit .high).toNat := by decide
    rw [arena_atHost hh]
    omega
  · exact (h.arena bar hbar hh).2.2

end

variable [DecidableEq ι] {devs : ι → Devinst} {ports : ℕ → Bool} {lowmem : BitVec 32}

/-- The three windows of the first bus. -/
structure FirstWindows (lowmem : BitVec 32) (b : Bases) (bi : BusInfo) : Prop where
  io : bi.iobase.toNat = pciEmulIobase.toNat
  iolimit : bi.iolimit = (roundup2 (b.iobase + busioRoundup) busioRoundup &&& 0xffffffff).setWidth 16
  low : bi.membase32 = lowmem
  lowlimit : bi.memlimit32 = (roundup2 (b.membase32 + busmemRoundup) busmemRoundup).setWidth 32
  high : bi.membase64.toNat = 0
  highlimit : bi.memlimit64 = roundup2 (b.membase64 + busmemRoundup) busmemRoundup

theorem firstBus_laid (h : initBus (start devs ports lowmem) qs = .ok (w, bi))
    (hwraps : ∀ q ∈ qs, q.shape.2 ≠ twoPow 64 63) :
    ∃ b, Laid (start devs ports lowmem).bases b bi.bars ∧ FirstWindows lowmem b bi ∧
      bi.bars.map Pcibar.shape = qs.map BarRequest.shape := by
  obtain ⟨w₁, hbars, hb, -, hio, hiolimit, hlow, hlowlimit, hhigh, hhighlimit⟩ := initBus_eq_ok h
  obtain ⟨hlaid, -⟩ := allocBars_laid hbars hwraps (cursors_start devs ports lowmem)
  refine ⟨w₁.bases, hlaid, ⟨?_, ?_, ?_, ?_, ?_, ?_⟩, (allocBars_shape hbars).1⟩
  · rw [hio]
    rfl
  · rw [hiolimit, hb]
    rfl
  · rw [hlow]
    exact setWidth_setWidth_of_le lowmem (by decide)
  · rw [hlowlimit, hb]
    rfl
  · rw [hhigh]
    exact (by decide : ((pciEmulMembase64.setWidth 32).setWidth 64).toNat = 0)
  · rw [hhighlimit, hb]
    rfl

omit [DecidableEq ι] in
/-- A BAR is in its window, one of ports if the window does not wrap. -/
theorem FirstWindows.window (hw : FirstWindows lowmem b bi)
    (hl : Laid (start devs ports lowmem).bases b bi.bars) (hports : b.iobase.toNat ≤ 0xffc0)
    (hbar : bar ∈ bi.bars) :
    (bi.window bar.arena).base ≤ bar.addr.toNat ∧
      bar.addr.toNat + bar.size.toNat ≤ (bi.window bar.arena).limit := by
  have hpos := hl.size_pos hbar
  have hhighend : b.membase64.toNat ≤ bi.memlimit64.toNat ∧ 2 ^ 32 ≤ bi.memlimit64.toNat := by
    have hbound : b.membase64.toNat ≤ 2 ^ 40 + 2 ^ 30 := by
      rcases hl.reach_limit .high with heq | hle
      · have heq' : b.membase64 = pciEmulMembase64 := heq
        rw [heq']
        decide
      · exact Nat.le_trans hle (by decide)
    have hfirst : pciEmulMembase64.toNat ≤ b.membase64.toNat := hl.mono .high
    have hfar : 2 ^ 32 ≤ pciEmulMembase64.toNat := by decide
    rw [hw.highlimit]
    obtain ⟨hle, -⟩ := slop_ok (k := 20) (by decide) hbound
    exact ⟨hle, Nat.le_trans hfar (Nat.le_trans hfirst hle)⟩
  by_cases hh : bar.shape.atHost
  · obtain ⟨hzero, hwhole⟩ := span_atHost hh (hl.host bar hbar hh)
    rw [arena_atHost hh]
    change bi.membase64.toNat ≤ _ ∧ _ ≤ bi.memlimit64.toNat
    rw [hw.high]
    omega
  obtain ⟨hle, hend, hlim⟩ := hl.arena bar hbar hh
  generalize bar.arena = ar at hle hend hlim
  cases ar with
  | io =>
    change bi.iobase.toNat ≤ _ ∧ _ ≤ bi.iolimit.toNat
    obtain ⟨r, hdvd, hge, hlt, hr⟩ := iolimit_eq (x := b.iobase) (by omega)
    have hend' : bar.addr.toNat + bar.size.toNat ≤ b.iobase.toNat := hend
    rw [hw.io, hw.iolimit, hr]
    refine ⟨hle, ?_⟩
    omega
  | low =>
    change bi.membase32.toNat ≤ _ ∧ _ ≤ bi.memlimit32.toNat
    have hstart : ((start devs ports lowmem).bases.next .low).toNat = lowmem.toNat := by
      change (lowmem.setWidth 64).toNat = lowmem.toNat
      exact toNat_setWidth_of_le (by decide)
    have hend' : bar.addr.toNat + bar.size.toNat ≤ b.membase32.toNat := hend
    have hlimit : b.membase32.toNat ≤ pciEmulMemlimit32.toNat := by
      rcases hl.reach_limit .low with heq | hreach
      · have heq' := congrArg BitVec.toNat heq
        rw [hstart] at heq' hle
        have heq'' : b.membase32.toNat = lowmem.toNat := heq'
        omega
      · exact hreach
    have hsmall : pciEmulMemlimit32.toNat ≤ 2 ^ 32 - 2 ^ 22 := by decide
    obtain ⟨hge, hlt⟩ := slop_ok (x := b.membase32) (k := 20) (by decide) (by omega)
    have hnowrap : ((roundup2 (b.membase32 + busmemRoundup) busmemRoundup).setWidth 32).toNat =
        (roundup2 (b.membase32 + busmemRoundup) busmemRoundup).toNat := by
      rw [toNat_setWidth]
      refine Nat.mod_eq_of_lt (Nat.lt_of_le_of_lt hlt ?_)
      omega
    rw [hw.low, hw.lowlimit, hnowrap]
    refine ⟨hstart ▸ hle, Nat.le_trans hend' hge⟩
  | high =>
    change bi.membase64.toNat ≤ _ ∧ _ ≤ bi.memlimit64.toNat
    rw [hw.high]
    exact ⟨Nat.zero_le _, Nat.le_trans hend hhighend.1⟩

omit [DecidableEq ι] in
/-- Ports that end too high make the limit of their window wrap. -/
theorem FirstWindows.ports_le (hw : FirstWindows lowmem b bi) (hl : Laid (start devs ports lowmem).bases b bi.bars)
    (hin : ∀ bar ∈ bi.bars, bar.addr.toNat + bar.size.toNat ≤ (bi.window bar.arena).limit) :
    b.iobase.toNat ≤ 0xffc0 := by
  by_contra hbig
  rcases hl.reach .io with heq | ⟨bar, hbar, hh, har, hend⟩
  · have heq' : b.iobase = pciEmulIobase := heq
    rw [heq'] at hbig
    exact hbig (by decide)
  · have hend' : bar.addr.toNat + bar.size.toNat = b.iobase.toNat := hend
    have hlim := hl.limit hbar
    have hwin := hin bar hbar
    rw [har] at hlim hwin
    have hlim' : bar.addr.toNat + bar.size.toNat ≤ 0x10000 := hlim
    have hwin' : bar.addr.toNat + bar.size.toNat ≤ bi.iolimit.toNat := hwin
    obtain ⟨r, hdvd, hge, hlt, hr⟩ := iolimit_eq (x := b.iobase) (by omega)
    rw [hw.iolimit, hr] at hwin'
    omega

theorem firstBus_sound_iff (h : initBus (start devs ports lowmem) qs = .ok (w, bi))
    (hwraps : ∀ q ∈ qs, q.shape.2 ≠ twoPow 64 63) :
    Sound [bi] ↔ (qs.map BarRequest.shape).Pairwise Compatible ∧
      packed pciEmulIobase.toNat (ioSizes (qs.map BarRequest.shape)) ≤ 0xffc0 := by
  obtain ⟨b, hl, hw, hshape⟩ := firstBus_laid h hwraps
  have hio : b.iobase.toNat = packed pciEmulIobase.toNat (ioSizes (bi.bars.map Pcibar.shape)) := hl.io
  rw [← hshape, ← hio]
  have hbars : [bi].flatMap BusInfo.bars = bi.bars := by simp
  constructor
  · intro hs
    have hapart := hs.apart
    rw [hbars] at hapart
    exact ⟨hl.compatible hapart, hw.ports_le hl fun bar hbar => (hs.window bi mem_cons_self bar hbar).2⟩
  · rintro ⟨hc, hports⟩
    constructor
    · refine forall_mem_singleton.mpr fun bar hbar => ?_
      obtain ⟨k, hk, hsize⟩ := hl.size bar hbar
      exact ⟨k, by rw [hsize, toNat_twoPow_of_lt (by omega)]⟩
    · exact forall_mem_singleton.mpr hl.aligned
    · exact forall_mem_singleton.mpr fun _ => hl.limit
    · rw [hbars]
      exact hl.pairwise_apart hc
    · exact forall_mem_singleton.mpr fun _ => hw.window hl hports
    · exact pairwise_singleton _ _

end OneBus

theorem sound_nil : Sound [] := ⟨by simp, by simp, by simp, .nil, by simp, .nil⟩

/-- For every configuration for which `init_pci` succeeds. -/
theorem windows_sound_iff {ι : Type} [DecidableEq ι] {devs : ι → Devinst} {ports : ℕ → Bool}
    {lowmem : BitVec 32}
    {buses : List (List (BarRequest ι))} {malloc : Bool} {s : World ι} {bis : List BusInfo}
    (h : initPci malloc (start devs ports lowmem) buses = .ok (s, bis)) : Sound bis ↔ Benign buses := by
  have hsingle (hs : Sound bis) : buses.length ≤ 1 :=
    hs.single h (cursors_start devs ports lowmem) (by decide : 0 + 1 < maxbuses)
  rcases buses with _ | ⟨qs, _ | ⟨qs', buses⟩⟩
  · rw [initPci_nil h]
    exact iff_of_true sound_nil ⟨Nat.zero_le 1, by simp, .nil, (by decide : pciEmulIobase.toNat ≤ 0xffc0)⟩
  · obtain ⟨w, bi, bis', hbus, hrest, rfl⟩ := initPci_cons h
    obtain rfl := initPci_nil hrest
    have hflat : [qs].flatten = qs := by simp
    constructor
    · intro hs
      have hwraps := hs.wraps h
      obtain ⟨hhost, hports⟩ := (firstBus_sound_iff hbus (hflat ▸ hwraps)).mp hs
      exact ⟨hsingle hs, hwraps, by rwa [hflat], by rwa [hflat]⟩
    · intro hb
      have hwraps := hb.wraps
      have hhost := hb.host
      have hports := hb.ports
      rw [hflat] at hwraps hhost hports
      exact (firstBus_sound_iff hbus hwraps).mpr ⟨hhost, hports⟩
  · exact ⟨fun hs => absurd (hsingle hs) (by simp), fun hb => absurd hb.single (by simp)⟩

section Sample

/-- One bus with BARs of every kind. -/
def oneBus : List (List (BarRequest Bool)) :=
  [[⟨false, 0, .io, 0x20, true⟩, ⟨false, 1, .mem32, 0x2000, true⟩, ⟨true, 0, .mem64, 0x4000000, true⟩,
    ⟨true, 2, .mem64, 0x1800, true⟩]]

theorem windows_sound_iff_one : ∃ s bis, initPci true sampleStart oneBus = .ok (s, bis) ∧ Benign oneBus ∧
    Sound bis := by
  have hinit : initPci true sampleStart oneBus = .ok _ := eq_ok_of_isOk (d := (sampleStart.world, []))
    rfl
  have hbenign : Benign oneBus := ⟨by decide, by decide +kernel, by decide +kernel, by decide +kernel⟩
  exact ⟨_, _, hinit, hbenign, (windows_sound_iff hinit).mpr hbenign⟩

theorem initPci_result {buses : List (List (BarRequest Bool))}
    (h : (initPci true sampleStart buses).isOk = true)
    (hbis : ((initPci true sampleStart buses).toOption.getD (sampleStart.world, [])).2 = bis) :
    ∃ s, initPci true sampleStart buses = .ok (s, bis) := by
  subst hbis
  exact ⟨_, eq_ok_of_isOk (d := (sampleStart.world, [])) h⟩

def twoBuses : List (List (BarRequest Bool)) := 
  [[⟨false, 0, .mem32, 0x1000, true⟩], [⟨true, 0, .mem32, 0x1000, true⟩]]

def twoWindows : List BusInfo :=
  [⟨0x2000, 0x2020, 0xc0000000, 0xc0200000, 0, 0xd000100000, [⟨.mem32, 0x1000, 0xc0000000⟩]⟩,
    ⟨0x2020, 0x2040, 0xc0200000, 0xc0400000, 0x100000, 0xd000200000, [⟨.mem32, 0x1000, 0xc0200000⟩]⟩]

/-- The first BAR is placed at zero, and the second one inside of it. -/
def hostBus : List (List (BarRequest Bool)) := 
  [[⟨false, 0, .mem64, 0x100000000, true⟩, ⟨true, 0, .mem64, 0x1000, true⟩]]

def hostWindow : List BusInfo :=
  [⟨0x2000, 0x2020, 0xc0000000, 0xc0200000, 0, 0xd000100000,
    [⟨.mem64, 0x100000000, 0⟩, ⟨.mem64, 0x1000, 0xc0000000⟩]⟩]

theorem windows_not_sound : (∃ s, initPci true sampleStart twoBuses = .ok (s, twoWindows)) ∧ ¬Sound twoWindows ∧
    (∃ s, initPci true sampleStart hostBus = .ok (s, hostWindow)) ∧ ¬Sound hostWindow := by
  refine ⟨initPci_result rfl rfl, fun hs => ?_, initPci_result rfl rfl, fun hs => ?_⟩
  · exact (pairwise_cons.mp hs.windows).1 _ mem_cons_self .high 0x100000
      ⟨⟨by decide, by decide⟩, by decide, by decide⟩
  · exact absurd ((pairwise_cons.mp hs.apart).1 _ mem_cons_self rfl) (by decide)

end Sample

end HyperCog.Pci
