import HyperCog.Pci.Tables

/-! The tables hold exactly the ranges of the BARs that are decoded, as long as these stay apart. -/
namespace HyperCog.Pci

open Machine Function

attribute [local simp] BarType.space Devinst.setAddr

variable {ι : Type} {fx : Fixed ι} {s : World ι} {Q P : ι → ℕ → Prop} {devs devs' : ι → Devinst}
  {i i' : ι} {malloc : ℕ → Bool} {j j' idx : ℕ} {sp : Space} {a : BitVec 64} {d : Devinst} {eax : BitVec 32}

/-- The tables are about the extents of the BARs alone. -/
theorem Holds.withDevs (h : Holds fx s P)
    (hspace : ∀ i j, P i j → barSpace devs' i j = barSpace s.devs i j)
    (hextent : ∀ i j, P i j → barExtent devs' i j = barExtent s.devs i j) :
    Holds fx { s with devs := devs' } P where
  mem r := by
    rw [h.mem r]
    have hrange : ∀ i j, P i j → memRange devs' i j = memRange s.devs i j := fun i j hP => by
      rw [memRange, memRange, hextent i j hP]
    constructor
    · rintro (hfix | ⟨i, j, hP, hsp, rfl⟩)
      · exact .inl hfix
      · exact .inr ⟨i, j, hP, (hspace i j hP).trans hsp, (hrange i j hP).symm⟩
    · rintro (hfix | ⟨i, j, hP, hsp, rfl⟩)
      · exact .inl hfix
      · exact .inr ⟨i, j, hP, (hspace i j hP).symm.trans hsp, hrange i j hP⟩
  fixed := h.fixed
  device i j p hP hsp hp := by
    rw [hspace i j hP] at hsp
    rw [hextent i j hP] at hp
    exact h.device i j p hP hsp hp
  default p hp hnone := by
    refine h.default p hp fun i j hP hsp => ?_
    rw [← hextent i j hP]
    exact hnone i j hP ((hspace i j hP).trans hsp)

theorem Holds.of_iff (h : Holds fx s P) (hiff : ∀ i j, P i j ↔ Q i j) : Holds fx s Q := by
  have heq : P = Q := funext fun i => funext fun j => propext (hiff i j)
  exact heq ▸ h

theorem Free.mono (h : Free fx devs P i j) (hQ : ∀ i' j', Q i' j' →
    barSpace devs i' j' = barSpace devs i j → P i' j') : Free fx devs Q i j :=
  ⟨fun i' j' hq hsp => h.bars i' j' (hQ i' j' hq hsp) hsp, h.mem, h.io⟩

/-- Whether a BAR is free depends on the extents alone. -/
theorem Free.withDevs (h : Free fx devs P i j) (hspace : ∀ i j, barSpace devs' i j = barSpace devs i j)
    (hextent : ∀ i j, barExtent devs' i j = barExtent devs i j) : Free fx devs' P i j where
  bars i' j' hP hsp hne := by
    rw [hspace, hspace] at hsp
    rw [hextent, hextent]
    exact h.bars i' j' hP hsp hne
  mem hsp r hr := by
    rw [hspace] at hsp
    rw [hextent]
    exact h.mem hsp r hr
  io hsp p hp := by
    rw [hspace] at hsp
    rw [hextent] at hp
    exact h.io hsp p hp

theorem decodes_congr (hspace : barSpace devs' i j = barSpace devs i j)
    (hen : (devs' i).enabled = (devs i).enabled) : Decodes devs' i j ↔ Decodes devs i j := by
  rw [Decodes, Decodes, hspace, hen]

theorem Decodes.enabled (h : Decodes devs i j)
    (hsp : barSpace devs i j = some sp) : (devs i).enabled sp = true := by
  obtain ⟨-, sp', hsp', hen⟩ := h
  cases hsp'.symm.trans hsp
  exact hen

theorem decodes_iff (hmax : j ≤ pciBarmax)
    (hsp : barSpace devs i j = some sp) : Decodes devs i j ↔ (devs i).enabled sp = true :=
  ⟨fun h => h.enabled hsp, fun hen => ⟨hmax, sp, hsp, hen⟩⟩

/-- Two configurations that differ in the command register of one device. -/
structure Recommanded (old new : ι → Devinst) (i : ι) : Prop where
  bar : ∀ i', (new i').bar = (old i').bar
  other : ∀ i', i' ≠ i → new i' = old i'

theorem Recommanded.barSpace (hr : Recommanded devs devs' i) (i' : ι) (j' : ℕ) :
    barSpace devs' i' j' = barSpace devs i' j' := by
  rw [Pci.barSpace, hr.bar, Pci.barSpace]

theorem Recommanded.barExtent (hr : Recommanded devs devs' i) (i' : ι) (j' : ℕ) :
    barExtent devs' i' j' = barExtent devs i' j' := by
  rw [Pci.barExtent, hr.bar, Pci.barExtent]

section Moving

variable [DecidableEq ι]

/-- The devices with one BAR at another address. -/
def moved (devs : ι → Devinst) (i : ι) (j : ℕ) (a : BitVec 64) : ι → Devinst :=
  Function.update devs i ((devs i).setAddr j a)

section

variable (devs : ι → Devinst) (i : ι) (j : ℕ) (a : BitVec 64)

theorem bar_moved (i' : ι) (j' : ℕ) : ((moved devs i j a) i').bar j' =
      if (i', j') = (i, j) then { (devs i).bar j with addr := a } else (devs i').bar j' := by
  by_cases hi : i' = i
  · subst hi
    by_cases hj : j' = j
    · subst hj
      simp [moved]
    · simp [moved, hj]
  · simp [moved, hi]

theorem barSpace_moved (i' : ι) (j' : ℕ) :
    barSpace (moved devs i j a) i' j' = barSpace devs i' j' := by
  rw [barSpace, bar_moved]
  split
  · rename_i heq
    cases heq
    rfl
  · rfl

theorem enabled_moved (i' : ι) : ((moved devs i j a) i').enabled = (devs i').enabled := by
  by_cases hi : i' = i
  · subst hi
    rw [moved, update_self]
    rfl
  · rw [moved, update_of_ne hi]

theorem decodes_moved (i' : ι) (j' : ℕ) : Decodes (moved devs i j a) i' j' ↔ Decodes devs i' j' :=
  decodes_congr (barSpace_moved devs i j a i' j') (enabled_moved devs i j a i')

end

theorem barExtent_moved
    (h : (i', j') ≠ (i, j)) : barExtent (moved devs i j a) i' j' = barExtent devs i' j' := by
  rw [barExtent, bar_moved, if_neg h, barExtent]

/-- A BAR that is not decoded may move anywhere. -/
theorem Faithful.moved (h : Faithful fx s) (hn : ¬ Decodes s.devs i j) (a : BitVec 64) :
    Faithful fx { s with devs := moved s.devs i j a } := by
  have hne : ∀ i' j', Decodes s.devs i' j' → (i', j') ≠ (i, j) := by
    intro i' j' hdec heq
    cases heq
    exact hn hdec
  have hholds := Holds.withDevs h (fun i' j' _ => barSpace_moved s.devs i j a i' j')
    (fun i' j' hP => barExtent_moved (hne i' j' hP))
  exact hholds.of_iff fun i' j' => (decodes_moved s.devs i j a i' j').symm

/-- One that is decoded may move to where it is apart from the rest. -/
theorem updateBarAddress_ok {addr : BitVec 64} {part : BarType} (h : Faithful fx s)
    (hj : j ≤ pciBarmax) (hsp : barSpace s.devs i j ≠ none) (hw : Aligned ((s.devs i).bar j))
    (hpart : partAddr ((s.devs i).bar j).addr addr part = some a)
    (hw' : Aligned { (s.devs i).bar j with addr := a }) (hold : Apart fx s.devs)
    (hnew : Apart fx (moved s.devs i j a)) (hm : malloc j = true) :
    ∃ t, updateBarAddress s i malloc addr j part = .ok t ∧ t.devs = moved s.devs i j a ∧
      Faithful fx t := by
  obtain ⟨sp, hspace⟩ := Option.ne_none_iff_exists'.mp hsp
  have hdecode : (if ((s.devs i).bar j).type = .io then porten (s.devs i) else memen (s.devs i)) =
      (s.devs i).enabled sp := by
    rw [barSpace] at hspace
    cases ht : ((s.devs i).bar j).type <;> simp_all [BarType.space] <;> subst hspace <;> rfl
  rw [updateBarAddress, hpart, hdecode]
  by_cases hen : (s.devs i).enabled sp = true
  · have hdec : Decodes s.devs i j := ⟨hj, sp, hspace, hen⟩
    obtain ⟨s₁, hun, hdevs₁, hholds₁⟩ := unregisterBar_ok malloc h hw hsp hdec (hold i j hdec)
    have hholds₂ : Holds fx { s₁ with devs := moved s.devs i j a }
        fun i' j' => Decodes s.devs i' j' ∧ (i', j') ≠ (i, j) := by
      refine hholds₁.withDevs (fun i' j' _ => ?_) fun i' j' hP => ?_
      · rw [barSpace_moved, hdevs₁]
      · rw [barExtent_moved hP.2, hdevs₁]
    have hw₂ : Aligned (((moved s.devs i j a) i).bar j) := by rw [bar_moved, if_pos rfl]; exact hw'
    have hfree : Free fx (moved s.devs i j a)
        (fun i' j' => Decodes s.devs i' j' ∧ (i', j') ≠ (i, j)) i j :=
      (hnew i j ((decodes_moved s.devs i j a i j).mpr hdec)).mono fun i' j' hP _ =>
        (decodes_moved s.devs i j a i' j').mpr hP.1
    obtain ⟨s₃, hreg, hdevs₃, hholds₃⟩ := registerBar_ok hholds₂ hw₂
      (by rw [barSpace_moved]; exact hsp) (fun hP => hP.2 rfl) hfree hm
    refine ⟨s₃, ?_, hdevs₃, ?_⟩
    · simp only [onlyIf, hen, if_true, hun, bind, Except.bind, World.setDev, hdevs₁]
      exact hreg
    · rw [Faithful, hdevs₃]
      refine hholds₃.of_iff fun i' j' => ?_
      rw [decodes_moved]
      constructor
      · rintro (hP | heq)
        · exact hP.1
        · cases heq
          exact hdec
      · intro hP
        by_cases heq : (i', j') = (i, j)
        · exact .inr heq
        · exact .inl ⟨hP, heq⟩
  · refine ⟨{ s with devs := moved s.devs i j a }, ?_, rfl, ?_⟩
    · simp only [onlyIf, hen, bind, Except.bind]
      rfl
    · exact Faithful.moved h (fun hd => hen (hd.enabled hspace)) a

end Moving

/-- A BAR keeps its alignment wherever the guest moves it. -/
theorem barRequest_aligned (hd : d.Wf) {q : BarWrite} (hq : barRequest d idx eax = some q) :
    (d.bar q.target).type.space ≠ none ∧ q.target ≤ idx ∧
      ∃ a, partAddr (d.bar q.target).addr q.addr q.part = some a ∧
        Aligned { d.bar q.target with addr := a } := by
  rw [barRequest] at hq
  cases ht : (d.bar idx).type with
  | none =>
    rw [ht] at hq
    cases hq
  | io =>
    rw [ht] at hq
    cases hq
    have hal := hd.aligned idx (by rw [ht]; simp)
    refine ⟨by rw [ht]; simp, Nat.le_refl _, _, rfl, hal.size, ?_, fun _ => ⟨?_, ?_⟩⟩
    · rw [BitVec.and_assoc, BitVec.and_comm 0xffff, ← BitVec.and_assoc, Align.and_not_and]
      exact BitVec.zero_and
    · exact Nat.lt_of_le_of_lt Nat.and_le_right (by decide)
    · exact (hal.io ht).2
  | mem32 =>
    rw [ht] at hq
    cases hq
    have hal := hd.aligned idx (by rw [ht]; simp)
    refine ⟨by rw [ht]; simp, Nat.le_refl _, _, rfl, hal.size, Align.and_not_and _ _, ?_⟩
    intro hio
    cases ht.symm.trans hio
  | mem64 =>
    rw [ht] at hq
    cases hq
    have hal := hd.aligned idx (by rw [ht]; simp)
    refine ⟨by rw [ht]; simp, Nat.le_refl _, _, rfl, hal.size,
      Align.or_and_eq_zero hal.addr (Align.and_not_and _ _) _, ?_⟩
    intro hio
    cases ht.symm.trans hio
  | memhi64 =>
    rw [ht] at hq
    cases hq
    obtain ⟨-, hlow⟩ := hd.pair idx ht
    have hal := hd.aligned (idx - 1) (by rw [hlow]; simp)
    refine ⟨by rw [hlow]; simp, Nat.sub_le idx 1, _, rfl, hal.size,
      Align.or_and_eq_zero hal.addr (Align.and_not_and _ _) _, ?_⟩
    intro hio
    cases hlow.symm.trans hio

theorem wf_setAddr (hd : d.Wf)
    (ha : (d.bar j).type.space ≠ none → Aligned { d.bar j with addr := a }) : (d.setAddr j a).Wf := by
  have htype : ∀ j', ((d.setAddr j a).bar j').type = (d.bar j').type := by
    intro j'
    by_cases hj : j' = j
    · subst hj
      simp
    · simp [hj]
  constructor
  · intro j' hsp
    rw [htype] at hsp
    by_cases hj : j' = j
    · subst hj
      simpa using ha hsp
    · simpa [hj] using hd.aligned j' hsp
  · intro j' hhi
    rw [htype] at hhi ⊢
    exact hd.pair j' hhi

section Writing

variable [DecidableEq ι] {t : World ι} {old new : ι → Devinst} {rest : List ℕ}

/-- What a write to a BAR register makes of the BARs of a device, whatever the tables hold. -/
def configureBar (d : Devinst) (idx : ℕ) (eax : BitVec 32) : Devinst :=
  match barRequest d idx eax with
  | none => d.setAddr idx 0
  | some q =>
    match partAddr (d.bar q.target).addr q.addr q.part with
    | some a => if q.moves then d.setAddr q.target a else d
    | none => d

/-- The same for any write to its config space. -/
def configure (d : Devinst) (coff bytes : ℕ) (eax : BitVec 32) : Devinst :=
  if bytes ≠ 1 ∧ bytes ≠ 2 ∧ bytes ≠ 4 ∨ coff % bytes ≠ 0 then d
  else if coff ≥ pciRegmax + 1 then d
  else if pcirBar 0 ≤ coff ∧ coff < pcirBar (pciBarmax + 1) then
    if bytes ≠ 4 ∨ coff % 4 ≠ 0 then d else configureBar d ((coff - pcirBar 0) / 4) eax
  else if pcirCommand ≤ coff ∧ coff < pcirRevid then
    { d with cmdsts := cmdstsValue d.cmdsts coff bytes eax }
  else d

/-- The write leaves the decoded ranges apart, and there is memory for those it registers. -/
def Clear (fx : Fixed ι) (s : World ι) (a : Action ι) : Prop :=
  Apart fx (Function.update s.devs a.dev (configure (s.devs a.dev) a.coff a.bytes a.eax)) ∧
    ∀ j ≤ pciBarmax, a.malloc j = true

instance [Fintype ι] (fx : Fixed ι) (s : World ι) (a : Action ι) : Decidable (Clear fx s a) :=
  inferInstanceAs (Decidable (Apart _ _ ∧ _))

structure Settled (fx : Fixed ι) (s : World ι) : Prop where
  wf : ∀ i, (s.devs i).Wf
  apart : Apart fx s.devs
  faithful : Faithful fx s

/-- The contents of the BAR registers have no part in it. -/
theorem settled_setBarReg (h : Settled fx s) (i : ι) (idx : ℕ) (val : BitVec 32) :
    Settled fx (s.setDev i ((s.devs i).setBarReg idx val)) := by
  have hbar : ∀ i', ((s.setDev i ((s.devs i).setBarReg idx val)).devs i').bar = (s.devs i').bar := by
    intro i'
    by_cases hi : i' = i
    · subst hi
      simp [World.setDev, Devinst.setBarReg]
    · simp [World.setDev, hi]
  have hen : ∀ i', ((s.setDev i ((s.devs i).setBarReg idx val)).devs i').enabled =
      (s.devs i').enabled := by
    intro i'
    by_cases hi : i' = i
    · subst hi
      simp only [World.setDev, update_self]
      rfl
    · simp [World.setDev, hi]
  have hspace : ∀ i' j', barSpace (s.setDev i ((s.devs i).setBarReg idx val)).devs i' j' =
      barSpace s.devs i' j' := fun i' j' => by rw [barSpace, hbar, barSpace]
  have hextent : ∀ i' j', barExtent (s.setDev i ((s.devs i).setBarReg idx val)).devs i' j' =
      barExtent s.devs i' j' := fun i' j' => by rw [barExtent, hbar, barExtent]
  have hdec : ∀ i' j', Decodes (s.setDev i ((s.devs i).setBarReg idx val)).devs i' j' ↔
      Decodes s.devs i' j' := fun i' j' => decodes_congr (hspace i' j') (hen i')
  constructor
  · intro i'
    obtain ⟨haligned, hpair⟩ := h.wf i'
    exact ⟨by rw [hbar]; exact haligned, by rw [hbar]; exact hpair⟩
  · intro i' j' hd
    refine ((h.apart i' j' ((hdec i' j').mp hd)).withDevs hspace hextent).mono ?_
    exact fun i'' j'' hd' _ => (hdec i'' j'').mp hd'
  · exact (Holds.withDevs h.faithful (fun i' j' _ => hspace i' j') fun i' j' _ => hextent i' j').of_iff
      fun i' j' => (hdec i' j').symm

theorem wf_moved (h : ∀ i, (devs i).Wf)
    (ha : barSpace devs i j ≠ none → Aligned { (devs i).bar j with addr := a }) (i' : ι) :
    (moved devs i j a i').Wf := by
  by_cases hi : i' = i
  · subst hi
    rw [moved, update_self]
    exact wf_setAddr (h i') ha
  · rw [moved, update_of_ne hi]
    exact h i'

theorem barRequest_eq_none (h : barRequest d idx eax = none) : (d.bar idx).type = .none := by
  rw [barRequest] at h
  cases ht : (d.bar idx).type <;> simp_all

/-- A write to a BAR register that leaves the decoded ranges apart. -/
theorem barWrite_ok (h : Settled fx s) (hidx : idx ≤ pciBarmax) (eax : BitVec 32)
    (hclear : Apart fx (update s.devs i (configureBar (s.devs i) idx eax)))
    (hm : ∀ j ≤ pciBarmax, malloc j = true) :
    ∃ t, barWrite s i malloc idx eax = .ok t ∧ Settled fx t := by
  rw [barWrite]
  cases hq : barRequest (s.devs i) idx eax with
  | none =>
    have hspace : barSpace s.devs i idx = none := by
      rw [barSpace, barRequest_eq_none hq]
      rfl
    have hnot : ¬ Decodes s.devs i idx := by
      rintro ⟨-, sp, hsp, -⟩
      cases hspace.symm.trans hsp
    simp only [configureBar, hq] at hclear
    have hsettled : Settled fx { s with devs := moved s.devs i idx 0 } :=
      ⟨wf_moved h.wf fun hsp => absurd hspace hsp, hclear, h.faithful.moved hnot 0⟩
    have hreg := settled_setBarReg hsettled i idx 0
    simp only [World.setDev, moved, update_self, update_idem] at hreg
    exact ⟨_, rfl, hreg⟩
  | some q =>
    obtain ⟨hsp, hle, a, ha, hal⟩ := barRequest_aligned (h.wf i) hq
    simp only [configureBar, hq, ha] at hclear
    have hmove : ∃ t, onlyIf q.moves (updateBarAddress · i malloc q.addr q.target q.part) s = .ok t ∧
        Settled fx t := by
      cases hmoves : q.moves with
      | false => exact ⟨s, rfl, h⟩
      | true =>
        rw [hmoves] at hclear
        obtain ⟨t, hup, hdevs, hfaith⟩ := updateBarAddress_ok h.faithful (Nat.le_trans hle hidx) hsp
          ((h.wf i).aligned _ hsp) ha hal h.apart hclear (hm _ (Nat.le_trans hle hidx))
        refine ⟨t, hup, ?_, ?_, hfaith⟩
        · rw [hdevs]
          exact wf_moved h.wf fun _ => hal
        · rw [hdevs]
          exact hclear
    obtain ⟨t, ht, hsettled⟩ := hmove
    simp only [ht, bind, Except.bind]
    exact ⟨_, rfl, settled_setBarReg hsettled i idx q.reg⟩

/-- The bit of the command register that enables a space. -/
def Space.bit : Space → BitVec 16
  | .io => pcimCmdPorten
  | .mem => pcimCmdMemen

/-- The bit differs between two values of the register when exactly one of them has it. -/
theorem changed_iff (c c' : BitVec 16) (sp : Space) :
    (c ^^^ c') &&& sp.bit ≠ 0 ↔ decide (c &&& sp.bit ≠ 0) ≠ decide (c' &&& sp.bit ≠ 0) := by
  have hbit : ∃ k < 16, sp.bit = BitVec.twoPow 16 k := by
    cases sp
    · exact ⟨0, by decide, rfl⟩
    · exact ⟨1, by decide, rfl⟩
  obtain ⟨k, hk, hb⟩ := hbit
  rw [hb, BitVec.and_twoPow, BitVec.and_twoPow, BitVec.and_twoPow, BitVec.getLsbD_xor]
  cases c.getLsbD k <;> cases c'.getLsbD k <;> simp

theorem enabled_eq (d : Devinst) (sp : Space) : d.enabled sp = decide (d.command &&& sp.bit ≠ 0) := by
  cases sp <;> rfl

theorem settleBar_eq (changed : BitVec 16) (j : ℕ) (s : World ι) : settleBar i malloc changed j s =
      match barSpace s.devs i j with
      | none => .ok s
      | some sp =>
        if changed &&& sp.bit ≠ 0 then
          if (s.devs i).enabled sp then registerBar s i malloc j else unregisterBar s i malloc j
        else .ok s := by
  rw [settleBar, barSpace]
  cases ((s.devs i).bar j).type <;> rfl

/-- The BARs that are registered while those in `rest` of a device still wait for their turn. -/
def Halfway (old new : ι → Devinst) (i : ι) (rest : List ℕ) (i' : ι) (j' : ℕ) : Prop :=
  if i' = i ∧ j' ∈ rest then Decodes old i' j' else Decodes new i' j'

theorem halfway_cons_of_ne (h : (i', j') ≠ (i, j)) :
    Halfway old new i (j :: rest) i' j' ↔ Halfway old new i rest i' j' := by
  have hmem : i' = i ∧ j' ∈ j :: rest ↔ i' = i ∧ j' ∈ rest := by
    rw [List.mem_cons]
    constructor
    · rintro ⟨rfl, rfl | hj'⟩
      · exact absurd rfl h
      · exact ⟨rfl, hj'⟩
    · rintro ⟨hi, hj'⟩
      exact ⟨hi, .inr hj'⟩
  simp only [Halfway, hmem]

theorem halfway_cons_self : Halfway old new i (j :: rest) i j ↔ Decodes old i j := by
  simp [Halfway]

/-- A registered BAR is decoded under the new value, or is one of the device's under the old value. -/
theorem Halfway.decodes (h : Halfway old new i rest i' j') :
    Decodes new i' j' ∨ i' = i ∧ Decodes old i' j' := by
  rw [Halfway] at h
  split at h
  · rename_i hc
    exact .inr ⟨hc.1, h⟩
  · exact .inl h

/-- Where the device decoded nothing in the space before, what is registered there is decoded under the
new value. -/
theorem free_halfway_on (hr : Recommanded old new i) (hnew : Apart fx new)
    (hsp : barSpace new i j = some sp) (hdec : Decodes new i j) (hoff : (old i).enabled sp = false) :
    Free fx new (Halfway old new i (j :: rest)) i j := by
  refine (hnew i j hdec).mono fun i' j' hP hspace => ?_
  refine hP.decodes.resolve_right ?_
  rintro ⟨rfl, hd⟩
  have hon := hd.enabled ((hr.barSpace i' j').symm.trans (hspace.trans hsp))
  rw [hoff] at hon
  cases hon

/-- Where it decodes nothing in the space any more, what is registered there was decoded under the old
value. -/
theorem free_halfway_off (hr : Recommanded old new i) (hold : Apart fx old)
    (hsp : barSpace new i j = some sp) (hdec : Decodes old i j) (hoff : (new i).enabled sp = false) :
    Free fx new (Halfway old new i (j :: rest)) i j := by
  refine ((hold i j hdec).withDevs hr.barSpace hr.barExtent).mono fun i' j' hP hspace => ?_
  rcases hP.decodes with hd | ⟨-, hd⟩
  · by_cases hi : i' = i
    · subst hi
      have hon := hd.enabled (hspace.trans hsp)
      rw [hoff] at hon
      cases hon
    · exact (decodes_congr (hr.barSpace i' j') (by rw [hr.other i' hi])).mp hd
  · exact hd

/-- After the turn of the BAR it is registered exactly if it is decoded under the new value. -/
theorem Holds.turned (h : Holds fx t Q) (hj : j ∉ rest) (hself : Q i j ↔ Decodes new i j)
    (hother : ∀ i' j', (i', j') ≠ (i, j) → (Q i' j' ↔ Halfway old new i (j :: rest) i' j')) :
    Holds fx t (Halfway old new i rest) := by
  refine h.of_iff fun i' j' => ?_
  by_cases heq : (i', j') = (i, j)
  · cases heq
    rw [hself]
    simp [Halfway, hj]
  · rw [hother i' j' heq, halfway_cons_of_ne heq]

/-- The turn of one BAR. -/
theorem settleBar_ok (hr : Recommanded old new i) (hwf : (new i).Wf) (hold : Apart fx old)
    (hnew : Apart fx new) (hmax : j ≤ pciBarmax) (hj : j ∉ rest) (hdevs : s.devs = new)
    (h : Holds fx s (Halfway old new i (j :: rest))) (hm : malloc j = true) :
    ∃ t, settleBar i malloc ((old i).command ^^^ (new i).command) j s = .ok t ∧ t.devs = new ∧
      Holds fx t (Halfway old new i rest) := by
  rw [settleBar_eq, hdevs]
  -- a BAR whose decoding is the same before and after needs no turn
  have hsame : (Decodes old i j ↔ Decodes new i j) → Holds fx s (Halfway old new i rest) := fun hiff =>
    h.turned hj (halfway_cons_self.trans hiff) fun _ _ _ => Iff.rfl
  cases hsp : barSpace new i j with
  | none =>
    refine ⟨s, rfl, hdevs, hsame ?_⟩
    rw [Decodes, Decodes, ← hr.barSpace, hsp]
    simp
  | some sp =>
    have hdecOld := decodes_iff hmax ((hr.barSpace i j).symm.trans hsp)
    have hdecNew := decodes_iff hmax hsp
    dsimp only
    by_cases hchanged : ((old i).command ^^^ (new i).command) &&& sp.bit ≠ 0
    · rw [if_pos hchanged]
      rw [changed_iff, ← enabled_eq, ← enabled_eq] at hchanged
      have hsome : barSpace new i j ≠ none := by
        rw [hsp]
        exact Option.some_ne_none _
      have hal := hwf.aligned j hsome
      cases hen : (new i).enabled sp with
      | true =>
        rw [hen] at hchanged
        have hoff : (old i).enabled sp = false := Bool.eq_false_iff.mpr hchanged
        have hnot : ¬ Halfway old new i (j :: rest) i j := by
          rw [halfway_cons_self, hdecOld, hoff]
          exact Bool.false_ne_true
        have hfree : Free fx new (Halfway old new i (j :: rest)) i j :=
          free_halfway_on hr hnew hsp (hdecNew.mpr hen) hoff
        subst hdevs
        obtain ⟨t, hreg, ht, hholds⟩ := registerBar_ok h hal hsome hnot hfree hm
        refine ⟨t, by rw [if_pos rfl, hreg], ht, hholds.turned hj ?_ fun i' j' hne => ?_⟩
        · exact ⟨fun _ => hdecNew.mpr hen, fun _ => .inr rfl⟩
        · exact or_iff_left hne
      | false =>
        rw [hen] at hchanged
        have hon : (old i).enabled sp = true := Bool.ne_false_iff.mp hchanged
        have hfree : Free fx new (Halfway old new i (j :: rest)) i j :=
          free_halfway_off hr hold hsp (hdecOld.mpr hon) hen
        subst hdevs
        obtain ⟨t, hun, ht, hholds⟩ := unregisterBar_ok malloc h hal hsome
          (halfway_cons_self.mpr (hdecOld.mpr hon)) hfree
        refine ⟨t, by rw [if_neg Bool.false_ne_true, hun], ht, hholds.turned hj ?_ fun i' j' hne => ?_⟩
        · rw [hdecNew, hen]
          exact ⟨fun hP => absurd rfl hP.2, fun hen' => absurd hen' Bool.false_ne_true⟩
        · exact and_iff_left hne
    · rw [if_neg hchanged]
      rw [changed_iff, ← enabled_eq, ← enabled_eq, not_not] at hchanged
      refine ⟨s, rfl, hdevs, hsame ?_⟩
      rw [hdecOld, hdecNew, hchanged]

/-- The loop over the BARs takes them from the old to the new value, one after the other. -/
theorem settleBars_ok (hr : Recommanded old new i) (hwf : (new i).Wf) (hold : Apart fx old)
    (hnew : Apart fx new) {idxs : List ℕ} (hmax : ∀ j ∈ idxs, j ≤ pciBarmax) (hnodup : idxs.Nodup)
    (hdevs : s.devs = new) (h : Holds fx s (Halfway old new i idxs))
    (hm : ∀ j ≤ pciBarmax, malloc j = true) :
    ∃ t, settleBars i malloc ((old i).command ^^^ (new i).command) idxs s = .ok t ∧ t.devs = new ∧
      Holds fx t (Decodes new) := by
  induction idxs generalizing s with
  | nil =>
    refine ⟨s, rfl, hdevs, h.of_iff fun i' j' => ?_⟩
    simp [Halfway]
  | cons j rest ih =>
    obtain ⟨hj, hrest⟩ := List.nodup_cons.mp hnodup
    obtain ⟨hjmax, hrestmax⟩ := List.forall_mem_cons.mp hmax
    obtain ⟨t, ht, htdevs, htholds⟩ := settleBar_ok hr hwf hold hnew hjmax hj hdevs h (hm j hjmax)
    rw [settleBars, ht]
    exact ih hrestmax hrest htdevs htholds

/-- A write to the command register that leaves the decoded ranges apart. -/
theorem cmdstsWrite_ok (h : Settled fx s) (coff bytes : ℕ) (eax : BitVec 32)
    (hclear : Apart fx (update s.devs i
      { s.devs i with cmdsts := cmdstsValue (s.devs i).cmdsts coff bytes eax }))
    (hm : ∀ j ≤ pciBarmax, malloc j = true) :
    ∃ t, cmdstsWrite s i malloc coff bytes eax = .ok t ∧ Settled fx t := by
  generalize hd : { s.devs i with cmdsts := cmdstsValue (s.devs i).cmdsts coff bytes eax } = d at hclear
  have hbar : d.bar = (s.devs i).bar := by rw [← hd]
  have hr : Recommanded s.devs (update s.devs i d) i := by
    refine ⟨fun i' => ?_, fun i' hi => update_of_ne hi d s.devs⟩
    by_cases hi : i' = i
    · subst hi
      rw [update_self, hbar]
    · rw [update_of_ne hi]
  have hwf : ∀ i', (update s.devs i d i').Wf := by
    intro i'
    obtain ⟨haligned, hpair⟩ := h.wf i'
    exact ⟨by rw [hr.bar]; exact haligned, by rw [hr.bar]; exact hpair⟩
  have hstart : Holds fx (s.setDev i d) (Halfway s.devs (update s.devs i d) i
      (List.range (pciBarmax + 1))) := by
    have hholds := Holds.withDevs h.faithful (fun i' j' _ => hr.barSpace i' j')
      fun i' j' _ => hr.barExtent i' j'
    refine hholds.of_iff fun i' j' => ?_
    rw [Halfway]
    split
    · rfl
    · rename_i hne
      by_cases hi : i' = i
      · -- beyond the last BAR nothing is decoded
        have hj : ¬ j' ≤ pciBarmax := fun hle =>
          hne ⟨hi, List.mem_range.mpr (Nat.lt_succ_of_le hle)⟩
        simp [Decodes, hj]
      · exact (decodes_congr (hr.barSpace i' j') (by rw [hr.other i' hi])).symm
  obtain ⟨t, ht, hdevs, hholds⟩ := settleBars_ok hr (hwf i) h.apart hclear
    (fun j hj => Nat.le_of_lt_succ (List.mem_range.mp hj)) List.nodup_range rfl hstart hm
  refine ⟨t, ?_, by rw [hdevs]; exact hwf, by rw [hdevs]; exact hclear,
    by rw [Faithful, hdevs]; exact hholds⟩
  rw [cmdstsWrite, hd]
  rw [update_self] at ht
  exact ht

/-- One write of the guest that leaves the decoded ranges apart. -/
theorem step_ok (h : Settled fx s) {a : Action ι} (hclear : Clear fx s a) :
    ∃ t, step s a = .ok t ∧ Settled fx t := by
  obtain ⟨hclear, hm⟩ := hclear
  rw [step, cfgrw]
  rw [configure] at hclear
  split_ifs at hclear ⊢ with hbytes hreg hrange
  · exact ⟨s, rfl, h⟩
  · exact ⟨s, rfl, h⟩
  · exact ⟨s, rfl, h⟩
  · refine barWrite_ok h ?_ a.eax hclear hm
    have hlt : a.coff < 0x28 := hrange.2
    simp only [pciBarmax, pcirBar, pcirBars]
    omega
  · exact cmdstsWrite_ok h a.coff a.bytes a.eax hclear hm
  · exact ⟨s, rfl, h⟩

/-- In every run whose writes leave the decoded ranges apart. -/
theorem Settled.run {as : List (Action ι)} (h0 : Settled fx s) (hrun : Run step (Clear fx) s as t) :
    Settled fx t := by
  refine hrun.invariant (fun s a t hc hs hi => ?_) h0
  obtain ⟨u, hu, hsettled⟩ := step_ok hi hc
  cases hs.symm.trans hu
  exact hsettled

end Writing

end HyperCog.Pci
