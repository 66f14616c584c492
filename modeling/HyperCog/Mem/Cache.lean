import HyperCog.Lib.SearchTree
import HyperCog.Pci.Basic

/-! The trees of memory ranges behind the emulation of MMIO, and the range that each vCPU hit last. -/
namespace HyperCog.Mem

open Machine Pci Function SearchTree

abbrev vmMaxcpu : ℕ := 64

abbrev VcpuId := Fin vmMaxcpu

/-- The range has an address and does not wrap. -/
def Proper {ι : Type} (r : MemRange ι) : Prop := 0 < r.extent.len ∧ r.extent.base + r.extent.len ≤ 2 ^ 64

instance {ι : Type} (r : MemRange ι) : Decidable (Proper r) := inferInstanceAs (Decidable (_ ∧ _))

/-- A `struct mmio_rb_range`: two allocations for one range are two entries. -/
structure Entry (ι : Type) where
  id : ℕ
  param : MemRange ι
  proper : Proper param
  deriving DecidableEq

variable {ι : Type} {lo hi : ℕ}

def Entry.mrBase (e : Entry ι) : ℕ := e.param.extent.base

def Entry.mrEnd (e : Entry ι) : ℕ := e.param.extent.base + e.param.extent.len - 1

/-- `mmio_rb_range_compare` of a range with an entry. -/
def rangeCompare (mrBase mrEnd : ℕ) (b : Entry ι) : Ordering :=
  if mrEnd < b.mrBase then .lt else if mrBase > b.mrEnd then .gt else .eq

def rbLookup (t : SearchTree (Entry ι)) (addr : ℕ) : Option (Entry ι) := t.find (rangeCompare addr addr)

/-- The tree before it is rebalanced, or nothing where the new entry overlaps. -/
def rbAdd (t : SearchTree (Entry ι)) (e : Entry ι) : Option (SearchTree (Entry ι)) :=
  t.insert (rangeCompare e.mrBase e.mrEnd) e

structure State (ι : Type) where
  root : SearchTree (Entry ι)
  fallback : SearchTree (Entry ι)
  hint : VcpuId → Option (Entry ι)
  /-- the entry whose handler the vCPU runs -/
  serving : VcpuId → Option (Entry ι)
  /-- the next allocation -/
  next : ℕ
  /-- the entries that were unregistered -/
  gone : List ℕ

/-- Why an action does not take place. -/
inductive Stop
  /-- `mmio_rwlock` is held for reading -/
  | locked
  /-- the vCPU runs a handler, or does not -/
  | vcpu
  /-- no rebalancing gives this tree -/
  | shape
  | abort (a : Abort)
  deriving DecidableEq, Repr

section Calls

variable (s : State ι)

/-- The lock is released early for a range that is never removed. -/
def State.reading : Bool :=
  (List.finRange vmMaxcpu).any fun v =>
    match s.serving v with
    | none => false
    | some e => !e.param.immutable

/-- The hint is taken where it covers the address. -/
def hinted (hint : Option (Entry ι)) (paddr : ℕ) : Option (Entry ι) :=
  hint.filter fun e => decide (e.mrBase ≤ paddr) && decide (paddr ≤ e.mrEnd)

/-- The part of `emulate_mem` under the lock: the entry, or `ESRCH`. -/
def State.choose (v : VcpuId) (paddr : ℕ) : Option (Entry ι) × State ι :=
  match hinted (s.hint v) paddr with
  | some e => (some e, s)
  | none =>
    match rbLookup s.root paddr with
    | some e => (some e, { s with hint := update s.hint v (some e) })
    | none => (rbLookup s.fallback paddr, s)

/-- A lookup in the main tree, then in the fallback tree. -/
def State.freshLookup (paddr : ℕ) : Option (Entry ι) := (rbLookup s.root paddr).or (rbLookup s.fallback paddr)

variable [DecidableEq ι]

/-- `register_mem_int`, with the outcome of `malloc` and the tree that the rebalancing leaves. -/
def registerMemInt (malloc : Bool) (t : SearchTree (Entry ι)) (e : Entry ι)
    (shape : SearchTree (Entry ι)) : Except Stop (Option Errno × SearchTree (Entry ι)) :=
  if malloc = false then .ok (some .ENOMEM, t)
  else if (rbLookup t e.mrBase).isSome then .ok (none, t)
  else
    match rbAdd t e with
    | none => .ok (some .EEXIST, t)
    | some t' => if shape.toList = t'.toList then .ok (none, shape) else .error .shape

def State.registerMem (malloc : Bool) (e : Entry ι) (shape : SearchTree (Entry ι)) :
    Except Stop (Option Errno × State ι) := do
  let (err, root) ← registerMemInt malloc s.root e shape
  .ok (err, { s with root := root, next := s.next + 1 })

def State.registerMemFallback (malloc : Bool) (e : Entry ι) (shape : SearchTree (Entry ι)) :
    Except Stop (Option Errno × State ι) := do
  let (err, fallback) ← registerMemInt malloc s.fallback e shape
  .ok (err, { s with fallback := fallback, next := s.next + 1 })

def State.unregisterMem (r : MemRange ι) (shape : SearchTree (Entry ι)) :
    Except Stop (Option Errno × State ι) :=
  match rbLookup s.root r.extent.base with
  | none => .ok (some .ENOENT, s)
  | some e =>
    if e.param.name ≠ r.name then .error (.abort .name)
    else if e.param.extent ≠ r.extent then .error (.abort .range)
    else if e.param.immutable then .error (.abort .immutable)
    else if shape.toList ≠ s.root.toList.filter (· ≠ e) then .error .shape
    else .ok (none, { s with
      root := shape
      hint := fun v => if s.hint v = some e then none else s.hint v
      gone := e.id :: s.gone })

end Calls

/-- What the threads of the device models and the vCPUs do. -/
inductive Action (ι : Type)
  | registerMem (malloc : Bool) (r : MemRange ι) (hr : Proper r) (shape : SearchTree (Entry ι))
  | registerMemFallback (malloc : Bool) (r : MemRange ι) (hr : Proper r) (shape : SearchTree (Entry ι))
  | unregisterMem (r : MemRange ι) (shape : SearchTree (Entry ι))
  /-- a vCPU calls `emulate_mem` and comes to the handler -/
  | emulateMem (v : VcpuId) (paddr : ℕ)
  /-- the handler returns -/
  | returns (v : VcpuId)

section Step

variable [DecidableEq ι] (s : State ι)

def step : Action ι → Except Stop (State ι)
  | .registerMem malloc r hr shape =>
    if s.reading then .error .locked else Prod.snd <$> s.registerMem malloc ⟨s.next, r, hr⟩ shape
  | .registerMemFallback malloc r hr shape =>
    if s.reading then .error .locked else Prod.snd <$> s.registerMemFallback malloc ⟨s.next, r, hr⟩ shape
  | .unregisterMem r shape =>
    if s.reading then .error .locked else Prod.snd <$> s.unregisterMem r shape
  | .emulateMem v paddr =>
    if (s.serving v).isSome then .error .vcpu
    else
      let (entry, s) := s.choose v paddr
      .ok { s with serving := update s.serving v entry }
  | .returns v =>
    if (s.serving v).isSome then .ok { s with serving := update s.serving v none }
    else .error .vcpu

end Step

/-- `init_mem`. -/
def initMem {ι : Type} : State ι := ⟨.nil, .nil, fun _ => none, fun _ => none, 0, []⟩

/-- The hints make no difference, and what was unregistered is not served. -/
structure Transparent {ι : Type} (s : State ι) : Prop where
  chosen : ∀ v paddr, (s.choose v paddr).1 = s.freshLookup paddr
  gone : ∀ e : Entry ι, e.id ∈ s.gone →
    (∀ v paddr, (s.choose v paddr).1 ≠ some e) ∧ ∀ v, s.serving v ≠ some e

variable {e e' : Entry ι} {t t' : SearchTree (Entry ι)} {addr : ℕ}

/-- One entry ends before the other begins. -/
def Before (a b : Entry ι) : Prop := a.mrEnd < b.mrBase

theorem Entry.base_le_end (e : Entry ι) : e.mrBase ≤ e.mrEnd := by
  have := e.proper.1
  unfold Entry.mrBase Entry.mrEnd
  omega

theorem before_trans (a b c : Entry ι) (hab : Before a b) (hbc : Before b c) : Before a c := by
  have := b.base_le_end
  unfold Before at *
  omega

theorem rangeCompare_lt : rangeCompare lo hi e = .lt ↔ hi < e.mrBase := by
  unfold rangeCompare
  split_ifs with h₁ <;> simp [h₁]

theorem rangeCompare_gt (h : lo ≤ hi) : rangeCompare lo hi e = .gt ↔ e.mrEnd < lo := by
  have := e.base_le_end
  unfold rangeCompare
  split_ifs <;> simp <;> omega

theorem rangeCompare_eq (lo hi : ℕ) : rangeCompare lo hi e = .eq ↔ e.mrBase ≤ hi ∧ lo ≤ e.mrEnd := by
  unfold rangeCompare
  split_ifs <;> simp <;> omega

theorem follows_rangeCompare (h : lo ≤ hi) :
    SearchTree.Follows Before (rangeCompare lo hi : Entry ι → Ordering) where
  lt x y hxy hx := by
    have := x.base_le_end
    rw [rangeCompare_lt] at *
    unfold Before at hxy
    omega
  gt x y hxy hy := by
    have := y.base_le_end
    rw [rangeCompare_gt h] at *
    unfold Before at hxy
    omega

/-- Entries in order have no address in common. -/
theorem eq_of_covers (hs : t.Sorted Before) (he : e ∈ t.toList) (he' : e' ∈ t.toList)
    (hc : rangeCompare addr addr e = .eq) (hc' : rangeCompare addr addr e' = .eq) : e' = e := by
  rw [rangeCompare_eq] at hc hc'
  by_contra hne
  have hord := SearchTree.Sorted.before_or_after hs he he' (Ne.symm hne)
  unfold Before at hord
  omega

/-- The lookup gives the entry that covers the address. -/
theorem rbLookup_eq_some (hs : t.Sorted Before) :
    rbLookup t addr = some e ↔ e ∈ t.toList ∧ e.mrBase ≤ addr ∧ addr ≤ e.mrEnd := by
  rw [← rangeCompare_eq addr addr]
  constructor
  · exact find_some
  · rintro ⟨he, hc⟩
    exact find_eq_some (follows_rangeCompare (Nat.le_refl _)) hs he hc
      fun e' he' hc' => eq_of_covers hs he he' hc hc'

theorem sorted_rbAdd (hs : t.Sorted Before) (h : rbAdd t e = some t') : t'.Sorted Before := by
  refine sorted_insert before_trans (fun y hy => ?_) (fun y hy => ?_) hs h
  · exact rangeCompare_lt.mp hy
  · exact (rangeCompare_gt e.base_le_end).mp hy

section Invariant

variable {s s' : State ι}

def State.Live (s : State ι) (e : Entry ι) : Prop := e ∈ s.root.toList ∨ e ∈ s.fallback.toList

/-- The hints and the handlers that run belong to entries of the trees. -/
structure Inv (s : State ι) : Prop where
  root : s.root.Sorted Before
  fallback : s.fallback.Sorted Before
  hint : ∀ v e, s.hint v = some e → e ∈ s.root.toList
  serving : ∀ v e, s.serving v = some e → s.Live e
  unique : ∀ a ∈ s.root.toList, ∀ b, s.Live b → a.id = b.id → a = b
  apart : ∀ e ∈ s.root.toList, e ∉ s.fallback.toList
  next : ∀ e, s.Live e → e.id < s.next
  gone : ∀ i ∈ s.gone, i < s.next ∧ ∀ e, s.Live e → e.id ≠ i

/-- The effect of a registration on the entries. -/
structure Added (s s' : State ι) (e : Entry ι) : Prop where
  root : s'.root.Sorted Before
  fallback : s'.fallback.Sorted Before
  keepRoot : ∀ x ∈ s.root.toList, x ∈ s'.root.toList
  keepFallback : ∀ x ∈ s.fallback.toList, x ∈ s'.fallback.toList
  onlyRoot : ∀ x ∈ s'.root.toList, x ∈ s.root.toList ∨ x = e
  onlyFallback : ∀ x ∈ s'.fallback.toList, x ∈ s.fallback.toList ∨ x = e
  one : s'.root = s.root ∨ s'.fallback = s.fallback
  rest : s'.hint = s.hint ∧ s'.serving = s.serving ∧ s'.next = s.next + 1 ∧ s'.gone = s.gone

theorem Inv.added (h : Inv s) (ha : Added s s' e) (he : e.id = s.next) : Inv s' := by
  obtain ⟨hhint, hserving, hnext, hgone⟩ := ha.rest
  have hlive : ∀ x, s'.Live x → s.Live x ∨ x = e := by
    rintro x (hx | hx)
    · exact (ha.onlyRoot x hx).imp_left .inl
    · exact (ha.onlyFallback x hx).imp_left .inr
  have hnew : ∀ x, s.Live x → x ≠ e := by
    rintro x hx rfl
    have := h.next x hx
    omega
  refine ⟨ha.root, ha.fallback, fun v x hx => ?_, fun v x hx => ?_, fun a ha' b hb hid => ?_, fun x hx hf => ?_,
    fun x hx => ?_, fun i hi => ?_⟩
  · rw [hhint] at hx
    exact ha.keepRoot x (h.hint v x hx)
  · rw [hserving] at hx
    exact (h.serving v x hx).imp (ha.keepRoot x) (ha.keepFallback x)
  · rcases ha.onlyRoot a ha' with hold | rfl
    · rcases hlive b hb with hb | rfl
      · exact h.unique a hold b hb hid
      · have := h.next a (.inl hold)
        omega
    · rcases hlive b hb with hb | rfl
      · have := h.next b hb
        omega
      · rfl
  · have hne : x ≠ e := by
      rintro rfl
      rcases ha.one with hroot | hfallback
      · exact hnew x (.inl (hroot ▸ hx)) rfl
      · exact hnew x (.inr (hfallback ▸ hf)) rfl
    exact h.apart x ((ha.onlyRoot x hx).resolve_right hne) ((ha.onlyFallback x hf).resolve_right hne)
  · rw [hnext]
    rcases hlive x hx with hx | rfl
    · exact Nat.lt_succ_of_lt (h.next x hx)
    · omega
  · rw [hgone] at hi
    obtain ⟨hlt, hnot⟩ := h.gone i hi
    refine ⟨by omega, fun x hx => ?_⟩
    rcases hlive x hx with hx | rfl
    · exact hnot x hx
    · omega

variable {v : VcpuId} {paddr : ℕ} {shape : SearchTree (Entry ι)} {err : Option Errno} {malloc : Bool}

/-- Nobody who holds the lock serves an entry that may be removed. -/
theorem immutable_of_not_reading (h : s.reading = false) (hv : s.serving v = some e) :
    e.param.immutable = true := by
  have := List.any_eq_false.mp h v (List.mem_finRange v)
  simpa [hv] using this

theorem hinted_eq_some {hint : Option (Entry ι)} :
    hinted hint paddr = some e ↔ hint = some e ∧ e.mrBase ≤ paddr ∧ paddr ≤ e.mrEnd := by
  simp [hinted, Option.filter_eq_some_iff]

/-- Where the hint covers the address, the main tree has the same entry. -/
theorem Inv.choose_eq (h : Inv s) (v : VcpuId) (paddr : ℕ) : (s.choose v paddr).1 = s.freshLookup paddr := by
  unfold State.choose State.freshLookup
  cases hhint : hinted (s.hint v) paddr with
  | some e =>
    obtain ⟨hv, hcov⟩ := hinted_eq_some.mp hhint
    rw [(rbLookup_eq_some h.root).mpr ⟨h.hint v e hv, hcov⟩]
    rfl
  | none =>
    cases hroot : rbLookup s.root paddr with
    | some e => rfl
    | none => rfl

theorem Inv.live_choose (h : Inv s) (hc : (s.choose v paddr).1 = some e) : s.Live e := by
  rw [h.choose_eq, State.freshLookup, Option.or_eq_some_iff] at hc
  rcases hc with hroot | ⟨-, hfallback⟩
  · exact .inl (find_some hroot).1
  · exact .inr (find_some hfallback).1

/-- Only the vCPU's own hint may change, to an entry of the main tree. -/
theorem choose_state (v : VcpuId) (paddr : ℕ) : (s.choose v paddr).2 = s ∨
    ∃ e ∈ s.root.toList, (s.choose v paddr).2 = { s with hint := update s.hint v (some e) } := by
  unfold State.choose
  split
  · exact .inl rfl
  · split
    · exact .inr ⟨_, (find_some ‹_›).1, rfl⟩
    · exact .inl rfl

theorem Inv.withHint (h : Inv s) (he : e ∈ s.root.toList) :
    Inv { s with hint := update s.hint v (some e) } := by
  refine { h with hint := fun u x hx => ?_ }
  by_cases hu : u = v
  · subst hu
    simp only [update_self, Option.some.injEq] at hx
    exact hx ▸ he
  · simp only [update_of_ne hu] at hx
    exact h.hint u x hx

theorem Inv.withServing (h : Inv s) {entry : Option (Entry ι)} (he : ∀ e, entry = some e → s.Live e) :
    Inv { s with serving := update s.serving v entry } := by
  refine { h with serving := fun u x hx => ?_ }
  by_cases hu : u = v
  · subst hu
    simp only [update_self] at hx
    exact he x hx
  · simp only [update_of_ne hu] at hx
    exact h.serving u x hx

theorem inv_initMem : Inv (initMem : State ι) where
  root := List.Pairwise.nil
  fallback := List.Pairwise.nil
  hint v e he := by cases he
  serving v e he := by cases he
  unique a ha := by cases ha
  apart e he := by cases he
  next e he := by rcases he with he | he <;> cases he
  gone i hi := by cases hi

theorem Inv.transparent (h : Inv s) : Transparent s := by
  refine ⟨h.choose_eq, fun e he => ⟨fun v paddr hc => ?_, fun v hv => ?_⟩⟩
  · exact (h.gone e.id he).2 e (h.live_choose hc) rfl
  · exact (h.gone e.id he).2 e (h.serving v e hv) rfl

theorem map_snd_eq_ok {ε α β : Type} {x : Except ε (α × β)} {b : β} :
    Prod.snd <$> x = .ok b ↔ ∃ a, x = .ok (a, b) := by
  cases x with
  | error e => simp [Functor.map, Except.map]
  | ok p =>
    obtain ⟨a, b'⟩ := p
    simp [Functor.map, Except.map]

variable [DecidableEq ι]

/-- The new entry joins the ones there are, in order, or nothing changes. -/
theorem registerMemInt_spec (hs : t.Sorted Before)
    (h : registerMemInt malloc t e shape = .ok (err, t')) :
    t'.Sorted Before ∧ (∀ x ∈ t.toList, x ∈ t'.toList) ∧ ∀ x ∈ t'.toList, x ∈ t.toList ∨ x = e := by
  have hsame : t.Sorted Before ∧ (∀ x ∈ t.toList, x ∈ t.toList) ∧ ∀ x ∈ t.toList, x ∈ t.toList ∨
    x = e :=
    ⟨hs, fun _ hx => hx, fun _ hx => .inl hx⟩
  unfold registerMemInt at h
  split_ifs at h
  · cases h
    exact hsame
  · cases h
    exact hsame
  · split at h
    · cases h
      exact hsame
    · rename_i u hadd
      split_ifs at h with hshape
      cases h
      refine ⟨?_, fun x hx => ?_, fun x hx => ?_⟩
      · rw [SearchTree.Sorted, hshape]
        exact sorted_rbAdd hs hadd
      · rw [hshape]
        exact (mem_insert hadd).mpr (.inr hx)
      · rw [hshape] at hx
        exact ((mem_insert hadd).mp hx).symm

theorem added_registerMem (h : Inv s) (hs : s.registerMem malloc e shape = .ok (err, s')) :
    Added s s' e := by
  obtain ⟨⟨err', root⟩, hreg, hok⟩ := bind_eq_ok.mp hs
  cases hok
  obtain ⟨hsorted, hkeep, honly⟩ := registerMemInt_spec h.root hreg
  exact ⟨hsorted, h.fallback, hkeep, fun _ hx => hx, honly, fun _ hx => .inl hx, .inr rfl, rfl, rfl, rfl, rfl⟩

theorem added_registerMemFallback (h : Inv s) (hs : s.registerMemFallback malloc e shape = .ok (err, s')) :
    Added s s' e := by
  obtain ⟨⟨err', fallback⟩, hreg, hok⟩ := bind_eq_ok.mp hs
  cases hok
  obtain ⟨hsorted, hkeep, honly⟩ := registerMemInt_spec h.fallback hreg
  exact ⟨h.root, hsorted, fun _ hx => hx, hkeep, fun _ hx => .inl hx, honly, .inl rfl, rfl, rfl, rfl, rfl⟩

/-- The entry is removed from the tree, and every hint at it is cleared. -/
theorem Inv.unregisterMem {r : MemRange ι} (h : Inv s) (hfree : s.reading = false)
    (hs : s.unregisterMem r shape = .ok (err, s')) : Inv s' := by
  unfold State.unregisterMem at hs
  split at hs
  · cases hs
    exact h
  · rename_i e he
    split_ifs at hs with hname hrange himm hshape
    cases hs
    have hroot : e ∈ s.root.toList := (find_some he).1
    have hmem : ∀ x, x ∈ shape.toList ↔ x ∈ s.root.toList ∧ x ≠ e := by
      intro x
      rw [not_not.mp hshape, List.mem_filter, decide_eq_true_eq]
    have hlive : ∀ x, x ∈ shape.toList ∨ x ∈ s.fallback.toList → s.Live x ∧ x ≠ e := by
      rintro x (hx | hx)
      · exact ⟨.inl ((hmem x).mp hx).1, ((hmem x).mp hx).2⟩
      · refine ⟨.inr hx, ?_⟩
        rintro rfl
        exact h.apart x hroot hx
    refine ⟨?_, h.fallback, fun v x hx => ?_, fun v x hx => ?_, fun a ha b hb hid => ?_, fun x hx => ?_,
      fun x hx => h.next x (hlive x hx).1, fun i hi => ?_⟩
    · rw [SearchTree.Sorted, not_not.mp hshape]
      exact h.root.filter _
    · dsimp only at hx
      split_ifs at hx with hhint
      refine (hmem x).mpr ⟨h.hint v x hx, ?_⟩
      rintro rfl
      exact hhint hx
    · have himmutable := immutable_of_not_reading hfree hx
      rcases h.serving v x hx with hx | hx
      · refine .inl ((hmem x).mpr ⟨hx, ?_⟩)
        rintro rfl
        exact himm himmutable
      · exact .inr hx
    · exact h.unique a ((hmem a).mp ha).1 b (hlive b hb).1 hid
    · exact h.apart x ((hmem x).mp hx).1
    · rcases List.mem_cons.mp hi with rfl | hi
      · refine ⟨h.next e (.inl hroot), fun x hx hid => ?_⟩
        exact (hlive x hx).2 (h.unique e hroot x (hlive x hx).1 hid.symm).symm
      · exact ⟨(h.gone i hi).1, fun x hx => (h.gone i hi).2 x (hlive x hx).1⟩

theorem Inv.step {a : Action ι} (h : Inv s) (hs : step s a = .ok s') : Inv s' := by
  cases a with
  | registerMem malloc r hr shape =>
    simp only [Mem.step] at hs
    split_ifs at hs
    obtain ⟨err, hreg⟩ := map_snd_eq_ok.mp hs
    exact h.added (added_registerMem h hreg) rfl
  | registerMemFallback malloc r hr shape =>
    simp only [Mem.step] at hs
    split_ifs at hs
    obtain ⟨err, hreg⟩ := map_snd_eq_ok.mp hs
    exact h.added (added_registerMemFallback h hreg) rfl
  | unregisterMem r shape =>
    simp only [Mem.step] at hs
    split_ifs at hs with hlock
    obtain ⟨err, hreg⟩ := map_snd_eq_ok.mp hs
    exact h.unregisterMem (by simpa using hlock) hreg
  | emulateMem v paddr =>
    simp only [Mem.step] at hs
    split_ifs at hs
    cases hs
    have hlive : ∀ e, (s.choose v paddr).1 = some e → s.Live e := fun _ => h.live_choose
    rcases choose_state v paddr with heq | ⟨e, he, heq⟩
    · rw [heq]
      exact h.withServing hlive
    · rw [heq]
      exact (h.withHint he).withServing hlive
  | returns v =>
    simp only [Mem.step] at hs
    split_ifs at hs
    cases hs
    exact h.withServing nofun

/-- The ranges of each tree stay apart, and every hint is at one of the main tree. -/
theorem ranges_apart {as : List (Action ι)} (h : Run step Any initMem as s) :
    s.root.Sorted Before ∧ s.fallback.Sorted Before ∧ ∀ v e, s.hint v = some e → e ∈ s.root.toList := by
  have hinv : Inv s := h.invariant (fun _ _ _ _ hs hi => hi.step hs) inv_initMem
  exact ⟨hinv.root, hinv.fallback, hinv.hint⟩

end Invariant

/-- For every order of the calls, and however the trees are balanced. -/
theorem hint_transparent {ι : Type} [DecidableEq ι] {as : List (Action ι)} {s : State ι}
    (h : Run step Any initMem as s) : Transparent s := by
  refine Inv.transparent (h.invariant ?_ inv_initMem)
  intro s a t _ hs hi
  exact hi.step hs

def sampleRange (name : ℕ) : MemRange ℕ := ⟨some name, 0, ⟨0x1000, 0x1000⟩, false⟩

theorem proper_sampleRange (name : ℕ) : Proper (sampleRange name) := by simp [Proper, sampleRange]

def sampleEntry (id name : ℕ) : Entry ℕ := ⟨id, sampleRange name, proper_sampleRange name⟩

/-- A vCPU has a hint at a range when the range gives way to another one. -/
def replacedRun : List (Action ℕ) :=
  [.registerMem true (sampleRange 7) (proper_sampleRange 7) (.node .nil (sampleEntry 0 7) .nil),
    .emulateMem 3 0x1800, .returns 3,
    .unregisterMem (sampleRange 7) .nil,
    .registerMem true (sampleRange 8) (proper_sampleRange 8) (.node .nil (sampleEntry 1 8) .nil)]

theorem hint_transparent_replaced : ∃ s, Run step Any initMem replacedRun s ∧ Transparent s ∧
    (s.choose 3 0x1800).1 = some (sampleEntry 1 8) ∧ s.gone = [0] := by
  have hrun : Run step Any initMem replacedRun _ := run_of_isOk (d := initMem) rfl
  exact ⟨_, hrun, hint_transparent hrun, by decide +kernel, by decide +kernel⟩

theorem ranges_apart_replaced : ∃ s, Run step Any initMem replacedRun s ∧ s.root.Sorted Before := by
  have hrun : Run step Any initMem replacedRun _ := run_of_isOk (d := initMem) rfl
  exact ⟨_, hrun, (ranges_apart hrun).1⟩

end HyperCog.Mem
