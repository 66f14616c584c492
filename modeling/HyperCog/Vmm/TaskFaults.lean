import HyperCog.Vmm.TaskSwitch

/-! Which mistakes of the guest the emulation of a task switch survives. -/
namespace HyperCog.Task

open Machine List

variable {α β : Type} {E : Exit → Prop} {Q : α → State → Prop} {R : β → State → Prop} {m : M α}
  {f : Unit → M β} {s : State} {sel : BitVec 16} {c ext small : Bool} {vector len : ℕ} {ts : TaskSwitch} {pg : Paging}

/-- The handler returns VMEXIT_CONTINUE with one exception injected; or VMEXIT_ABORT with none, for want of memory
or because the new TSS is a small one, of 16 bits. -/
def HandlerExit (small : Bool) : Exit → Prop
  | .cont s => s.injected.length = 1
  | .abort s => s.injected = [] ∧ (s.unmapped = true ∨ small = true)
  | _ => False

/-- CHKERR turns the exits of a helper into those of the handler. -/
theorem ends_chkerr (h : Ends Q HelperExit (m s)) : Ends Q (HandlerExit small) (chkerr m s) := by
  rw [chkerr]
  cases hrun : m s with
  | ok r =>
    rw [hrun] at h
    exact h
  | error e =>
    rw [hrun] at h
    cases e with
    | fault _ => exact h
    | ret code s' =>
      obtain ⟨rfl, hs', hmap⟩ := h
      exact ⟨hs', .inl hmap⟩
    | cont | abort | died => exact h.elim

/-- A check of the handler goes to `done` with its exception. -/
theorem ends_check (hs : s.injected = []) (hf : c = true → Ends R (HandlerExit small) (f () s)) :
    Ends R (HandlerExit small) ((unlessM c (selException .cont vector sel ext) >>= f) s) := by
  cases c with
  | true => exact hf rfl
  | false =>
    change Ends _ _ (raise .cont vector _ s >>= fun r => _)
    rw [raise_eq hs]
    exact rfl

theorem ends_assert (h : c = true) (hf : Ends R E (f () s)) : Ends R E ((assert c >>= f) s) := by
  subst h
  exact hf

/-- What only reads the state comes before what goes on from it. -/
theorem ends_read {P : α → Prop} {f : α → M β} (hm : Ends (fun a s' => s' = s ∧ P a) E (m s))
    (hf : ∀ a, P a → Ends R E (f a s)) : Ends R E ((m >>= f) s) :=
  ends_bind hm fun a _ h => h.1 ▸ hf a h.2

theorem ends_unlessM {m : M Unit} {P : State → Prop} (hp : c = true → P s)
    (hm : c = false → Ends (fun _ => P) E (m s)) : Ends (fun _ => P) E (unlessM c m s) := by
  cases c with
  | true => exact hp rfl
  | false => exact hm rfl

section Gdt

/-- The address of the entry of the GDT that a selector names. -/
def State.entry (s : State) (sel : BitVec 16) : BitVec 64 := (s.descs .gdtr).base + (selStart sel).setWidth 64

def State.descAt (s : State) (sel : BitVec 16) : Usd := ⟨.ofNat 64 (Bytes.value (window s.mem (s.entry sel) 8) 0 8)⟩

/-- The selector names an entry of the GDT. -/
structure InGdt (s : State) (sel : BitVec 16) : Prop where
  gdt : isLdt sel = false
  within : ¬ (s.descs .gdtr).limit < selLimit sel

theorem InGdt.inTable (h : InGdt s sel) : s.inTable sel = true := by
  have hlimit := h.within
  rw [State.inTable, tableOf, h.gdt]
  simpa using hlimit

variable (hs : s.injected = []) (hpg : pg.Flat)
include hs hpg

theorem ends_descTableSetup (h : InGdt s sel) (write : Bool) :
    Ends (fun iov s' => s' = s ∧ Covers (s.entry sel) 8 iov) HelperExit (descTableSetup pg sel write s) := by
  have htable : tableOf sel = .gdtr := by
    rw [tableOf, h.gdt]
    rfl
  rw [descTableSetup, htable]
  refine ends_read (P := (· = s.descs .gdtr)) ⟨rfl, rfl⟩ ?_
  rintro _ rfl
  exact ends_assert (by simpa using h.within) (ends_xhVmCopySetup hpg hs write _ (by decide))

theorem ends_descTableRead (h : InGdt s sel) :
    Ends (fun usd s' => s' = s ∧ usd = s.descAt sel) HelperExit (descTableRead pg sel s) := by
  refine ends_read (ends_descTableSetup hs hpg h false) fun iov hiov => ?_
  change Ends _ _ (xhVmCopyin iov 8 s >>= fun r => _)
  rw [xhVmCopyin_eq hiov]
  exact ⟨rfl, rfl⟩

theorem ends_descTableWrite (h : InGdt s sel) (desc : Usd) :
    Ends (fun _ s' => s'.injected = []) HelperExit (descTableWrite pg sel desc s) :=
  ends_read (ends_descTableSetup hs hpg h true) fun _ hiov => ends_xhVmCopyout hiov hs _

omit hpg in
theorem ends_readTssDescriptor (hpg : ts.supPaging.Flat) (h : InGdt s sel) (hidx : idxSel sel ≠ 0) :
    Ends (fun usd s' => s' = s ∧ usd = s.descAt sel) HelperExit (readTssDescriptor ts sel s) := by
  refine ends_assert (by rw [h.gdt]; rfl) (ends_assert (by simpa using hidx) ?_)
  change Ends _ _ ((unlessM (s.inTable sel) _ >>= fun _ => descTableRead ts.supPaging sel) s)
  rw [h.inTable]
  exact ends_descTableRead hs hpg h

end Gdt

section Fetch

def newDesc (ts : TaskSwitch) (s : State) : SegDesc := usdToSegDesc (s.descAt ts.tsssel)

def State.trSel (s : State) : BitVec 16 := (s.regs .tr).setWidth 16

/-- The descriptor of the new TSS passes its checks. -/
structure Verified (ts : TaskSwitch) (nt : SegDesc) : Prop where
  known : (isTss386 (segDescType nt.access) || isTss286 (segDescType nt.access)) = true
  present : segDescPresent nt.access = true
  limit : minlimit (segDescType nt.access) ≤ nt.limit.toNat
  busy : tssBusy (segDescType nt.access) = true ↔ ts.reason = .iret

/-- The task register holds a busy TSS, whose selector names an entry of the GDT. -/
structure BusyTask (s : State) : Prop where
  within : ¬ (s.descs .gdtr).limit < selLimit s.trSel
  usable : (!segDescUnusable (s.descs .tr).access && segDescPresent (s.descs .tr).access) = true
  busy : segDescType (s.descs .tr).access = sdtSys386bsy ∨ segDescType (s.descs .tr).access = sdtSys286bsy

/-- The task register was never loaded. -/
def NoTask (s : State) : Prop := isLdt s.trSel = true ∨ idxSel s.trSel = 0

theorem minlimit_pos {type : BitVec 32} (h : (isTss386 type || isTss286 type) = true) : 0 < minlimit type := by
  rw [minlimit]
  split
  · decide
  · rename_i h386
    rw [Bool.eq_false_iff.mpr h386, Bool.false_or] at h
    rw [if_pos h]
    decide

theorem minlimit_lt_page (type : BitVec 32) : minlimit type + 1 ≤ pageSize := by
  rw [minlimit]
  split
  · decide
  · split <;> decide

variable (hs : s.injected = [])
include hs

theorem ends_verifyNewTss {nt : SegDesc} (hf : Verified ts nt → Ends R (HandlerExit small) (f () s)) :
    Ends R (HandlerExit small) ((verifyNewTss ts nt >>= f) s) := by
  simp only [verifyNewTss, bind_assoc]
  refine ends_check hs fun hknown => ends_check hs fun hpresent => ?_
  refine ends_assert (decide_eq_true (minlimit_pos hknown)) ?_
  refine ends_check hs fun hlimit => ends_check hs fun hiret => ends_check hs fun hother => hf ?_
  refine ⟨hknown, hpresent, of_decide_eq_true hlimit, fun hbusy => ?_, fun hreason => ?_⟩
  · exact (of_decide_eq_true hother).resolve_right (not_not_intro hbusy)
  · exact (of_decide_eq_true hiret).resolve_left (not_not_intro hreason)

variable (hpg : ts.supPaging.Flat)
include hpg

theorem ends_fetchTss (base : BitVec 64) (hlen : len ≤ pageSize) :
    Ends (fun _ s' => s' = s ∧ True) (HandlerExit small) (fetchTss ts base len s) := by
  refine ends_read (ends_chkerr (ends_xhVmCopySetup hpg hs true base hlen)) fun iov hiov => ?_
  change Ends _ _ (xhVmCopyin iov len s >>= fun r => _)
  rw [xhVmCopyin_eq hiov]
  exact ⟨rfl, trivial⟩

theorem ends_fetchNew (hsel : InGdt s ts.tsssel) (hidx : idxSel ts.tsssel ≠ 0) :
    Ends (fun nt s' => s' = s ∧ Verified ts (newDesc ts s) ∧ nt.desc = s.descAt ts.tsssel) (HandlerExit small)
      (fetchNew ts s) := by
  refine ends_read (ends_chkerr (ends_readTssDescriptor hs hpg hsel hidx)) ?_
  rintro _ rfl
  refine ends_verifyNewTss hs fun hv => ?_
  exact ends_read (ends_fetchTss hs hpg _ (minlimit_lt_page _)) fun r _ => ⟨rfl, hv, rfl⟩

theorem ends_fetchOld (htr : ¬ NoTask s → BusyTask s) (hlen : len ≤ pageSize) :
    Ends (fun ot s' => s' = s ∧ ¬ NoTask s ∧ InGdt s ot.sel) (HandlerExit small) (fetchOld ts len s) := by
  refine ends_read (P := (· = s.regs .tr)) ⟨rfl, rfl⟩ ?_
  rintro _ rfl
  refine ends_check hs fun hsel => ?_
  have hnone : ¬ NoTask s := by
    rw [NoTask, State.trSel]
    simpa using hsel
  have hbusy := htr hnone
  have hgdt : InGdt s s.trSel := ⟨Bool.eq_false_iff.mpr fun h => hnone (.inl h), hbusy.within⟩
  refine ends_read (P := (· = s.descs .tr)) ⟨rfl, rfl⟩ ?_
  rintro _ rfl
  refine ends_assert hbusy.usable (ends_assert (decide_eq_true hbusy.busy) ?_)
  refine ends_read (ends_chkerr (ends_readTssDescriptor hs hpg hgdt fun h => hnone (.inr h))) fun desc _ => ?_
  exact ends_read (ends_fetchTss hs hpg _ hlen) fun r _ => ⟨rfl, hnone, hgdt⟩

/-- A task with a 16-bit TSS is not switched to. -/
theorem ends_commit {R : Unit → State → Prop} {nt ot : Fetched} (hot : InGdt s ot.sel)
    (h286 : isTss286 (ntType nt.desc) = true) : Ends R (HandlerExit true) (commit ts nt ot s) := by
  refine ends_bind (Q := fun _ s' => s'.injected = []) ?_ fun _ s' hs' => ?_
  · exact ends_unlessM (fun _ => hs) fun _ => ends_chkerr (ends_descTableWrite hs hpg hot _)
  · rw [h286]
    exact ⟨hs', .inr rfl⟩

end Fetch

/-- The handler returns: with the switch done and no exception, after a fault with VMEXIT_CONTINUE and one exception,
or with VMEXIT_ABORT, if memory is missing or the new TSS has 16 bits. -/
def Orderly (ts : TaskSwitch) (s : State) (r : Except Exit (Unit × State)) : Prop :=
  Ends (fun _ s' => s'.injected = []) (HandlerExit (isTss286 (ntType (s.descAt ts.tsssel)))) r

/-- A switch that ends before the new task is loaded. There is no paging, and selectors are within the GDT. -/
structure Refused (ts : TaskSwitch) (s : State) : Prop where
  paging : ts.paging.Flat
  sel : InGdt s ts.tsssel
  idx : idxSel ts.tsssel ≠ 0
  tr : ¬ NoTask s → BusyTask s
  refused : Verified ts (newDesc ts s) → isTss286 (ntType (s.descAt ts.tsssel)) = true ∨ NoTask s

namespace Sample

/-- A present descriptor of at most 64 KiB. -/
def usd (base limit type : ℕ) : ℕ := limit + base * 2 ^ 16 + type * 2 ^ 40 + 2 ^ 47

/-- A GDT with the running task, another one, and a code and a data segment; the TSS of the other task; and page
tables that map the first 2 MiB to themselves. -/
def mem (cs cr3 : ℕ) : ℕ → BitVec 8 :=
  [(0x1008, 8, usd 0x2000 0x67 11), (0x1010, 8, usd 0x3000 0x67 9), (0x1018, 8, usd 0 0xffff 0x1a),
    (0x1020, 8, usd 0 0xffff 0x12), (0x3000 + 28, 4, cr3), (0x3000 + 76, 2, cs), (0x3000 + 80, 2, 0x20),
    (0x4000, 8, 0x5001), (0x5000, 8, 0x87)].foldl (fun m w => Bytes.put m w.1 w.2.1 w.2.2) fun _ => 0

def state (cs cr3 : ℕ) : State where
  mem := mem cs cr3
  lowmem := 0x10000
  highmem := 0
  regs r := if r = .tr then 8 else 0
  descs r := if r = .gdtr then ⟨0x1000, 0x3f, 0⟩ else if r = .tr then ⟨0x2000, 0x67, 0x8b⟩ else unusable
  injected := []
  exitintinfo := 0
  unmapped := false

def switch (tsssel : BitVec 16) (mode : PagingMode) : TaskSwitch where
  tsssel := tsssel
  ext := false
  errcode := 0
  errcodeValid := false
  reason := .call
  paging := ⟨0x4000, 0, .protect, mode⟩
  rip := 0x100
  instLength := 7
  errcode_event h := (Bool.false_ne_true h).elim

/-- The run ends in a failed assertion. -/
def died : Except Exit (Unit × State) → Bool
  | .error .died => true
  | _ => false

theorem not_orderly {r : Except Exit (Unit × State)} (h : died r = true) : ¬ Orderly ts s r := by
  match r with
  | .error .died => exact id

end Sample

end HyperCog.Task
