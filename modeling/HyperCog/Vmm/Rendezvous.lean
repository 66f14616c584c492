import HyperCog.Lib.Run
import Mathlib.Data.Finset.Basic

/-! The rendezvous of vCPUs: threads that start one, threads that take part, and what each has run. -/
namespace HyperCog.Rendezvous

open Machine List

variable {κ τ : Type} {vcpuid : τ → Option κ} {t : τ} {r : ℕ} {dest : Finset κ}

/-- Where a thread goes from `vm_handle_rendezvous`. -/
inductive Cont (κ : Type)
  /-- back to the run loop -/
  | runLoop
  /-- to the restart of its own `vm_smp_rendezvous`, which found another one in progress -/
  | restart (dest : Finset κ)
  /-- out of its own `vm_smp_rendezvous`, the one with this number -/
  | initiated (r : ℕ)

/-- Where a thread is without `rendezvous_mtx`. -/
inductive Phase (κ : Type)
  | out
  /-- at the start of `vm_smp_rendezvous` -/
  | starting (dest : Finset κ)
  /-- at the start of `vm_handle_rendezvous` -/
  | handling (k : Cont κ)
  /-- in its condition wait -/
  | waiting (k : Cont κ) (signalled : Bool)

/-- What the history keeps of each rendezvous. -/
inductive Event (κ : Type)
  | install (r : ℕ) (dest : Finset κ)
  | execute (r : ℕ) (v : κ)
  | finish (r : ℕ)
  | ret (r : ℕ)
  deriving DecidableEq

/-- The number of the rendezvous. -/
def Event.rid : Event κ → ℕ
  | .install r _ => r
  | .execute r _ => r
  | .finish r => r
  | .ret r => r

/-- The rendezvous in progress, by its number, and the threads. The history is newest first. -/
structure World (κ τ : Type) where
  func : Option ℕ
  req : Finset κ
  done : Finset κ
  active : Finset κ
  phase : τ → Phase κ
  next : ℕ
  log : List (Event κ)

inductive Stop
  | disabled
  deriving DecidableEq, Repr

section Steps

variable [DecidableEq κ] [DecidableEq τ] (vcpuid : τ → Option κ) (s : World κ τ) (t : τ)

def World.go (p : Phase κ) : World κ τ := { s with phase := Function.update s.phase t p }

/-- The thread unlocks and leaves `vm_handle_rendezvous`. -/
def leave : Cont κ → World κ τ
  | .runLoop => s.go t .out
  | .restart dest => s.go t (.starting dest)
  | .initiated r => { s.go t .out with log := .ret r :: s.log }

def Phase.signal : Phase κ → Phase κ
  | .waiting k _ => .waiting k true
  | p => p

/-- The thread runs the function if its vCPU is asked to and has not done so. -/
def takePart (r : ℕ) : World κ τ :=
  match vcpuid t with
  | some v =>
    if v ∈ s.req ∧ v ∉ s.done then
      { s with done := insert v s.done, log := .execute r v :: s.log }
    else s
  | none => s

/-- One pass of the loop of `vm_handle_rendezvous`, with the lock held throughout. -/
def handlePass (k : Cont κ) : World κ τ :=
  match s.func with
  | none => leave s t k
  | some r =>
    let s := takePart vcpuid { s with req := s.req ∩ s.active } t r
    if s.req = s.done then
      leave { s with
        func := none
        log := .finish r :: s.log
        phase := fun u => (s.phase u).signal } t k
    else s.go t (.waiting k false)

/-- `vm_smp_rendezvous` from the restart to its unlock. The notifications add nothing to the visits that
any thread may make to `vm_handle_rendezvous`. -/
def install (dest : Finset κ) : World κ τ :=
  match s.func with
  | some _ => s.go t (.handling (.restart dest))
  | none =>
    { s.go t (.handling (.initiated s.next)) with
      req := dest
      done := ∅
      func := some s.next
      next := s.next + 1
      log := .install s.next dest :: s.log }

inductive Action (κ τ : Type)
  /-- a thread calls `vm_smp_rendezvous` -/
  | call (t : τ) (dest : Finset κ)
  /-- it gets the lock there -/
  | lock (t : τ)
  /-- a thread comes to `vm_handle_rendezvous` from the run loop -/
  | enter (t : τ)
  /-- a thread gets the lock there, or wakes up, signalled or not -/
  | handle (t : τ)
  | activate (v : κ)

def step : Action κ τ → Except Stop (World κ τ)
  | .call t dest =>
    match s.phase t with
    | .out => .ok (s.go t (.starting dest))
    | _ => .error .disabled
  | .lock t =>
    match s.phase t with
    | .starting dest => .ok (install s t dest)
    | _ => .error .disabled
  | .enter t =>
    match s.phase t with
    | .out => .ok (s.go t (.handling .runLoop))
    | _ => .error .disabled
  | .handle t =>
    match s.phase t with
    | .handling k => .ok (handlePass vcpuid s t k)
    | .waiting k _ => .ok (handlePass vcpuid s t k)
    | _ => .error .disabled
  | .activate v => .ok { s with active := insert v s.active }

/-- The destinations of a call are active. -/
def Contained (s : World κ τ) : Action κ τ → Prop
  | .call _ dest => dest ⊆ s.active
  | _ => True

def World.start (active : Finset κ) : World κ τ :=
  { func := none
    req := ∅
    done := ∅
    active := active
    phase := fun _ => .out
    next := 0
    log := [] }

end Steps

/-- Each rendezvous is installed after all before it have finished, is run by each of its destinations
once and by no other, finishes when all of them have run it, and its call returns after that. -/
def Exact : List (Event κ) → Prop
  | [] => True
  | .install r _ :: log =>
    (∀ r' dest', .install r' dest' ∈ log → r' ≠ r ∧ .finish r' ∈ log) ∧ Exact log
  | .execute r v :: log =>
    (∃ dest, .install r dest ∈ log ∧ v ∈ dest) ∧ .execute r v ∉ log ∧ .finish r ∉ log ∧ Exact log
  | .finish r :: log => (∀ dest, .install r dest ∈ log → ∀ v ∈ dest, .execute r v ∈ log) ∧ Exact log
  | .ret r :: log => .finish r ∈ log ∧ Exact log

/-- The rendezvous that a thread is to see finished. -/
def Phase.initiates : Phase κ → Option ℕ
  | .handling (.initiated r) => some r
  | .waiting (.initiated r) _ => some r
  | _ => none

/-- The destinations of the call that a thread is to make. -/
def Phase.wants : Phase κ → Option (Finset κ)
  | .starting dest => some dest
  | .handling (.restart dest) => some dest
  | .waiting (.restart dest) _ => some dest
  | _ => none

/-- The rendezvous in progress against the history. -/
structure Ledger (s : World κ τ) : Prop where
  numbered : ∀ e ∈ s.log, e.rid < s.next
  unique : ∀ r d d', .install r d ∈ s.log → .install r d' ∈ s.log → d = d'
  current : ∀ r, s.func = some r → .install r s.req ∈ s.log ∧ s.req ⊆ s.active ∧ s.done ⊆ s.req ∧
    (∀ v, v ∈ s.done ↔ .execute r v ∈ s.log) ∧ .finish r ∉ s.log
  settled : ∀ r dest, .install r dest ∈ s.log → s.func = some r ∨ .finish r ∈ s.log
  exact : Exact s.log

/-- The threads against the rendezvous in progress. -/
structure Threads (vcpuid : τ → Option κ) (s : World κ τ) : Prop where
  initiated : ∀ t r, (s.phase t).initiates = some r → ∃ dest, .install r dest ∈ s.log
  contained : ∀ t dest, (s.phase t).wants = some dest → dest ⊆ s.active
  /-- a thread sleeps on only while the rendezvous is in progress and its vCPU has done its part -/
  parked : ∀ t k, s.phase t = .waiting k false → s.func ≠ none ∧
    ∀ v, vcpuid t = some v → v ∈ s.req → v ∈ s.done

variable {s s' : World κ τ} {p : Phase κ} {k : Cont κ}

/-- What the continuation of a thread carries. -/
structure Cont.Fits (s : World κ τ) (k : Cont κ) : Prop where
  initiated : ∀ r, k = .initiated r → ∃ dest, .install r dest ∈ s.log
  contained : ∀ dest, k = .restart dest → dest ⊆ s.active

theorem fits_of_phase (h : Threads vcpuid s)
    (hp : s.phase t = .handling k ∨ ∃ b, s.phase t = .waiting k b) : k.Fits s := by
  constructor
  · rintro r rfl
    refine h.initiated t r ?_
    rcases hp with hp | ⟨b, hp⟩ <;> rw [hp] <;> rfl
  · rintro dest rfl
    refine h.contained t dest ?_
    rcases hp with hp | ⟨b, hp⟩ <;> rw [hp] <;> rfl

/-- Every rendezvous installed has finished when none is in progress. -/
theorem finished_of_none (h : Ledger s) (hn : s.func = none) (hi : .install r dest ∈ s.log) :
    .finish r ∈ s.log := by
  refine (h.settled r dest hi).resolve_left ?_
  rw [hn]
  simp

/-- An event of a rendezvous installed before goes into the history. -/
theorem Ledger.record (h : Ledger s) {e : Event κ} {d₀ : Finset κ} (hi : .install e.rid d₀ ∈ s.log)
    (he : ∀ d, e ≠ .install e.rid d) :
    (∀ e' ∈ e :: s.log, e'.rid < s.next) ∧
    (∀ r d, .install r d ∈ e :: s.log → .install r d ∈ s.log) ∧
    ∀ r d d', .install r d ∈ e :: s.log → .install r d' ∈ e :: s.log → d = d' := by
  have hold : ∀ r d, .install r d ∈ e :: s.log → .install r d ∈ s.log := by
    intro r d hd
    rcases mem_cons.mp hd with rfl | hd
    · exact absurd rfl (he d)
    · exact hd
  refine ⟨?_, hold, fun r d d' hd hd' => h.unique r d d' (hold r d hd) (hold r d' hd')⟩
  intro e' he'
  rcases mem_cons.mp he' with rfl | he'
  · exact h.numbered (.install _ d₀) hi
  · exact h.numbered e' he'

/-- All destinations have run the function: the rendezvous is over and every sleeper is signalled. -/
theorem ok_finish (hl : Ledger s) (ht : Threads vcpuid s) (hf : s.func = some r)
    (hall : s.req = s.done) :
    Ledger { s with
      func := none
      log := .finish r :: s.log
      phase := fun u => (s.phase u).signal } ∧
    Threads vcpuid { s with
      func := none
      log := .finish r :: s.log
      phase := fun u => (s.phase u).signal } := by
  obtain ⟨hinst, -, -, hdone, -⟩ := hl.current r hf
  have hsignal : ∀ q : Phase κ, q.signal.initiates = q.initiates ∧ q.signal.wants = q.wants ∧
      ∀ k, q.signal ≠ .waiting k false := by
    intro q
    cases q with
    | waiting k b => cases k <;> exact ⟨rfl, rfl, nofun⟩
    | out | starting | handling => exact ⟨rfl, rfl, nofun⟩
  obtain ⟨hnum, hold, huniq⟩ := hl.record (e := .finish r) hinst nofun
  refine ⟨⟨hnum, huniq, ?_, ?_, ?_, hl.exact⟩, ⟨?_, ?_, ?_⟩⟩
  · intro r' hf'
    cases hf'
  · intro r' dest' hi
    right
    rcases hl.settled r' dest' (hold r' dest' hi) with hcur | hfin
    · obtain rfl : r = r' := Option.some.inj (hf.symm.trans hcur)
      exact mem_cons_self
    · exact mem_cons_of_mem _ hfin
  · intro d hd v hv
    rw [hl.unique r d s.req hd hinst, hall] at hv
    exact (hdone v).mp hv
  · intro u r' hu
    rw [(hsignal _).1] at hu
    obtain ⟨d, hd⟩ := ht.initiated u r' hu
    exact ⟨d, mem_cons_of_mem _ hd⟩
  · intro u d hu
    rw [(hsignal _).2.1] at hu
    exact ht.contained u d hu
  · intro u k hu
    exact absurd hu ((hsignal _).2.2 k)

theorem ok_start (active : Finset κ) :
    Ledger (World.start active : World κ τ) ∧ Threads vcpuid (World.start active) := by
  constructor
  · constructor
    · intro e he
      cases he
    · intro r d d' hd
      cases hd
    · intro r hf
      cases hf
    · intro r d hd
      cases hd
    · trivial
  · constructor
    · intro t r h
      cases h
    · intro t d h
      cases h
    · intro t k h
      cases h

section Moves

variable [DecidableEq τ]

theorem ledger_go (h : Ledger s) : Ledger (s.go t p) :=
  { h with }

/-- A thread moves, with nothing owed where it goes. -/
theorem threads_go (h : Threads vcpuid s)
    (hi : ∀ r, p.initiates = some r → ∃ dest, .install r dest ∈ s.log)
    (hc : ∀ dest, p.wants = some dest → dest ⊆ s.active)
    (hp : ∀ k, p = .waiting k false → s.func ≠ none ∧
      ∀ v, vcpuid t = some v → v ∈ s.req → v ∈ s.done) : Threads vcpuid (s.go t p) := by
  have hphase : ∀ u, (s.go t p).phase u = if u = t then p else s.phase u := fun u =>
    Function.update_apply s.phase t p u
  constructor
  · intro u r hu
    rw [hphase] at hu
    split at hu
    · exact hi r hu
    · exact h.initiated u r hu
  · intro u dest hu
    rw [hphase] at hu
    split at hu
    · exact hc dest hu
    · exact h.contained u dest hu
  · intro u k hu
    rw [hphase] at hu
    split at hu
    · rename_i hut
      rw [hut]
      exact hp k hu
    · exact h.parked u k hu

/-- A thread leaves when no rendezvous is in progress. -/
theorem ok_leave (hl : Ledger s) (ht : Threads vcpuid s) (hn : s.func = none) (hk : k.Fits s) :
    Ledger (leave s t k) ∧ Threads vcpuid (leave s t k) := by
  cases k with
  | runLoop =>
    exact ⟨ledger_go hl, threads_go ht nofun nofun
      nofun⟩
  | restart dest =>
    refine ⟨ledger_go hl, threads_go ht nofun ?_ nofun⟩
    intro dest' h
    cases h
    exact hk.contained dest rfl
  | initiated r =>
    obtain ⟨dest, hi⟩ := hk.initiated r rfl
    have hfin := finished_of_none hl hn hi
    have hgo := threads_go (t := t) (p := .out) ht nofun nofun
      nofun
    obtain ⟨hnum, hold, huniq⟩ := hl.record (e := .ret r) hi nofun
    refine ⟨⟨hnum, huniq, ?_, ?_, ⟨hfin, hl.exact⟩⟩, ⟨?_, hgo.contained, hgo.parked⟩⟩
    · intro r' hf
      change s.func = some r' at hf
      rw [hn] at hf
      cases hf
    · intro r' dest' hi'
      exact (hl.settled r' dest' (hold r' dest' hi')).imp_right (mem_cons_of_mem _)
    · intro u r' hu
      obtain ⟨d, hd⟩ := hgo.initiated u r' hu
      exact ⟨d, mem_cons_of_mem _ hd⟩

/-- The state of a new rendezvous. -/
def World.installed (s : World κ τ) (dest : Finset κ) : World κ τ :=
  { s with
    req := dest
    done := ∅
    func := some s.next
    next := s.next + 1
    log := .install s.next dest :: s.log }

omit [DecidableEq τ] in
theorem ledger_installed (hl : Ledger s) (hn : s.func = none) (hc : dest ⊆ s.active) :
    Ledger (s.installed dest) := by
  have hfresh : ∀ e ∈ s.log, e.rid ≠ s.next := fun e he => Nat.ne_of_lt (hl.numbered e he)
  refine ⟨?_, ?_, ?_, ?_, ?_, hl.exact⟩
  · intro e he
    rcases mem_cons.mp he with rfl | he
    · exact Nat.lt_succ_self _
    · exact Nat.lt_succ_of_lt (hl.numbered e he)
  · intro r d d' hd hd'
    rcases mem_cons.mp hd with hd | hd <;> rcases mem_cons.mp hd' with hd' | hd'
    · cases hd
      cases hd'
      rfl
    · cases hd
      exact absurd rfl (hfresh _ hd')
    · cases hd'
      exact absurd rfl (hfresh _ hd)
    · exact hl.unique r d d' hd hd'
  · intro r hf
    cases hf
    refine ⟨mem_cons_self, hc, Finset.empty_subset _, fun v => ⟨?_, ?_⟩, ?_⟩
    · intro hv
      cases hv
    · intro he
      rcases mem_cons.mp he with he | he
      · cases he
      · exact absurd rfl (hfresh _ he)
    · intro hfin
      rcases mem_cons.mp hfin with hfin | hfin
      · cases hfin
      · exact absurd rfl (hfresh _ hfin)
  · intro r d hi
    rcases mem_cons.mp hi with hi | hi
    · cases hi
      exact .inl rfl
    · exact .inr (mem_cons_of_mem _ (finished_of_none hl hn hi))
  · intro r d hi
    exact ⟨hfresh _ hi, finished_of_none hl hn hi⟩

omit [DecidableEq τ] in
/-- No thread sleeps on where no rendezvous was in progress. -/
theorem threads_installed (ht : Threads vcpuid s) (hn : s.func = none) :
    Threads vcpuid (s.installed dest) where
  initiated u r hu := by
    obtain ⟨d, hd⟩ := ht.initiated u r hu
    exact ⟨d, mem_cons_of_mem _ hd⟩
  contained := ht.contained
  parked u k hu := absurd hn (ht.parked u k hu).1

/-- A rendezvous is installed where none is in progress. -/
theorem ok_install (hl : Ledger s) (ht : Threads vcpuid s) (hc : dest ⊆ s.active) :
    Ledger (install s t dest) ∧ Threads vcpuid (install s t dest) := by
  unfold install
  split
  · refine ⟨ledger_go hl, threads_go ht nofun ?_ nofun⟩
    intro d h
    cases h
    exact hc
  · rename_i hn
    have hgo := threads_go (t := t) (p := .handling (.initiated s.next))
      (threads_installed ht hn : Threads vcpuid (s.installed dest)) ?_ nofun nofun
    · exact ⟨ledger_go (ledger_installed hl hn hc), hgo⟩
    · intro r hr
      cases hr
      exact ⟨dest, mem_cons_self⟩

end Moves

section Runs

variable [DecidableEq κ]

/-- The thread has done the part of its vCPU, and nothing else has changed. -/
theorem ok_takePart (hl : Ledger s) (ht : Threads vcpuid s) (hf : s.func = some r) :
    Ledger (takePart vcpuid s t r) ∧ Threads vcpuid (takePart vcpuid s t r) ∧
    (takePart vcpuid s t r).func = some r ∧ (takePart vcpuid s t r).active = s.active ∧
    (∀ e ∈ s.log, e ∈ (takePart vcpuid s t r).log) ∧
    ∀ v, vcpuid t = some v → v ∈ (takePart vcpuid s t r).req → v ∈ (takePart vcpuid s t r).done := by
  unfold takePart
  split
  · rename_i v hv
    split_ifs with hmem
    · obtain ⟨hinst, hact, hsub, hdone, hfin⟩ := hl.current r hf
      obtain ⟨hnum, hold, huniq⟩ := hl.record (e := .execute r v) hinst nofun
      refine ⟨⟨hnum, huniq, ?_, ?_, ⟨s.req, hinst, hmem.1⟩, ?_, hfin, hl.exact⟩,
        ⟨?_, ht.contained, ?_⟩, hf, rfl, fun e he => mem_cons_of_mem _ he, ?_⟩
      · intro r' hf'
        obtain rfl : r = r' := Option.some.inj (hf.symm.trans hf')
        refine ⟨mem_cons_of_mem _ hinst, hact, Finset.insert_subset hmem.1 hsub, ?_,
          by simpa using hfin⟩
        intro w
        rw [Finset.mem_insert, hdone w]
        simp
      · intro r' dest' hi
        exact (hl.settled r' dest' (hold r' dest' hi)).imp_right (mem_cons_of_mem _)
      · rw [← hdone v]
        exact hmem.2
      · intro u r' hu
        obtain ⟨d, hd⟩ := ht.initiated u r' hu
        exact ⟨d, mem_cons_of_mem _ hd⟩
      · intro u k hu
        obtain ⟨hne, howe⟩ := ht.parked u k hu
        exact ⟨hne, fun w hw hr => Finset.mem_insert_of_mem (howe w hw hr)⟩
      · intro w hw _
        rw [hv] at hw
        cases hw
        exact Finset.mem_insert_self _ _
    · refine ⟨hl, ht, hf, rfl, fun _ he => he, fun w hw hr => ?_⟩
      rw [hv] at hw
      cases hw
      by_contra hd
      exact hmem ⟨hr, hd⟩
  · rename_i hv
    refine ⟨hl, ht, hf, rfl, fun _ he => he, fun w hw => ?_⟩
    rw [hv] at hw
    cases hw

variable [DecidableEq τ]

theorem ok_handlePass (hl : Ledger s) (ht : Threads vcpuid s) (hk : k.Fits s) :
    Ledger (handlePass vcpuid s t k) ∧ Threads vcpuid (handlePass vcpuid s t k) := by
  unfold handlePass
  split
  · rename_i hn
    exact ok_leave hl ht hn hk
  · rename_i r hf
    have hreq : { s with req := s.req ∩ s.active } = s := by
      rw [Finset.inter_eq_left.mpr (hl.current r hf).2.1]
    rw [hreq]
    obtain ⟨hl', ht', hf', hact, hlog, hpart⟩ := ok_takePart hl ht hf
    have hk' : k.Fits (takePart vcpuid s t r) :=
      ⟨fun r' h => (hk.initiated r' h).imp fun d hd => hlog _ hd,
        fun d h => by rw [hact]; exact hk.contained d h⟩
    dsimp only
    split
    · rename_i hall
      obtain ⟨hl₂, ht₂⟩ := ok_finish hl' ht' hf' hall
      exact ok_leave hl₂ ht₂ rfl
        ⟨fun r' h => (hk'.initiated r' h).imp fun d hd => mem_cons_of_mem _ hd, hk'.contained⟩
    · refine ⟨ledger_go hl', threads_go ht' ?_ ?_ ?_⟩
      · intro r' h
        cases k with
        | initiated r₀ => cases h; exact hk'.initiated r' rfl
        | runLoop | restart => cases h
      · intro d h
        cases k with
        | restart d₀ => cases h; exact hk'.contained d rfl
        | runLoop | initiated => cases h
      · intro k' _
        exact ⟨by rw [hf']; simp, hpart⟩

theorem ok_step {a : Action κ τ} (hc : Contained s a) (hs : step vcpuid s a = .ok s')
    (h : Ledger s ∧ Threads vcpuid s) : Ledger s' ∧ Threads vcpuid s' := by
  obtain ⟨hl, ht⟩ := h
  cases a with
  | call t dest =>
    simp only [step] at hs
    split at hs
    · cases hs
      refine ⟨ledger_go hl, threads_go ht nofun ?_ nofun⟩
      intro d h
      cases h
      exact hc
    · cases hs
  | lock t =>
    simp only [step] at hs
    split at hs
    · rename_i dest hp
      cases hs
      exact ok_install hl ht (ht.contained t dest (by rw [hp]; rfl))
    · cases hs
  | enter t =>
    simp only [step] at hs
    split at hs
    · cases hs
      exact ⟨ledger_go hl, threads_go ht nofun nofun
        nofun⟩
    · cases hs
  | handle t =>
    simp only [step] at hs
    split at hs
    · rename_i k hp
      cases hs
      exact ok_handlePass hl ht (fits_of_phase ht (.inl hp))
    · rename_i k b hp
      cases hs
      exact ok_handlePass hl ht (fits_of_phase ht (.inr ⟨b, hp⟩))
    · cases hs
  | activate v =>
    cases hs
    refine ⟨{ hl with current := ?_ }, ht.initiated, ?_, ht.parked⟩
    · intro r hf
      obtain ⟨hi, hact, hrest⟩ := hl.current r hf
      exact ⟨hi, hact.trans (Finset.subset_insert v s.active), hrest⟩
    · intro u d hu
      exact (ht.contained u d hu).trans (Finset.subset_insert v s.active)

/-- In every run whose calls name active vCPUs the history is exact, and a thread sleeps unsignalled only
while a rendezvous is in progress in which its vCPU has nothing left to do. -/
theorem rendezvous_exact {active : Finset κ} {as : List (Action κ τ)}
    (h : Run (step vcpuid) Contained (World.start active) as s) :
    Exact s.log ∧ ∀ t k, s.phase t = .waiting k false → s.func ≠ none ∧
      ∀ v, vcpuid t = some v → v ∈ s.req → v ∈ s.done := by
  have hok : Ledger s ∧ Threads vcpuid s :=
    h.invariant (I := fun s => Ledger s ∧ Threads vcpuid s) (fun _ _ _ hc hs => ok_step hc hs)
      (ok_start active)
  exact ⟨hok.1.exact, hok.2.parked⟩

end Runs

section Traces

/-- The thread of vCPU `true` calls both vCPUs together and waits for the other. -/
def bothMeet : List (Action Bool Bool) :=
  [.call true {true, false}, .lock true, .handle true, .enter false, .handle false, .handle true]

theorem rendezvous_exact_both : ∃ s, Run (step some) Contained (World.start {true, false}) bothMeet s ∧
      s.log = [.ret 0, .finish 0, .execute 0 false, .execute 0 true, .install 0 {true, false}] ∧
      Exact s.log := by
  have hrun : Run (step some) Contained (World.start {true, false}) bothMeet _ :=
    .stepL (Finset.Subset.refl _) rfl <| .stepL trivial rfl <| .stepL trivial rfl <|
    .stepL trivial rfl <| .stepL trivial rfl <| .stepL trivial rfl .refl
  exact ⟨_, hrun, by decide +kernel, (rendezvous_exact hrun).1⟩

end Traces

end HyperCog.Rendezvous
