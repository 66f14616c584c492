import HyperCog.Ahci.Invariant

/-! Slot accounting: whose an element is, and which slots are in flight. -/
namespace HyperCog.Ahci

open Virtio Blockif Machine List Hba

variable {bc : BlockifCtxt} {atapi : Bool} {b : Build} {as : List Action} {s : Hba} {T : TurnCond}
  {B : CallbackCond} {J : Hba → Prop}

theorem sound_init : (init bc atapi).Sound := by
  refine ⟨⟨rfl, rfl, ok_start _, ?_, .refl _, ?_, by simp, by simp [init, emptyPort]⟩, ?_⟩
  · intro a
    have hall : (finRange ioqsz).count a = 1 :=
      count_eq_one_of_mem (nodup_finRange _) (mem_finRange a)
    simp [init, emptyPort, hall]
  · intro t _
    simp [init, emptyPort, hasSlot]
  · intro j hj
    simp [init, Hba.Bare, emptyPort, hj]

/-- The reset at the end of `pci_ahci_init` keeps what holds before it. -/
theorem sound_start (hst : Stable T B J) (hj : J (init bc atapi)) :
    (start bc atapi).Sound ∧ J (start bc atapi) := by
  have hinit : (init bc atapi).Sound ∧ J (init bc atapi) := ⟨sound_init, hj⟩
  have hreset : Keeps (fun s => s.Sound ∧ J s) Crash.Unasserted (ahciReset noGuest) := by
    refine keeps_bind ?_ fun _ => keeps_resetPorts (keeps_resetPort hst) _
    rintro s ⟨hs, hj⟩
    exact ⟨⟨hs.books.congr ⟨rfl, rfl, rfl, rfl, rfl, rfl⟩ rfl, hs.others⟩,
      hst.same sameStory_registers hj⟩
  unfold start
  split
  · rename_i u s hrun
    exact hreset.ok hinit hrun
  · exact hinit

/-- In every run whose steps meet the conditions, what they keep holds. -/
theorem sound_run (hst : Stable T B J)
    (hj : J (init bc atapi)) (hrun : Run (step b) (Meets T B) (start bc atapi) as s) :
    s.Sound ∧ J s :=
  hrun.invariant (I := fun s => s.Sound ∧ J s)
    (fun _ _ _ hm hstep h => sound_step hst hm hstep h) (sound_start hst hj)

/-- No condition on turns. -/
def anyTurn : TurnCond := fun _ _ _ => True

def anyCallback : CallbackCond := fun _ _ _ _ => True

theorem stable_true : Stable anyTurn anyCallback fun _ => True :=
  ⟨fun _ _ => trivial, fun _ _ _ _ _ _ _ => trivial, fun _ _ _ _ _ _ => trivial,
    fun _ _ _ _ => trivial⟩

theorem loopMeets_any {g : Guest} {fuel k : ℕ} : LoopMeets anyTurn g fuel k s := by
  induction fuel generalizing k s with
  | zero => trivial
  | succ fuel ih => exact .inr ⟨trivial, fun s' _ => ih⟩

theorem meets_any {a : Action} : Meets anyTurn anyCallback s a := by
  cases a with
  | write g offset size value =>
    exact fun _ => ⟨fun _ _ _ => .inr loopMeets_any, fun _ => .inr loopMeets_any⟩
  | worker h g => exact fun _ _ _ _ _ => ⟨trivial, fun _ _ => .inr loopMeets_any⟩
  | wake => trivial

/-- Every state that the controller reaches is sound. -/
theorem sound_reached (hrun : Run (step b) Any (start bc atapi) as s) : s.Sound :=
  hrun.invariant (fun _ _ _ _ hstep hs => (sound_step stable_true meets_any hstep ⟨hs, trivial⟩).1)
    (sound_start stable_true trivial).1

/-- Free and busy elements share out the pool, the slots in flight are those of the busy
elements, one each, and so none of the next steps fails for want of an element or of room
with the disk. -/
theorem slot_accounting (hrun : Run (step b) Any (start bc atapi) as s) :
    Pool.Split (s.port 0).iofhd (s.port 0).iobhd ∧ (∀ t, hasSlot (s.port 0).pending t = true ↔
        ∃! a, a ∈ (s.port 0).iobhd ∧ ((s.port 0).ioreq a).slot = t) ∧
      (∀ a ∈ (s.port 0).iobhd, ∀ a' ∈ (s.port 0).iobhd,
        ((s.port 0).ioreq a).slot = ((s.port 0).ioreq a').slot → a = a') ∧
      (s.port 0).iobhd.length ≤ ahciMaxSlots ∧ s.blk.inFlight.length ≤ ahciMaxSlots ∧
      ∀ x e, step b s x = .error e → e.fault ≠ .noIoreq 0 ∧ e.fault ≠ .refused 0 := by
  have hs := sound_reached hrun
  have hpool := hs.books.pool
  have hlen : (s.port 0).iobhd.length ≤ ahciMaxSlots := by
    simpa using hpool.length_busy
  refine ⟨hpool.split, fun t => ?_, hpool.inj, hlen, ?_, ?_⟩
  · rw [hpool.marked t (by simp)]
    constructor
    · rintro ⟨a, ha, ht⟩
      exact ⟨a, ⟨ha, ht⟩, fun a' ⟨ha', ht'⟩ => hpool.inj a' ha' a ha (ht'.trans ht.symm)⟩
    · rintro ⟨a, ⟨ha, ht⟩, -⟩
      exact ⟨a, ha, ht⟩
  · have hflight := hpool.flight.length_eq
    rw [nil_append] at hflight
    rwa [hflight]
  · intro x e he
    have hact := ends_act (b := b) stable_true hs trivial (meets_any (a := x))
    rw [step_eq_error he] at hact
    exact hact

/-- Memory with a command list at 0, whose first header names a table at 0x400. -/
def listAt (prdtl : UInt8) (table : List UInt8) : HostMem := fun a =>
  if a = 2 then prdtl else if a = 9 then 4 else if a < 0x400 then 0 else table.getD (a - 0x400) 0

/-- A command that is refused. -/
def nopTable : HostMem := listAt 0 [0x27, 0x80, 0x00]

/-- One megabyte of memory, watched for eight turns. -/
def guestOf (m : HostMem) : Guest := ⟨⟨0x100000, 0⟩, fun _ => m, fun _ => 0, false, 8⟩

/-- A port is started and the first slot issued. -/
def issueFirst (m : HostMem) : List Action :=
  [.write (guestOf m) 0x118 4 0x11, .write (guestOf m) 0x138 4 0x1]

/-- A flush of the disk is in flight. -/
def flushing : Hba :=
  (exec (step macBuild) (start plainFile false)
    (issueFirst (listAt 0 [0x27, 0x80, 0xe7]))).toOption.getD (start plainFile false)

theorem slot_accounting_flushing : hasSlot (flushing.port 0).pending 0 = true ∧
      ∃! a, a ∈ (flushing.port 0).iobhd ∧ ((flushing.port 0).ioreq a).slot = 0 := by
  have hrun : Run (step macBuild) Any (start plainFile false)
      (issueFirst (listAt 0 [0x27, 0x80, 0xe7])) flushing := run_of_isOk (by decide +kernel)
  have hset : hasSlot (flushing.port 0).pending 0 = true := by decide +kernel
  exact ⟨hset, ((slot_accounting hrun).2.1 0).mp hset⟩

end HyperCog.Ahci
