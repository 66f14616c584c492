import HyperCog.Lib.Run
import Mathlib.Data.Nat.Notation
import Mathlib.Tactic.SplitIfs

/-! A halted or suspended vCPU in its condition wait, and the threads that notify it. -/
namespace HyperCog.Notify

open Machine

inductive VcpuState
  | idle
  | frozen
  | running
  | sleeping
  deriving DecidableEq, Repr

/-- Which of the two functions the vCPU thread waits in. -/
inductive Handler
  | hlt (intrDisabled : Bool)
  | suspend
  deriving DecidableEq, Repr

/-- What the wake-up conditions look at. Other threads may change any of it at any time. -/
structure Events where
  rendezvousFunc : Bool
  suspend : Bool
  nmiPending : Bool
  extintPending : Bool
  lapicPending : Bool
  haltDetection : Bool
  /-- all other active vCPUs are halted -/
  othersHalted : Bool
  /-- all active vCPUs are suspended -/
  allSuspended : Bool
  deriving DecidableEq, Repr

/-- What the loop of a handler does next. -/
inductive Verdict
  | leave
  | sleep
  | rendezvous
  deriving DecidableEq, Repr

/-- The tests at the top of the loops of `vm_handle_hlt` and `vm_handle_suspend`. -/
def Events.verdict (ev : Events) : Handler → Verdict
  | .hlt intrDisabled =>
    if ev.rendezvousFunc || ev.suspend then .leave
    else if ev.nmiPending then .leave
    else if !intrDisabled && (ev.extintPending || ev.lapicPending) then .leave
    else if intrDisabled && ev.haltDetection && ev.othersHalted then .leave
    else .sleep
  | .suspend =>
    if ev.allSuspended then .leave
    else if !ev.rendezvousFunc then .sleep
    else .rendezvous

/-- Where the vCPU thread is without the vcpu lock. -/
inductive Thread
  /-- in the run loop -/
  | guest
  /-- about to lock the vcpu and look at its wake-up condition -/
  | locking (h : Handler)
  /-- it has unlocked the vcpu to wait, with `vcpu_sleep_mtx` held -/
  | unlocked (h : Handler)
  /-- in the condition wait -/
  | parked (h : Handler) (signalled : Bool)
  /-- back from the wait, about to lock the vcpu -/
  | woken (h : Handler)
  /-- in `vm_handle_rendezvous` -/
  | meeting (h : Handler)
  deriving DecidableEq, Repr

/-- Who holds the vcpu lock: nobody, or a notifier, before or after its test of the state. -/
inductive Owner (ν : Type)
  | free
  | notifier (n : ν) (acted : Bool)
  deriving DecidableEq, Repr

structure World (ν : Type) where
  events : Events
  state : VcpuState
  lock : Owner ν
  thread : Thread
  /-- the notifications completed since the wake-up condition was last evaluated -/
  notified : ℕ

inductive Stop
  | disabled
  | abort
  deriving DecidableEq, Repr

section Steps

variable {ν : Type} (s : World ν)

/-- `vcpu_require_state_locked`. -/
def requireState (newstate : VcpuState) : Except Stop (World ν) :=
  match s.state with
  | .frozen => if newstate = .frozen then .error .abort else .ok { s with state := newstate }
  | _ => if newstate = .frozen then .ok { s with state := newstate } else .error .abort

/-- A pass of the loop of a handler, from the lock or the end of a wait to the unlock. -/
def evaluate (h : Handler) : Except Stop (World ν) :=
  let s := { s with notified := 0 }
  match s.events.verdict h with
  | .leave => .ok { s with thread := .guest }
  | .rendezvous => .ok { s with thread := .meeting h }
  | .sleep => do
    let s ← requireState s .sleeping
    .ok { s with thread := .unlocked h }

def Thread.signal : Thread → Thread
  | .parked h _ => .parked h true
  | t => t

inductive Action (ν : Type)
  | post (events : Events)
  | runGuest
  | exitGuest
  | handle (h : Handler)
  /-- the vCPU thread gets the vcpu lock -/
  | lockVcpu
  | park
  /-- the wait returns, signalled or not -/
  | wake
  | met
  /-- the three parts of `vcpu_notify_event` -/
  | notifyLock (n : ν)
  | notifyAct
  | notifyUnlock
  deriving DecidableEq, Repr

def step : Action ν → Except Stop (World ν)
  | .post events => .ok { s with events := events }
  | .runGuest =>
    match s.thread, s.lock with
    | .guest, .free => requireState s .running
    | _, _ => .error .disabled
  | .exitGuest =>
    match s.thread, s.lock, s.state with
    | .guest, .free, .running => requireState s .frozen
    | _, _, _ => .error .disabled
  | .handle h =>
    match s.thread, s.state with
    | .guest, .frozen => .ok { s with thread := .locking h }
    | _, _ => .error .disabled
  | .lockVcpu =>
    match s.thread, s.lock with
    | .locking h, .free => evaluate s h
    | .woken h, .free => do
      let s ← requireState s .frozen
      evaluate s h
    | _, _ => .error .disabled
  | .park =>
    match s.thread with
    | .unlocked h => .ok { s with thread := .parked h false }
    | _ => .error .disabled
  | .wake =>
    match s.thread with
    | .parked h _ => .ok { s with thread := .woken h }
    | _ => .error .disabled
  | .met =>
    match s.thread with
    | .meeting h => .ok { s with thread := .locking h }
    | _ => .error .disabled
  | .notifyLock n =>
    match s.lock with
    | .free => .ok { s with lock := .notifier n false }
    | _ => .error .disabled
  | .notifyAct =>
    match s.lock with
    | .notifier n false =>
      let thread := if s.state = .sleeping then s.thread.signal else s.thread
      .ok { s with lock := .notifier n true, thread := thread }
    | _ => .error .disabled
  | .notifyUnlock =>
    match s.lock with
    | .notifier _ true => .ok { s with lock := .free, notified := s.notified + 1 }
    | _ => .error .disabled

/-- No notifier tests the state between the vCPU thread's unlock and its wait. -/
def Unraced (s : World ν) : Action ν → Prop
  | .notifyAct => ∀ h, s.thread ≠ .unlocked h
  | _ => True

/-- The vCPU is about to be run for the first time. -/
def World.start (events : Events) : World ν :=
  { events := events
    state := .frozen
    lock := .free
    thread := .guest
    notified := 0 }

end Steps

/-- The vCPU thread has evaluated its wake-up condition and will not look again until it is signalled. -/
def Thread.Unaware : Thread → Prop
  | .unlocked _ => True
  | .parked _ false => True
  | _ => False

/-- The state that goes with where the vCPU thread is. -/
def Thread.state : Thread → Option VcpuState
  | .guest => none
  | .locking _ => some .frozen
  | .meeting _ => some .frozen
  | .unlocked _ => some .sleeping
  | .parked _ _ => some .sleeping
  | .woken _ => some .sleeping

structure World.Ok {ν : Type} (s : World ν) : Prop where
  state : ∀ st, s.thread.state = some st → s.state = st
  quiet : s.thread.Unaware → s.notified = 0 ∧ ∀ n, s.lock ≠ .notifier n true

variable {ν : Type} {s s' : World ν}

theorem requireState_eq_ok {st : VcpuState} (h : requireState s st = .ok s') :
    s' = { s with state := st } := by
  unfold requireState at h
  split at h
  all_goals
    split_ifs at h
    cases h
    rfl

/-- After a look at the wake-up condition nothing has been notified since. -/
theorem ok_evaluate {h : Handler} (hst : s.state = .frozen) (hlock : s.lock = .free)
    (hs : evaluate s h = .ok s') : s'.Ok := by
  unfold evaluate at hs
  dsimp only at hs
  split at hs
  · cases hs
    exact ⟨nofun, False.elim⟩
  · cases hs
    refine ⟨fun st h => ?_, False.elim⟩
    cases h
    exact hst
  · obtain ⟨s₁, h₁, hs⟩ := bind_eq_ok.mp hs
    obtain rfl := requireState_eq_ok h₁
    cases hs
    refine ⟨fun st h => ?_, fun _ => ⟨rfl, fun n h => ?_⟩⟩
    · cases h
      rfl
    · rw [hlock] at h
      cases h

theorem ok_step {a : Action ν} (hc : Unraced s a) (hs : step s a = .ok s') (hok : s.Ok) : s'.Ok := by
  cases a with
  | post events =>
    cases hs
    exact ⟨hok.state, hok.quiet⟩
  | runGuest | exitGuest =>
    simp only [step] at hs
    split at hs
    · obtain rfl := requireState_eq_ok hs
      exact ⟨fun st h => by simp_all [Thread.state], fun h => by simp_all [Thread.Unaware]⟩
    · cases hs
  | handle h =>
    simp only [step] at hs
    split at hs
    · rename_i hst
      cases hs
      refine ⟨fun st h => ?_, False.elim⟩
      cases h
      exact hst
    · cases hs
  | lockVcpu =>
    simp only [step] at hs
    split at hs
    · rename_i h hth hlock
      exact ok_evaluate (hok.state .frozen (by rw [hth]; rfl)) hlock hs
    · rename_i h hth hlock
      obtain ⟨s₁, h₁, hs⟩ := bind_eq_ok.mp hs
      obtain rfl := requireState_eq_ok h₁
      exact ok_evaluate (s := { s with state := .frozen }) rfl hlock hs
    · cases hs
  | park =>
    simp only [step] at hs
    split at hs
    · rename_i h hth
      cases hs
      refine ⟨fun st h => ?_, fun _ => hok.quiet (by rw [hth]; trivial)⟩
      exact hok.state st (by rw [hth]; exact h)
    · cases hs
  | wake | met =>
    simp only [step] at hs
    split at hs
    · rename_i hth
      cases hs
      refine ⟨fun st h => ?_, False.elim⟩
      exact hok.state st (by rw [hth]; exact h)
    · cases hs
  | notifyLock n =>
    simp only [step] at hs
    split at hs
    · cases hs
      exact ⟨hok.state, fun h => ⟨(hok.quiet h).1, nofun⟩⟩
    · cases hs
  | notifyAct =>
    simp only [step] at hs
    split at hs
    · cases hs
      -- A thread that sleeps is signalled; one that is about to sleep is not there.
      cases hth : s.thread with
      | unlocked h => exact absurd hth (hc h)
      | parked h b =>
        have hsl : s.state = .sleeping := hok.state .sleeping (by rw [hth]; rfl)
        refine ⟨fun st h => ?_, fun h => ?_⟩
        · simp only [hsl, if_true, Thread.signal, Thread.state] at h
          cases h
          exact hsl
        · simp only [hsl, if_true, Thread.signal, Thread.Unaware] at h
      | guest =>
        refine ⟨fun st h => ?_, fun h => ?_⟩
        · simp [Thread.signal, Thread.state] at h
        · simp [Thread.signal, Thread.Unaware] at h
      | locking h | woken h | meeting h =>
        refine ⟨fun st h => ?_, fun h => ?_⟩
        · exact hok.state st (by simpa [hth, Thread.signal] using h)
        · simp [Thread.signal, Thread.Unaware] at h
    · cases hs
  | notifyUnlock =>
    simp only [step] at hs
    split at hs
    · rename_i n hlock
      cases hs
      refine ⟨hok.state, fun h => ?_⟩
      exact absurd hlock ((hok.quiet h).2 n)
    · cases hs

theorem ok_start (events : Events) : (World.start events : World ν).Ok :=
  ⟨nofun, False.elim⟩

/-- A vCPU thread that sleeps unsignalled has missed no notification, when none falls between its unlock
and its wait. -/
theorem no_notification_missed {events : Events} {as : List (Action ν)} {h : Handler}
    (hrun : Run step Unraced (World.start events) as s) (hp : s.thread = .parked h false) :
    s.notified = 0 :=
  ((hrun.invariant (fun _ _ _ hc hs => ok_step hc hs) (ok_start events)).quiet
    (by rw [hp]; trivial)).1

section Traces

/-- Nothing is pending. -/
def Events.none : Events := ⟨false, false, false, false, false, false, false, false⟩

/-- A halted vCPU is notified in its wait, looks again and waits again. -/
def notifiedParked : List (Action Unit) :=
  [.handle (.hlt false), .lockVcpu, .park, .notifyLock (), .notifyAct, .notifyUnlock, .wake, .lockVcpu,
    .park]

theorem no_notification_missed_parked : ∃ s, Run step Unraced (World.start .none) notifiedParked s ∧
      s.thread = .parked (.hlt false) false ∧ s.notified = 0 := by
  have hrun : Run step Unraced (World.start .none) notifiedParked _ :=
    .stepL trivial rfl <| .stepL trivial rfl <| .stepL trivial rfl <| .stepL trivial rfl <|
    .stepL nofun rfl <| .stepL trivial rfl <| .stepL trivial rfl <| .stepL trivial rfl <|
    .stepL trivial rfl .refl
  exact ⟨_, hrun, rfl, no_notification_missed hrun rfl⟩

/-- The notification comes after the vCPU thread has unlocked and before it waits. -/
def notifiedUnlocked : List (Action Unit) :=
  [.handle (.hlt false), .lockVcpu, .post { Events.none with lapicPending := true }, .notifyLock (),
    .notifyAct, .notifyUnlock, .park]

theorem notification_lost : ∃ s, Run step Any (World.start .none) notifiedUnlocked s ∧
      s.thread = .parked (.hlt false) false ∧ s.notified = 1 ∧
      s.events.verdict (.hlt false) = .leave :=
  ⟨_, run_of_isOk (d := World.start .none) (by decide), by decide, by decide, by decide⟩

end Traces

end HyperCog.Notify
