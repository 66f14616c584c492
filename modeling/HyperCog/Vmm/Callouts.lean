import HyperCog.Lib.Run
import Mathlib.Data.UInt

/-! The timer callouts: their queue, the thread that serves it, and the threads that arm and stop them. -/
namespace HyperCog.Callouts

open Machine Function

/-- What `mach_timebase_info` reports: a tick lasts `numer / denom` nanoseconds. -/
structure Timebase where
  numer : UInt32
  denom : UInt32
  numer_pos : 0 < numer
  denom_pos : 0 < denom

def nanosToAbs (tb : Timebase) (nanos : UInt64) : UInt64 :=
  nanos * tb.denom.toUInt64 / tb.numer.toUInt64

def absToNanos (tb : Timebase) (abs : UInt64) : UInt64 :=
  abs * tb.numer.toUInt64 / tb.denom.toUInt64

/-- Ticks of a time in 32.32 fixed point, given as the bits of the `sbintime_t`. -/
def sbt2mat (tb : Timebase) (sbt : UInt64) : UInt64 :=
  let s := sbt >>> 32
  let ns := (1000000000 * sbt.toUInt32.toUInt64) >>> 32
  nanosToAbs tb (s * 1000000000 + ns)

/-- A callout, with the flags of its flag word. -/
structure Callout where
  timeout : UInt64
  active : Bool
  pending : Bool
  completed : Bool
  waiting : Bool
  queued : Bool
  deriving DecidableEq, Repr

/-- What `callout_init` leaves. -/
def Callout.init : Callout := ⟨0, false, false, false, false, false⟩

/-- Where the callout thread is without `callout_mtx`. -/
inductive Thread (ι : Type)
  /-- in the wait for a callout to be queued -/
  | idle
  /-- in the timed wait, with its local `c`, `mat` and `delta` -/
  | sleeping (c : ι) (mat delta : UInt64)
  /-- unlocked after the dispatch, the handler not yet called -/
  | dispatched (c : ι)
  /-- in the handler -/
  | running (c : ι)
  deriving DecidableEq, Repr

/-- What the history keeps: a callout was armed for a time, or its handler was called at a time with
`CALLOUT_ACTIVE` set and `CALLOUT_PENDING` clear. -/
inductive Event (ι : Type)
  | arm (c : ι) (timeout : UInt64)
  | fire (c : ι) (now : UInt64)
  deriving DecidableEq, Repr

/-- The callouts, their queue and thread. The history is newest first. -/
structure World (ι : Type) where
  callouts : ι → Callout
  calloutQueue : List ι
  work : Bool
  now : UInt64
  thread : Thread ι
  drainers : List ι
  log : List (Event ι)

/-- Why a step is not taken: nobody is there to take it, the code calls `abort`, or it loops with the
lock held. -/
inductive Stop
  | disabled
  | abort
  | spin
  deriving DecidableEq, Repr

def cAbsolute : UInt32 := 0x0200

variable {ι : Type} {c : ι} {log : List (Event ι)}

section Operations

variable [DecidableEq ι] (tb : Timebase) (s : World ι) (c : ι)

def World.set (x : Callout) : World ι :=
  { s with callouts := Function.update s.callouts c x }

/-- The walk of `callout_insert`: behind every callout that is not later. -/
def insertIn (timeout : ι → UInt64) (c : ι) : List ι → List ι
  | [] => [c]
  | node :: rest =>
    if timeout c < timeout node then c :: node :: rest else node :: insertIn timeout c rest

def calloutInsert : World ι :=
  { s.set c { s.callouts c with queued := true } with
    calloutQueue := insertIn (fun i => (s.callouts i).timeout) c s.calloutQueue }

def calloutRemove : World ι :=
  if (s.callouts c).queued then
    { s.set c { s.callouts c with queued := false } with calloutQueue := s.calloutQueue.erase c }
  else s

/-- The end of `callout_stop_safe_locked`, which is all of it without a drain. -/
def calloutStopSafeLocked : World ι :=
  let s := calloutRemove s c
  s.set c { s.callouts c with
    active := false
    pending := false
    completed := false
    waiting := false }

/-- The time that `callout_reset_sbt` computes. -/
def resetTimeout (sbt : UInt64) (flags : UInt32) : UInt64 :=
  if flags = cAbsolute then sbt2mat tb sbt else sbt2mat tb sbt + s.now

/-- What `callout_reset_sbt` does under the lock. Its signal after the unlock adds nothing to the
spurious returns of the waits. -/
def calloutResetSbt (sbt : UInt64) (flags : UInt32) : World ι :=
  let timeout := resetTimeout tb s sbt flags
  let s := s.set c { s.callouts c with timeout := timeout }
  let s := calloutStopSafeLocked s c
  let s := s.set c { s.callouts c with pending := true, active := true }
  let s := calloutInsert s c
  { s with
    work := if s.calloutQueue.head? = some c then true else s.work
    log := .arm c timeout :: s.log }

/-- A drain waits for a callout that is pending or whose handler has not completed. -/
def mustWait : Bool :=
  (s.callouts c).pending || ((s.callouts c).active && !(s.callouts c).completed)

/-- `callout_drain` up to its wait, by a thread other than the callout thread. -/
def calloutDrain : Except Stop (World ι) :=
  if mustWait s c then
    if (s.callouts c).waiting then .error .abort
    else .ok { s.set c { s.callouts c with waiting := true } with
      work := true
      drainers := c :: s.drainers }
  else .ok (calloutStopSafeLocked s c)

/-- A return of the wait of `callout_drain`. -/
def calloutDrained : Except Stop (World ι) :=
  if c ∈ s.drainers then
    if (s.callouts c).completed then
      .ok { calloutStopSafeLocked s c with drainers := s.drainers.erase c }
    else .ok s
  else .error .disabled

/-- The dispatch of `c`, up to the unlock. -/
def dispatch : World ι :=
  { s.set c { s.callouts c with pending := false } with thread := .dispatched c }

/-- The thread goes to sleep until the timeout of `c`. -/
def sleepFor : World ι :=
  { s with thread := .sleeping c s.now ((s.callouts c).timeout - s.now) }

/-- From the top of the loop of `callout_thread_func` to its next unlock. A set `work` sends it around
once more with `work` clear, so both passes are one. -/
def serveQueue : Except Stop (World ι) :=
  match s.calloutQueue with
  | [] => .ok { s with thread := .idle }
  | c :: _ =>
    if !((s.callouts c).active || (s.callouts c).pending) then .error .abort
    else
      let s := { s with work := false }
      if (s.callouts c).timeout ≤ s.now then
        -- A head that is not marked queued would be looked at for ever.
        if (s.callouts c).queued then .ok (dispatch s c) else .error .spin
      else .ok (sleepFor s c)

/-- Behind the wait loop with `ret == ETIMEDOUT`. -/
def timedOut : Except Stop (World ι) :=
  let s := { s with work := false }
  if (s.callouts c).queued then .ok (dispatch s c) else serveQueue s

/-- Behind a timed wait that reported no timeout. -/
def woken : Except Stop (World ι) :=
  if s.work then serveQueue { s with work := false }
  else if (s.callouts c).timeout ≤ s.now then timedOut s c
  else .ok (sleepFor s c)

/-- The thread calls the handler of `c`. -/
def invoke : World ι :=
  { s with
    thread := .running c
    log := if (s.callouts c).active && !(s.callouts c).pending then .fire c s.now :: s.log else s.log }

/-- The handler of `c` has returned and the thread has locked again. -/
def finish : Except Stop (World ι) :=
  if (s.callouts c).queued && (!(s.callouts c).pending || (s.callouts c).waiting) then
    serveQueue (calloutRemove (s.set c { s.callouts c with completed := true }) c)
  else serveQueue s

end Operations

/-- The time that `mat_to_ts` gives for `delta` has passed since `mat`. -/
def Elapsed (tb : Timebase) (mat delta now : UInt64) : Prop :=
  (absToNanos tb delta).toNat * tb.denom.toNat ≤ (now - mat).toNat * tb.numer.toNat

instance (tb : Timebase) (mat delta now : UInt64) : Decidable (Elapsed tb mat delta now) :=
  inferInstanceAs (Decidable (_ ≤ _))

/-- What happens next: the clock goes on, a thread calls into the callouts, or the callout thread moves. -/
inductive Action (ι : Type)
  | tick (now : UInt64)
  | reset (c : ι) (sbt : UInt64) (flags : UInt32)
  | stop (c : ι)
  | drain (c : ι)
  | drained (c : ι)
  | deactivate (c : ι)
  /-- the timed wait returns, with or without `ETIMEDOUT` -/
  | wake (etimedout : Bool)
  /-- any other move of the callout thread -/
  | thread
  deriving DecidableEq, Repr

section Step

variable [DecidableEq ι] (tb : Timebase)

def step (s : World ι) : Action ι → Except Stop (World ι)
  | .tick now => if s.now ≤ now then .ok { s with now := now } else .error .disabled
  | .reset c sbt flags => .ok (calloutResetSbt tb s c sbt flags)
  | .stop c => .ok (calloutStopSafeLocked s c)
  | .drain c => calloutDrain s c
  | .drained c => calloutDrained s c
  | .deactivate c => .ok (s.set c { s.callouts c with active := false })
  | .wake etimedout =>
    match s.thread with
    | .sleeping c mat delta =>
      if etimedout then
        if Elapsed tb mat delta s.now then timedOut s c else .error .disabled
      else woken s c
    | _ => .error .disabled
  | .thread =>
    match s.thread with
    | .idle => serveQueue s
    | .sleeping _ _ _ => .error .disabled
    | .dispatched c => .ok (invoke s c)
    | .running c => finish s c

/-- Every callout initialised, the thread in its first wait, at time `now`. -/
def World.start (now : UInt64) : World ι :=
  { callouts := fun _ => .init
    calloutQueue := []
    work := false
    now := now
    thread := .idle
    drainers := []
    log := [] }

end Step

section History

variable [DecidableEq ι]

/-- The timeout of the newest arming of `c` that its handler has not been called for. -/
def owed (c : ι) : List (Event ι) → Option UInt64
  | [] => none
  | .arm c' timeout :: log => if c' = c then some timeout else owed c log
  | .fire c' _ :: log => if c' = c then none else owed c log

/-- Each call of a handler is for the newest arming of its callout, is the first one for it, and is not
before the time armed. -/
def Timely : List (Event ι) → Prop
  | [] => True
  | .arm _ _ :: log => Timely log
  | .fire c now :: log => (∃ timeout, owed c log = some timeout ∧ timeout ≤ now) ∧ Timely log

variable {c' : ι} {timeout now : UInt64}

@[simp] theorem owed_arm_self : owed c (.arm c timeout :: log) = some timeout := if_pos rfl

theorem owed_arm_of_ne (h : c' ≠ c) : owed c (.arm c' timeout :: log) = owed c log := if_neg h

end History

section Invariant

variable [DecidableEq ι] {tb : Timebase}

/-- What holds of the callout `c`, of record `x`, while the thread is at `th`. -/
structure Fit (tb : Timebase) (th : Thread ι) (now : UInt64) (log : List (Event ι)) (c : ι)
    (x : Callout) : Prop where
  queued : x.queued = true → x.pending = true ∨ th = .dispatched c ∨ th = .running c
  armed : x.pending = true → owed c log = some x.timeout
  short : x.timeout.toNat * tb.numer.toNat < 2 ^ 64
  /-- the wait for `c` ends no earlier than its timeout -/
  slept : ∀ mat delta, th = .sleeping c mat delta → mat ≤ now ∧
    delta.toNat * tb.numer.toNat < 2 ^ 64 ∧ x.timeout.toNat ≤ mat.toNat + delta.toNat
  /-- a dispatched callout is due unless it has been stopped or armed again -/
  due : th = .dispatched c → x.active = true → x.pending = false →
    x.timeout ≤ now ∧ owed c log = some x.timeout

/-- The invariant of the callouts and their thread. -/
structure World.Ok (tb : Timebase) (s : World ι) : Prop where
  fit : ∀ c, Fit tb s.thread s.now s.log c (s.callouts c)
  timely : Timely s.log

/-- What each action must respect: no callout is armed again, while the thread is in its timed wait for
it, for later than the wait was to last; and a timeout in nanoseconds is a 64-bit number. -/
def Steady (tb : Timebase) (s : World ι) : Action ι → Prop
  | .reset c sbt flags =>
    (resetTimeout tb s sbt flags).toNat * tb.numer.toNat < 2 ^ 64 ∧
    ∀ mat delta, s.thread = .sleeping c mat delta →
      (resetTimeout tb s sbt flags).toNat ≤ mat.toNat + delta.toNat
  | _ => True

variable {th : Thread ι} {now mat delta : UInt64} {s s' : World ι} {x : Callout}

/-- Ticks no shorter than a nanosecond are counted in full by the truncated time of the wait. -/
theorem deadline_le_of_elapsed (htb : tb.denom ≤ tb.numer) (hmat : mat ≤ now)
    (hshort : delta.toNat * tb.numer.toNat < 2 ^ 64) (h : Elapsed tb mat delta now) :
    mat.toNat + delta.toNat ≤ now.toNat := by
  have hd : 0 < tb.denom.toNat := tb.denom_pos
  have hle : tb.denom.toNat ≤ tb.numer.toNat := htb
  have hns : (absToNanos tb delta).toNat = delta.toNat * tb.numer.toNat / tb.denom.toNat := by
    simp only [absToNanos, UInt64.toNat_div, UInt64.toNat_mul, UInt32.toNat_toUInt64]
    rw [Nat.mod_eq_of_lt hshort]
  have hsub : (now - mat).toNat = now.toNat - mat.toNat := UInt64.toNat_sub_of_le _ _ hmat
  rw [Elapsed, hns, hsub] at h
  have hlt : delta.toNat * tb.numer.toNat < (now.toNat - mat.toNat + 1) * tb.numer.toNat := calc
    _ < delta.toNat * tb.numer.toNat / tb.denom.toNat * tb.denom.toNat + tb.denom.toNat :=
      Nat.lt_div_mul_add hd
    _ ≤ (now.toNat - mat.toNat) * tb.numer.toNat + tb.numer.toNat := Nat.add_le_add h hle
    _ = _ := (Nat.succ_mul _ _).symm
  have hmat' : mat.toNat ≤ now.toNat := hmat
  have := Nat.lt_of_mul_lt_mul_right hlt
  omega

section

variable (h : Fit tb th now log c x) {y : Callout}

include h

/-- Outside its own dispatch, what holds of a callout holds of it wherever else the thread is. -/
theorem Fit.idle (hd : th ≠ .dispatched c) (hr : th ≠ .running c) : Fit tb .idle now log c x where
  queued hq := .inl ((h.queued hq).resolve_right (not_or.mpr ⟨hd, hr⟩))
  armed := h.armed
  short := h.short
  slept _ _ ht := by cases ht
  due ht := by cases ht

theorem Fit.tick {later : UInt64} (hl : now ≤ later) : Fit tb th later log c x where
  queued := h.queued
  armed := h.armed
  short := h.short
  slept mat delta ht := ⟨UInt64.le_trans (h.slept mat delta ht).1 hl, (h.slept mat delta ht).2⟩
  due ht ha hp := ⟨UInt64.le_trans (h.due ht ha hp).1 hl, (h.due ht ha hp).2⟩

/-- A callout that is off the queue with its flags cleared is fit. -/
theorem Fit.stopped (ht : y.timeout = x.timeout)
    (hq : y.queued = false) (hp : y.pending = false) (ha : y.active = false) :
    Fit tb th now log c y where
  queued hq' := by rw [hq] at hq'; cases hq'
  armed hp' := by rw [hp] at hp'; cases hp'
  short := by rw [ht]; exact h.short
  slept := by rw [ht]; exact h.slept
  due _ ha' := by rw [ha] at ha'; cases ha'

/-- Only the timeout, the queue mark and the two flags that the handlers read matter. -/
theorem Fit.congr (ht : y.timeout = x.timeout)
    (hq : y.queued = true → x.queued = true) (hp : y.pending = x.pending)
    (ha : y.active = true → x.active = true) : Fit tb th now log c y where
  queued hq' := by rw [hp]; exact h.queued (hq hq')
  armed hp' := by rw [ht]; exact h.armed (hp ▸ hp')
  short := by rw [ht]; exact h.short
  slept := by rw [ht]; exact h.slept
  due hd ha' hp' := by rw [ht]; exact h.due hd (ha ha') (hp ▸ hp')

end

theorem fit_update (h : ∀ i, Fit tb th now log i (s.callouts i)) (hx : Fit tb th now log c x)
    (i : ι) : Fit tb th now log i (update s.callouts c x i) := by
  by_cases hi : i = c
  · subst hi
    rwa [update_self]
  · rw [update_of_ne hi]
    exact h i

theorem calloutRemove_eq (s : World ι) (c : ι) : (calloutRemove s c).callouts =
      update s.callouts c { s.callouts c with queued := false } ∧
    (calloutRemove s c).thread = s.thread ∧ (calloutRemove s c).now = s.now ∧
    (calloutRemove s c).log = s.log := by
  unfold calloutRemove
  split
  · exact ⟨rfl, rfl, rfl, rfl⟩
  · rename_i hq
    have hx : { s.callouts c with queued := false } = s.callouts c := by
      rw [← Bool.eq_false_of_not_eq_true hq]
    exact ⟨by rw [hx, update_eq_self], rfl, rfl, rfl⟩

theorem calloutStopSafeLocked_eq (s : World ι) (c : ι) : (calloutStopSafeLocked s c).callouts =
      update s.callouts c ⟨(s.callouts c).timeout, false, false, false, false, false⟩ ∧
    (calloutStopSafeLocked s c).thread = s.thread ∧ (calloutStopSafeLocked s c).now = s.now ∧
    (calloutStopSafeLocked s c).log = s.log := by
  obtain ⟨hc, ht, hn, hl⟩ := calloutRemove_eq s c
  refine ⟨?_, ht, hn, hl⟩
  simp [calloutStopSafeLocked, World.set, hc]

theorem calloutResetSbt_eq (tb : Timebase) (s : World ι) (c : ι) (sbt : UInt64) (flags : UInt32) :
    (calloutResetSbt tb s c sbt flags).callouts =
      update s.callouts c ⟨resetTimeout tb s sbt flags, true, true, false, false, true⟩ ∧
    (calloutResetSbt tb s c sbt flags).thread = s.thread ∧
    (calloutResetSbt tb s c sbt flags).now = s.now ∧
    (calloutResetSbt tb s c sbt flags).log = .arm c (resetTimeout tb s sbt flags) :: s.log := by
  obtain ⟨hc, ht, hn, hl⟩ := calloutStopSafeLocked_eq
    (s.set c { s.callouts c with timeout := resetTimeout tb s sbt flags }) c
  refine ⟨?_, ht, hn, congrArg _ hl⟩
  simp [calloutResetSbt, calloutInsert, World.set] at hc ⊢
  simp [hc]

/-- A stopped callout is neither queued nor to be called. -/
theorem ok_stop (hok : s.Ok tb) (c : ι) : (calloutStopSafeLocked s c).Ok tb := by
  obtain ⟨hc, ht, hn, hl⟩ := calloutStopSafeLocked_eq s c
  constructor
  · rw [hc, ht, hn, hl]
    exact fit_update hok.fit ((hok.fit c).stopped rfl rfl rfl rfl)
  · rw [hl]
    exact hok.timely

theorem ok_set (hok : s.Ok tb) (ht : x.timeout = (s.callouts c).timeout)
    (hq : x.queued = true → (s.callouts c).queued = true) (hp : x.pending = (s.callouts c).pending)
    (ha : x.active = true → (s.callouts c).active = true) : (s.set c x).Ok tb :=
  ⟨fit_update hok.fit ((hok.fit c).congr ht hq hp ha), hok.timely⟩

theorem ok_reset {sbt : UInt64} {flags : UInt32} (hok : s.Ok tb)
    (hc : Steady tb s (.reset c sbt flags)) : (calloutResetSbt tb s c sbt flags).Ok tb := by
  obtain ⟨hcs, ht, hn, hl⟩ := calloutResetSbt_eq tb s c sbt flags
  obtain ⟨hshort, hlate⟩ := hc
  constructor
  · intro i
    rw [hcs, ht, hn, hl]
    have hi := hok.fit i
    by_cases hic : i = c
    · subst hic
      rw [update_self]
      exact
        { queued := fun _ => .inl rfl
          armed := fun _ => owed_arm_self
          short := hshort
          slept := fun mat delta hs =>
            ⟨(hi.slept mat delta hs).1, (hi.slept mat delta hs).2.1, hlate mat delta hs⟩
          due := nofun }
    · rw [update_of_ne hic]
      exact
        { hi with
          armed := by rw [owed_arm_of_ne (Ne.symm hic)]; exact hi.armed
          due := by rw [owed_arm_of_ne (Ne.symm hic)]; exact hi.due }
  · rw [hl]
    exact hok.timely

section

variable (hfit : ∀ i, Fit tb .idle s.now s.log i (s.callouts i)) (ht : Timely s.log)

include hfit ht

/-- A queued callout whose time has come is dispatched with the arming still owed. -/
theorem ok_dispatch (hq : (s.callouts c).queued = true) (hdue : (s.callouts c).timeout ≤ s.now) :
    (dispatch s c).Ok tb := by
  have hp : (s.callouts c).pending = true := by
    rcases (hfit c).queued hq with hp | hd | hr
    · exact hp
    · cases hd
    · cases hr
  refine ⟨fun i => ?_, ht⟩
  change Fit tb (.dispatched c) s.now s.log i (update s.callouts c _ i)
  by_cases hi : i = c
  · subst hi
    rw [update_self]
    exact
      { queued := fun _ => .inr (.inl rfl)
        armed := nofun
        short := (hfit i).short
        slept := nofun
        due := fun _ _ _ => ⟨hdue, (hfit i).armed hp⟩ }
  · rw [update_of_ne hi]
    exact
      { queued := fun h => .inl (((hfit i).queued h).resolve_right (by simp))
        armed := (hfit i).armed
        short := (hfit i).short
        slept := nofun
        due := fun h => by cases h; exact (hi rfl).elim }

theorem ok_sleepFor (hlt : ¬ (s.callouts c).timeout ≤ s.now) : (sleepFor s c).Ok tb := by
  refine ⟨fun i => ?_, ht⟩
  change Fit tb (.sleeping c s.now ((s.callouts c).timeout - s.now)) s.now s.log i (s.callouts i)
  refine
    { queued := fun h => .inl (((hfit i).queued h).resolve_right (by simp))
      armed := (hfit i).armed
      short := (hfit i).short
      slept := ?_
      due := nofun }
  intro mat delta h
  cases h
  have hle : s.now ≤ (s.callouts c).timeout := UInt64.le_of_lt (UInt64.not_le.mp hlt)
  have hsub := UInt64.toNat_sub_of_le _ _ hle
  refine ⟨UInt64.le_refl _, ?_, ?_⟩
  · rw [hsub]
    exact Nat.lt_of_le_of_lt (Nat.mul_le_mul_right _ (Nat.sub_le _ _)) (hfit c).short
  · omega

theorem ok_serveQueue (hs : serveQueue s = .ok s') : s'.Ok tb := by
  unfold serveQueue at hs
  split at hs
  · cases hs
    exact ⟨hfit, ht⟩
  · split_ifs at hs
    dsimp only at hs
    split_ifs at hs with hdue hq
    · cases hs
      exact ok_dispatch hfit ht hq hdue
    · cases hs
      exact ok_sleepFor hfit ht hdue

theorem ok_timedOut
    (hdue : (s.callouts c).timeout ≤ s.now) (hs : timedOut s c = .ok s') : s'.Ok tb := by
  unfold timedOut at hs
  dsimp only at hs
  split at hs
  · rename_i hq
    cases hs
    exact ok_dispatch hfit ht hq hdue
  · exact ok_serveQueue (s := { s with work := false }) hfit ht hs

theorem ok_woken (hs : woken s c = .ok s') : s'.Ok tb := by
  unfold woken at hs
  split_ifs at hs with _ hdue
  · exact ok_serveQueue (s := { s with work := false }) hfit ht hs
  · exact ok_timedOut hfit ht hdue hs
  · cases hs
    exact ok_sleepFor hfit ht hdue

end

/-- The handler is called for an arming that is owed and due, or not counted. -/
theorem ok_invoke (hok : s.Ok tb) (hth : s.thread = .dispatched c) : (invoke s c).Ok tb := by
  have hrun : ∀ i, Fit tb (.running c) s.now s.log i (s.callouts i) := by
    intro i
    have hi := hok.fit i
    rw [hth] at hi
    refine
      { queued := fun h => ?_
        armed := hi.armed
        short := hi.short
        slept := nofun
        due := nofun }
    rcases hi.queued h with hp | hd | hr
    · exact .inl hp
    · cases hd
      exact .inr (.inr rfl)
    · cases hr
  unfold invoke
  split_ifs with hf
  · obtain ⟨ha, hp⟩ : (s.callouts c).active = true ∧ (s.callouts c).pending = false := by
      simpa using hf
    obtain ⟨hdue, howed⟩ := (hok.fit c).due hth ha hp
    refine ⟨fun i => ?_, ⟨_, howed, hdue⟩, hok.timely⟩
    refine { hrun i with armed := fun hpi => ?_, due := nofun }
    have hne : c ≠ i := by
      rintro rfl
      rw [hp] at hpi
      cases hpi
    rw [owed, if_neg hne]
    exact (hrun i).armed hpi
  · exact ⟨hrun, hok.timely⟩

/-- A callout that is still queued after its handler, and not armed again, leaves the queue. -/
theorem ok_finish (hok : s.Ok tb) (hth : s.thread = .running c) (hs : finish s c = .ok s') :
    s'.Ok tb := by
  have hothers : ∀ i, i ≠ c → Fit tb .idle s.now s.log i (s.callouts i) := by
    intro i hi
    refine (hok.fit i).idle (by simp [hth]) ?_
    rw [hth]
    rintro ⟨⟩
    exact hi rfl
  have hself : ∀ x : Callout, x.timeout = (s.callouts c).timeout →
      x.pending = (s.callouts c).pending → (x.queued = true → x.pending = true) →
      Fit tb .idle s.now s.log c x := by
    intro x ht hp hq
    exact
      { queued := fun h => .inl (hq h)
        armed := fun h => by rw [ht]; exact (hok.fit c).armed (hp ▸ h)
        short := by rw [ht]; exact (hok.fit c).short
        slept := nofun
        due := nofun }
  unfold finish at hs
  split at hs
  · obtain ⟨hcs, -, hn, hl⟩ := calloutRemove_eq (s.set c { s.callouts c with completed := true }) c
    refine ok_serveQueue (fun i => ?_) ?_ hs
    · rw [hcs, hn, hl]
      by_cases hi : i = c
      · subst hi
        simp only [World.set, update_self]
        exact hself _ rfl rfl nofun
      · simp only [World.set, update_of_ne hi]
        exact hothers i hi
    · rw [hl]
      exact hok.timely
  · rename_i hkeep
    refine ok_serveQueue (fun i => ?_) hok.timely hs
    by_cases hi : i = c
    · subst hi
      refine hself _ rfl rfl (fun hq => ?_)
      by_contra hp
      exact hkeep (by simp [hq, hp])
    · exact hothers i hi

theorem ok_step (htb : tb.denom ≤ tb.numer) {a : Action ι} (hc : Steady tb s a)
    (hs : step tb s a = .ok s') (hok : s.Ok tb) : s'.Ok tb := by
  cases a with
  | tick now =>
    simp only [step] at hs
    split_ifs at hs with hle
    cases hs
    exact ⟨fun i => (hok.fit i).tick hle, hok.timely⟩
  | reset c sbt flags =>
    cases hs
    exact ok_reset hok hc
  | stop c =>
    cases hs
    exact ok_stop hok c
  | drain c =>
    simp only [step, calloutDrain] at hs
    split_ifs at hs
    · cases hs
      have h := ok_set (x := { s.callouts c with waiting := true }) hok rfl id rfl id
      exact ⟨h.fit, h.timely⟩
    · cases hs
      exact ok_stop hok c
  | drained c =>
    simp only [step, calloutDrained] at hs
    split_ifs at hs
    · cases hs
      exact ⟨(ok_stop hok c).fit, (ok_stop hok c).timely⟩
    · cases hs
      exact hok
  | deactivate c =>
    cases hs
    exact ok_set hok rfl id rfl nofun
  | wake etimedout =>
    simp only [step] at hs
    split at hs
    · rename_i c mat delta hth
      have hidle : ∀ i, Fit tb .idle s.now s.log i (s.callouts i) := by
        intro i
        exact (hok.fit i).idle (by simp [hth]) (by simp [hth])
      split_ifs at hs with _ hel
      · -- The wait was to last until the timeout of `c`, or beyond it.
        obtain ⟨hmat, hshort, hdead⟩ := (hok.fit c).slept mat delta hth
        have hdue := deadline_le_of_elapsed htb hmat hshort hel
        exact ok_timedOut hidle hok.timely (Nat.le_trans hdead hdue) hs
      · exact ok_woken hidle hok.timely hs
    · cases hs
  | thread =>
    simp only [step] at hs
    split at hs
    · rename_i hth
      exact ok_serveQueue (fun i => (hok.fit i).idle (by simp [hth]) (by simp [hth])) hok.timely hs
    · cases hs
    · rename_i c hth
      cases hs
      exact ok_invoke hok hth
    · rename_i c hth
      exact ok_finish hok hth hs

theorem ok_start (now : UInt64) : (World.start now : World ι).Ok tb := by
  refine ⟨fun c => ?_, trivial⟩
  exact
    { queued := nofun
      armed := nofun
      short := by simp [World.start, Callout.init]
      slept := nofun
      due := nofun }

/-- No handler is called before the time last armed for its callout, nor twice for one arming, when no
callout is armed for later while the thread sleeps for it. -/
theorem callouts_timely (htb : tb.denom ≤ tb.numer) {now : UInt64} {as : List (Action ι)}
    (h : Run (step tb) (Steady tb) (World.start now) as s) : Timely s.log :=
  (h.invariant (fun _ _ _ hc hs hok => ok_step htb hc hs hok) (ok_start now)).timely

end Invariant

section Traces

/-- Ticks of one nanosecond. -/
def nanoTicks : Timebase := ⟨1, 1, by decide, by decide⟩

/-- So many seconds as an `sbintime_t`. -/
def seconds (n : UInt64) : UInt64 := n <<< 32

/-- The thread sleeps for the only callout and calls its handler when the wait times out. -/
def sleepThenCall : List (Action Bool) :=
  [.reset true (seconds 10) cAbsolute, .thread, .tick 10000000000, .wake true, .thread]

theorem callouts_timely_after_sleep :
    ∃ s, Run (step nanoTicks) (Steady nanoTicks) (World.start 0) sleepThenCall s ∧
      s.log = [.fire true 10000000000, .arm true 10000000000] ∧ Timely s.log := by
  have harm : Steady nanoTicks (World.start 0) (.reset true (seconds 10) cAbsolute) :=
    ⟨by decide +kernel, nofun⟩
  have hrun : Run (step nanoTicks) (Steady nanoTicks) (World.start 0) sleepThenCall _ :=
    .stepL harm rfl <| .stepL trivial rfl <| .stepL trivial rfl <| .stepL trivial rfl <|
    .stepL trivial rfl .refl
  exact ⟨_, hrun, by decide +kernel, callouts_timely (by decide) hrun⟩

/-- The thread sleeps for a callout that is armed again for later, behind another one: nothing sets
`work`, and the wait times out at the time first armed. -/
def armedAgainAsleep : List (Action Bool) :=
  [.reset true (seconds 10) cAbsolute, .thread, .reset false (seconds 12) cAbsolute,
    .reset true (seconds 20) cAbsolute, .tick 10000000000, .wake true, .thread]

theorem rearmed_callout_fires_early :
    ∃ s, Run (step nanoTicks) Any (World.start 0) armedAgainAsleep s ∧ ¬ Timely s.log := by
  refine ⟨_, run_of_isOk (d := World.start 0) rfl, ?_⟩
  have hlog : ((exec (step nanoTicks) (World.start 0) armedAgainAsleep).toOption.getD
      (World.start 0)).log =
      [.fire true 10000000000, .arm true 20000000000, .arm false 12000000000,
        .arm true 10000000000] := rfl
  rintro ⟨⟨timeout, howed, hle⟩, -⟩
  cases howed
  exact absurd hle (by decide)

end Traces

end HyperCog.Callouts
