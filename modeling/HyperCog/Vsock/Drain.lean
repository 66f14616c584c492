import HyperCog.Vsock.Lengths

/-! What a drain of a write buffer achieves, and how many drains there can be until the next write into it. -/
namespace HyperCog.Vsock

open Virtio Machine UInt32

/-- The bytes that wait in the write buffer. -/
def pending (s : PciVtsockSock) : ℕ := s.writeBufTail.toNat - s.writeBufHead.toNat

/-- The drain returns, with fewer bytes in the buffer or none. -/
def Progresses (now : Int) (res : WriteResult) (rc : ShutdownResult) (sc : PciVtsockSoftc)
    (i : SockId) : Prop :=
  ∃ sc', bufferDrain now res rc sc i = .ok sc' ∧
    (pending (sc'.socks i) < pending (sc.socks i) ∨ sockIsBuffering (sc'.socks i) = false)

/-- The descriptor took bytes, and no failed `shutdown(2)` at the end of the buffer aborts; or it
reported EPIPE for a connected sock that is not yet shut down in full, and the reply finds room. -/
def DrainMoves (res : WriteResult) (rc : ShutdownResult) (sc : PciVtsockSoftc) (i : SockId) : Prop :=
  match res with
  | .wrote n => ¬ (pending (sc.socks i) ≤ n ∧ (sc.socks i).peerShutdown &&& shutdownTx ≠ 0 ∧
      (sc.socks i).localShutdown &&& shutdownRx = 0 ∧ rc = .failed)
  | .epipe => (sc.socks i).state = .connected ∧ (sc.socks i).localShutdown ≠ shutdownAll ∧
      ¬ replyRingFull sc
  | .eagain | .error => False

variable {now : Int} {res : WriteResult} {rc : ShutdownResult} {sc sc' : PciVtsockSoftc} {i j : SockId}
  {s s' : PciVtsockSock} {nr n : ℕ}

section

variable (h : s.writeBufHead < s.writeBufTail)

include h

theorem isBuffering_of_lt : sockIsBuffering s = true := by
  rw [sockIsBuffering, decide_eq_true_eq]
  exact Nat.lt_of_le_of_lt (Nat.zero_le _) h

theorem pending_pos : 0 < pending s := by
  rw [lt_iff_toNat_lt] at h
  rw [pending]
  omega

/-- The assertions on entry hold for a buffer that is not empty. -/
theorem drain_guard : ¬ (!sockIsBuffering s || decide (s.writeBufTail ≤ s.writeBufHead)) = true := by
  rw [isBuffering_of_lt h]
  simpa using UInt32.not_le.mpr h

end

theorem not_buffering_of_tail (h : s.writeBufTail = 0) : sockIsBuffering s = false := by
  simp [sockIsBuffering, h]

theorem pending_eq_zero (h : sockIsBuffering s = false) : pending s = 0 := by
  rw [sockIsBuffering, decide_eq_false_iff_not, lt_iff_toNat_lt] at h
  have hz : (0 : UInt32).toNat = 0 := rfl
  rw [pending]
  omega

/-- Once the host end receives nothing more the buffer is dropped. -/
theorem shutdownLocalSock_rx (hst : s.state = .connected)
    (h : shutdownLocalSock now s shutdownRx = .ok s') : sockIsBuffering s' = false := by
  have hrx : (shutdownRx ||| s.localShutdown) &&& shutdownRx ≠ 0 := by
    have hself : shutdownRx &&& shutdownRx = shutdownRx := by decide
    rw [Flags.or_and]
    intro h0
    exact absurd (or_eq_zero_iff.mp h0).1 (by decide)
  have hmode : ¬ shutdownRx &&& ~~~shutdownAll ≠ 0 := by decide
  unfold shutdownLocalSock at h
  rw [if_neg hmode, if_neg (not_not.mpr hst)] at h
  split_ifs at h
  dsimp only at h
  cases hb : sockIsBuffering s with
  | true =>
    have hdrop : (shutdownRx ||| s.localShutdown) &&& shutdownRx ≠ 0 ∧
        sockIsBuffering s = true := ⟨hrx, hb⟩
    cases h
    apply not_buffering_of_tail
    split <;> rfl
  | false =>
    have hkeep : ¬ ((shutdownRx ||| s.localShutdown) &&& shutdownRx ≠ 0 ∧
        sockIsBuffering s = true) := by simp [hb]
    cases h
    split <;> exact hb

theorem toNat_offered (h : s.writeBufHead < s.writeBufTail) :
    (s.writeBufTail - s.writeBufHead).toNat = pending s :=
  UInt32.toNat_sub_of_le _ _ (UInt32.le_of_lt h)

theorem toNat_advance (h : s.writeBufHead < s.writeBufTail) (hle : nr ≤ pending s) :
    (s.writeBufHead + .ofNat nr).toNat = s.writeBufHead.toNat + nr := by
  have htail := UInt32.toNat_lt s.writeBufTail
  rw [UInt32.lt_iff_toNat_lt] at h
  rw [pending] at hle
  rw [UInt32.toNat_add, UInt32.toNat_ofNat', Nat.mod_eq_of_lt (show nr < 2 ^ 32 by omega)]
  exact Nat.mod_eq_of_lt (by omega)

theorem pending_advance (h : s.writeBufHead < s.writeBufTail) (hle : nr ≤ pending s) :
    pending { s with writeBufHead := s.writeBufHead + .ofNat nr } = pending s - nr := by
  have hadd := toNat_advance h hle
  rw [pending, pending]
  dsimp only
  omega

/-- An error other than EPIPE and EAGAIN closes the sock and keeps its buffer. -/
theorem bufferDrain_error_pending (h : bufferDrain now .error rc sc i = .ok sc') :
    (sc'.socks i).writeBufHead = (sc.socks i).writeBufHead ∧
      (sc'.socks i).writeBufTail = (sc.socks i).writeBufTail := by
  unfold bufferDrain at h
  dsimp only at h
  split_ifs at h
  obtain ⟨sc₁, hsend, hclose⟩ := bind_eq_ok.mp h
  obtain ⟨-, hdr, rfl⟩ := sendResponseSock_cases hsend
  obtain ⟨l, rfl⟩ := closeSock_cases hclose
  simp [queueReply]

section Pending

variable (h : (sc.socks i).writeBufHead < (sc.socks i).writeBufTail)

include h

/-- A write that leaves bytes behind moves the head. -/
theorem bufferDrain_part (now : Int) (rc : ShutdownResult) (hn : n < pending (sc.socks i)) :
    ∃ sc', bufferDrain now (.wrote n) rc sc i = .ok sc' ∧
      pending (sc'.socks i) = pending (sc.socks i) - n := by
  have hadd := toNat_advance h hn.le
  have hlt : (sc.socks i).writeBufHead + .ofNat n < (sc.socks i).writeBufTail := by
    rw [lt_iff_toNat_lt]
    rw [pending] at hn
    omega
  refine ⟨(sc.logWrite (sc.socks i).fd ((buffered (sc.socks i)).take n)).setSock i
    { sc.socks i with writeBufHead := (sc.socks i).writeBufHead + .ofNat n }, ?_, ?_⟩
  · simp only [bufferDrain, drain_guard h, Bool.false_eq_true, if_false, toNat_offered h,
      min_eq_left hn.le, hlt, if_true]
  · rw [PciVtsockSoftc.setSock_socks_self]
    exact pending_advance h hn.le

/-- A write of all that is left empties the buffer, unless the deferred `shutdown(2)` fails. -/
theorem bufferDrain_all (now : Int) (rc : ShutdownResult) (hn : pending (sc.socks i) ≤ n) :
    ((sc.socks i).peerShutdown &&& shutdownTx ≠ 0 ∧
        (sc.socks i).localShutdown &&& shutdownRx = 0 ∧ rc = .failed ∧
        bufferDrain now (.wrote n) rc sc i = .error .shutdownFailed) ∨
      (¬ ((sc.socks i).peerShutdown &&& shutdownTx ≠ 0 ∧
        (sc.socks i).localShutdown &&& shutdownRx = 0 ∧ rc = .failed) ∧
      ∃ sc', bufferDrain now (.wrote n) rc sc i = .ok sc' ∧
        sockIsBuffering (sc'.socks i) = false) := by
  have hadd := toNat_advance h le_rfl
  have hnlt : ¬ (sc.socks i).writeBufHead + .ofNat (pending (sc.socks i)) <
      (sc.socks i).writeBufTail := by
    rw [lt_iff_toNat_lt, hadd, pending]
    omega
  simp only [bufferDrain, drain_guard h, Bool.false_eq_true, if_false, toNat_offered h,
    min_eq_right hn, hnlt]
  by_cases hdefer : (sc.socks i).peerShutdown &&& shutdownTx ≠ 0 ∧
      (sc.socks i).localShutdown &&& shutdownRx = 0
  · split_ifs with hrc
    · exact .inl ⟨hdefer.1, hdefer.2, hrc, rfl⟩
    · refine .inr ⟨fun hall => hrc hall.2.2, _, rfl, ?_⟩
      simp [sockIsBuffering]
  · rw [if_neg hdefer]
    refine .inr ⟨fun hall => hdefer ⟨hall.1, hall.2.1⟩, _, rfl, ?_⟩
    simp [sockIsBuffering]

theorem progresses_epipe_iff : Progresses now .epipe rc sc i ↔ DrainMoves .epipe rc sc i := by
  have hmode : shutdownRx &&& ~~~shutdownAll = 0 := by decide
  have hsend : ∀ s : PciVtsockSock, (∃ sc', sendResponseSock (sc.setSock i s)
      virtioVsockOpShutdown s.localShutdown i = .ok sc') ↔ ¬ replyRingFull sc :=
    fun s => sendResponseCommon_ok_iff ⟨by decide, .inr rfl⟩
  have hdrain : bufferDrain now .epipe rc sc i =
      (shutdownLocalSock now (sc.socks i) shutdownRx >>= fun s =>
        sendResponseSock (sc.setSock i s) virtioVsockOpShutdown s.localShutdown i) := by
    simp only [bufferDrain, drain_guard h, Bool.false_eq_true, if_false]
  constructor
  · rintro ⟨sc', hok, hprog⟩
    rw [hdrain, bind_eq_ok] at hok
    obtain ⟨s, hs, hr⟩ := hok
    have hroom := (hsend s).mp ⟨sc', hr⟩
    obtain ⟨-, hdr, rfl⟩ := sendResponseSock_cases hr
    obtain ⟨hne, rfl⟩ | ⟨hconn, hall, -⟩ := shutdownLocalSock_cases hs
    · have hkept : (queueReply (sc.setSock i (sc.socks i)) hdr).socks i = sc.socks i := by
        simp [queueReply]
      rw [hkept, isBuffering_of_lt h] at hprog
      simp at hprog
    · exact ⟨hconn, hall, hroom⟩
  · rintro ⟨hconn, hall, hroom⟩
    obtain ⟨s, hs⟩ := (shutdownLocalSock_ok_iff hmode).mpr fun hboth => hall hboth.2
    obtain ⟨sc', hr⟩ := (hsend s).mpr hroom
    refine ⟨sc', ?_, .inr ?_⟩
    · rw [hdrain, bind_eq_ok]
      exact ⟨s, hs, hr⟩
    · obtain ⟨-, hdr, rfl⟩ := sendResponseSock_cases hr
      have hnew : (queueReply (sc.setSock i s) hdr).socks i = s := by
        simp [queueReply]
      rw [hnew]
      exact shutdownLocalSock_rx hconn hs

theorem progresses_wrote_iff (hn : 1 ≤ n) :
    Progresses now (.wrote n) rc sc i ↔ DrainMoves (.wrote n) rc sc i := by
  by_cases hpart : n < pending (sc.socks i)
  · obtain ⟨sc', hok, hpend⟩ := bufferDrain_part h now rc hpart
    have hmoves : DrainMoves (.wrote n) rc sc i := fun hall => by omega
    refine iff_of_true ⟨sc', hok, .inl ?_⟩ hmoves
    omega
  · have hall : pending (sc.socks i) ≤ n := Nat.le_of_not_lt hpart
    obtain ⟨htx, hrx, hrc, he⟩ | ⟨hno, sc', hok, hempty⟩ := bufferDrain_all h now rc hall
    · refine iff_of_false ?_ fun hmoves => hmoves ⟨hall, htx, hrx, hrc⟩
      rintro ⟨sc', hok, -⟩
      rw [he] at hok
      cases hok
    · exact iff_of_true ⟨sc', hok, .inr hempty⟩ fun hm => hno hm.2

theorem not_progresses_error : ¬ Progresses now .error rc sc i := by
  rintro ⟨sc', hok, hprog⟩
  obtain ⟨hhead, htail⟩ := bufferDrain_error_pending hok
  have hsame : sockIsBuffering (sc'.socks i) = true :=
    isBuffering_of_lt (by rw [hhead, htail]; exact h)
  rw [pending, pending, hhead, htail, hsame] at hprog
  simp at hprog

/-- What one drain achieves, for every sock the transmit thread may drain. -/
theorem progresses_iff (now : Int) (hres : res ≠ .eagain) (hn : ∀ n, res = .wrote n → 1 ≤ n) :
    Progresses now res rc sc i ↔ DrainMoves res rc sc i := by
  cases res with
  | wrote n => exact progresses_wrote_iff h (hn n rfl)
  | epipe => exact progresses_epipe_iff h
  | eagain => exact absurd rfl hres
  | error => exact iff_of_false (not_progresses_error h) id

end Pending

/-- What can happen to the buffer of a sock between two calls of `buffer_write` for it: a drain, or
a change of the device in which it gets no fuller. -/
inductive DrainAction
  | drain (now : Int) (res : WriteResult) (rc : ShutdownResult)
  | other (sc : PciVtsockSoftc)

/-- The device with a count of the drains of the sock that did not end in EAGAIN. -/
def drainStep (i : SockId) (s : PciVtsockSoftc × ℕ) : DrainAction → Except Fault (PciVtsockSoftc × ℕ)
  | .drain now res rc => do
    let sc ← bufferDrain now res rc s.1 i
    return (sc, if res = .eagain then s.2 else s.2 + 1)
  | .other sc => .ok (sc, s.2)

/-- Every drain moves bytes, and nothing else adds any. -/
def DrainsMove (i : SockId) (s : PciVtsockSoftc × ℕ) : DrainAction → Prop
  | .drain _ res rc => res ≠ .eagain → res ≠ .wrote 0 ∧ DrainMoves res rc s.1 i
  | .other sc => pending (sc.socks i) ≤ pending (s.1.socks i)

section Runs

variable {s t : PciVtsockSoftc × ℕ} {a : DrainAction}

theorem lt_of_bufferDrain (hr : bufferDrain now res rc sc i = .ok sc') :
    (sc.socks i).writeBufHead < (sc.socks i).writeBufTail := by
  simp only [bufferDrain] at hr
  split at hr
  · cases hr
  · rename_i hguard
    simp only [Bool.or_eq_true, decide_eq_true_eq, not_or, UInt32.not_le] at hguard
    exact hguard.2

/-- A drain that meets the condition costs the buffer a byte. -/
theorem pending_bufferDrain (hres : res ≠ .eagain) (hzero : res ≠ .wrote 0)
    (hmoves : DrainMoves res rc sc i) (hr : bufferDrain now res rc sc i = .ok sc') :
    pending (sc'.socks i) < pending (sc.socks i) := by
  have hlt := lt_of_bufferDrain hr
  have hn : ∀ n, res = .wrote n → 1 ≤ n := by
    rintro n rfl
    exact Nat.one_le_iff_ne_zero.mpr fun h0 => hzero (by rw [h0])
  obtain ⟨sc₁, hok, hprog⟩ := (progresses_iff hlt now hres hn).mpr hmoves
  obtain rfl : sc₁ = sc' := Except.ok.inj (hok.symm.trans hr)
  obtain hless | hempty := hprog
  · exact hless
  · rw [pending_eq_zero hempty]
    exact pending_pos hlt

/-- The bytes in the buffer pay for the drains. -/
theorem drainStep_pays (hc : DrainsMove i s a) (hs : drainStep i s a = .ok t) :
    t.2 + pending (t.1.socks i) ≤ s.2 + pending (s.1.socks i) := by
  cases a with
  | other sc =>
    cases hs
    exact Nat.add_le_add_left hc s.2
  | drain now res rc =>
    obtain ⟨sc, hr, hs⟩ := bind_eq_ok.mp hs
    cases hs
    by_cases hres : res = .eagain
    · subst hres
      simp only [bufferDrain, drain_guard (lt_of_bufferDrain hr), if_false, Bool.false_eq_true] at hr
      cases hr
      exact le_rfl
    · obtain ⟨hzero, hmoves⟩ := hc hres
      have hless := pending_bufferDrain hres hzero hmoves hr
      rw [if_neg hres]
      dsimp only
      omega

theorem drains_bounded {as : List DrainAction} (hrun : Run (drainStep i) (DrainsMove i) s as t) :
    t.2 + pending (t.1.socks i) ≤ s.2 + pending (s.1.socks i) := by
  refine hrun.invariant (I := fun u => u.2 + pending (u.1.socks i) ≤
    s.2 + pending (s.1.socks i)) ?_ le_rfl
  intro u a v hc hs hu
  exact (drainStep_pays hc hs).trans hu

end Runs

/-- One drain makes progress exactly when the descriptor takes bytes, or reports EPIPE for a
connected sock; and with such drains only, the bytes in the buffer bound their number. -/
theorem drain_progress_iff (i : SockId) :
    (∀ now res rc (sc : PciVtsockSoftc), (sc.socks i).writeBufHead < (sc.socks i).writeBufTail →
      res ≠ .eagain → (∀ n, res = .wrote n → 1 ≤ n) →
      (Progresses now res rc sc i ↔ DrainMoves res rc sc i)) ∧
    ∀ as sc sc' n, Run (drainStep i) (DrainsMove i) (sc, 0) as (sc', n) →
      n + pending (sc'.socks i) ≤ pending (sc.socks i) := by
  constructor
  · intro now res rc sc hlt hres hn
    exact progresses_iff hlt now hres hn
  · intro as sc sc' n hrun
    have hbound := drains_bounded hrun
    rwa [Nat.zero_add] at hbound

/-- The system once `writev` has refused the two bytes of data and they wait in the buffer. -/
def filledSystem : System :=
  (exec step (declared 2) [.txPacket (laterHost .eagain),
    .txPacket (laterHost .eagain)]).toOption.getD (declared 2)

/-- One of the two bytes drained. -/
theorem drain_progress_one_byte : Progresses 0 (.wrote 1) .ok filledSystem.sc firstSock ∧
    ∃ sc, Run (drainStep firstSock) (DrainsMove firstSock) (filledSystem.sc, 0)
      [.drain 0 (.wrote 1) .ok] (sc, 1) ∧
    1 + pending (sc.socks firstSock) ≤ pending (filledSystem.sc.socks firstSock) := by
  have hlt : (filledSystem.sc.socks firstSock).writeBufHead <
      (filledSystem.sc.socks firstSock).writeBufTail := by decide +kernel
  have hmoves : ¬ (filledSystem.sc.socks firstSock).peerShutdown &&& shutdownTx ≠ 0 := by
    decide +kernel
  have hdrain : DrainMoves (.wrote 1) .ok filledSystem.sc firstSock := fun hall => hmoves hall.2.1
  have hprog := ((drain_progress_iff firstSock).1 0 (.wrote 1) .ok filledSystem.sc hlt (by simp)
    (by rintro n ⟨⟩; exact le_rfl)).mpr hdrain
  obtain ⟨sc, hr, -⟩ := id hprog
  have hstep : drainStep firstSock (filledSystem.sc, 0) (.drain 0 (.wrote 1) .ok) = .ok (sc, 1) := by
    rw [drainStep, hr]
    rfl
  have hc : DrainsMove firstSock (filledSystem.sc, 0) (.drain 0 (.wrote 1) .ok) :=
    fun _ => ⟨by simp, hdrain⟩
  have hrun := Run.stepL hc hstep .refl
  exact ⟨hprog, sc, hrun, (drain_progress_iff firstSock).2 _ _ _ 1 hrun⟩

/-- A turn of the transmit loop in which the write to the descriptor fails, and no packet waits. -/
def failingTurn : List Action :=
  [.txTop, .txScan 0 .ok, .txScan 0 .ok, .txSelect true [9] false (fun _ => false),
    .txConnect ⟨-1, none, ⟨true, true, none⟩⟩, .txDrain 0 .error .ok, .txDrain 0 .eagain .ok,
    .txPacket (laterHost .eagain)]

/-- The system after three such turns. -/
def failedSystem : System :=
  (exec step filledSystem (failingTurn ++ failingTurn ++ failingTurn)).toOption.getD
    filledSystem

/-- A write error closes the sock and keeps the buffer, which is then drained again and again:
three drains, each answered with a RST, and the two bytes are still there. -/
theorem failing_drain_repeats : Run step Any (declared 2) [.txPacket (laterHost .eagain),
      .txPacket (laterHost .eagain)] filledSystem ∧
    pending (filledSystem.sc.socks firstSock) = 2 ∧ (nextPacket filledSystem.sc).isNone = true ∧
    ¬ Progresses 0 .error .ok filledSystem.sc firstSock ∧
    Run step Any filledSystem (failingTurn ++ failingTurn ++ failingTurn)
      failedSystem ∧
    (failedSystem.sc.socks firstSock).state = .closingTx ∧
    pending (failedSystem.sc.socks firstSock) = 2 ∧
    failedSystem.sc.queued.length = filledSystem.sc.queued.length + 3 := by
  have hlt : (filledSystem.sc.socks firstSock).writeBufHead <
      (filledSystem.sc.socks firstSock).writeBufTail := by decide +kernel
  refine ⟨run_of_isOk ?_, ?_, ?_, not_progresses_error hlt, run_of_isOk ?_, ?_, ?_, ?_⟩
  all_goals decide +kernel

end HyperCog.Vsock
