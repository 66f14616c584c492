import HyperCog.Vsock.Stream

/-! Which transmit packets are handed back to the guest: every exit of the packet handler. -/
namespace HyperCog.Vsock

open Virtio Machine

attribute [local simp] WriteVerdict.ofBuffered

/-- `buffer_write` of `n` bytes would return -1. -/
def noRoom (s : PciVtsockSock) (n : UInt32) : Prop := writeBufLength - s.writeBufTail < n

attribute [local simp] noRoom

/-- The bytes `handle_write` asks `buffer_write` to keep, if it gets that far. -/
def toBuffer (res : WriteResult) (s : PciVtsockSock) (len : UInt32) : Option UInt32 :=
  if sockIsBuffering s then some len
  else match res with
    | .epipe | .error => none
    | .eagain => if len = 0 then none else some len
    | .wrote n => if len.toNat ≤ n then none else some (len - .ofNat n)

attribute [local simp] toBuffer

def WriteRefused (res : WriteResult) (s : PciVtsockSock) (len : UInt32) : Prop :=
  (sockIsBuffering s = false ∧ res = .error) ∨ ∃ n, toBuffer res s len = some n ∧ noRoom s n

attribute [local simp] WriteRefused

/-- The OP_SHUTDOWN passes every check. -/
def ShutdownAccepted (s : PciVtsockSock) (flags : UInt32) : Prop :=
  s.state = .connected ∧ flags &&& ~~~shutdownAll = 0 ∧ flags &&& shutdownAll ≠ 0

theorem shutdownAccepted_iff {s : PciVtsockSock} {flags : UInt32} : ShutdownAccepted s flags ↔
    ¬(s.state ≠ .connected ∨ flags &&& ~~~shutdownAll ≠ 0 ∨ flags &&& shutdownAll = 0) := by
  simp [ShutdownAccepted]

theorem ShutdownAccepted.validMode {s : PciVtsockSock} {flags : UInt32}
    (h : ShutdownAccepted s flags) : ValidMode flags := by
  refine ⟨h.2.1, ?_⟩
  rintro rfl
  exact h.2.2 (by decide)

/-- The packet for this sock is turned away with a RST. -/
def Refused (h : TxHost) (hdr : VirtioSockHdr) (s : PciVtsockSock) : Prop :=
  hdr.op = virtioVsockOpInvalid ∨ hdr.op = virtioVsockOpRequest ∨
  (hdr.op = virtioVsockOpResponse ∧ s.state ≠ .connecting) ∨
  (hdr.op = virtioVsockOpShutdown ∧ ¬ ShutdownAccepted s hdr.flags) ∨
  (hdr.op = virtioVsockOpRw ∧ (¬ rwOpen s ∨ WriteRefused h.writev s hdr.len)) ∨
  ((hdr.op = virtioVsockOpCreditUpdate ∨ hdr.op = virtioVsockOpCreditRequest) ∧ s.state ≠ .connected)

/-- The packet queues a reply. -/
def Answered (h : TxHost) (hdr : VirtioSockHdr) : Option PciVtsockSock → Prop
  | none => hdr.op ≤ virtioVsockOpCreditRequest ∧ hdr.op ≠ virtioVsockOpRst
  | some s => Refused h hdr s ∨ (hdr.op = virtioVsockOpShutdown ∧ ShutdownAccepted s hdr.flags ∧
        hdr.flags ||| s.peerShutdown = shutdownAll) ∨
      (hdr.op = virtioVsockOpRw ∧ rwOpen s ∧ sockIsBuffering s = false ∧ h.writev = .epipe)

/-- The packet makes a `shutdown(2)` call before its chain is handed back. -/
def ShutsDown (hdr : VirtioSockHdr) (s : PciVtsockSock) : Prop :=
  (hdr.op = virtioVsockOpRst ∧ callsShutdown s shutdownAll) ∨
  (hdr.op = virtioVsockOpShutdown ∧ ShutdownAccepted s hdr.flags ∧ callsShutdown s hdr.flags)

/-- The last `n` bytes of the payload are copied into the write buffer. -/
def Buffers (h : TxHost) (hdr : VirtioSockHdr) (s : PciVtsockSock) (n : UInt32) : Prop :=
  hdr.op = virtioVsockOpRw ∧ rwOpen s ∧ toBuffer h.writev s hdr.len = some n ∧ ¬ noRoom s n

/-- The sock a packet is addressed to. -/
def found (sc : PciVtsockSoftc) (hdr : VirtioSockHdr) : Option PciVtsockSock :=
  (lookupSock sc hdr.dstAddr hdr.srcAddr).map sc.socks

/-- `buffer_write` turns the rest of a payload away, or the declared length is the number of bytes
from offset `num` on, all of them in guest RAM, and no empty segment follows the last one. -/
def RestAgrees (s : PciVtsockSock) (len : UInt32) (iov : List Iovec) (num : ℕ) : Prop :=
  noRoom s (len - .ofNat num) ∨
    ((len - .ofNat num).toNat = iovTotal iov - num ∧ ¬ TrailingEmpty iov ∧ MappedFrom iov num)

/-- The two lengths agree wherever `handle_write` mixes them. -/
def LengthsAgree (res : WriteResult) (sc : PciVtsockSoftc) (i : SockId) (len : UInt32)
    (iov : List Iovec) : Prop :=
  if sockIsBuffering (sc.socks i) then RestAgrees (sc.socks i) len iov 0
  else match res with
    | .error => True
    | .epipe => ¬ replyRingFull sc
    | .eagain => len = 0 ∨ RestAgrees (sc.socks i) len iov 0
    | .wrote n => min n (iovTotal iov) = len.toNat ∨
        RestAgrees (sc.socks i) len iov (min n (iovTotal iov))

variable {m : HostMem} {s s' : PciVtsockSock} {iov : List Iovec} {len : UInt32} {fits : Bool}
  {sc sc' : PciVtsockSoftc} {i : SockId} {num : ℕ} {v : WriteVerdict} {now : Int}
  {res : WriteResult} {rc : ShutdownResult} {h : TxHost} {hdr : VirtioSockHdr} {idx : UInt16}
  {sock : Option SockId}

theorem closeSock_ok_iff : (∃ sc', closeSock rc sc sock = .ok sc') ↔
    ∀ i, sock = some i → callsShutdown (sc.socks i) shutdownAll → rc ≠ .failed := by
  cases sock with
  | none => simp [closeSock]
  | some i =>
    simp only [closeSock, exists_bind_eq_ok]
    have hshut : (∃ s, shutdownPeerLocalFd rc (sc.socks i) shutdownAll = .ok s) ↔ _ :=
      shutdownPeerLocalFd_ok_iff ⟨by decide, by decide⟩
    constructor
    · rintro ⟨s, hs, -⟩ j hj hcalls hrc
      cases hj
      exact hshut.mp ⟨s, hs⟩ ⟨hcalls, hrc⟩
    · intro hall
      obtain ⟨s, hs⟩ := hshut.mpr fun hboth => hall i rfl hboth.1 hboth.2
      exact ⟨s, hs, _, rfl⟩

theorem closeSock_vqTx (hc : closeSock rc sc sock = .ok sc') : sc'.vqTx = sc.vqTx := by
  cases sock with
  | none =>
    cases hc
    rfl
  | some i =>
    obtain ⟨l, rfl⟩ := closeSock_cases hc
    rfl

theorem rst_args : virtioVsockOpRst ≠ virtioVsockOpRw ∧
    ((0 : UInt32) = 0 ∨ virtioVsockOpRst = virtioVsockOpShutdown) :=
  ⟨by decide, .inl rfl⟩

theorem sendRst_cases (hs : sendRst sc hdr sock = .ok sc') :
    ¬ replyRingFull sc ∧ ∃ hdr, sc' = queueReply sc hdr := by
  cases sock with
  | none =>
    simp only [sendRst, sendResponseNosock] at hs
    exact sendResponseCommon_cases hs
  | some i => exact sendResponseSock_cases hs

theorem sendRst_ok_iff (hdr : VirtioSockHdr) (sock : Option SockId) :
    (∃ sc', sendRst sc hdr sock = .ok sc') ↔ ¬ replyRingFull sc := by
  cases sock with
  | none | some => exact sendResponseCommon_ok_iff rst_args

section Comes

variable {β : Type} {x : Except Fault β} {f : β → Except Fault PciVtsockSoftc}

/-- A handler gets past the release of its chain: it returns, or it aborts afterwards. -/
def Comes (idx : UInt16) (r : Except Fault PciVtsockSoftc) : Prop :=
  (∃ sc', r = .ok sc') ∨ r = .error (.abortReleased idx)

/-- If the computation dies, it has released nothing. -/
def Unreleased (x : Except Fault β) : Prop := ∀ idx, x ≠ .error (.abortReleased idx)

theorem comes_ok : Comes idx (.ok sc) := .inl ⟨sc, rfl⟩

theorem comes_bind (hx : Unreleased x) : Comes idx (x >>= f) ↔ ∃ b, x = .ok b ∧ Comes idx (f b) := by
  cases x with
  | error e =>
    have hne : e ≠ .abortReleased idx := fun he => hx idx (by rw [he])
    simp [Comes, bind, Except.bind, hne]
  | ok b => simp [bind, Except.bind]

theorem sendResponseCommon_unreleased {localAddr peerAddr : VsockAddr} {op type : UInt16}
    {flags bufAlloc fwdCnt : UInt32} :
    Unreleased (sendResponseCommon sc localAddr peerAddr op type flags bufAlloc fwdCnt) := by
  intro idx he
  unfold sendResponseCommon at he
  split_ifs at he
  all_goals cases he

theorem sendRst_unreleased : Unreleased (sendRst sc hdr sock) := by
  cases sock with
  | none | some =>
    simp only [sendRst, sendResponseNosock, sendResponseSock]
    exact sendResponseCommon_unreleased

theorem shutdownPeerLocalFd_unreleased {mode : UInt32} :
    Unreleased (shutdownPeerLocalFd rc s mode) := by
  intro idx he
  obtain h | h := shutdownPeerLocalFd_error he
  all_goals cases h

theorem closeSock_unreleased : Unreleased (closeSock rc sc sock) := by
  cases sock with
  | none => nofun
  | some i =>
    intro idx he
    obtain he | ⟨s, -, he⟩ := bind_eq_error.mp he
    · exact shutdownPeerLocalFd_unreleased idx he
    · cases he

theorem handleWrite_unreleased : Unreleased (handleWrite now res sc i len iov) := by
  have hbuffer : ∀ sc s len iov, Unreleased (bufferRest sc i s len iov) := by
    intro sc s len iov idx he
    obtain he | ⟨r, -, he⟩ := bind_eq_error.mp he
    · obtain h | h | h := bufferWrite_error he
      all_goals cases h
    · cases he
  have haccept : ∀ sc num, Unreleased (acceptWritten sc i len iov num) := by
    intro sc num idx he
    unfold acceptWritten at he
    split at he
    · cases he
    obtain he | ⟨p, -, he⟩ := bind_eq_error.mp he
    · cases iovecPull_error he
    split at he
    · cases he
    · exact hbuffer _ _ _ _ idx he
  intro idx he
  unfold handleWrite at he
  dsimp only at he
  split at he
  · exact hbuffer _ _ _ _ idx he
  cases res with
  | epipe =>
    obtain he | ⟨s, -, he⟩ := bind_eq_error.mp he
    · unfold shutdownLocalSock at he
      split_ifs at he
      all_goals cases he
    obtain he | ⟨sc₁, -, he⟩ := bind_eq_error.mp he
    · exact sendResponseCommon_unreleased idx he
    · cases he
  | error => cases he
  | eagain | wrote => exact haccept _ _ idx he

/-- The `do_rst` exit needs a free reply slot; an abort of `close_sock` comes too late to matter. -/
theorem doRst_comes_iff : Comes idx (doRst h sc idx hdr sock) ↔ ¬ replyRingFull sc := by
  rw [doRst, comes_bind sendRst_unreleased, ← sendRst_ok_iff hdr sock]
  refine exists_congr fun sc₁ => and_iff_left ?_
  cases closeSock h.shutdown (sc₁.relTx idx 0) sock with
  | ok => exact comes_ok
  | error => exact .inr rfl

end Comes

theorem doRst_vqTx (hd : doRst h sc idx hdr sock = .ok sc') : sc'.vqTx = vqRelchain sc.vqTx idx 0 := by
  obtain ⟨sc₁, hsend, hclose⟩ := doRst_eq_ok.mp hd
  obtain ⟨-, hdr', rfl⟩ := sendRst_cases hsend
  exact closeSock_vqTx hclose

/-- With room, only a payload of exactly the declared length, mapped and ending with its last
byte, passes the assertions of `buffer_write`. -/
theorem bufferWrite_returns_iff : (∃ r, bufferWrite m s len iov = .ok r) ↔
    noRoom s len ∨ (len.toNat = iovTotal iov ∧ ¬ TrailingEmpty iov ∧ Mapped iov) := by
  have hpulled : ∀ {p : Pulled}, iovecPull m true iov len.toNat = .ok p →
      len.toNat = iovTotal iov → (p.iov = [] ↔ ¬ TrailingEmpty iov) := by
    intro p hp hlen
    obtain ⟨-, htot⟩ := iovTotal_pull hp
    rw [← trailingEmpty_pull hp hlen.le]
    exact eq_nil_iff_of_total_zero (by omega)
  constructor
  · rintro ⟨⟨fits, s'⟩, h⟩
    rcases bufferWrite_eq_ok h with ⟨-, hfull, -⟩ | ⟨-, -, p, hp, hres, hnil, -⟩
    · exact .inl hfull
    · obtain ⟨hmin, htot⟩ := iovTotal_pull hp
      rw [hnil, iovTotal_nil] at htot
      have hlen : len.toNat = iovTotal iov := by omega
      exact .inr ⟨hlen, (hpulled hp hlen).mp hnil, iovecPull_total_ok_iff.mp ⟨p, hlen ▸ hp⟩⟩
  · rintro (hfull | ⟨hlen, htrail, hm⟩)
    · exact ⟨_, if_pos hfull⟩
    · obtain ⟨p, hp⟩ := (iovecPull_total_ok_iff (m := m)).mpr hm
      rw [← hlen] at hp
      obtain ⟨hres, -⟩ := iovTotal_pull hp
      have hall : p.res = len.toNat := by omega
      unfold bufferWrite
      split
      · exact ⟨_, rfl⟩
      · simp [hp, hall, (hpulled hp hlen).mpr htrail]

/-- `buffer_write` answers -1 exactly without room. -/
theorem bufferWrite_verdict (hw : bufferWrite m s len iov = .ok (fits, s')) :
    fits = false ↔ noRoom s len := by
  rcases bufferWrite_eq_ok hw with ⟨rfl, hfull, rfl⟩ | ⟨rfl, hroom, -⟩
  · simpa using hfull
  · simpa using hroom

theorem bufferRest_returns_iff (sc : PciVtsockSoftc) (i : SockId) :
    (∃ r, bufferRest sc i s len iov = .ok r) ↔
      noRoom s len ∨ (len.toNat = iovTotal iov ∧ ¬ TrailingEmpty iov ∧ Mapped iov) := by
  rw [bufferRest, ← bufferWrite_returns_iff]
  exact exists_bind_pure_eq_ok

theorem bufferRest_verdict (hw : bufferRest sc i s len iov = .ok (v, sc')) :
    (v = .reject ↔ noRoom s len) ∧ ∃ s', sc' = sc.setSock i s' := by
  rw [bufferRest, bind_eq_ok] at hw
  obtain ⟨⟨fits, s'⟩, hb, hw⟩ := hw
  cases hw
  have hfits := bufferWrite_verdict hb
  cases fits with
  | true | false => exact ⟨by simpa using hfits, s', rfl⟩

/-- A short write leaves the rest of the payload to `buffer_write`. -/
theorem acceptWritten_short (sc : PciVtsockSoftc) (i : SockId) (hlen : len.toNat = iovTotal iov)
    (hnum : num ≤ iovTotal iov) (hshort : num ≠ len.toNat) :
    ∃ p, iovecPull sc.mem false iov num = .ok p ∧ (len - UInt32.ofNat num).toNat = iovTotal p.iov ∧
      acceptWritten sc i len iov num = bufferRest sc i
        { sc.socks i with fwdCnt := (sc.socks i).fwdCnt + .ofNat num }
        (len - .ofNat num) p.iov := by
  obtain ⟨p, hp⟩ := iovecPull_discard sc.mem iov num
  obtain ⟨hres, htot⟩ := iovTotal_pull hp
  have hlt := UInt32.toNat_lt len
  refine ⟨p, hp, ?_, ?_⟩
  · rw [UInt32.toNat_sub, UInt32.toNat_ofNat']
    omega
  · have hok : ¬ p.res ≠ num := by omega
    rw [acceptWritten, if_neg hshort, hp]
    simp only [bind, Except.bind, if_neg hok]

/-- With nothing pulled off, the rest is the payload. -/
theorem restAgrees_zero : RestAgrees s len iov 0 ↔
    noRoom s len ∨ (len.toNat = iovTotal iov ∧ ¬ TrailingEmpty iov ∧ Mapped iov) := by
  have hzero : len - UInt32.ofNat 0 = len := UInt32.sub_zero len
  rw [RestAgrees, hzero, mappedFrom_zero, Nat.sub_zero]

/-- A short write is judged by what it leaves. -/
theorem acceptWritten_returns_iff (sc : PciVtsockSoftc) (i : SockId) (len : UInt32)
    (hnum : num ≤ iovTotal iov) :
    (∃ r, acceptWritten sc i len iov num = .ok r) ↔
      num = len.toNat ∨ RestAgrees (sc.socks i) len iov num := by
  by_cases hfull : num = len.toNat
  · simp [acceptWritten, hfull]
  · obtain ⟨p, hp⟩ := iovecPull_discard sc.mem iov num
    obtain ⟨hres, htot⟩ := iovTotal_pull hp
    have hpulled : ¬ p.res ≠ num := by omega
    rw [acceptWritten, if_neg hfull, hp]
    simp only [bind, Except.bind, if_neg hpulled, hfull, false_or]
    rw [bufferRest_returns_iff, htot, trailingEmpty_pull hp hnum, mapped_pull hp]
    rfl

theorem acceptWritten_verdict (hlen : len.toNat = iovTotal iov) (hnum : num ≤ iovTotal iov)
    (hw : acceptWritten sc i len iov num = .ok (v, sc')) :
    (v = .reject ↔ num ≠ len.toNat ∧ noRoom (sc.socks i) (len - .ofNat num)) ∧
      ∃ s', sc' = sc.setSock i s' := by
  by_cases hfull : num = len.toNat
  · simp only [acceptWritten, if_pos hfull] at hw
    cases hw
    exact ⟨by simp [hfull], _, rfl⟩
  · obtain ⟨p, -, -, he⟩ := acceptWritten_short sc i hlen hnum hfull
    rw [he] at hw
    obtain ⟨hv, s', rfl⟩ := bufferRest_verdict hw
    refine ⟨?_, s', rfl⟩
    simpa [hfull] using hv

/-- On an open sock, EPIPE always gets as far as its reply. -/
theorem epipe_ok_iff (hopen : rwOpen (sc.socks i)) :
    (∃ r, handleWrite now .epipe sc i len iov = .ok r) ↔
      (sockIsBuffering (sc.socks i) = false → ¬ replyRingFull sc) ∧
      (sockIsBuffering (sc.socks i) → ∃ r, bufferRest sc i (sc.socks i) len iov = .ok r) := by
  cases hbuf : sockIsBuffering (sc.socks i) with
  | true => simp [handleWrite, hbuf]
  | false =>
    have hshut : ∃ s, shutdownLocalSock now (sc.socks i) shutdownRx = .ok s := by
      rw [shutdownLocalSock_ok_iff (by decide)]
      rintro ⟨-, hall⟩
      obtain ⟨-, -, hrx⟩ := rwOpen_iff.mp hopen
      rw [hall] at hrx
      exact absurd hrx (by decide)
    have hsend : ∀ s, (∃ sc', sendResponseSock (sc.setSock i s) virtioVsockOpShutdown
        s.localShutdown i = .ok sc') ↔ ¬ replyRingFull sc := by
      intro s
      exact sendResponseCommon_ok_iff ⟨by decide, .inr rfl⟩
    simp only [handleWrite, hbuf, Bool.false_eq_true, if_false, exists_bind_eq_ok]
    constructor
    · rintro ⟨s, -, sc', hs, -⟩
      exact ⟨fun _ => (hsend s).mp ⟨sc', hs⟩, by simp⟩
    · rintro ⟨hroom, -⟩
      obtain ⟨s, hs⟩ := hshut
      obtain ⟨sc', hs'⟩ := (hsend s).mpr (hroom trivial)
      exact ⟨s, hs, sc', hs', _, rfl⟩

/-- What is left after `n` of `len` bytes, in the arithmetic of the code. -/
theorem toNat_rest {n : ℕ} (hle : n ≤ len.toNat) : (len - UInt32.ofNat n).toNat = len.toNat - n := by
  have hlt := UInt32.toNat_lt len
  rw [UInt32.toNat_sub, UInt32.toNat_ofNat']
  omega

/-- On an open sock the call returns exactly when the lengths agree. -/
theorem handleWrite_returns_iff (now : Int) (hopen : rwOpen (sc.socks i)) :
    (∃ r, handleWrite now res sc i len iov = .ok r) ↔ LengthsAgree res sc i len iov := by
  unfold LengthsAgree
  cases hbuf : sockIsBuffering (sc.socks i) with
  | true =>
    rw [restAgrees_zero, ← bufferRest_returns_iff sc i]
    simp only [handleWrite, hbuf, if_true]
  | false =>
    cases res with
    | epipe =>
      rw [epipe_ok_iff hopen]
      simp [hbuf]
    | eagain =>
      have hlen : 0 = len.toNat ↔ len = 0 := by
        rw [eq_comm, ← UInt32.toNat_inj]
        rfl
      rw [← hlen, ← acceptWritten_returns_iff sc i len (Nat.zero_le _)]
      simp only [handleWrite, hbuf, Bool.false_eq_true, if_false]
    | error =>
      simp [handleWrite, hbuf]
    | wrote n =>
      have hlog := acceptWritten_returns_iff
        (sc.logWrite (sc.socks i).fd ((iovBytes sc.mem iov).take (min n (iovTotal iov)))) i len
        (min_le_right n (iovTotal iov))
      simp only [handleWrite, hbuf, Bool.false_eq_true, if_false]
      exact hlog

/-- The same for a payload of the declared length. -/
theorem handleWrite_ok_iff (hopen : rwOpen (sc.socks i)) (hlen : len.toNat = iovTotal iov) :
    (∃ r, handleWrite now res sc i len iov = .ok r) ↔
      (sockIsBuffering (sc.socks i) = false → res = .epipe → ¬ replyRingFull sc) ∧
      ∀ n, toBuffer res (sc.socks i) len = some n → ¬ noRoom (sc.socks i) n →
        ¬ TrailingEmpty iov ∧ MappedFrom iov (len.toNat - n.toNat) := by
  have hrest : ∀ {n : ℕ}, n ≤ len.toNat → (RestAgrees (sc.socks i) len iov n ↔
      (¬ noRoom (sc.socks i) (len - .ofNat n) → ¬ TrailingEmpty iov ∧
        MappedFrom iov (len.toNat - (len - UInt32.ofNat n).toNat))) := by
    intro n hn
    rw [RestAgrees, toNat_rest hn, Nat.sub_sub_self hn]
    tauto
  have hzero : len - UInt32.ofNat 0 = len := UInt32.sub_zero len
  have hzero' := hrest (Nat.zero_le _)
  rw [handleWrite_returns_iff now hopen, LengthsAgree.eq_def]
  cases hbuf : sockIsBuffering (sc.socks i) with
  | true => simp [hbuf, hzero']
  | false =>
    cases res with
    | epipe | error => simp [hbuf]
    | eagain =>
      by_cases h0 : len = 0
      · simp [hbuf, h0]
      · simp [hbuf, h0, hzero']
    | wrote n =>
      by_cases hle : len.toNat ≤ n
      · have hmin : min n (iovTotal iov) = len.toNat := by omega
        simp [hbuf, hle, hmin]
      · have hmin : min n (iovTotal iov) = n := by omega
        have hne : n ≠ len.toNat := by omega
        simp [hbuf, hle, hmin, hne, hrest (Nat.le_of_not_le hle)]

/-- Which verdict `handle_write` returns, and what a refusal leaves behind. -/
theorem handleWrite_verdict (hlen : len.toNat = iovTotal iov)
    (hw : handleWrite now res sc i len iov = .ok (v, sc')) :
    (v = .reject ↔ WriteRefused res (sc.socks i) len) ∧ sc'.vqTx = sc.vqTx ∧
      (v = .reject → (replyRingFull sc' ↔ replyRingFull sc)) := by
  cases hbuf : sockIsBuffering (sc.socks i) with
  | true =>
    simp only [handleWrite, hbuf, if_true] at hw
    obtain ⟨hv, s', rfl⟩ := bufferRest_verdict hw
    exact ⟨by simpa [hbuf] using hv, rfl, fun _ => Iff.rfl⟩
  | false =>
    simp only [handleWrite, hbuf, Bool.false_eq_true, if_false] at hw
    cases res with
    | epipe =>
      simp only [bind_eq_ok] at hw
      obtain ⟨s, -, sc₁, hsend, hw⟩ := hw
      cases hw
      obtain ⟨-, hdr, rfl⟩ := sendResponseSock_cases hsend
      exact ⟨by simp [hbuf], rfl, by simp⟩
    | error =>
      cases hw
      exact ⟨by simp [hbuf], rfl, fun _ => Iff.rfl⟩
    | eagain =>
      obtain ⟨hv, s', rfl⟩ := acceptWritten_verdict hlen (Nat.zero_le _) hw
      refine ⟨?_, rfl, fun _ => Iff.rfl⟩
      by_cases h0 : len = 0
      · simpa [hbuf, h0] using hv
      · have hne : 0 ≠ len.toNat := by
          intro he
          exact h0 (UInt32.toNat_inj.mp he.symm)
        simpa [h0, hne] using hv
    | wrote n =>
      obtain ⟨hv, s', rfl⟩ := acceptWritten_verdict hlen (Nat.min_le_right _ _) hw
      refine ⟨?_, rfl, fun _ => Iff.rfl⟩
      by_cases hle : len.toNat ≤ n
      · have hmin : min n (iovTotal iov) = len.toNat := by omega
        simpa [hbuf, hle, hmin] using hv
      · have hmin : min n (iovTotal iov) = n := by omega
        have hne : n ≠ len.toNat := by omega
        simpa [hbuf, hle, hmin, hne] using hv

/-- A REQUEST for an unknown connection is answered whether or not it can be opened. -/
theorem opRequest_comes_iff : Comes idx (opRequest h sc idx hdr none) ↔ ¬ replyRingFull sc := by
  by_cases hself : hdr.dstCid = sc.guestCid
  · simp only [opRequest, if_pos hself]
    exact doRst_comes_iff
  · simp only [opRequest, if_neg hself]
    generalize hc : connectSock h.connect sc hdr.dstAddr hdr.srcAddr hdr.bufAlloc hdr.fwdCnt = r
    obtain ⟨o, sc₁⟩ := r
    have hfull := replyRingFull_congr (connectSock_frame hc).2
    cases o with
    | none =>
      rw [← hfull]
      exact doRst_comes_iff
    | some i =>
      have hsend : (∃ sc', sendResponseSock sc₁ virtioVsockOpResponse 0 i = .ok sc') ↔
          ¬ replyRingFull sc₁ := sendResponseCommon_ok_iff ⟨by decide, .inl rfl⟩
      rw [← hfull, ← hsend]
      exact (comes_bind sendResponseCommon_unreleased).trans
        (exists_congr fun _ => and_iff_left comes_ok)

/-- What the handlers need of the reply ring, the host and the payload. -/
structure Served (h : TxHost) (sc : PciVtsockSoftc) (hdr : VirtioSockHdr) (iov : List Iovec)
    (o : Option PciVtsockSock) : Prop where
  reply : Answered h hdr o → ¬ replyRingFull sc
  shutdown : ∀ s, o = some s → ShutsDown hdr s → h.shutdown ≠ .failed
  payload : ∀ s n, o = some s → Buffers h hdr s n →
    ¬ TrailingEmpty iov ∧ MappedFrom iov (hdr.len.toNat - n.toNat)

theorem served_some_iff : Served h sc hdr iov (some s) ↔
    (Answered h hdr (some s) → ¬ replyRingFull sc) ∧
    (ShutsDown hdr s → h.shutdown ≠ .failed) ∧
    ∀ n, Buffers h hdr s n → ¬ TrailingEmpty iov ∧ MappedFrom iov (hdr.len.toNat - n.toNat) := by
  constructor
  · intro hs
    exact ⟨hs.reply, hs.shutdown s rfl, fun n => hs.payload s n rfl⟩
  · rintro ⟨hreply, hshut, hpay⟩
    refine ⟨hreply, ?_, ?_⟩
    · rintro _ ⟨⟩
      exact hshut
    · rintro _ n ⟨⟩
      exact hpay n

theorem served_rw_iff (ho : hdr.op = virtioVsockOpRw) : Served h sc hdr iov (some s) ↔
    (¬ rwOpen s ∨ WriteRefused h.writev s hdr.len → ¬ replyRingFull sc) ∧
    (rwOpen s → (sockIsBuffering s = false → h.writev = .epipe → ¬ replyRingFull sc) ∧
      ∀ n, toBuffer h.writev s hdr.len = some n → ¬ noRoom s n →
        ¬ TrailingEmpty iov ∧ MappedFrom iov (hdr.len.toNat - n.toNat)) := by
  simp +decide only [served_some_iff, Answered, Refused, ShutsDown, Buffers, ho, true_and,
    false_and, false_or, or_false, false_implies]
  constructor
  · rintro ⟨hreply, hpay⟩
    refine ⟨fun hr => hreply (.inl hr), fun ho => ⟨?_, ?_⟩⟩
    · intro hbuf hep
      exact hreply (.inr ⟨ho, hbuf, hep⟩)
    · intro n htb hroom
      exact hpay n ⟨ho, htb, hroom⟩
  · rintro ⟨href, hopen⟩
    refine ⟨?_, fun n hn => (hopen hn.1).2 n hn.2.1 hn.2.2⟩
    rintro (hr | ⟨ho, hbuf, hep⟩)
    · exact href hr
    · exact (hopen ho).1 hbuf hep

theorem opRw_comes_iff (ho : hdr.op = virtioVsockOpRw) (hlen : hdr.len.toNat = iovTotal iov) :
    Comes idx (opRw h sc idx hdr iov (some i)) ↔ Served h sc hdr iov (some (sc.socks i)) := by
  rw [served_rw_iff ho]
  by_cases hopen : rwOpen (sc.socks i)
  · have hw : (∃ r, handleWrite h.now h.writev sc i hdr.len iov = .ok r) ↔ _ :=
      handleWrite_ok_iff hopen hlen
    simp only [opRw, hopen, Bool.not_true, Bool.false_eq_true, if_false, not_true_eq_false,
      false_or, true_implies, ← hw, comes_bind handleWrite_unreleased]
    constructor
    · rintro ⟨⟨v, sc₁⟩, hr, hrest⟩
      obtain ⟨hv, -, hsame⟩ := handleWrite_verdict hlen hr
      refine ⟨?_, ⟨v, sc₁⟩, hr⟩
      intro href
      obtain rfl := hv.mpr href
      rw [← hsame rfl]
      exact doRst_comes_iff.mp hrest
    · rintro ⟨href, ⟨v, sc₁⟩, hr⟩
      obtain ⟨hv, -, hsame⟩ := handleWrite_verdict hlen hr
      refine ⟨⟨v, sc₁⟩, hr, ?_⟩
      cases v with
      | credit | quiet => exact comes_ok
      | reject =>
        refine doRst_comes_iff.mpr ?_
        rw [hsame rfl]
        exact href (hv.mp rfl)
  · simp only [opRw, hopen, Bool.not_false, if_true, not_false_eq_true, true_or, true_implies,
      Bool.false_eq_true, false_implies, and_true]
    exact doRst_comes_iff

theorem served_shutdown_iff (ho : hdr.op = virtioVsockOpShutdown) : Served h sc hdr iov (some s) ↔
    (¬ ShutdownAccepted s hdr.flags → ¬ replyRingFull sc) ∧
    (ShutdownAccepted s hdr.flags → (callsShutdown s hdr.flags → h.shutdown ≠ .failed) ∧
      (hdr.flags ||| s.peerShutdown = shutdownAll → ¬ replyRingFull sc)) := by
  simp +decide only [served_some_iff, Answered, Refused, ShutsDown, Buffers, ho, true_and,
    false_and, false_or, or_false, false_implies, implies_true, and_true]
  constructor
  · rintro ⟨hreply, hshut⟩
    refine ⟨fun hno => hreply (.inl hno), fun hacc => ?_⟩
    exact ⟨fun hc => hshut ⟨hacc, hc⟩, fun hall => hreply (.inr ⟨hacc, hall⟩)⟩
  · rintro ⟨hno, hacc⟩
    refine ⟨?_, fun hc => (hacc hc.1).1 hc.2⟩
    rintro (hr | ⟨ha, hall⟩)
    · exact hno hr
    · exact (hacc ha).2 hall

theorem opShutdown_comes_iff (ho : hdr.op = virtioVsockOpShutdown) :
    Comes idx (opShutdown h sc idx hdr (some i)) ↔ Served h sc hdr iov (some (sc.socks i)) := by
  rw [served_shutdown_iff ho]
  by_cases hacc : ShutdownAccepted (sc.socks i) hdr.flags
  · have hshut : (∃ s, shutdownPeerLocalFd h.shutdown (sc.socks i) hdr.flags = .ok s) ↔ _ :=
      shutdownPeerLocalFd_ok_iff hacc.validMode
    simp only [opShutdown, if_neg (shutdownAccepted_iff.mp hacc),
      comes_bind shutdownPeerLocalFd_unreleased]
    constructor
    · rintro ⟨s, hs, hrest⟩
      refine ⟨fun hno => absurd hacc hno, fun _ => ⟨?_, ?_⟩⟩
      · intro hcalls hfail
        exact hshut.mp ⟨s, hs⟩ ⟨hcalls, hfail⟩
      · intro hall
        obtain ⟨l, rfl, -⟩ := shutdownPeerLocalFd_cases hs
        simp only [hall, if_true] at hrest
        have hroom := doRst_comes_iff.mp hrest
        exact hroom
    · rintro ⟨-, hok⟩
      obtain ⟨hfail, hroom⟩ := hok hacc
      obtain ⟨s, hs⟩ := hshut.mpr fun hboth => hfail hboth.1 hboth.2
      refine ⟨s, hs, ?_⟩
      obtain ⟨l, rfl, -⟩ := shutdownPeerLocalFd_cases hs
      by_cases hall : hdr.flags ||| (sc.socks i).peerShutdown = shutdownAll
      · simp only [hall, if_true]
        exact doRst_comes_iff.mpr (hroom hall)
      · simp only [if_neg hall]
        exact comes_ok
  · have hguard := not_not.mp (mt shutdownAccepted_iff.mpr hacc)
    simp only [opShutdown, if_pos hguard, hacc, not_false_eq_true, true_implies, false_implies,
      and_true]
    exact doRst_comes_iff

/-- The handler that the operation of a packet selects, and what it returns. -/
inductive Dispatched (h : TxHost) (sc : PciVtsockSoftc) (idx : UInt16) (hdr : VirtioSockHdr)
    (iov : List Iovec) (sock : Option SockId) (r : Except Fault PciVtsockSoftc) : Prop
  | invalid (ho : hdr.op = virtioVsockOpInvalid) (hr : doRst h sc idx hdr sock = r)
  | request (ho : hdr.op = virtioVsockOpRequest) (hr : opRequest h sc idx hdr sock = r)
  | response (ho : hdr.op = virtioVsockOpResponse) (hr : opResponse h sc idx hdr sock = r)
  | rst (ho : hdr.op = virtioVsockOpRst) (hr : opRst h sc idx sock = r)
  | shutdown (ho : hdr.op = virtioVsockOpShutdown) (hr : opShutdown h sc idx hdr sock = r)
  | rw (ho : hdr.op = virtioVsockOpRw) (hr : opRw h sc idx hdr iov sock = r)
  | creditUpdate (ho : hdr.op = virtioVsockOpCreditUpdate)
      (hr : opCreditUpdate h sc idx hdr sock = r)
  | creditRequest (ho : hdr.op = virtioVsockOpCreditRequest)
      (hr : opCreditRequest h sc idx hdr sock = r)
  | unknown (ho : ¬ hdr.op ≤ virtioVsockOpCreditRequest) (hr : .ok sc = r)

theorem procOp_dispatched : Dispatched h sc idx hdr iov sock (procOp h sc idx hdr iov sock) := by
  unfold procOp
  split_ifs with h₀ h₁ h₂ h₃ h₄ h₅ h₆ h₇
  · exact .invalid h₀ rfl
  · exact .request h₁ rfl
  · exact .response h₂ rfl
  · exact .rst h₃ rfl
  · exact .shutdown h₄ rfl
  · exact .rw h₅ rfl
  · exact .creditUpdate h₆ rfl
  · exact .creditRequest h₇ rfl
  · refine .unknown (fun hle => ?_) rfl
    simp only [virtioVsockOpInvalid, virtioVsockOpRequest, virtioVsockOpResponse, virtioVsockOpRst,
      virtioVsockOpShutdown, virtioVsockOpRw, virtioVsockOpCreditUpdate,
      virtioVsockOpCreditRequest] at *
    grind

theorem procOp_unknown (hop : ¬ hdr.op ≤ virtioVsockOpCreditRequest) :
    procOp h sc idx hdr iov sock = .ok sc := by
  cases procOp_dispatched with
  | unknown _ hr => exact hr.symm
  | _ ho => exact absurd (by rw [ho]; decide) hop

theorem served_none_iff : Served h sc hdr iov none ↔ (Answered h hdr none → ¬ replyRingFull sc) := by
  constructor
  · exact Served.reply
  · intro hreply
    exact ⟨hreply, by simp, by simp⟩

theorem procOp_none_comes_iff (hop : hdr.op ≤ virtioVsockOpCreditRequest) :
    Comes idx (procOp h sc idx hdr iov none) ↔ Served h sc hdr iov none := by
  rw [served_none_iff]
  cases procOp_dispatched with
  | invalid ho hr | response ho hr | shutdown ho hr | rw ho hr | creditUpdate ho hr
  | creditRequest ho hr =>
    have hans : Answered h hdr none := by
      rw [Answered, ho]
      decide
    rw [← hr, forall_prop_of_true hans]
    exact doRst_comes_iff
  | request ho hr =>
    rw [← hr]
    simpa +decide [Answered, ho] using opRequest_comes_iff
  | rst ho hr =>
    rw [← hr]
    exact iff_of_true comes_ok (by simp +decide [Answered, ho])
  | unknown ho => exact absurd hop ho

variable {P : Prop} {sc₁ : PciVtsockSoftc}

/-- A handler that turns a packet away in the wrong state and has nothing else to fail. -/
theorem stateGuard_comes_iff [Decidable P] :
    Comes idx (if P then doRst h sc idx hdr (some i) else .ok sc₁) ↔ (P → ¬ replyRingFull sc) := by
  by_cases hP : P
  · simpa [hP] using doRst_comes_iff
  · simpa [hP] using comes_ok

theorem opRst_comes_iff : Comes idx (opRst h sc idx (some i)) ↔
    (callsShutdown (sc.socks i) shutdownAll → h.shutdown ≠ .failed) := by
  have hclose : (∃ sc', closeSock h.shutdown sc (some i) = .ok sc') ↔ _ := closeSock_ok_iff
  simp only [Option.some.injEq, forall_eq'] at hclose
  rw [← hclose]
  exact (comes_bind closeSock_unreleased).trans (exists_congr fun _ => and_iff_left comes_ok)

/-- A packet that is only ever turned away needs a reply slot. -/
theorem served_refused_iff (hans : Answered h hdr (some s) ↔ P) (hshut : ¬ ShutsDown hdr s)
    (hbuf : ∀ n, ¬ Buffers h hdr s n) :
    Served h sc hdr iov (some s) ↔ (P → ¬ replyRingFull sc) := by
  rw [served_some_iff, hans]
  exact ⟨And.left, fun hall => ⟨hall, fun hs => absurd hs hshut, fun n hn => absurd hn (hbuf n)⟩⟩

theorem procOp_some_comes_iff (hop : hdr.op ≤ virtioVsockOpCreditRequest)
    (hlen : hdr.len.toNat = iovTotal iov) :
    Comes idx (procOp h sc idx hdr iov (some i)) ↔ Served h sc hdr iov (some (sc.socks i)) := by
  cases (procOp_dispatched : Dispatched h sc idx hdr iov (some i) _) with
  | invalid ho hr | request ho hr =>
    have hs : Served h sc hdr iov (some (sc.socks i)) ↔ (True → _) := served_refused_iff
      (by simp [Answered, Refused, ho]) (by simp +decide [ShutsDown, ho])
      (by simp +decide [Buffers, ho])
    rw [hs, ← hr, true_implies]
    exact doRst_comes_iff
  | response ho hr =>
    have hs : Served h sc hdr iov (some (sc.socks i)) ↔ ((sc.socks i).state ≠ .connecting → _) :=
      served_refused_iff (by simp +decide [Answered, Refused, ho])
        (by simp +decide [ShutsDown, ho]) (by simp +decide [Buffers, ho])
    rw [hs, ← hr]
    exact stateGuard_comes_iff
  | rst ho hr =>
    rw [← hr, opRst_comes_iff, served_some_iff]
    simp +decide [Answered, Refused, ShutsDown, Buffers, ho]
  | shutdown ho hr =>
    rw [← hr]
    exact opShutdown_comes_iff ho
  | rw ho hr =>
    rw [← hr]
    exact opRw_comes_iff ho hlen
  | creditUpdate ho hr | creditRequest ho hr =>
    have hs : Served h sc hdr iov (some (sc.socks i)) ↔ ((sc.socks i).state ≠ .connected → _) :=
      served_refused_iff (by simp +decide [Answered, Refused, ho])
        (by simp +decide [ShutsDown, ho]) (by simp +decide [Buffers, ho])
    rw [hs, ← hr]
    exact stateGuard_comes_iff
  | unknown ho => exact absurd hop ho

/-- A guarded handler releases the chain on both ways out. -/
theorem stateGuard_vqTx [Decidable P] (h₁ : sc₁.vqTx = vqRelchain sc.vqTx idx 0)
    (hr : (if P then doRst h sc idx hdr sock else .ok sc₁) = .ok sc') :
    sc'.vqTx = vqRelchain sc.vqTx idx 0 := by
  split at hr
  · exact doRst_vqTx hr
  · cases hr
    exact h₁

theorem opRequest_vqTx (hr : opRequest h sc idx hdr sock = .ok sc') :
    sc'.vqTx = vqRelchain sc.vqTx idx 0 := by
  cases sock with
  | some i => exact doRst_vqTx hr
  | none =>
    by_cases hself : hdr.dstCid = sc.guestCid
    · simp only [opRequest, if_pos hself] at hr
      exact doRst_vqTx hr
    · simp only [opRequest, if_neg hself] at hr
      generalize hc : connectSock h.connect sc hdr.dstAddr hdr.srcAddr hdr.bufAlloc hdr.fwdCnt = r
        at hr
      obtain ⟨o, sc₁⟩ := r
      rw [← (connectSock_frame hc).1]
      cases o with
      | none => exact doRst_vqTx hr
      | some i =>
        simp only [bind_eq_ok] at hr
        obtain ⟨sc₂, hsend, hr⟩ := hr
        cases hr
        obtain ⟨-, hdr', rfl⟩ := sendResponseSock_cases hsend
        rfl

theorem opShutdown_vqTx (hr : opShutdown h sc idx hdr sock = .ok sc') :
    sc'.vqTx = vqRelchain sc.vqTx idx 0 := by
  cases sock with
  | none => exact doRst_vqTx hr
  | some i =>
    simp only [opShutdown] at hr
    split at hr
    · exact doRst_vqTx hr
    · rw [bind_eq_ok] at hr
      obtain ⟨s, -, hr⟩ := hr
      split at hr
      · rw [doRst_vqTx hr, PciVtsockSoftc.setSock_vqTx]
      · cases hr
        rfl

theorem opRw_vqTx (hlen : hdr.len.toNat = iovTotal iov)
    (hr : opRw h sc idx hdr iov sock = .ok sc') : sc'.vqTx = vqRelchain sc.vqTx idx 0 := by
  cases sock with
  | none => exact doRst_vqTx hr
  | some i =>
    simp only [opRw] at hr
    split at hr
    · exact doRst_vqTx hr
    · rw [bind_eq_ok] at hr
      obtain ⟨⟨v, sc₁⟩, hw, hr⟩ := hr
      rw [← (handleWrite_verdict hlen hw).2.1]
      cases v with
      | reject => exact doRst_vqTx hr
      | credit =>
        cases hr
        simp
      | quiet =>
        cases hr
        rfl

/-- Every known operation that returns has released the chain once. -/
theorem procOp_vqTx (hop : hdr.op ≤ virtioVsockOpCreditRequest)
    (hlen : hdr.len.toNat = iovTotal iov) (hr : procOp h sc idx hdr iov sock = .ok sc') :
    sc'.vqTx = vqRelchain sc.vqTx idx 0 := by
  cases hr ▸ procOp_dispatched with
  | invalid _ hr => exact doRst_vqTx hr
  | request _ hr => exact opRequest_vqTx hr
  | response _ hr | creditUpdate _ hr =>
    cases sock with
    | none => exact doRst_vqTx hr
    | some i => exact stateGuard_vqTx rfl hr
  | rst _ hr =>
    obtain ⟨sc₁, hclose, hr⟩ := bind_eq_ok.mp hr
    cases hr
    rw [PciVtsockSoftc.relTx_vqTx, closeSock_vqTx hclose]
  | shutdown _ hr => exact opShutdown_vqTx hr
  | rw _ hr => exact opRw_vqTx hlen hr
  | creditRequest _ hr =>
    cases sock with
    | none => exact doRst_vqTx hr
    | some i => exact stateGuard_vqTx (by simp) hr
  | unknown ho => exact absurd hop ho

/-- What a packet needs to come back to the guest. -/
structure Releases (h : TxHost) (sc : PciVtsockSoftc) (hdr : VirtioSockHdr) (iov : List Iovec) :
    Prop where
  knownOp : addressed sc hdr → hdr.op ≤ virtioVsockOpCreditRequest
  badAddress : addressed sc hdr = false → ¬ replyRingFull sc
  served : addressed sc hdr → Served h sc hdr iov (found sc hdr)

/-- Refreshing the credit of the sock does not change what the handlers need. -/
theorem served_applyCredit :
    Served h (applyCredit sc hdr sock) hdr iov (sock.map (applyCredit sc hdr sock).socks) ↔
      Served h sc hdr iov (sock.map sc.socks) := by
  cases sock with
  | none => exact Iff.rfl
  | some i =>
    simp only [Option.map_some, applyCredit, PciVtsockSoftc.setSock_socks_self, served_some_iff]
    exact Iff.rfl

theorem applyCredit_vqTx : (applyCredit sc hdr sock).vqTx = sc.vqTx := by
  cases sock <;> rfl

theorem procOp_comes_iff (hop : hdr.op ≤ virtioVsockOpCreditRequest)
    (hlen : hdr.len.toNat = iovTotal iov) :
    Comes idx (procOp h sc idx hdr iov sock) ↔ Served h sc hdr iov (sock.map sc.socks) := by
  cases sock with
  | none => exact procOp_none_comes_iff hop
  | some i => exact procOp_some_comes_iff hop hlen

/-- A release shows in the used index. -/
theorem relchain_ne (vq : VqueueInfo) : vqRelchain vq idx 0 ≠ vq := by
  intro h
  have hidx := congrArg (fun q => q.vqUsed.vuIdx.toNat) h
  change (vq.vqUsed.vuIdx.toNat + 1) % 65536 = _ at hidx
  omega

/-- The chain with this head is handed back, once and with nothing else: the call returns with it
in the used ring, or dies in `do_rst` after it has put it there. -/
def HandsBack (vq : VqueueInfo) (idx : UInt16) (r : Except Fault PciVtsockSoftc) : Prop :=
  (∃ sc', r = .ok sc' ∧ sc'.vqTx = vqRelchain vq idx 0) ∨ r = .error (.abortReleased idx)

theorem procPacket_releases_iff (hlen : hdr.len.toNat = iovTotal iov) :
    HandsBack sc.vqTx idx (procPacket h sc idx hdr iov) ↔ Releases h sc hdr iov := by
  cases ha : addressed sc hdr with
  | false =>
    have hsend : (∃ sc', sendResponseNosock sc virtioVsockOpRst hdr.type hdr.dstAddr hdr.srcAddr =
        .ok sc') ↔ ¬ replyRingFull sc := sendResponseCommon_ok_iff rst_args
    have hcomes : Comes idx (procPacket h sc idx hdr iov) ↔ ¬ replyRingFull sc := by
      rw [← hsend]
      simp only [procPacket, ha, Bool.not_false, if_true]
      exact (comes_bind sendResponseCommon_unreleased).trans
        (exists_congr fun _ => and_iff_left comes_ok)
    constructor
    · intro hback
      have hroom := hcomes.mp (hback.imp_left fun ⟨sc', hr, _⟩ => ⟨sc', hr⟩)
      exact ⟨by simp [ha], fun _ => hroom, by simp [ha]⟩
    · intro hrel
      obtain ⟨sc₁, hs⟩ := hsend.mpr (hrel.badAddress ha)
      refine .inl ⟨sc₁.relTx idx 0, ?_, ?_⟩
      · simp only [procPacket, ha, Bool.not_false, if_true, hs]
        rfl
      · obtain ⟨-, hdr', rfl⟩ := sendResponseCommon_cases hs
        rfl
  | true =>
    simp only [procPacket, ha, Bool.not_true, Bool.false_eq_true, if_false]
    generalize hsock : lookupSock sc hdr.dstAddr hdr.srcAddr = sock
    have hfound : found sc hdr = sock.map sc.socks := by rw [found, hsock]
    by_cases hop : hdr.op ≤ virtioVsockOpCreditRequest
    · have hok : Comes idx (procOp h (applyCredit sc hdr sock) idx hdr iov sock) ↔ _ :=
        procOp_comes_iff hop hlen
      rw [served_applyCredit, ← hfound] at hok
      constructor
      · intro hback
        have hserved := hok.mp (hback.imp_left fun ⟨sc', hr, _⟩ => ⟨sc', hr⟩)
        exact ⟨fun _ => hop, by simp [ha], fun _ => hserved⟩
      · intro hrel
        refine (hok.mpr (hrel.served ha)).imp_left ?_
        rintro ⟨sc', hr⟩
        refine ⟨sc', hr, ?_⟩
        rw [procOp_vqTx hop hlen hr, applyCredit_vqTx]
    · refine iff_of_false ?_ fun hrel => hop (hrel.knownOp ha)
      rw [procOp_unknown hop]
      rintro (⟨sc', hr, hrel⟩ | hr)
      · cases hr
        rw [applyCredit_vqTx] at hrel
        exact absurd hrel.symm (relchain_ne _)
      · cases hr

/-- One call of `pci_vtsock_proc_tx` hands its chain back, once and under its own head,
exactly when the packet meets `Releases`. -/
theorem procTx_releases_iff {k : TxPacket} (hk : nextPacket sc = some k)
    (hlen : k.hdr.len.toNat = iovTotal k.iov) :
    HandsBack k.vq k.idx (pciVtsockProcTx h sc) ↔ Releases h sc k.hdr k.iov := by
  have hpacket : HandsBack k.vq k.idx (procPacket h { sc with vqTx := k.vq } k.idx k.hdr k.iov) ↔ _ :=
    procPacket_releases_iff hlen
  rw [procTx_of_nextPacket hk, hpacket]
  constructor
  all_goals
    rintro ⟨hop, hbad, hserved⟩
    exact ⟨hop, hbad, fun ha => ⟨(hserved ha).reply, (hserved ha).shutdown, (hserved ha).payload⟩⟩

/-- A fresh device whose transmit queue offers one packet that is only a header. -/
def offering (hdr : VirtioSockHdr) : PciVtsockSoftc :=
  { initSoftc 3 ⟨4096, 0⟩ [] false with
    mem := storeBytes (fun _ => 0) 0 hdr.toBytes
    vqTx := { initQueue with
      vqFlags := vqAlloc
      vqDesc := fun _ => ⟨0, 44, 0, 0⟩
      vqAvail := ⟨0, 1, fun _ => 0⟩ } }

/-- A packet from guest port 1024 to host port 80 with nothing but an operation. -/
def bareHdr (op : UInt16) : VirtioSockHdr := ⟨3, 2, 1024, 80, 0, virtioVsockTypeStream, op, 0, 0, 0⟩

/-- Host calls that all succeed. -/
def calmHost : TxHost := ⟨connectNine, .wrote 0, .ok, 0⟩

theorem procTx_releases_rst : ∃ k, nextPacket (offering (bareHdr virtioVsockOpRst)) = some k ∧
    HandsBack k.vq k.idx (pciVtsockProcTx calmHost (offering (bareHdr virtioVsockOpRst))) := by
  refine ⟨_, rfl, (procTx_releases_iff rfl rfl).mpr ⟨fun _ => by decide, fun ha => ?_, fun _ => ?_⟩⟩
  · exact absurd ha (by decide)
  · refine ⟨fun hans => absurd rfl hans.2, ?_, ?_⟩
    · rintro s ⟨⟩
    · rintro s n ⟨⟩

/-- Operation 8 falls out of the switch: the call returns and the chain is not handed back. -/
theorem unknown_op_keeps_chain : ∃ k, nextPacket (offering (bareHdr 8)) = some k ∧
    k.hdr.len.toNat = iovTotal k.iov ∧
    ¬ HandsBack k.vq k.idx (pciVtsockProcTx calmHost (offering (bareHdr 8))) := by
  refine ⟨_, rfl, rfl, ?_⟩
  rintro (⟨sc', hr, hrel⟩ | hr)
  · cases hr
    exact relchain_ne _ hrel.symm
  · cases hr

end HyperCog.Vsock
