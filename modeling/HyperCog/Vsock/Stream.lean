import HyperCog.Vsock.Threads

/-! The guest-to-host byte stream of one connection: direct writes, buffering and draining. -/
namespace HyperCog.Vsock

open Virtio Machine List

/-- The buffer indices of a sock between two calls. -/
def BufferOk (s : PciVtsockSock) : Prop :=
  s.writeBufHead ≤ s.writeBufTail ∧ s.writeBufTail.toNat ≤ 131072

/-- The sock after a payload of which `num` bytes went straight to the descriptor. -/
def absorb (s : PciVtsockSock) (bs : List UInt8) (num : ℕ) : PciVtsockSock :=
  { s with
    fwdCnt := s.fwdCnt + .ofNat num
    writeBuf := storeBytes s.writeBuf s.writeBufTail.toNat (bs.drop num)
    writeBufTail := s.writeBufTail + .ofNat (bs.length - num) }

/-- Everything handed to one host descriptor, in order. -/
def hostBytes (sc : PciVtsockSoftc) (fd : Int) : List UInt8 :=
  (sc.written.filter fun w => w.1 = fd).flatMap Prod.snd

variable {m : HostMem} {s s' : PciVtsockSock} {iov : List Iovec} {len : UInt32} {fits : Bool}
  {sc sc' : PciVtsockSoftc} {i : SockId} {num : ℕ} {v : WriteVerdict} {now : Int}
  {res : WriteResult} {rc : ShutdownResult} {bs : List UInt8}

theorem writeBufLength_toNat : writeBufLength.toNat = 131072 := rfl

theorem hostBytes_logWrite (fd : Int) (bs : List UInt8) :
    hostBytes (sc.logWrite fd bs) fd = hostBytes sc fd ++ bs := by
  simp [hostBytes, PciVtsockSoftc.logWrite]

theorem hostBytes_congr (h : sc'.written = sc.written) (fd : Int) :
    hostBytes sc' fd = hostBytes sc fd := by
  simp [hostBytes, h]

@[simp] theorem hostBytes_setSock (fd : Int) : hostBytes (sc.setSock i s) fd = hostBytes sc fd := rfl

theorem toNat_room (h : s.writeBufTail.toNat ≤ 131072) :
    (writeBufLength - s.writeBufTail).toNat = 131072 - s.writeBufTail.toNat := by
  rw [UInt32.toNat_sub, writeBufLength_toNat]
  omega

/-- `buffer_write` refuses only what would not fit, and otherwise appends the whole payload. -/
theorem bufferWrite_cases (htail : s.writeBufTail.toNat ≤ 131072) (hm : Mapped iov)
    (hlen : len.toNat = iovTotal iov) (h : bufferWrite m s len iov = .ok (fits, s')) :
    (fits = false ∧ 131072 < s.writeBufTail.toNat + len.toNat) ∨
    (fits = true ∧ s.writeBufTail.toNat + len.toNat ≤ 131072 ∧ s' = { s with
        writeBuf := storeBytes s.writeBuf s.writeBufTail.toNat (iovBytes m iov)
        writeBufTail := s.writeBufTail + len }) := by
  rcases bufferWrite_eq_ok h with ⟨rfl, hfull, -⟩ | ⟨rfl, hroom, p, hp, -, -, rfl⟩
  · rw [UInt32.lt_iff_toNat_lt, toNat_room htail] at hfull
    exact .inl ⟨rfl, by omega⟩
  · rw [UInt32.lt_iff_toNat_lt, toNat_room htail] at hroom
    obtain ⟨q, hq, -, hdata, -⟩ := iovecPull_spec true hm len.toNat
    obtain rfl : p = q := Except.ok.inj (hp.symm.trans hq)
    have hall : p.data = iovBytes m iov := by
      rw [hdata, if_pos rfl, take_of_length_le]
      rw [length_iovBytes hm, hlen]
    exact .inr ⟨rfl, by omega, by rw [hall]⟩

/-- The direct path of `handle_write` keeps what was written and buffers what was not. -/
theorem acceptWritten_cases (htail : (sc.socks i).writeBufTail = 0) (hm : Mapped iov)
    (hlen : len.toNat = iovTotal iov) (hnum : num ≤ iovTotal iov)
    (h : acceptWritten sc i len iov num = .ok (v, sc')) :
    (v = .reject ∧ 131072 < iovTotal iov - num) ∨
    (v ≠ .reject ∧ iovTotal iov - num ≤ 131072 ∧
      sc' = sc.setSock i (absorb (sc.socks i) (iovBytes sc.mem iov) num)) := by
  have hlb := length_iovBytes (m := sc.mem) hm
  unfold acceptWritten at h
  by_cases hfull : num = len.toNat
  · rw [if_pos hfull] at h
    cases h
    have hdrop : (iovBytes sc.mem iov).drop num = [] := drop_of_length_le (by omega)
    refine .inr ⟨by decide, by omega, ?_⟩
    simp [absorb, hdrop, hlb, htail, show iovTotal iov - num = 0 by omega]
  · obtain ⟨p, hp, hres, -, hbytes, hmap⟩ := iovecPull_spec false hm num
    obtain ⟨-, htot⟩ := iovTotal_pull hp
    have hlt := UInt32.toNat_lt len
    have hrest : (len - UInt32.ofNat num).toNat = iovTotal iov - num := by
      rw [UInt32.toNat_sub, UInt32.toNat_ofNat']
      omega
    rw [if_neg hfull, bind_eq_ok] at h
    obtain ⟨q, hq, h⟩ := h
    rw [hp] at hq
    cases hq
    rw [if_neg (by omega), bufferRest, bind_eq_ok] at h
    obtain ⟨⟨fits, s₂⟩, hw, h⟩ := h
    cases h
    rcases bufferWrite_cases (by simp [htail]) hmap (by rw [hrest, htot]) hw with
      ⟨rfl, hbig⟩ | ⟨rfl, hfit, rfl⟩
    · simp only [htail, hrest, UInt32.toNat_zero] at hbig
      exact .inl ⟨rfl, by omega⟩
    · refine .inr ⟨by decide, by omega, ?_⟩
      have hword : len - UInt32.ofNat num = UInt32.ofNat (iovTotal iov - num) := by
        apply UInt32.toNat_inj.mp
        rw [UInt32.toNat_ofNat']
        omega
      simp [absorb, hbytes, hlb, hword]

theorem rwOpen_iff : rwOpen s ↔ s.state = .connected ∧ s.peerShutdown &&& shutdownTx = 0 ∧
    s.localShutdown &&& shutdownRx = 0 := by
  simp [rwOpen, and_assoc]

theorem length_buffered (s : PciVtsockSock) :
    (buffered s).length = s.writeBufTail.toNat - s.writeBufHead.toNat := by
  simp [buffered]

/-- A host that receives nothing more closes the direction. -/
theorem not_rwOpen_of_shutdown (hopen : rwOpen s) (h : shutdownLocalSock now s shutdownRx = .ok s') :
    ¬ rwOpen s' := by
  obtain ⟨hst, -, -⟩ := rwOpen_iff.mp hopen
  rcases shutdownLocalSock_cases h with ⟨hne, -⟩ | ⟨-, -, head, tail, deadline, rfl⟩
  · exact absurd hst hne
  · intro hopen'
    obtain ⟨-, -, hrx⟩ := rwOpen_iff.mp hopen'
    exact Flags.or_and_ne_zero_left (by decide) hrx

/-- What `handle_write` does to an open sock: refuse the payload, close the
direction, or take the payload whole. -/
theorem handleWrite_cases (hopen : rwOpen (sc.socks i)) (hb : BufferOk (sc.socks i))
    (hm : Mapped iov) (hlen : len.toNat = iovTotal iov)
    (h : handleWrite now res sc i len iov = .ok (v, sc')) :
    (v = .reject ∧ ((sockIsBuffering (sc.socks i) = false ∧ res = .error) ∨
      131072 < (sc.socks i).writeBufTail.toNat + len.toNat)) ∨
    (v = .quiet ∧ ¬ rwOpen (sc'.socks i)) ∨
    (v ≠ .reject ∧ ∃ num, num ≤ iovTotal iov ∧ ((sc.socks i).writeBufTail = 0 ∨ num = 0) ∧
      (sc.socks i).writeBufTail.toNat + (iovTotal iov - num) ≤ 131072 ∧
      sc'.socks i = absorb (sc.socks i) (iovBytes sc.mem iov) num ∧
      hostBytes sc' (sc.socks i).fd =
        hostBytes sc (sc.socks i).fd ++ (iovBytes sc.mem iov).take num) := by
  have hlb := length_iovBytes (m := sc.mem) hm
  unfold handleWrite at h
  cases hbuf : sockIsBuffering (sc.socks i) with
  | true =>
    rw [if_pos hbuf, bufferRest, bind_eq_ok] at h
    obtain ⟨⟨fits, s₂⟩, hw, h⟩ := h
    cases h
    rcases bufferWrite_cases hb.2 hm hlen hw with ⟨rfl, hbig⟩ | ⟨rfl, hfit, rfl⟩
    · exact .inl ⟨rfl, .inr hbig⟩
    · refine .inr (.inr ⟨by decide, 0, Nat.zero_le _, .inr rfl, by omega, ?_, ?_⟩)
      · have hword : len = UInt32.ofNat (iovTotal iov) := by
          rw [← hlen, UInt32.ofNat_toNat]
        simp [absorb, hlb, ← hword]
      · simp
  | false =>
    have htail : (sc.socks i).writeBufTail = 0 := by simpa [sockIsBuffering] using hbuf
    rw [if_neg (by simp [hbuf])] at h
    cases res with
    | epipe =>
      simp only [bind_eq_ok] at h
      obtain ⟨s₂, hs₂, sc₂, hsend, h⟩ := h
      cases h
      obtain ⟨-, hdr, rfl⟩ := sendResponseSock_cases hsend
      refine .inr (.inl ⟨rfl, ?_⟩)
      simpa [queueReply] using not_rwOpen_of_shutdown hopen hs₂
    | eagain =>
      rcases acceptWritten_cases htail hm hlen (Nat.zero_le _) h with ⟨rfl, hbig⟩ | ⟨hv, hfit, rfl⟩
      · exact .inl ⟨rfl, .inr (by omega)⟩
      · refine .inr (.inr ⟨hv, 0, Nat.zero_le _, .inr rfl, by simpa [htail] using hfit, by simp, ?_⟩)
        simp
    | error =>
      cases h
      exact .inl ⟨rfl, .inl ⟨rfl, rfl⟩⟩
    | wrote n =>
      have htail' : ((sc.logWrite (sc.socks i).fd
          ((iovBytes sc.mem iov).take (min n (iovTotal iov)))).socks i).writeBufTail = 0 := htail
      rcases acceptWritten_cases htail' hm hlen (Nat.min_le_right _ _) h with
        ⟨rfl, hbig⟩ | ⟨hv, hfit, rfl⟩
      · exact .inl ⟨rfl, .inr (by omega)⟩
      · refine .inr (.inr ⟨hv, min n (iovTotal iov), Nat.min_le_right _ _, .inl htail,
          by simpa [htail] using hfit, by simp, ?_⟩)
        rw [hostBytes_setSock, hostBytes_logWrite]

/-- What `buffer_drain` does to an open sock: close it, or hand the descriptor the
next buffered bytes, resetting the buffer after the last. -/
theorem bufferDrain_cases (hopen : rwOpen (sc.socks i)) (h : bufferDrain now res rc sc i = .ok sc') :
    ¬ rwOpen (sc'.socks i) ∨
    ∃ nr, hostBytes sc' (sc.socks i).fd =
        hostBytes sc (sc.socks i).fd ++ (buffered (sc.socks i)).take nr ∧
      ((nr < (buffered (sc.socks i)).length ∧ sc'.socks i =
          { sc.socks i with writeBufHead := (sc.socks i).writeBufHead + .ofNat nr }) ∨
        (nr = (buffered (sc.socks i)).length ∧ sc'.socks i = { sc.socks i with
            fwdCnt := (sc.socks i).fwdCnt + (sc.socks i).writeBufTail
            writeBufHead := 0
            writeBufTail := 0
            creditUpdateRequired := true })) := by
  obtain ⟨-, hpeer, -⟩ := rwOpen_iff.mp hopen
  have hlb := length_buffered (sc.socks i)
  simp only [bufferDrain] at h
  by_cases hidle : (!sockIsBuffering (sc.socks i) ||
      decide ((sc.socks i).writeBufTail ≤ (sc.socks i).writeBufHead)) = true
  · rw [if_pos hidle] at h
    cases h
  · rw [if_neg hidle] at h
    simp only [Bool.or_eq_true, Bool.not_eq_true', decide_eq_true_eq, not_or,
      Bool.not_eq_false, UInt32.not_le, UInt32.lt_iff_toNat_lt] at hidle
    cases res with
    | epipe =>
      simp only [bind_eq_ok] at h
      obtain ⟨s₂, hs₂, hsend⟩ := h
      obtain ⟨-, hdr, rfl⟩ := sendResponseSock_cases hsend
      left
      simpa [queueReply] using not_rwOpen_of_shutdown hopen hs₂
    | eagain =>
      cases h
      exact .inr ⟨0, by simp, .inl ⟨by omega, by simp⟩⟩
    | error =>
      simp only [bind_eq_ok] at h
      obtain ⟨sc₂, -, hclose⟩ := h
      obtain ⟨l, rfl⟩ := closeSock_cases hclose
      left
      simp [rwOpen]
    | wrote n =>
      have htail := UInt32.toNat_lt (sc.socks i).writeBufTail
      have hsub : ((sc.socks i).writeBufTail - (sc.socks i).writeBufHead).toNat =
          (buffered (sc.socks i)).length := by
        rw [UInt32.toNat_sub]
        omega
      simp only [hsub, hpeer, ne_eq, not_true_eq_false, false_and, if_false] at h
      right
      generalize hnr : min n (buffered (sc.socks i)).length = nr at h
      have hhead : ((sc.socks i).writeBufHead + UInt32.ofNat nr).toNat =
          (sc.socks i).writeBufHead.toNat + nr := by
        rw [UInt32.toNat_add, UInt32.toNat_ofNat']
        omega
      split_ifs at h with hpart
      · rw [UInt32.lt_iff_toNat_lt] at hpart
        cases h
        refine ⟨nr, by rw [hostBytes_setSock, hostBytes_logWrite], .inl ⟨by omega, by simp⟩⟩
      · rw [UInt32.lt_iff_toNat_lt] at hpart
        have hall : (sc.socks i).writeBufHead + UInt32.ofNat nr = (sc.socks i).writeBufTail := by
          apply UInt32.toNat_inj.mp
          omega
        cases h
        refine ⟨nr, ?_, .inr ⟨by omega, by simp [hall]⟩⟩
        rw [hostBytes_congr (setCreditUpdateRequired_written _ _), hostBytes_setSock,
          hostBytes_logWrite]

/-- The pending bytes grow by what was not written directly, wherever the head is. -/
theorem buffered_absorb (hb : BufferOk s) (hfit : s.writeBufTail.toNat + (bs.length - num) ≤ 131072) :
    buffered (absorb s bs num) = buffered s ++ bs.drop num := by
  obtain ⟨hle, -⟩ := hb
  rw [UInt32.le_iff_toNat_le] at hle
  have htail : (s.writeBufTail + UInt32.ofNat (bs.length - num)).toNat =
      s.writeBufTail.toNat + (bs.drop num).length := by
    rw [UInt32.toNat_add, UInt32.toNat_ofNat', length_drop]
    omega
  have hsplit : s.writeBufTail.toNat + (bs.drop num).length - s.writeBufHead.toNat =
      (s.writeBufTail.toNat - s.writeBufHead.toNat) + (bs.drop num).length := by omega
  have hmid : s.writeBufHead.toNat + (s.writeBufTail.toNat - s.writeBufHead.toNat) =
      s.writeBufTail.toNat := by omega
  simp only [buffered, absorb, htail, hsplit]
  rw [bytesAt_add, hmid, bytesAt_storeBytes_self, bytesAt_storeBytes_before _ _ (by omega)]

theorem bufferOk_absorb (hb : BufferOk s)
    (hfit : s.writeBufTail.toNat + (bs.length - num) ≤ 131072) : BufferOk (absorb s bs num) := by
  obtain ⟨hle, -⟩ := hb
  rw [UInt32.le_iff_toNat_le] at hle
  simp only [BufferOk, absorb, UInt32.le_iff_toNat_le, UInt32.toNat_add, UInt32.toNat_ofNat']
  omega

/-- Moving the head drops the bytes that went out. -/
theorem buffered_advance (hb : BufferOk s) (hnum : num < (buffered s).length) :
    buffered { s with writeBufHead := s.writeBufHead + .ofNat num } = (buffered s).drop num ∧
      BufferOk { s with writeBufHead := s.writeBufHead + .ofNat num } := by
  obtain ⟨hle, htail⟩ := hb
  rw [length_buffered] at hnum
  have hhead : (s.writeBufHead + UInt32.ofNat num).toNat = s.writeBufHead.toNat + num := by
    rw [UInt32.toNat_add, UInt32.toNat_ofNat']
    omega
  have hsplit : s.writeBufTail.toNat - s.writeBufHead.toNat =
      num + (s.writeBufTail.toNat - (s.writeBufHead.toNat + num)) := by omega
  constructor
  · simp only [buffered, hhead]
    rw [hsplit, bytesAt_add, drop_left' (length_bytesAt _ _ _)]
  · simp only [BufferOk, UInt32.le_iff_toNat_le, hhead]
    omega

/-- The device and the payloads accepted so far on the sock under observation. -/
structure Stream where
  sc : PciVtsockSoftc
  accepted : List UInt8

inductive StreamAction
  | rw (mem : HostMem) (segs : List (ℕ × ℕ)) (len : UInt32) (res : WriteResult)
  | drain (res : WriteResult)

inductive StreamStop
  | fault (f : Fault)
  /-- the sock was reset, or one direction of it was shut down -/
  | closed
  /-- nothing to take -/
  | idle
  deriving DecidableEq, Repr

/-- A payload as segments of guest RAM: host address and length. -/
def segIov (segs : List (ℕ × ℕ)) : List Iovec := segs.map fun seg => ⟨some seg.1, seg.2⟩

/-- One OP_RW packet, or one drain by the transmit thread, on a sock that stays open. -/
def streamStep (i : SockId) (s : Stream) : StreamAction → Except StreamStop Stream
  | .rw mem segs len res =>
    match handleWrite 0 res { s.sc with mem } i len (segIov segs) with
    | .error f => .error (.fault f)
    | .ok (.reject, _) => .error .closed
    | .ok (_, sc) =>
      if rwOpen (sc.socks i) then
        .ok { sc, accepted := s.accepted ++ iovBytes mem (segIov segs) }
      else .error .closed
  | .drain res =>
    match bufferDrain 0 res .ok s.sc i with
    | .error f => .error (.fault f)
    | .ok sc => if rwOpen (sc.socks i) then .ok { s with sc } else .error .closed

/-- Every packet carries exactly the payload its header announces. -/
def PayloadAgrees (_ : Stream) : StreamAction → Prop
  | .rw _ segs len _ => len.toNat = iovTotal (segIov segs)
  | .drain _ => True

/-- How many bytes the guest may be told are forwarded, without the modulus. -/
def forwarded (i : SockId) (s : Stream) : ℕ :=
  s.accepted.length - (s.sc.socks i).writeBufTail.toNat

/-- No byte is lost, duplicated or reordered, and the two counters add up. -/
structure InOrder (i : SockId) (fd : Int) (base : List UInt8) (s : Stream) : Prop where
  isOpen : rwOpen (s.sc.socks i)
  sockFd : (s.sc.socks i).fd = fd
  buffer : BufferOk (s.sc.socks i)
  bytes : hostBytes s.sc fd ++ buffered (s.sc.socks i) = base ++ s.accepted
  tailLe : (s.sc.socks i).writeBufTail.toNat ≤ s.accepted.length
  count : (s.sc.socks i).fwdCnt = .ofNat (forwarded i s)

/-- A sock as it stands when its connection is opened. -/
structure Opened (s : PciVtsockSock) : Prop where
  isOpen : rwOpen s
  noneForwarded : s.fwdCnt = 0
  headZero : s.writeBufHead = 0
  tailZero : s.writeBufTail = 0
  alloc : s.bufAlloc.toNat ≤ 131072

theorem opened_connectSock {h : ConnectHost} {localAddr peerAddr : VsockAddr}
    {peerBufAlloc peerFwdCnt : UInt32}
    (he : connectSock h sc localAddr peerAddr peerBufAlloc peerFwdCnt = (some i, sc')) :
    Opened (sc'.socks i) := by
  rcases connectSock_cases he with ⟨-, ho, -⟩ | ⟨j, rest, -, ⟨ho, -⟩ |
    ⟨-, alloc, hle, ⟨-, ho, -⟩ | ⟨-, ho, rfl⟩⟩⟩
  all_goals cases ho
  constructor <;> simp_all [bound, boundSock, resetSock, rwOpen, writeBufLength_toNat]

theorem mapped_segIov (segs : List (ℕ × ℕ)) : Mapped (segIov segs) := by
  intro v hv
  obtain ⟨seg, -, rfl⟩ := mem_map.mp hv
  exact .inr rfl

theorem buffered_of_tail_zero (h : s.writeBufTail = 0) : buffered s = [] := by
  simp [buffered, h, bytesAt]

variable {fd : Int} {base : List UInt8} {t u : Stream} {a : StreamAction}

theorem inOrder_opened (h : Opened (sc.socks i)) :
    InOrder i (sc.socks i).fd (hostBytes sc (sc.socks i).fd) ⟨sc, []⟩ := by
  refine ⟨h.isOpen, rfl, by simp [BufferOk, h.headZero, h.tailZero], ?_, ?_, ?_⟩
  · simp [buffered_of_tail_zero h.tailZero]
  · simp [h.tailZero]
  · simp [forwarded, h.noneForwarded]

variable {mem : HostMem} {segs : List (ℕ × ℕ)}

/-- An accepted packet is absorbed whole. -/
theorem streamStep_rw (hopen : rwOpen (t.sc.socks i)) (hb : BufferOk (t.sc.socks i))
    (hlen : len.toNat = iovTotal (segIov segs)) (h : streamStep i t (.rw mem segs len res) = .ok u) :
    rwOpen (u.sc.socks i) ∧ u.accepted = t.accepted ++ iovBytes mem (segIov segs) ∧
      ∃ num, num ≤ (iovBytes mem (segIov segs)).length ∧ ((t.sc.socks i).writeBufTail = 0 ∨ num = 0) ∧
        (t.sc.socks i).writeBufTail.toNat + ((iovBytes mem (segIov segs)).length - num) ≤ 131072 ∧
        u.sc.socks i = absorb (t.sc.socks i) (iovBytes mem (segIov segs)) num ∧
        hostBytes u.sc (t.sc.socks i).fd =
          hostBytes t.sc (t.sc.socks i).fd ++ (iovBytes mem (segIov segs)).take num := by
  have hmap := mapped_segIov segs
  have hopen₀ : rwOpen ({ t.sc with mem }.socks i) := hopen
  rw [length_iovBytes hmap]
  simp only [streamStep] at h
  split at h
  · cases h
  · cases h
  · rename_i v sc' hv hw
    split_ifs at h with hopen'
    cases h
    rcases handleWrite_cases hopen₀ hb hmap hlen hw with
      ⟨rfl, -⟩ | ⟨-, hclosed⟩ | ⟨-, num, hnum, hidle, hfit, hsock, hhost⟩
    · exact absurd rfl hv
    · exact absurd hopen' hclosed
    · exact ⟨hopen', rfl, num, hnum, hidle, hfit, hsock, hhost⟩

/-- A drain that leaves the sock open moves the head, or empties the buffer. -/
theorem streamStep_drain (hopen : rwOpen (t.sc.socks i)) (h : streamStep i t (.drain res) = .ok u) :
    rwOpen (u.sc.socks i) ∧ u.accepted = t.accepted ∧ ∃ nr, hostBytes u.sc (t.sc.socks i).fd =
          hostBytes t.sc (t.sc.socks i).fd ++ (buffered (t.sc.socks i)).take nr ∧
        ((nr < (buffered (t.sc.socks i)).length ∧ u.sc.socks i =
            { t.sc.socks i with writeBufHead := (t.sc.socks i).writeBufHead + .ofNat nr }) ∨
          (nr = (buffered (t.sc.socks i)).length ∧ u.sc.socks i = { t.sc.socks i with
              fwdCnt := (t.sc.socks i).fwdCnt + (t.sc.socks i).writeBufTail
              writeBufHead := 0
              writeBufTail := 0
              creditUpdateRequired := true })) := by
  simp only [streamStep] at h
  split at h
  · cases h
  · rename_i sc' hd
    split_ifs at h with hopen'
    cases h
    rcases bufferDrain_cases hopen hd with hclosed | hdrained
    · exact absurd hopen' hclosed
    · exact ⟨hopen', rfl, hdrained⟩

/-- One accepted packet extends the stream by its payload. -/
theorem inOrder_rw (ht : InOrder i fd base t) (hlen : len.toNat = iovTotal (segIov segs))
    (h : streamStep i t (.rw mem segs len res) = .ok u) :
    InOrder i fd base u ∧ forwarded i t ≤ forwarded i u := by
  obtain ⟨hopen, hacc, num, hnum, hidle, hfit, hsock, hhost⟩ :=
    streamStep_rw ht.isOpen ht.buffer hlen h
  have htailLe := ht.tailLe
  have htail : (u.sc.socks i).writeBufTail.toNat =
      (t.sc.socks i).writeBufTail.toNat + ((iovBytes mem (segIov segs)).length - num) := by
    rw [hsock, absorb, UInt32.toNat_add, UInt32.toNat_ofNat']
    omega
  have hfwd : forwarded i u = forwarded i t + num := by
    simp only [forwarded, hacc, htail, length_append]
    omega
  refine ⟨⟨hopen, ?_, ?_, ?_, ?_, ?_⟩, by omega⟩
  · rw [hsock]
    exact ht.sockFd
  · rw [hsock]
    exact bufferOk_absorb ht.buffer hfit
  · rw [hsock, buffered_absorb ht.buffer hfit, ← ht.sockFd, hhost, ht.sockFd, hacc]
    rcases hidle with hempty | rfl
    · have hbytes := ht.bytes
      rw [buffered_of_tail_zero hempty, append_nil] at hbytes
      rw [buffered_of_tail_zero hempty, hbytes]
      simp
    · rw [← append_assoc base, ← ht.bytes]
      simp
  · rw [hacc, length_append]
    omega
  · rw [hfwd, UInt32.ofNat_add, ← ht.count, hsock]
    rfl

/-- A drain moves bytes from the buffer to the descriptor and counts them once it is empty. -/
theorem inOrder_drain (ht : InOrder i fd base t) (h : streamStep i t (.drain res) = .ok u) :
    InOrder i fd base u ∧ forwarded i t ≤ forwarded i u := by
  obtain ⟨hopen, hacc, nr, hhost, hsock⟩ := streamStep_drain ht.isOpen h
  rw [ht.sockFd] at hhost
  have htailLe := ht.tailLe
  have hsplit := take_append_drop nr (buffered (t.sc.socks i))
  rcases hsock with ⟨hpart, hsock⟩ | ⟨hall, hsock⟩
  · obtain ⟨hdrop, hbuf⟩ := buffered_advance ht.buffer hpart
    have hfwd : forwarded i u = forwarded i t := by
      simp only [forwarded, hacc, hsock]
    refine ⟨⟨hopen, ?_, ?_, ?_, ?_, ?_⟩, by omega⟩
    · rw [hsock]
      exact ht.sockFd
    · rw [hsock]
      exact hbuf
    · rw [hsock, hdrop, hhost, append_assoc, hsplit, hacc]
      exact ht.bytes
    · rw [hsock, hacc]
      exact htailLe
    · rw [hfwd, hsock]
      exact ht.count
  · have htail : (u.sc.socks i).writeBufTail = 0 := by rw [hsock]
    have hfwd : forwarded i u = forwarded i t + (t.sc.socks i).writeBufTail.toNat := by
      simp only [forwarded, hacc, htail, UInt32.toNat_zero]
      omega
    refine ⟨⟨hopen, ?_, ?_, ?_, ?_, ?_⟩, by omega⟩
    · rw [hsock]
      exact ht.sockFd
    · rw [hsock]
      simp [BufferOk]
    · rw [buffered_of_tail_zero htail, hhost, hall, take_length, append_nil, hacc]
      exact ht.bytes
    · simp [htail]
    · rw [hfwd, UInt32.ofNat_add, ← ht.count, hsock, UInt32.ofNat_toNat]

theorem inOrder_step (hc : PayloadAgrees t a) (h : streamStep i t a = .ok u)
    (ht : InOrder i fd base t) : InOrder i fd base u := by
  cases a with
  | rw mem segs len res => exact (inOrder_rw ht hc h).1
  | drain res => exact (inOrder_drain ht h).1

/-- The two counters account for everything accepted. -/
theorem InOrder.total (ht : InOrder i fd base t) :
    (t.sc.socks i).fwdCnt + (t.sc.socks i).writeBufTail = .ofNat t.accepted.length := by
  have hsum : forwarded i t + (t.sc.socks i).writeBufTail.toNat = t.accepted.length := by
    have := ht.tailLe
    simp only [forwarded]
    omega
  rw [← hsum, UInt32.ofNat_add, ← ht.count, UInt32.ofNat_toNat]

/-- Along every run of an open connection, what the host descriptor received followed
by what is still buffered is exactly what was accepted, in order. -/
theorem stream_in_order {as : List StreamAction} (hopen : Opened (sc.socks i))
    (h : Run (streamStep i) PayloadAgrees ⟨sc, []⟩ as t) :
    hostBytes t.sc (sc.socks i).fd ++ buffered (t.sc.socks i) =
        hostBytes sc (sc.socks i).fd ++ t.accepted ∧
      (t.sc.socks i).fwdCnt + (t.sc.socks i).writeBufTail = .ofNat t.accepted.length := by
  have hinv := h.invariant (fun _ _ _ hc hs hi => inOrder_step hc hs hi) (inOrder_opened hopen)
  exact ⟨hinv.bytes, hinv.total⟩

/-- The host calls of a connection that opens over descriptor 9. -/
def connectNine : ConnectHost := ⟨true, 9, true, true, ⟨true, true, some 131072⟩⟩

/-- A device with one connection, requested by the guest. -/
def oneConnection : PciVtsockSoftc :=
  (connectSock connectNine (initSoftc 3 ⟨4096, 0⟩ [] false) ⟨2, 80⟩ ⟨3, 1024⟩ 4096 0).2

theorem oneConnection_opened : Opened (oneConnection.socks 1023) := by
  have h : connectSock connectNine (initSoftc 3 ⟨4096, 0⟩ [] false) ⟨2, 80⟩ ⟨3, 1024⟩ 4096 0 =
      (some 1023, oneConnection) := rfl
  exact opened_connectSock h

/-- Three bytes, of which one is written at once and two are buffered and drained. -/
theorem oneConnection_run : ∃ t, Run (streamStep 1023) PayloadAgrees ⟨oneConnection, []⟩
    [.rw (fun x => .ofNat x) [(7, 2), (40, 1)] 3 (.wrote 1), .drain (.wrote 2)] t :=
  ⟨_, .stepL rfl rfl (.stepL trivial rfl .refl)⟩

theorem stream_in_order_split_payload : ∃ t, Run (streamStep 1023) PayloadAgrees ⟨oneConnection, []⟩
        [.rw (fun x => .ofNat x) [(7, 2), (40, 1)] 3 (.wrote 1), .drain (.wrote 2)] t ∧
      hostBytes t.sc (oneConnection.socks 1023).fd ++ buffered (t.sc.socks 1023) =
        hostBytes oneConnection (oneConnection.socks 1023).fd ++ t.accepted ∧
      (t.sc.socks 1023).fwdCnt + (t.sc.socks 1023).writeBufTail = .ofNat t.accepted.length := by
  obtain ⟨t, h⟩ := oneConnection_run
  exact ⟨t, h, stream_in_order oneConnection_opened h⟩

end HyperCog.Vsock
