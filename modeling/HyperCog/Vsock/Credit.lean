import HyperCog.Vsock.Stream

/-! Credit in both directions: the guest never overruns the buffer, the host its peer's. -/
namespace HyperCog.Vsock

open Virtio List

/-- The credit fields of a header on its way to the guest. -/
structure Advert where
  bufAlloc : UInt32
  fwdCnt : UInt32
  deriving DecidableEq, Repr

structure Packet where
  mem : HostMem
  segs : List (ℕ × ℕ)
  len : UInt32

/-- One connection with everything in transit between the guest and the device. -/
structure Link where
  stream : Stream
  /-- payload bytes the guest has sent -/
  sent : ℕ
  flight : List Packet
  adverts : List Advert
  /-- the last credit the guest was told -/
  told : Advert

inductive LinkAction
  | send (p : Packet)
  | deliver (res : WriteResult)
  | drain (res : WriteResult)
  | advertise
  | learn

/-- Packets and headers travel in order and with any delay. -/
def linkStep (i : SockId) (s : Link) : LinkAction → Except StreamStop Link
  | .send p => .ok { s with sent := s.sent + p.len.toNat, flight := s.flight ++ [p] }
  | .deliver res =>
    match s.flight with
    | [] => .error .idle
    | p :: flight =>
      match streamStep i s.stream (.rw p.mem p.segs p.len res) with
      | .error e => .error e
      | .ok stream => .ok { s with stream, flight }
  | .drain res =>
    match streamStep i s.stream (.drain res) with
    | .error e => .error e
    | .ok stream => .ok { s with stream }
  | .advertise =>
    let sock := s.stream.sc.socks i
    .ok { s with adverts := s.adverts ++ [⟨sock.bufAlloc, sock.fwdCnt⟩] }
  | .learn =>
    match s.adverts with
    | [] => .error .idle
    | told :: adverts => .ok { s with told, adverts }

/-- The guest sends a packet only within the last credit it was told: what it has sent
beyond the last `fwd_cnt`, modulo 2^32, and the whole packet fit in the last `buf_alloc`. -/
def CreditRule (s : Link) : LinkAction → Prop
  | .send p => p.len.toNat = iovTotal (segIov p.segs) ∧
      (UInt32.ofNat s.sent - s.told.fwdCnt).toNat + p.len.toNat ≤ s.told.bufAlloc.toNat
  | _ => True

/-- A connection just opened, before the guest has been told any credit. -/
def Link.start (sc : PciVtsockSoftc) : Link := ⟨⟨sc, []⟩, 0, [], [], ⟨0, 0⟩⟩

def inFlight (ps : List Packet) : ℕ := (ps.map fun p => p.len.toNat).sum

/-- The forward counts the guest knows or will learn only grow, and what it has sent
beyond the one it knows fits the buffer. -/
structure WithinCredit (i : SockId) (fd : Int) (base : List UInt8) (s : Link) : Prop where
  inOrder : InOrder i fd base s.stream
  agrees : ∀ p ∈ s.flight, p.len.toNat = iovTotal (segIov p.segs)
  balance : s.stream.accepted.length + inFlight s.flight = s.sent
  alloc : (s.stream.sc.socks i).bufAlloc.toNat ≤ 131072
  toldAlloc : ∀ a ∈ s.told :: s.adverts, a.bufAlloc.toNat ≤ 131072
  marks : ∃ (told : ℕ) (later : List ℕ), s.told.fwdCnt = .ofNat told ∧
    s.adverts.map Advert.fwdCnt = later.map UInt32.ofNat ∧
    (told :: (later ++ [forwarded i s.stream])).Pairwise (· ≤ ·) ∧ s.sent ≤ told + 131072

variable {i : SockId} {fd : Int} {base : List UInt8} {s t : Link} {a : LinkAction}
  {sc : PciVtsockSoftc} {p : Packet} {ps : List Packet}

@[simp] theorem inFlight_nil : inFlight [] = 0 := rfl

@[simp] theorem inFlight_cons : inFlight (p :: ps) = p.len.toNat + inFlight ps := by
  simp [inFlight]

@[simp] theorem inFlight_append (qs : List Packet) :
    inFlight (ps ++ qs) = inFlight ps + inFlight qs := by
  simp [inFlight]

theorem withinCredit_start (h : Opened (sc.socks i)) :
    WithinCredit i (sc.socks i).fd (hostBytes sc (sc.socks i).fd) (Link.start sc) := by
  refine ⟨inOrder_opened h, ?_, rfl, h.alloc, ?_, 0, [], rfl, rfl, ?_, ?_⟩
  · simp [Link.start]
  · simp [Link.start]
  · simp [Link.start, forwarded]
  · simp [Link.start]

/-- The guest's own subtraction is exact, since it never runs far ahead. -/
theorem toNat_outstanding {sent told : ℕ} (hle : told ≤ sent) (hnear : sent ≤ told + 131072) :
    (UInt32.ofNat sent - UInt32.ofNat told).toNat = sent - told := by
  rw [UInt32.toNat_sub, UInt32.toNat_ofNat', UInt32.toNat_ofNat']
  omega

/-- Nothing is counted as forwarded before it was sent. -/
theorem forwarded_le_sent (h : WithinCredit i fd base s) : forwarded i s.stream ≤ s.sent := by
  have := h.balance
  simp only [forwarded]
  omega

theorem withinCredit_send (h : WithinCredit i fd base s) (hc : CreditRule s (.send p)) :
    WithinCredit i fd base
      { s with sent := s.sent + p.len.toNat, flight := s.flight ++ [p] } := by
  obtain ⟨hlen, hroom⟩ := hc
  obtain ⟨told, later, htold, hlater, hmono, hnear⟩ := h.marks
  have hle : told ≤ s.sent := by
    have hfwd : told ≤ forwarded i s.stream := by
      rw [pairwise_cons] at hmono
      exact hmono.1 _ (by simp)
    have := forwarded_le_sent h
    omega
  have halloc := h.toldAlloc s.told (by simp)
  rw [htold, toNat_outstanding hle hnear] at hroom
  refine ⟨h.inOrder, ?_, ?_, h.alloc, h.toldAlloc, told, later, htold, hlater, hmono, ?_⟩
  · intro q hq
    rcases mem_append.mp hq with hq | hq
    · exact h.agrees q hq
    · rw [mem_singleton.mp hq]
      exact hlen
  · have := h.balance
    simp only [inFlight_append, inFlight_cons, inFlight_nil]
    omega
  · dsimp only
    omega

/-- Raising the forward count keeps the counts sorted. -/
theorem pairwise_raise {x y : ℕ} {xs : List ℕ} (h : (xs ++ [x]).Pairwise (· ≤ ·)) (hxy : x ≤ y) :
    (xs ++ [y]).Pairwise (· ≤ ·) := by
  rw [pairwise_append] at h ⊢
  refine ⟨h.1, pairwise_singleton _ _, ?_⟩
  intro z hz w hw
  rw [mem_singleton.mp hw]
  exact (h.2.2 z hz x (by simp)).trans hxy

theorem pairwise_repeat {x : ℕ} {xs : List ℕ} (h : (xs ++ [x]).Pairwise (· ≤ ·)) :
    (xs ++ [x] ++ [x]).Pairwise (· ≤ ·) := by
  rw [pairwise_append]
  refine ⟨h, pairwise_singleton _ _, ?_⟩
  intro y hy z hz
  rw [mem_singleton.mp hz]
  rcases mem_append.mp hy with hy | hy
  · exact (pairwise_append.mp h).2.2 y hy x (by simp)
  · rw [mem_singleton.mp hy]

/-- A step of the stream that only forwards more keeps the guest's view conservative. -/
theorem withinCredit_stream {stream : Stream} {flight : List Packet}
    (h : WithinCredit i fd base s) (hin : InOrder i fd base stream)
    (hfwd : forwarded i s.stream ≤ forwarded i stream)
    (halloc : (stream.sc.socks i).bufAlloc = (s.stream.sc.socks i).bufAlloc)
    (hsub : flight ⊆ s.flight)
    (hbal : stream.accepted.length + inFlight flight = s.sent) :
    WithinCredit i fd base { s with stream, flight } := by
  obtain ⟨told, later, htold, hlater, hmono, hnear⟩ := h.marks
  refine ⟨hin, fun q hq => h.agrees q (hsub hq), hbal, ?_, h.toldAlloc,
    told, later, htold, hlater, ?_, hnear⟩
  · rw [halloc]
    exact h.alloc
  · rw [← cons_append] at hmono ⊢
    exact pairwise_raise hmono hfwd

theorem withinCredit_step (hc : CreditRule s a) (h : linkStep i s a = .ok t)
    (hs : WithinCredit i fd base s) : WithinCredit i fd base t := by
  cases a with
  | send p =>
    cases h
    exact withinCredit_send hs hc
  | deliver res =>
    simp only [linkStep] at h
    split at h
    · cases h
    · rename_i p flight hflight
      split at h
      · cases h
      · rename_i stream hstep
        cases h
        have hlen := hs.agrees p (by simp [hflight])
        obtain ⟨hin, hfwd⟩ := inOrder_rw hs.inOrder hlen hstep
        obtain ⟨-, hacc, num, -, -, -, hsock, -⟩ :=
          streamStep_rw hs.inOrder.isOpen hs.inOrder.buffer hlen hstep
        have hbal := hs.balance
        rw [hflight, inFlight_cons] at hbal
        refine withinCredit_stream hs hin hfwd ?_ ?_ ?_
        · rw [hsock]
          rfl
        · rw [hflight]
          exact subset_cons_self _ _
        · rw [hacc, length_append, length_iovBytes (mapped_segIov _)]
          omega
  | drain res =>
    simp only [linkStep] at h
    split at h
    · cases h
    · rename_i stream hstep
      cases h
      obtain ⟨hin, hfwd⟩ := inOrder_drain hs.inOrder hstep
      obtain ⟨-, hacc, nr, -, hsock⟩ := streamStep_drain hs.inOrder.isOpen hstep
      refine withinCredit_stream hs hin hfwd ?_ (List.Subset.refl _) ?_
      · rcases hsock with ⟨-, hsock⟩ | ⟨-, hsock⟩
        all_goals rw [hsock]
      · rw [hacc]
        exact hs.balance
  | advertise =>
    cases h
    obtain ⟨told, later, htold, hlater, hmono, hnear⟩ := hs.marks
    refine ⟨hs.inOrder, hs.agrees, hs.balance, hs.alloc, ?_, told,
      later ++ [forwarded i s.stream], htold, ?_, ?_, hnear⟩
    · intro a ha
      rw [← cons_append, mem_append, mem_singleton] at ha
      rcases ha with ha | rfl
      · exact hs.toldAlloc a ha
      · exact hs.alloc
    · simp [hlater, hs.inOrder.count]
    · rw [← cons_append] at hmono
      exact pairwise_repeat hmono
  | learn =>
    simp only [linkStep] at h
    split at h
    · cases h
    · rename_i told' adverts hadv
      cases h
      obtain ⟨told, later, htold, hlater, hmono, hnear⟩ := hs.marks
      rw [hadv] at hlater
      cases later with
      | nil => simp at hlater
      | cons x later =>
        simp only [map_cons, List.cons.injEq] at hlater
        rw [pairwise_cons] at hmono
        have hx : told ≤ x := hmono.1 x (by simp)
        refine ⟨hs.inOrder, hs.agrees, hs.balance, hs.alloc, ?_, x, later, hlater.1, hlater.2,
          hmono.2, by dsimp only; omega⟩
        intro a ha
        exact hs.toldAlloc a (by rw [hadv]; exact mem_cons_of_mem _ ha)

/-- What is buffered and what is still in flight fit the write buffer together. -/
theorem room_for_flight (h : WithinCredit i fd base s) :
    (s.stream.sc.socks i).writeBufTail.toNat + inFlight s.flight ≤ 131072 := by
  obtain ⟨told, later, -, -, hmono, hnear⟩ := h.marks
  have hfwd : told ≤ forwarded i s.stream := by
    rw [pairwise_cons] at hmono
    exact hmono.1 _ (by simp)
  have hbal := h.balance
  have htail := h.inOrder.tailLe
  simp only [forwarded] at hfwd
  omega

/-- While the guest keeps to its credit, `buffer_write` has room for every packet it has
sent, and `handle_write` refuses one only because the write itself failed. -/
theorem credit_prevents_overflow {as : List LinkAction} {ps : List Packet}
    (hopen : Opened (sc.socks i))
    (h : Machine.Run (linkStep i) CreditRule (Link.start sc) as t) (hflight : t.flight = p :: ps) :
    (∀ m sock n iov sock', sock.writeBufTail = (t.stream.sc.socks i).writeBufTail → n ≤ p.len →
        bufferWrite m sock n iov ≠ .ok (false, sock')) ∧
      ∀ now res sc', handleWrite now res { t.stream.sc with mem := p.mem } i p.len
        (segIov p.segs) = .ok (.reject, sc') → res = .error := by
  have hinv := h.invariant (fun _ _ _ hc hs hi => withinCredit_step hc hs hi)
    (withinCredit_start hopen)
  have hroom := room_for_flight hinv
  rw [hflight, inFlight_cons] at hroom
  constructor
  · intro m sock n iov sock' htail hn hw
    rw [UInt32.le_iff_toNat_le] at hn
    unfold bufferWrite at hw
    split at hw
    · rename_i hfull
      have hle : sock.writeBufTail.toNat ≤ 131072 := by
        rw [htail]
        omega
      rw [UInt32.lt_iff_toNat_lt, toNat_room hle, htail] at hfull
      omega
    · split at hw
      · cases hw
      · split at hw
        · cases hw
        · split at hw
          all_goals cases hw
  · intro now res sc' hw
    have hlen := hinv.agrees p (by simp [hflight])
    have hopen' : rwOpen ({ t.stream.sc with mem := p.mem }.socks i) :=
      hinv.inOrder.isOpen
    rcases handleWrite_cases hopen' hinv.inOrder.buffer (mapped_segIov _) hlen hw with
      ⟨-, ⟨-, herr⟩ | hbig⟩ | ⟨hv, -⟩ | ⟨hv, -⟩
    · exact herr
    · dsimp only at hbig
      omega
    · cases hv
    · exact absurd rfl hv

/-- The guest learns the full allocation and then spends three bytes of it. -/
theorem oneConnection_credit : ∃ t, Machine.Run (linkStep 1023) CreditRule (Link.start oneConnection)
      [.advertise, .learn, .send ⟨fun _ => 0, [(7, 3)], 3⟩] t ∧
    t.flight = [⟨fun _ => 0, [(7, 3)], 3⟩] :=
  ⟨_, .stepL trivial rfl (.stepL trivial rfl (.stepL ⟨rfl, by decide⟩ rfl .refl)), rfl⟩

theorem credit_prevents_overflow_three_bytes : ∃ t,
    Machine.Run (linkStep 1023) CreditRule (Link.start oneConnection)
      [.advertise, .learn, .send ⟨fun _ => 0, [(7, 3)], 3⟩] t ∧
    (∀ m sock n iov sock', sock.writeBufTail = (t.stream.sc.socks 1023).writeBufTail →
      n ≤ 3 → bufferWrite m sock n iov ≠ .ok (false, sock')) ∧
    ∀ now res sc', handleWrite now res { t.stream.sc with mem := fun _ => 0 } 1023 3
      (segIov [(7, 3)]) = .ok (.reject, sc') → res = .error := by
  obtain ⟨t, h, hflight⟩ := oneConnection_credit
  exact ⟨t, h, credit_prevents_overflow oneConnection_opened h hflight⟩

/-- What reaches one sock in the other direction. -/
inductive PeerAction
  /-- the header of any guest packet for this sock -/
  | header (hdr : VirtioSockHdr)
  | receive (h : RxHost)
  /-- the guest writes its memory and posts buffers -/
  | post (mem : HostMem) (vqRx : VqueueInfo)

def peerStep (i : SockId) (sc : PciVtsockSoftc) : PeerAction → Except Fault PciVtsockSoftc
  | .header hdr => .ok (sc.setSock i (creditUpdate hdr (sc.socks i)))
  | .receive h =>
    match pciVtsockProcRx h sc i with
    | .error f => .error f
    | .ok (_, sc) => .ok sc
  | .post mem vqRx => .ok { sc with mem, vqRx }

/-- Bytes sent to the peer that it has not yet reported as forwarded. -/
def outstanding (s : PciVtsockSock) : UInt32 := s.rxCnt - s.peerFwdCnt

/-- No header takes back buffer space that the outstanding bytes already occupy. -/
def CoversOutstanding (i : SockId) (sc : PciVtsockSoftc) : PeerAction → Prop
  | .header hdr => outstanding (creditUpdate hdr (sc.socks i)) ≤ hdr.bufAlloc
  | _ => True

/-- The outstanding bytes fit the allocation last advertised. -/
def Covered (i : SockId) (sc : PciVtsockSoftc) : Prop :=
  outstanding (sc.socks i) ≤ (sc.socks i).peerBufAlloc

/-- The counters `alloc_sock` leaves. -/
def Untouched (s : PciVtsockSock) : Prop := s.rxCnt = 0 ∧ s.peerBufAlloc = 0 ∧ s.peerFwdCnt = 0

section Peer

variable {sc sc' : PciVtsockSoftc} {h : RxHost} {n : Int} {s s' : PciVtsockSock}
  {ms : List (SockState × SockState)}

/-- Within the allocation, the free space is the true difference. -/
theorem toNat_peerFree (hle : outstanding s ≤ s.peerBufAlloc) :
    (peerFree s).toNat = s.peerBufAlloc.toNat - (outstanding s).toNat := by
  rw [UInt32.le_iff_toNat_le] at hle
  have hlt := UInt32.toNat_lt s.peerBufAlloc
  change (s.peerBufAlloc - outstanding s).toNat = _
  rw [UInt32.toNat_sub]
  omega

/-- Forwarding no more than the free space stays within the allocation. -/
theorem toNat_outstanding_add {len : ℕ} (hle : outstanding s ≤ s.peerBufAlloc)
    (hfree : len ≤ (peerFree s).toNat) :
    (s.rxCnt + UInt32.ofNat len - s.peerFwdCnt).toNat = (outstanding s).toNat + len ∧
      (outstanding s).toNat + len ≤ s.peerBufAlloc.toNat := by
  rw [toNat_peerFree hle] at hfree
  rw [UInt32.le_iff_toNat_le] at hle
  have hlt := UInt32.toNat_lt s.peerBufAlloc
  have hmove : s.rxCnt + UInt32.ofNat len - s.peerFwdCnt = outstanding s + UInt32.ofNat len := by
    simp only [outstanding, UInt32.sub_eq_add_neg]
    ac_rfl
  refine ⟨?_, by omega⟩
  rw [hmove, UInt32.toNat_add, UInt32.toNat_ofNat']
  omega

/-- A receive that forwards nothing leaves the credit of the sock as it was. -/
theorem Received.credit (hr : Received h s n s' ms) :
    s'.peerBufAlloc = s.peerBufAlloc ∧ s'.peerFwdCnt = s.peerFwdCnt ∧ ((n ≤ 0 ∧ s'.rxCnt = s.rxCnt) ∨
        (0 < n ∧ n.toNat ≤ (peerFree s).toNat ∧ s'.rxCnt = s.rxCnt + .ofNat n.toNat)) := by
  cases hr with
  | idle hn => exact ⟨rfl, rfl, .inl ⟨hn, rfl⟩⟩
  | creditSent | reset => exact ⟨rfl, rfl, .inl ⟨Int.le_refl 0, rfl⟩⟩
  | eof hs =>
    rcases shutdownLocalSock_cases hs with ⟨-, rfl⟩ | ⟨-, -, head, tail, deadline, rfl⟩
    all_goals exact ⟨rfl, rfl, .inl ⟨Int.le_refl 0, rfl⟩⟩
  | data hpos hfree => exact ⟨rfl, rfl, .inr ⟨by omega, by simpa using hfree, by simp⟩⟩

theorem covered_step {a : PeerAction} (hc : CoversOutstanding i sc a)
    (hstep : peerStep i sc a = .ok sc') (hs : Covered i sc) : Covered i sc' := by
  cases a with
  | header hdr =>
    cases hstep
    rw [Covered, PciVtsockSoftc.setSock_socks_self]
    exact hc
  | receive h =>
    simp only [peerStep] at hstep
    split at hstep
    · cases hstep
    · rename_i n sc₂ hrx
      cases hstep
      obtain ⟨s', ms, hrec, he⟩ := received_procRx hrx
      have hsock : sc'.socks i = s' := by
        rw [he]
        simp
      obtain ⟨halloc, hfwd, ⟨-, hcnt⟩ | ⟨-, hfree, hcnt⟩⟩ := hrec.credit
      · rw [Covered, hsock, outstanding, hcnt, hfwd, halloc]
        exact hs
      · obtain ⟨hsum, hle⟩ := toNat_outstanding_add hs hfree
        rw [Covered, hsock, outstanding, hcnt, hfwd, halloc, UInt32.le_iff_toNat_le]
        omega
  | post mem vqRx =>
    cases hstep
    exact hs

theorem covered_untouched (hs : Untouched (sc.socks i)) : Covered i sc := by
  obtain ⟨hcnt, halloc, hfwd⟩ := hs
  simp [Covered, outstanding, hcnt, halloc, hfwd]

/-- As long as no header takes back occupied space, the host stays within the
credit the guest advertised. -/
theorem forwarded_within_credit {as : List PeerAction} {t t' : PciVtsockSoftc}
    (hfresh : Untouched (sc.socks i))
    (hrun : Machine.Run (peerStep i) (CoversOutstanding i) sc as t)
    (hrx : pciVtsockProcRx h t i = .ok (n, t')) (hn : 0 < n) :
    ((t.socks i).rxCnt + .ofNat n.toNat - (t.socks i).peerFwdCnt).toNat ≤
      (t.socks i).peerBufAlloc.toNat := by
  have hinv : Covered i t :=
    hrun.invariant (fun _ _ _ hc hs hi => covered_step hc hs hi) (covered_untouched hfresh)
  obtain ⟨s', ms, hrec, -⟩ := received_procRx hrx
  obtain ⟨-, -, ⟨hle, -⟩ | ⟨-, hfree, -⟩⟩ := hrec.credit
  · omega
  · obtain ⟨hsum, hle⟩ := toNat_outstanding_add hinv hfree
    rw [hsum]
    exact hle

end Peer

/-- A connection whose request advertised no buffer at all. -/
def creditlessConnection : PciVtsockSoftc :=
  (connectSock connectNine (initSoftc 3 ⟨4096, 0⟩ [] false) ⟨2, 80⟩ ⟨3, 1024⟩ 0 0).2

/-- Two chains of one 64-byte buffer each. -/
def twoBuffers : VqueueInfo :=
  { initQueue with
    vqFlags := vqAlloc
    vqDesc := fun _ => ⟨0, 64, vringDescFWrite, 0⟩
    vqAvail := ⟨0, 2, fun _ => 0⟩ }

/-- An OP_CREDIT_UPDATE that reports nothing as forwarded. -/
def creditHdr (bufAlloc : UInt32) : VirtioSockHdr :=
  ⟨3, 2, 1024, 80, 0, virtioVsockTypeStream, virtioVsockOpCreditUpdate, 0, bufAlloc, 0⟩

theorem creditlessConnection_receives : ∃ t t',
    Machine.Run (peerStep 1023) (CoversOutstanding 1023) creditlessConnection
      [.post (fun _ => 0) twoBuffers, .header (creditHdr 2)] t ∧
    pciVtsockProcRx ⟨.read [1, 2], .ok, 0⟩ t 1023 = .ok (2, t') :=
  ⟨_, _, .stepL trivial rfl (.stepL (show 0 ≤ 2 by decide) rfl .refl), rfl⟩

theorem forwarded_within_credit_two_bytes : ∃ t t',
    Machine.Run (peerStep 1023) (CoversOutstanding 1023) creditlessConnection
      [.post (fun _ => 0) twoBuffers, .header (creditHdr 2)] t ∧
    pciVtsockProcRx ⟨.read [1, 2], .ok, 0⟩ t 1023 = .ok (2, t') ∧
    ((t.socks 1023).rxCnt + .ofNat (Int.toNat 2) - (t.socks 1023).peerFwdCnt).toNat ≤
      (t.socks 1023).peerBufAlloc.toNat := by
  obtain ⟨t, t', hrun, hrx⟩ := creditlessConnection_receives
  exact ⟨t, t', hrun, hrx, forwarded_within_credit ⟨rfl, rfl, rfl⟩ hrun hrx (by decide)⟩

/-- Two bytes are outstanding when the guest shrinks its buffer to one; the free space
wraps to almost 2^32 and a third byte follows. -/
theorem shrunk_buffer_overrun : ∃ t t', Machine.Run (peerStep 1023) Machine.Any creditlessConnection
      [.post (fun _ => 0) twoBuffers, .header (creditHdr 2),
        .receive ⟨.read [1, 2], .ok, 0⟩, .header (creditHdr 1)] t ∧
    pciVtsockProcRx ⟨.read [3], .ok, 0⟩ t 1023 = .ok (1, t') ∧
    ¬ ((t.socks 1023).rxCnt + .ofNat (Int.toNat 1) - (t.socks 1023).peerFwdCnt).toNat ≤
      (t.socks 1023).peerBufAlloc.toNat :=
  ⟨_, _, .stepL trivial rfl (.stepL trivial rfl (.stepL trivial rfl (.stepL trivial rfl .refl))),
    rfl, by decide⟩

end HyperCog.Vsock
