import HyperCog.Vsock.Shutdown

/-! A packet whose declared length is not the length of its payload. -/
namespace HyperCog.Vsock

open Virtio Machine

/-- The call returns, the buffer indices are in order, and no more bytes than the payload has
went to the descriptor and into the buffer. -/
def Withstands (now : Int) (res : WriteResult) (sc : PciVtsockSoftc) (i : SockId) (len : UInt32)
    (iov : List Iovec) : Prop :=
  ∃ v sc', handleWrite now res sc i len iov = .ok (v, sc') ∧ BufferOk (sc'.socks i) ∧
    (hostBytes sc' (sc.socks i).fd).length + (sc'.socks i).writeBufTail.toNat ≤
      (hostBytes sc (sc.socks i).fd).length + (sc.socks i).writeBufTail.toNat + iovTotal iov

variable {m : HostMem} {s s' : PciVtsockSock} {iov : List Iovec} {len : UInt32} {fits : Bool}
  {sc sc' : PciVtsockSoftc} {i : SockId} {num : ℕ} {v : WriteVerdict} {now : Int}
  {res : WriteResult}

/-- What `buffer_write` adds is the declared length, which then is the payload's. -/
theorem bufferWrite_grows (hb : BufferOk s) (h : bufferWrite m s len iov = .ok (fits, s')) :
    BufferOk s' ∧ s'.writeBufTail.toNat ≤ s.writeBufTail.toNat + iovTotal iov := by
  obtain ⟨hle, htail⟩ := hb
  rw [UInt32.le_iff_toNat_le] at hle
  rcases bufferWrite_eq_ok h with ⟨-, -, rfl⟩ | ⟨-, hroom, p, hp, hres, -, rfl⟩
  · exact ⟨⟨UInt32.le_iff_toNat_le.mpr hle, htail⟩, Nat.le_add_right _ _⟩
  · obtain ⟨hmin, -⟩ := iovTotal_pull hp
    rw [UInt32.lt_iff_toNat_lt, toNat_room htail] at hroom
    have hsum : (s.writeBufTail + len).toNat = s.writeBufTail.toNat + len.toNat := by
      rw [UInt32.toNat_add]
      exact Nat.mod_eq_of_lt (by omega)
    rw [BufferOk, UInt32.le_iff_toNat_le]
    dsimp only
    omega

theorem bufferRest_grows (hb : BufferOk s) (h : bufferRest sc i s len iov = .ok (v, sc')) :
    BufferOk (sc'.socks i) ∧ (sc'.socks i).writeBufTail.toNat ≤ s.writeBufTail.toNat + iovTotal iov ∧
      sc'.written = sc.written := by
  obtain ⟨⟨fits, s'⟩, hw, h⟩ := bind_eq_ok.mp h
  cases h
  obtain ⟨hok, hle⟩ := bufferWrite_grows hb hw
  rw [PciVtsockSoftc.setSock_socks_self]
  exact ⟨hok, hle, rfl⟩

theorem acceptWritten_grows (hb : BufferOk (sc.socks i)) (hnum : num ≤ iovTotal iov)
    (h : acceptWritten sc i len iov num = .ok (v, sc')) :
    BufferOk (sc'.socks i) ∧ (sc'.socks i).writeBufTail.toNat + num ≤
        (sc.socks i).writeBufTail.toNat + iovTotal iov ∧
      sc'.written = sc.written := by
  simp only [acceptWritten] at h
  split at h
  · cases h
    rw [PciVtsockSoftc.setSock_socks_self]
    exact ⟨hb, Nat.add_le_add_left hnum _, rfl⟩
  · obtain ⟨p, hp, h⟩ := bind_eq_ok.mp h
    obtain ⟨-, htot⟩ := iovTotal_pull hp
    split_ifs at h
    have hb' : BufferOk { sc.socks i with fwdCnt := (sc.socks i).fwdCnt + .ofNat num } := hb
    obtain ⟨hok, hle, hlog⟩ := bufferRest_grows hb' h
    refine ⟨hok, ?_, hlog⟩
    dsimp only at hle
    omega

/-- Shutting the host end down keeps the indices or resets them. -/
theorem shutdownLocalSock_shrinks {mode : UInt32} (hb : BufferOk s)
    (h : shutdownLocalSock now s mode = .ok s') :
    BufferOk s' ∧ s'.writeBufTail.toNat ≤ s.writeBufTail.toNat := by
  rw [BufferOk]
  rcases shutdownLocalSock_buffer h with ⟨hhead, htail⟩ | ⟨hhead, htail⟩
  · rw [hhead, htail]
    exact ⟨hb, le_rfl⟩
  · rw [hhead, htail]
    exact ⟨⟨UInt32.le_refl 0, Nat.zero_le _⟩, Nat.zero_le _⟩

/-- Whatever the lengths, a call that returns has kept the buffer and the payload apart. -/
theorem handleWrite_grows (hb : BufferOk (sc.socks i))
    (h : handleWrite now res sc i len iov = .ok (v, sc')) : BufferOk (sc'.socks i) ∧
      (hostBytes sc' (sc.socks i).fd).length + (sc'.socks i).writeBufTail.toNat ≤
        (hostBytes sc (sc.socks i).fd).length + (sc.socks i).writeBufTail.toNat + iovTotal iov := by
  simp only [handleWrite] at h
  split at h
  · obtain ⟨hok, hle, hlog⟩ := bufferRest_grows hb h
    rw [hostBytes_congr hlog]
    exact ⟨hok, by omega⟩
  cases res with
  | epipe =>
    obtain ⟨s, hs, h⟩ := bind_eq_ok.mp h
    obtain ⟨sc₁, hsend, h⟩ := bind_eq_ok.mp h
    cases h
    obtain ⟨-, hdr, rfl⟩ := sendResponseSock_cases hsend
    obtain ⟨hok, hle⟩ := shutdownLocalSock_shrinks hb hs
    have hsock : (queueReply (sc.setSock i s) hdr).socks i = s := by simp [queueReply]
    have hlog : (queueReply (sc.setSock i s) hdr).written = sc.written := rfl
    rw [hsock, hostBytes_congr hlog]
    exact ⟨hok, by omega⟩
  | eagain =>
    obtain ⟨hok, hle, hlog⟩ := acceptWritten_grows hb (Nat.zero_le _) h
    rw [hostBytes_congr hlog]
    exact ⟨hok, by omega⟩
  | error =>
    cases h
    exact ⟨hb, by omega⟩
  | wrote n =>
    obtain ⟨hok, hle, hlog⟩ := acceptWritten_grows (by exact hb) (min_le_right _ _) h
    have hsent : ((iovBytes sc.mem iov).take (min n (iovTotal iov))).length ≤
        min n (iovTotal iov) := List.length_take_le _ _
    rw [hostBytes_congr hlog, hostBytes_logWrite, List.length_append]
    rw [PciVtsockSoftc.logWrite_socks] at hle
    exact ⟨hok, by omega⟩

/-- A packet of any length does no harm exactly when the lengths agree where they are mixed. -/
theorem lying_length_withstood_iff (hopen : rwOpen (sc.socks i)) (hb : BufferOk (sc.socks i)) :
    Withstands now res sc i len iov ↔ LengthsAgree res sc i len iov := by
  rw [← handleWrite_returns_iff now hopen]
  constructor
  · rintro ⟨v, sc', hr, -⟩
    exact ⟨(v, sc'), hr⟩
  · rintro ⟨⟨v, sc'⟩, hr⟩
    exact ⟨v, sc', hr, handleWrite_grows hb hr⟩

/-- A request, then two bytes of data that are declared to be `len` bytes. -/
def declaring (len : UInt32) : HostMem :=
  let request := requestHdr 80
  storeBytes (storeBytes (fun _ => 0) 0 request.toBytes)
    64 { request with op := virtioVsockOpRw, len }.toBytes

/-- The guest posts both packets and the transmit thread serves the request. -/
def declareData (len : UInt32) : List Action :=
  [.guest (.store (declaring len)), .guest .initQueues,
    .guest (.rings (fun i => ⟨.ofNat (64 * i), if i = 1 then 46 else 44, 0, 0⟩)
      ⟨0, 2, fun i => .ofNat i⟩ initQueue.vqUsed initQueue.vqDesc initQueue.vqAvail
      initQueue.vqUsed),
    .txTop, .txScan 0 .ok, .txSelect true [] false (fun _ => false),
    .txConnect ⟨-1, none, ⟨true, true, none⟩⟩, .txDrain 0 .eagain .ok, .txPacket calmHost]

/-- The device with the data packet at the head of its transmit queue. -/
def declared (len : UInt32) : System :=
  (exec step (initSystem 3 ⟨65536, 0⟩ [] false) (declareData len)).toOption.getD
    (initSystem 3 ⟨65536, 0⟩ [] false)

/-- Two bytes declared as two, none of which the descriptor takes. -/
theorem lying_length_withstood_two : rwOpen ((declared 2).sc.socks firstSock) = true ∧
    Withstands 0 .eagain (declared 2).sc firstSock 2 [⟨some 108, 2⟩] := by
  have hopen : rwOpen ((declared 2).sc.socks firstSock) = true := rfl
  have hb : BufferOk ((declared 2).sc.socks firstSock) := ⟨by decide +kernel, by decide +kernel⟩
  have hidle : ¬ sockIsBuffering ((declared 2).sc.socks firstSock) = true := by decide +kernel
  refine ⟨hopen, (lying_length_withstood_iff hopen hb).mpr ?_⟩
  rw [LengthsAgree.eq_def, if_neg hidle]
  refine .inr (.inr ⟨rfl, ?_, ?_⟩)
  · rw [trailingEmpty_singleton]
    decide
  · exact ⟨.inr rfl, trivial⟩

/-- Two bytes declared as five: the descriptor takes none, and the device aborts on the rest. -/
theorem short_payload_aborts :
    Run step Any (initSystem 3 ⟨65536, 0⟩ [] false) (declareData 5) (declared 5) ∧
    rwOpen ((declared 5).sc.socks firstSock) = true ∧
    BufferOk ((declared 5).sc.socks firstSock) ∧
    (∃ k, nextPacket (declared 5).sc = some k ∧ k.hdr.len = 5 ∧ iovTotal k.iov = 2) ∧
    ¬ Withstands 0 .eagain (declared 5).sc firstSock 5 [⟨some 108, 2⟩] ∧
    step (declared 5) (.txPacket (laterHost .eagain)) = .error (.fault .bufferedShort) := by
  have hpacket : (nextPacket (declared 5).sc).map (fun k => (k.hdr.len, iovTotal k.iov)) =
      some (5, 2) := rfl
  obtain ⟨k, hk, hlens⟩ := Option.map_eq_some_iff.mp hpacket
  have hfails : (handleWrite 0 .eagain (declared 5).sc firstSock 5 [⟨some 108, 2⟩]).isOk = false := by
    decide +kernel
  have hstop : stopsIn (fun e => decide (e = .fault .bufferedShort))
      (step (declared 5) (.txPacket (laterHost .eagain))) = true := rfl
  obtain ⟨e, he, heq⟩ := exists_of_stopsIn hstop
  refine ⟨run_of_isOk rfl, by decide +kernel, ⟨by decide +kernel, by decide +kernel⟩,
    ⟨k, hk, congrArg Prod.fst hlens, congrArg Prod.snd hlens⟩, ?_, ?_⟩
  · rintro ⟨v, sc', hr, -⟩
    rw [hr] at hfails
    cases hfails
  · rw [he, of_decide_eq_true heq]

end HyperCog.Vsock
