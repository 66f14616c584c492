import HyperCog.P9.Notify
import HyperCog.Vsock.Arrays
import HyperCog.Vsock.Threads

/-! Which chains make the 9p and vsock devices look past the entries of their local arrays. -/
namespace HyperCog.P9

open Virtio Machine List Prod Vsock

/-- The entries before the first writable one. -/
def readable (es : List Entry) : List Entry := es.takeWhile fun e => !isWrite e

/-- The bytes of the request. -/
def requestBytes (es : List Entry) : ℕ := iovTotal ((readable es).map fst)

/-- What the scan loop finds. -/
def scanned (es : List Entry) : Scan where
  nread := (readable es).length
  nwrite := es.countP isWrite
  readbytes := requestBytes es
  wiov := if (readable es).length < es.length then some (readable es).length else none

variable {es : List Entry} {ns : List ℕ} {e : Entry} {s : Scan} {i left n nread readbytes nvec : ℕ}
  {iov : List Iovec}
  {vds : List VirtioDesc} {sc : PciVt9pSoftc} {idx head : UInt16}

theorem readable_cons_write (h : isWrite e = true) : readable (e :: es) = [] := by
  rw [readable, takeWhile_cons_of_neg (by simp [h])]

theorem readable_cons_read (h : isWrite e = false) : readable (e :: es) = e :: readable es := by
  rw [readable, takeWhile_cons_of_pos (by simp [h])]
  rfl

/-- The loop needs an entry for every turn. -/
theorem scanLoop_short (h : es.length < left) : scanLoop left i es s = .error .iovOverrun := by
  induction es generalizing left i s with
  | nil =>
    obtain ⟨k, rfl⟩ := Nat.exists_eq_succ_of_ne_zero (Nat.ne_of_gt h)
    rfl
  | cons e es ih =>
    obtain ⟨k, rfl⟩ := Nat.exists_eq_succ_of_ne_zero (Nat.ne_of_gt (Nat.lt_of_le_of_lt (Nat.zero_le _) h))
    exact ih (Nat.lt_of_succ_lt_succ h)

/-- After the first writable entry only the writable ones are counted. -/
theorem scanLoop_writing (hw : s.nwrite ≠ 0) (hi : s.wiov ≠ none) :
    scanLoop es.length i es s = .ok { s with nwrite := s.nwrite + es.countP isWrite } := by
  induction es generalizing i s with
  | nil => rfl
  | cons e es ih =>
    rw [length_cons, scanLoop]
    cases he : isWrite e with
    | true =>
      have hv : s.visit i e = { s with nwrite := s.nwrite + 1 } := by
        simp [Scan.visit, he, hi]
      rw [hv, ih (s := { s with nwrite := s.nwrite + 1 }) (Nat.succ_ne_zero _) hi,
        countP_cons_of_pos he]
      simp only [Except.ok.injEq, Scan.mk.injEq, and_true, true_and]
      omega
    | false =>
      have hv : s.visit i e = s := by simp [Scan.visit, he, hw]
      rw [hv, ih hw hi, countP_cons_of_neg (by simp [he])]

/-- Up to there the readable entries are counted and measured. -/
theorem scanLoop_reading (hw : s.nwrite = 0) (hi : s.wiov = none) : scanLoop es.length i es s = .ok
      { nread := s.nread + (scanned es).nread
        nwrite := (scanned es).nwrite
        readbytes := s.readbytes + (scanned es).readbytes
        wiov := (scanned es).wiov.map (i + ·) } := by
  induction es generalizing i s with
  | nil =>
    obtain ⟨nread, nwrite, readbytes, wiov⟩ := s
    cases hw
    cases hi
    rfl
  | cons e es ih =>
    rw [length_cons, scanLoop]
    cases he : isWrite e with
    | true =>
      have hv : s.visit i e = { s with nwrite := 1, wiov := some i } := by
        simp [Scan.visit, he, hi, hw]
      rw [hv, scanLoop_writing (by simp) (by simp)]
      simp [scanned, requestBytes, readable_cons_write he, countP_cons_of_pos he, Nat.add_comm]
    | false =>
      have hv : s.visit i e =
          { s with nread := s.nread + 1, readbytes := s.readbytes + e.1.iovLen } := by
        simp [Scan.visit, he, hw]
      have hneg : ¬ isWrite e = true := by simp [he]
      rw [hv, ih (s := { s with nread := s.nread + 1, readbytes := s.readbytes + e.1.iovLen }) hw hi]
      simp only [scanned, requestBytes, readable_cons_read he, countP_cons_of_neg hneg, length_cons,
        map_cons, iovTotal_cons,
        Nat.add_lt_add_iff_right, Except.ok.injEq, Scan.mk.injEq, true_and]
      refine ⟨by omega, by omega, ?_⟩
      split
      · simp only [Option.map_some, Option.some.injEq]
        omega
      · rfl

theorem scan_eq : scan es.length es = .ok (scanned es) := by
  rw [scan, scanLoop_reading rfl rfl]
  simp only [Nat.zero_add, Option.map_id_fun', id]

/-- The writable entries all stand from the first one on. -/
theorem countP_le_drop (es : List Entry) : (readable es).length + es.countP isWrite ≤ es.length := by
  induction es with
  | nil => simp [readable]
  | cons e es ih =>
    cases he : isWrite e with
    | true =>
      rw [readable_cons_write he, length_nil, Nat.zero_add]
      exact countP_le_length
    | false =>
      rw [readable_cons_read he, countP_cons_of_neg (by simp [he])]
      simp only [length_cons]
      omega

theorem answerSegs_ok (es : List Entry) : ∃ wiov, answerSegs es (scanned es) = .ok wiov := by
  unfold answerSegs
  split
  · exact ⟨_, rfl⟩
  · rename_i w hw
    have hw' : w = (readable es).length := by
      simp only [scanned] at hw
      split_ifs at hw
      exact (Option.some.inj hw).symm
    have hle : ¬ es.length < w + (scanned es).nwrite := by
      rw [hw', Nat.not_lt]
      exact countP_le_drop es
    rw [if_neg hle]
    exact ⟨_, rfl⟩

/-- Until a `writev` fails or takes all that is left, the results stay below `room` bytes in all. -/
def WritesShort : (request room : ℕ) → List ℕ → Prop
  | _, _, [] => True
  | request, room, n :: ns => n = 0 ∨ leftAfter request n = 0 ∨
      (n < room ∧ WritesShort (leftAfter request n) (room - n) ns)

theorem passWritten_cases (iov : List Iovec) (n : ℕ) : passWritten iov n = .error .iovOverrun ∨
      ∃ iov', passWritten iov n = .ok iov' ∧ iov'.length ≤ iov.length := by
  induction iov generalizing n with
  | nil => exact .inl rfl
  | cons v vs ih =>
    rw [passWritten]
    split
    · obtain herr | ⟨iov', hok, hle⟩ := ih (n - v.iovLen)
      · exact .inl herr
      · exact .inr ⟨iov', hok, Nat.le_succ_of_le hle⟩
    · exact .inr ⟨_, rfl, Nat.le_refl _⟩

/-- Passing `n` bytes stays among the first entries when these hold more than `n`; otherwise the
loop passes all of them, if not the end of the array. -/
theorem passWritten_spec {k : ℕ} (hk : k < iov.length) :
    if n < iovTotal (iov.take (k + 1)) then
      ∃ iov' j, passWritten iov n = .ok iov' ∧ j ≤ k ∧ iov'.length + j = iov.length ∧
        iovTotal (iov'.take (k - j + 1)) = iovTotal (iov.take (k + 1)) - n
    else passWritten iov n = .error .iovOverrun ∨
      ∃ iov', passWritten iov n = .ok iov' ∧ iov'.length + k < iov.length := by
  induction iov generalizing n k with
  | nil => cases hk
  | cons v vs ih =>
    rw [take_succ_cons, iovTotal_cons, passWritten, length_cons]
    by_cases hv : v.iovLen ≤ n
    · rw [if_pos hv]
      cases k with
      | zero =>
        rw [if_neg (by simpa using hv)]
        obtain herr | ⟨iov', hok, hle⟩ := passWritten_cases vs (n - v.iovLen)
        · exact .inl herr
        · exact .inr ⟨iov', hok, Nat.lt_succ_of_le hle⟩
      | succ k =>
        have hrest := ih (n := n - v.iovLen) (Nat.lt_of_succ_lt_succ hk)
        by_cases hn : n - v.iovLen < iovTotal (vs.take (k + 1))
        · rw [if_pos hn] at hrest
          obtain ⟨iov', j, hpass, hj, hlen, htot⟩ := hrest
          rw [if_pos (by omega)]
          refine ⟨iov', j + 1, hpass, by omega, by omega, ?_⟩
          rw [Nat.add_sub_add_right]
          omega
        · rw [if_neg hn] at hrest
          rw [if_neg (by omega)]
          obtain herr | ⟨iov', hok, hlt⟩ := hrest
          · exact .inl herr
          · exact .inr ⟨iov', hok, by omega⟩
    · rw [if_neg hv, if_pos (by omega)]
      refine ⟨_, 0, rfl, Nat.zero_le _, rfl, ?_⟩
      rw [Nat.sub_zero, take_succ_cons, iovTotal_cons, advance]
      dsimp only
      omega

theorem writeLoop_short (hr : readbytes ≠ 0) (hlen : iov.length < nread) :
    writeLoop nread ns iov readbytes = .error .iovOverrun := by
  cases ns with
  | nil | cons => rw [writeLoop, if_neg hr, if_pos hlen]

theorem writeLoop_cons (hn : n ≠ 0) (hr : readbytes ≠ 0) (hlen : nread ≤ iov.length)
    (hl : leftAfter readbytes n ≠ 0) : writeLoop nread (n :: ns) iov readbytes = .error .iovOverrun ↔
      passWritten iov n = .error .iovOverrun ∨
      ∃ iov', passWritten iov n = .ok iov' ∧
        writeLoop nread ns iov' (leftAfter readbytes n) = .error .iovOverrun := by
  rw [writeLoop, if_neg hr, if_neg (Nat.not_lt.mpr hlen)]
  simp only [if_neg hn, if_neg hl, bind_eq_error]
  refine or_congr_right (exists_congr fun iov' => and_congr_right fun _ => ?_)
  constructor
  · rintro (h | ⟨calls, -, h⟩)
    · exact h
    · cases h
  · exact .inl

/-- The request is forwarded within the array exactly when the partial writes end among its first
entries, so that as many as are readable still follow. -/
theorem writeLoop_overrun_iff (hr : readbytes ≠ 0) (hlen : nread ≤ iov.length) (hread : nread ≠ 0) :
    writeLoop nread ns iov readbytes = .error .iovOverrun ↔
      ¬ WritesShort readbytes (iovTotal (iov.take (iov.length - nread + 1))) ns := by
  induction ns generalizing iov readbytes with
  | nil =>
    rw [writeLoop, if_neg hr, if_neg (Nat.not_lt.mpr hlen)]
    simp [WritesShort]
  | cons n ns ih =>
    rw [WritesShort]
    by_cases hn : n = 0
    · rw [writeLoop, if_neg hr, if_neg (Nat.not_lt.mpr hlen)]
      simp [hn]
    by_cases hl : leftAfter readbytes n = 0
    · rw [writeLoop, if_neg hr, if_neg (Nat.not_lt.mpr hlen)]
      simp [hn, hl]
    rw [writeLoop_cons hn hr hlen hl]
    simp only [hn, hl, false_or]
    have hpass := passWritten_spec (n := n) (show iov.length - nread < iov.length by omega)
    by_cases hroom : n < iovTotal (iov.take (iov.length - nread + 1))
    · rw [if_pos hroom] at hpass
      obtain ⟨iov', j, hpass, hj, hlen', htot⟩ := hpass
      have hsame : iov'.length - nread = iov.length - nread - j := by omega
      have hrec := ih hl (show nread ≤ iov'.length by omega)
      rw [hsame, htot] at hrec
      simp [hpass, hroom, hrec]
    · simp only [hroom, false_and, not_false_eq_true, iff_true]
      rw [if_neg hroom] at hpass
      obtain herr | ⟨iov', hok, hshort⟩ := hpass
      · exact .inl herr
      · exact .inr ⟨iov', hok, writeLoop_short hl (by omega)⟩

/-- The first segment, if it holds a header, can be read. -/
def HeaderMapped (es : List Entry) : Prop :=
  ∀ e ∈ es.head?, e.1.iovLen < 7 ∨ e.1.iovBase.isSome

/-- The chain fits the arrays, and if the request gets as far as the server, each `writev` that
leaves something to write ends among the entries that as many others follow as are readable. -/
def RequestFits (ns : List ℕ) (sc : PciVt9pSoftc) (vds : List VirtioDesc) : Prop :=
  vds.length ≤ maxdesc ∧
    (HeaderMapped (filled sc.ram vds) → (∃ slot < vt9pRingsz, (sc.out slot).inuse = false) →
      requestBytes (filled sc.ram vds) ≠ 0 →
      WritesShort (requestBytes (filled sc.ram vds)) (iovTotal
        (((filled sc.ram vds).map fst).take
          (vds.length - (readable (filled sc.ram vds)).length + 1))) ns)

theorem header_cases (m : HostMem) (v : Iovec) (readbytes : ℕ) :
    ((v.iovLen < 7 ∨ v.iovBase.isSome = true) ∧ ∃ hdr, header m v readbytes = .ok hdr) ∨
      (¬ (v.iovLen < 7 ∨ v.iovBase.isSome = true) ∧ header m v readbytes = .error .segfault) := by
  unfold header
  by_cases hlen : v.iovLen < 7
  · simp [hlen]
  · cases hb : v.iovBase with
    | none | some => simp [hlen]

theorem writeLoop_zero : writeLoop left ns (es.map fst) 0 = .ok [] := by
  cases ns with
  | nil | cons => rw [writeLoop, if_pos rfl]

/-- The request within the array, in terms of its own entries. -/
theorem writeLoop_within_iff (es : List Entry) (ns : List ℕ) :
    ¬ writeLoop (readable es).length ns (es.map fst) (requestBytes es) = .error .iovOverrun ↔
      (requestBytes es ≠ 0 → WritesShort (requestBytes es) (iovTotal
        ((es.map fst).take (es.length - (readable es).length + 1))) ns) := by
  by_cases hr : requestBytes es = 0
  · rw [hr, writeLoop_zero]
    simp
  · have hread : (readable es).length ≠ 0 := by
      intro h0
      rw [requestBytes, eq_nil_of_length_eq_zero h0] at hr
      exact hr rfl
    have hlen : (readable es).length ≤ (es.map fst).length := by
      rw [length_map]
      exact (List.takeWhile_prefix _).length_le
    rw [writeLoop_overrun_iff hr hlen hread]
    simp [hr]

/-- Past the scan, header and slot decide whether the request gets to the server at all. -/
theorem notifyChain_cases (ns : List ℕ) (sc : PciVt9pSoftc) (idx : UInt16) (hne : es ≠ []) :
    (HeaderMapped es ∧ (∃ slot < vt9pRingsz, (sc.out slot).inuse = false) ∧
      ∃ sc', notifyChain ns sc idx es.length es =
        writeLoop (readable es).length ns (es.map fst) (requestBytes es) >>=
          fun calls => .ok (calls, sc')) ∨
    (¬ (HeaderMapped es ∧ ∃ slot < vt9pRingsz, (sc.out slot).inuse = false) ∧
      ∃ e ≠ .iovOverrun, notifyChain ns sc idx es.length es = .error e) := by
  obtain ⟨e, rest, rfl⟩ := exists_cons_of_ne_nil hne
  have hmapped : HeaderMapped (e :: rest) ↔ e.1.iovLen < 7 ∨ e.1.iovBase.isSome = true := by
    simp [HeaderMapped]
  have hfree : (∃ slot < vt9pRingsz, (sc.out slot).inuse = false) ↔ (freeSlot sc.out).isSome = true := by
    simp [freeSlot]
  rw [hfree, hmapped]
  unfold notifyChain
  rw [scan_eq]
  obtain ⟨hm, hdr, hh⟩ | ⟨hm, hh⟩ := header_cases sc.mem e.1 (requestBytes (e :: rest))
  · cases hs : freeSlot sc.out with
    | none => exact .inr ⟨by simp, .ringFull, nofun, by simp [bind, Except.bind, scanned, hh]⟩
    | some slot =>
      obtain ⟨wiov, hw⟩ := answerSegs_ok (e :: rest)
      refine .inl ⟨hm, rfl, { sc with
        mem := hdr.mem
        inflight := sc.inflight + 1
        out := Function.update sc.out slot ⟨wiov, true, hdr.tag, idx, hdr.otag⟩ }, ?_⟩
      change (header sc.mem e.1 (requestBytes (e :: rest)) >>= _) = _
      rw [hh, hw]
      rfl
  · exact .inr ⟨fun h => hm h.1, .segfault, nofun, by simp [bind, Except.bind, scanned, hh]⟩

theorem notify_eq_notifyChain (ns : List ℕ)
    (hchain : (vqGetchain sc.vs sc.ram sc.mem sc.vq).1 = .descs head vds) :
    ∃ vq, pciVt9pNotify true ns sc =
      notifyChain ns { sc with vq } head vds.length (filled sc.ram vds) := by
  obtain ⟨vq, hget⟩ : ∃ vq, vqGetchain sc.vs sc.ram sc.mem sc.vq = (.descs head vds, vq) :=
    ⟨_, Prod.ext hchain rfl⟩
  exact ⟨vq, by simp only [pciVt9pNotify, hget, Bool.not_true, Bool.false_eq_true, if_false]⟩

/-- What makes the whole call leave its arrays. -/
theorem notify_within_iff (hchain : (vqGetchain sc.vs sc.ram sc.mem sc.vq).1 = .descs head vds) :
    pciVt9pNotify true ns sc ≠ .error .iovOverrun ↔ RequestFits ns sc vds := by
  obtain ⟨vq, hcall⟩ := notify_eq_notifyChain ns hchain
  have hlen : (filled sc.ram vds).length = min maxdesc vds.length := by rw [filled, length_map, length_take]
  rw [hcall, RequestFits]
  by_cases hmax : vds.length ≤ maxdesc
  · have hfull : vds.length = (filled sc.ram vds).length := by omega
    have hne : filled sc.ram vds ≠ [] := by
      rw [← length_pos_iff, ← hfull, length_pos_iff]
      exact vqGetchain_ne_nil hchain
    simp only [hmax, true_and]
    rw [hfull]
    obtain ⟨hm, hs, sc', hok⟩ | ⟨hno, e, he, herr⟩ := notifyChain_cases ns { sc with vq } head hne
    · rw [hok, ne_eq, bind_eq_error]
      simp only [reduceCtorEq, and_false, exists_false, or_false]
      rw [writeLoop_within_iff]
      exact ⟨fun h _ _ => h, fun h => h hm hs⟩
    · rw [herr]
      exact iff_of_true (fun h => he (Except.error.inj h)) fun hm hs => absurd ⟨hm, hs⟩ hno
  · rw [notifyChain, scan, scanLoop_short (by omega)]
    simp [hmax, bind, Except.bind]

/-- Where each user of a chain stays within the entries that `vq_getchain` filled in, of which
there is at least one. -/
theorem arrays_within_iff (head : UInt16) (vds : List VirtioDesc) : (∀ sc : Vsock.PciVtsockSoftc,
      (vqGetchain sc.vs sc.ram sc.mem sc.vqRx).1 = .descs head vds →
      rxArray sc vds ≠ [] ∧
      (∀ h i, pciVtsockProcRx h sc i ≠ .error .iovOverrun ↔ Vsock.ReceiveFits sc i vds) ∧
      (rxDoOneReply sc ≠ .error .iovOverrun ↔ Vsock.ReplyFits sc vds) ∧
      ∀ i, sendCreditUpdate sc i ≠ .error .iovOverrun) ∧
    ∀ (sc : PciVt9pSoftc) ns, (vqGetchain sc.vs sc.ram sc.mem sc.vq).1 = .descs head vds →
      (pciVt9pNotify true ns sc ≠ .error .iovOverrun ↔ RequestFits ns sc vds) := by
  constructor
  · intro sc hchain
    exact ⟨rxArray_ne_nil sc (vqGetchain_ne_nil hchain),
      fun h i => procRx_within_iff h i hchain, reply_within_iff hchain,
      credit_within sc⟩
  · intro sc ns hchain
    exact notify_within_iff hchain

/-- A queue whose one available chain has `n` descriptors of `len` bytes, `flags` set on each. -/
def chainOf (n : ℕ) (len : UInt32) (flags : UInt16) : VqueueInfo where
  vqQsize := 256
  vqFlags := vqAlloc
  vqLastAvail := 0
  vqSaveUsed := 0
  vqMsixIdx := 0
  vqDesc := fun i => ⟨.ofNat (i * len.toNat), len,
    if i + 1 < n then flags ||| vringDescFNext else flags, .ofNat (i + 1)⟩
  vqAvail := ⟨0, 1, fun _ => 0⟩
  vqUsed := ⟨0, 0, fun _ => ⟨0, 0⟩⟩

/-- A 9p device with no request outstanding. -/
def idle9p (vq : VqueueInfo) : PciVt9pSoftc where
  vs := ⟨1, 0, 0, false, []⟩
  ram := ⟨65536, 0⟩
  mem := fun _ => 0
  vq := vq
  out := fun _ => ⟨[], false, 0, 0, 0⟩
  inflight := 0

/-- A connected sock whose peer has room for 64 KiB, and one chain of receive buffers. -/
def receiving (vq : VqueueInfo) : Vsock.PciVtsockSoftc :=
  { initSoftc 3 ⟨65536, 0⟩ [] false with
    vqRx := vq
    socks := fun _ => { initSock with state := .connected, fd := 9, peerBufAlloc := 65536 } }

/-- A request in two segments that the server takes at once, and a chain of 32 receive buffers. -/
theorem arrays_within_short_chains :
    pciVt9pNotify true [20] (idle9p (chainOf 2 10 0)) ≠ .error .iovOverrun ∧
    pciVtsockProcRx ⟨.eagain, .ok, 0⟩ (receiving (chainOf 32 64 2)) 0 ≠ .error .iovOverrun := by
  have hrequest : (vqGetchain ⟨1, 0, 0, false, []⟩ ⟨65536, 0⟩ (fun _ => 0) (chainOf 2 10 0)).1 =
      .descs 0 ((range 2).map (chainOf 2 10 0).vqDesc) := rfl
  have hbuffers : (vqGetchain (receiving (chainOf 32 64 2)).vs (receiving (chainOf 32 64 2)).ram
      (receiving (chainOf 32 64 2)).mem (chainOf 32 64 2)).1 =
      .descs 0 ((range 32).map (chainOf 32 64 2).vqDesc) := rfl
  constructor
  · refine ((arrays_within_iff 0 _).2 (idle9p (chainOf 2 10 0)) [20] hrequest).mpr ⟨by decide, ?_⟩
    intro _ _ _
    exact .inr (.inl rfl)
  · exact (((arrays_within_iff 0 _).1 (receiving (chainOf 32 64 2)) hbuffers).2.1 _ 0).mpr
      (.inl (by decide))

/-- One descriptor more than the array has entries, with room for more at the peer; and a 9p
request in two segments of which the server takes fifteen of twenty bytes. -/
theorem long_chain_overruns :
    pciVtsockProcRx ⟨.eagain, .ok, 0⟩ (receiving (chainOf 33 64 2)) 0 = .error .iovOverrun ∧
    (vqGetchain (receiving (chainOf 33 64 2)).vs (receiving (chainOf 33 64 2)).ram
      (receiving (chainOf 33 64 2)).mem (chainOf 33 64 2)).1 =
      .descs 0 ((range 33).map (chainOf 33 64 2).vqDesc) ∧
    pciVt9pNotify true [] (idle9p (chainOf 69 10 0)) = .error .iovOverrun ∧
    pciVt9pNotify true [15] (idle9p (chainOf 2 10 0)) = .error .iovOverrun := by
  have hrx : stopsIn (fun e => decide (e = .iovOverrun))
      (pciVtsockProcRx ⟨.eagain, .ok, 0⟩ (receiving (chainOf 33 64 2)) 0) = true := by
    decide +kernel
  have hlong : stopsIn (fun e => decide (e = .iovOverrun))
      (pciVt9pNotify true [] (idle9p (chainOf 69 10 0))) = true := by decide +kernel
  have hpart : stopsIn (fun e => decide (e = .iovOverrun))
      (pciVt9pNotify true [15] (idle9p (chainOf 2 10 0))) = true := rfl
  obtain ⟨e₁, h₁, he₁⟩ := exists_of_stopsIn hrx
  obtain ⟨e₂, h₂, he₂⟩ := exists_of_stopsIn hlong
  obtain ⟨e₃, h₃, he₃⟩ := exists_of_stopsIn hpart
  rw [h₁, h₂, h₃, of_decide_eq_true he₁, of_decide_eq_true he₂, of_decide_eq_true he₃]
  exact ⟨rfl, by decide +kernel, rfl, rfl⟩

end HyperCog.P9
