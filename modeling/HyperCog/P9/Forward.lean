import HyperCog.P9.Bounds

/-! The request of a 9p chain on its way to the server, byte for byte. -/
namespace HyperCog.P9

open Virtio Vsock Machine List Prod

/-- Each `writev` is offered exactly what is left of the request, and the last one takes it. -/
def Forwards (m : HostMem) : (rest : List UInt8) → List Writev → Prop
  | rest, [] => rest = []
  | rest, (segs, n) :: calls =>
    iovBytes m segs = rest ∧ iovTotal segs = rest.length ∧ Forwards m (rest.drop n) calls

/-- The request goes out whole, and nothing else is offered. -/
def Forwarded (m : HostMem) (nread : ℕ) (ns : List ℕ) (us ws : List Iovec) : Prop :=
  ∃ calls, writeLoop nread ns (us ++ ws) (iovTotal us) = .ok calls ∧ Forwards m (iovBytes m us) calls

/-- The empty segments that follow the readable ones. -/
def emptyAfter (ws : List Iovec) : ℕ := (ws.takeWhile fun v => v.iovLen = 0).length

variable {m : HostMem} {us us' ws : List Iovec} {es : List Entry} {n nread : ℕ} {ns : List ℕ}

theorem passWritten_append (hm : Mapped us) (hn : n < iovTotal us) :
    ∃ us', passWritten (us ++ ws) n = .ok (us' ++ ws) ∧ Mapped us' ∧
      iovBytes m us' = (iovBytes m us).drop n ∧ iovTotal us' = iovTotal us - n := by
  induction us generalizing n with
  | nil => cases hn
  | cons v us ih =>
    obtain ⟨hv, hus⟩ := mapped_cons.mp hm
    rw [iovTotal_cons] at hn
    rw [cons_append, passWritten, iovBytes_cons, iovTotal_cons]
    by_cases hle : v.iovLen ≤ n
    · obtain ⟨us', hpass, hmap, hbytes, htot⟩ := ih hus (n := n - v.iovLen) (by omega)
      refine ⟨us', by rw [if_pos hle, hpass], hmap, ?_, by omega⟩
      have hpast : (segBytes m v).drop n = [] := drop_eq_nil_of_le (by rwa [length_segBytes hv])
      rw [hbytes, drop_append, length_segBytes hv, hpast, nil_append]
    · have hlt : n < v.iovLen := by omega
      refine ⟨advance v n :: us, by rw [if_neg hle, cons_append], ?_, ?_, ?_⟩
      · exact mapped_cons.mpr ⟨.inr (by simpa [advance] using hv.resolve_left (by omega)), hus⟩
      · rw [iovBytes_cons, (copyFrom_part hv hlt).2,
          drop_append_of_le_length (by rw [length_segBytes hv]; exact Nat.le_of_lt hlt)]
      · rw [iovTotal_cons, advance]
        dsimp only
        omega

theorem iovTotal_append (us ws : List Iovec) : iovTotal (us ++ ws) = iovTotal us + iovTotal ws := by
  simp [iovTotal]

theorem iovTotal_take_eq_zero {p : ℕ} (hp : p ≤ ws.length) :
    iovTotal (ws.take p) = 0 ↔ p ≤ emptyAfter ws := by
  induction ws generalizing p with
  | nil => simp_all
  | cons v ws ih =>
    cases p with
    | zero => simp
    | succ p =>
      rw [take_succ_cons, iovTotal_cons, Nat.add_eq_zero_iff, ih (Nat.le_of_succ_le_succ hp)]
      by_cases hv : v.iovLen = 0
      all_goals simp [emptyAfter, hv]

/-- As many entries as there were readable ones at first offer the rest of these, and nothing else
just in case only empty ones follow. -/
theorem offered_iff (hm : Mapped us) {p : ℕ} (hp : p ≤ ws.length) :
    iovBytes m (us ++ ws.take p) = iovBytes m us ∧
      iovTotal (us ++ ws.take p) = (iovBytes m us).length ↔ p ≤ emptyAfter ws := by
  rw [← iovTotal_take_eq_zero hp, iovTotal_append, length_iovBytes hm]
  constructor
  · rintro ⟨-, h⟩
    omega
  · intro h
    have hempty : Mapped (ws.take p) := fun v hv => .inl (by
      exact List.sum_eq_zero_iff_forall_eq_nat.mp h v.iovLen (mem_map_of_mem hv))
    have hnil := eq_nil_of_length_eq_zero ((length_iovBytes (m := m) hempty).trans h)
    exact ⟨by simp [iovBytes] at hnil ⊢; exact hnil, by omega⟩

theorem leftAfter_eq {r : ℕ} (hn : n ≤ r) (hr : r < 2 ^ 64) : leftAfter r n = r - n := by
  unfold leftAfter
  omega

/-- One turn of the loop: the call is offered the rest of the request alone, and what it leaves is
forwarded by the others. -/
theorem forwarded_cons (us' : List Iovec) (hm : Mapped us) (h64 : iovTotal us < 2 ^ 64) (hn : 0 < n)
    (hle : n ≤ iovTotal us) {p : ℕ} (hread : nread = us.length + p)
    (hpass : n < iovTotal us → passWritten (us ++ ws) n = .ok (us' ++ ws)) :
    Forwarded m nread (n :: ns) us ws ↔
      p ≤ emptyAfter ws ∧ (n < iovTotal us → Forwarded m nread ns us' ws) := by
  have hfit : emptyAfter ws ≤ ws.length := (List.takeWhile_prefix _).length_le
  have htake : (us ++ ws).take nread = us ++ ws.take p := by rw [hread, take_length_add_append]
  rw [Forwarded, writeLoop, if_neg (by omega), htake, leftAfter_eq hle h64]
  by_cases hlen : (us ++ ws).length < nread
  · rw [if_pos hlen]
    rw [length_append] at hlen
    simp
    omega
  rw [if_neg hlen]
  rw [length_append] at hlen
  rw [← offered_iff (m := m) hm (by omega)]
  simp only [if_neg (Nat.ne_of_gt hn)]
  by_cases hlast : iovTotal us - n = 0
  · have hrest : (iovBytes m us).drop n = [] := by
      rw [drop_eq_nil_iff, length_iovBytes hm]
      omega
    simp [hlast, Forwards, hrest, show ¬ n < iovTotal us by omega]
  · have hlt : n < iovTotal us := by omega
    obtain ⟨us₁, hpass₁, -, hbytes, htot⟩ := @passWritten_append m us ws n hm hlt
    cases append_cancel_right (Except.ok.inj (hpass₁.symm.trans (hpass hlt)))
    rw [if_neg hlast, hpass₁, ← htot]
    change (∃ calls, (writeLoop nread ns (us' ++ ws) (iovTotal us') >>= _) = _ ∧ _) ↔ _
    simp only [bind_eq_ok]
    constructor
    · rintro ⟨_, ⟨rest, hrest, hcall⟩, hcalls⟩
      cases hcall
      obtain ⟨hb, ht, hf⟩ := hcalls
      exact ⟨⟨hb, ht⟩, fun _ => ⟨rest, hrest, hbytes ▸ hf⟩⟩
    · rintro ⟨⟨hb, ht⟩, hnext⟩
      obtain ⟨rest, hrest, hf⟩ := hnext hlt
      exact ⟨_, ⟨rest, hrest, rfl⟩, hb, ht, hbytes ▸ hf⟩

/-- The request is forwarded exactly as long as the partial writes end among the entries that may be
passed. -/
theorem forwarded_iff_of_passed (hm : Mapped us) (h64 : iovTotal us < 2 ^ 64) (h0 : iovTotal us ≠ 0)
    (hpos : ∀ n ∈ ns, 0 < n) (hsum : ns.sum = iovTotal us) {p : ℕ} (hread : nread = us.length + p) :
    Forwarded m nread ns us ws ↔ p ≤ emptyAfter ws ∧
      WritesShort (iovTotal us) (iovTotal ((us ++ ws).take (emptyAfter ws - p + 1))) ns := by
  induction ns generalizing us p with
  | nil => exact absurd hsum.symm h0
  | cons n ns ih =>
    obtain ⟨hn, hpos⟩ := forall_mem_cons.mp hpos
    rw [sum_cons] at hsum
    rw [WritesShort, leftAfter_eq (by omega) h64]
    by_cases hlast : iovTotal us - n = 0
    · have hlt : ¬ n < iovTotal us := by omega
      rw [forwarded_cons us hm h64 hn (by omega) hread fun h => absurd h hlt]
      simp [hlast, hlt]
    · obtain ⟨us', hpass, hmap, -, htot⟩ := @passWritten_append m us ws n hm (by omega)
      rw [forwarded_cons us' hm h64 hn (by omega) hread fun _ => hpass]
      refine and_congr_right fun hp => ?_
      have hne : 0 < us.length := by
        rw [length_pos_iff]
        rintro rfl
        exact h0 rfl
      have hfit : emptyAfter ws - p < (us ++ ws).length := by
        have hle : emptyAfter ws ≤ ws.length := (List.takeWhile_prefix _).length_le
        rw [length_append]
        omega
      have hspec := passWritten_spec (n := n) hfit
      have hnext {j : ℕ} (hj : us'.length + j = us.length) :=
        ih hmap (by omega) (by omega) hpos (by omega) (show nread = us'.length + (p + j) by omega)
      by_cases hroom : n < iovTotal ((us ++ ws).take (emptyAfter ws - p + 1))
      · rw [if_pos hroom] at hspec
        obtain ⟨iov', j, hok, hj, hlen, hroom'⟩ := hspec
        cases hpass.symm.trans hok
        rw [length_append, length_append] at hlen
        rw [hnext (show us'.length + j = us.length by omega), ← Nat.sub_sub, hroom', htot]
        simp [hn.ne', hlast, hroom, show n < iovTotal us by omega]
        omega
      · rw [if_neg hroom, hpass] at hspec
        obtain herr | ⟨_, hok, hlen⟩ := hspec
        · cases herr
        · cases hok
          rw [length_append, length_append] at hlen
          rw [hnext (show us'.length + (us.length - us'.length) = us.length by omega)]
          omega

/-- The writing of a request in terms of its own entries. -/
theorem forwarded_iff (hm : Mapped ((readable es).map fst)) (h64 : requestBytes es < 2 ^ 64)
    (hpos : ∀ n ∈ ns, 0 < n) (hsum : ns.sum = requestBytes es) :
    (∃ calls, writeLoop (readable es).length ns (es.map fst) (requestBytes es) = .ok calls ∧
      Forwards m (iovBytes m ((readable es).map fst)) calls) ↔
    WritesShort (requestBytes es) (iovTotal ((es.map fst).take
      (emptyAfter ((es.dropWhile fun e => !isWrite e).map fst) + 1))) ns := by
  have hsplit : es.map fst = (readable es).map fst ++ (es.dropWhile fun e => !isWrite e).map fst := by
    rw [← map_append, readable, takeWhile_append_dropWhile]
  rw [hsplit]
  by_cases h0 : requestBytes es = 0
  · cases ns with
    | nil =>
      have hnil := eq_nil_of_length_eq_zero ((length_iovBytes (m := m) hm).trans h0)
      rw [writeLoop, if_pos h0, hnil]
      simp [Forwards, WritesShort]
    | cons n ns =>
      have hn := hpos n mem_cons_self
      rw [sum_cons] at hsum
      omega
  · exact (forwarded_iff_of_passed (p := 0) hm h64 h0 hpos hsum (by simp)).trans
      (and_iff_right (Nat.zero_le _))

/-- The call returns, and the server was offered the request byte for byte and nothing else: the
readable segments of the chain, as they are after the fix-up of a Twrite header. -/
def RequestForwarded (ns : List ℕ) (sc : PciVt9pSoftc) (es : List Entry) : Prop :=
  ∃ calls sc', pciVt9pNotify true ns sc = .ok (calls, sc') ∧
    Forwards sc'.mem (iovBytes sc'.mem ((readable es).map fst)) calls

/-- The chain fits the arrays, its first segment can be read if it holds a header, a slot is free,
and each partial write ends in the first entries, one more than there are empty ones behind the
request. -/
structure Forwardable (ns : List ℕ) (sc : PciVt9pSoftc) (vds : List VirtioDesc) : Prop where
  fits : vds.length ≤ maxdesc
  mapped : HeaderMapped (filled sc.ram vds)
  slot : ∃ slot < vt9pRingsz, (sc.out slot).inuse = false
  short : WritesShort (requestBytes (filled sc.ram vds)) (iovTotal (((filled sc.ram vds).map fst).take
    (emptyAfter (((filled sc.ram vds).dropWhile fun e => !isWrite e).map fst) + 1))) ns

theorem iovTotal_le {b : ℕ} {iov : List Iovec} (h : ∀ v ∈ iov, v.iovLen ≤ b) :
    iovTotal iov ≤ iov.length * b := by
  induction iov with
  | nil => exact Nat.zero_le _
  | cons v vs ih =>
    obtain ⟨hv, hvs⟩ := forall_mem_cons.mp h
    have hrest := ih hvs
    rw [iovTotal_cons, length_cons, Nat.succ_mul]
    omega

/-- The lengths of descriptors have 32 bits, so those of an array add up in a `size_t`. -/
theorem requestBytes_lt (ram : GuestRam) (vds : List VirtioDesc) :
    requestBytes (filled ram vds) < 2 ^ 64 := by
  have hle : (readable (filled ram vds)).length ≤ maxdesc := by
    refine Nat.le_trans (List.takeWhile_prefix _).length_le ?_
    rw [filled, length_map, length_take]
    exact Nat.min_le_left _ _
  have hbytes : iovTotal ((readable (filled ram vds)).map fst) ≤
      ((readable (filled ram vds)).map fst).length * 2 ^ 32 := by
    refine iovTotal_le fun v hv => ?_
    obtain ⟨e, he, rfl⟩ := mem_map.mp hv
    obtain ⟨vd, -, rfl⟩ := mem_map.mp ((List.takeWhile_prefix _).subset he)
    exact Nat.le_of_lt vd.vdLen.toNat_lt
  have hmax : maxdesc = 68 := rfl
  rw [requestBytes]
  rw [length_map] at hbytes
  omega

/-- A request is forwarded exactly if its chain is forwardable. -/
theorem request_forwarded_iff (sc : PciVt9pSoftc) (ns : List ℕ) {head : UInt16} {vds : List VirtioDesc}
    (hchain : (vqGetchain sc.vs sc.ram sc.mem sc.vq).1 = .descs head vds)
    (hm : Mapped ((readable (filled sc.ram vds)).map fst)) (hpos : ∀ n ∈ ns, 0 < n)
    (hsum : ns.sum = requestBytes (filled sc.ram vds)) :
    RequestForwarded ns sc (filled sc.ram vds) ↔ Forwardable ns sc vds := by
  obtain ⟨vq, hcall⟩ := notify_eq_notifyChain ns hchain
  have hlen : (filled sc.ram vds).length = min maxdesc vds.length := by
    rw [filled, length_map, length_take]
  rw [RequestForwarded, hcall]
  by_cases hmax : vds.length ≤ maxdesc
  case neg =>
    rw [notifyChain, scan, scanLoop_short (by omega)]
    exact iff_of_false (by simp [bind, Except.bind]) fun h => hmax h.fits
  have hfull : vds.length = (filled sc.ram vds).length := by omega
  have hne : filled sc.ram vds ≠ [] := by
    rw [← length_pos_iff, ← hfull, length_pos_iff]
    exact vqGetchain_ne_nil hchain
  rw [hfull]
  obtain ⟨hmap, hslot, sc', hok⟩ | ⟨hno, e, -, herr⟩ := notifyChain_cases ns { sc with vq } head hne
  · have hwrite := forwarded_iff (m := sc'.mem) hm (requestBytes_lt _ _) hpos hsum
    rw [hok]
    constructor
    · rintro ⟨calls, t, hret, hf⟩
      obtain ⟨calls', hw, hret⟩ := bind_eq_ok.mp hret
      cases hret
      exact ⟨hmax, hmap, hslot, hwrite.mp ⟨calls, hw, hf⟩⟩
    · intro h
      obtain ⟨calls, hw, hf⟩ := hwrite.mpr h.short
      exact ⟨calls, sc', bind_eq_ok.mpr ⟨calls, hw, rfl⟩, hf⟩
  · rw [herr]
    exact iff_of_false (by simp) fun h => hno ⟨h.mapped, h.slot⟩

/-- A chain of a request in two segments and a segment of `room` bytes for the answer. -/
def twoSegments (room : UInt32) : VqueueInfo :=
  { chainOf 3 10 0 with
    vqDesc := fun i => if i < 2 then (chainOf 3 10 0).vqDesc i else ⟨64, room, 2, 0⟩ }

def twoDescs (room : UInt32) : List VirtioDesc := (range 3).map (twoSegments room).vqDesc

/-- Of twenty bytes the server takes fifteen, and nothing stands in the way. -/
theorem forwarded_before_empty :
    RequestForwarded [15, 5] (idle9p (twoSegments 0)) (filled ⟨65536, 0⟩ (twoDescs 0)) := by
  have hchain : (vqGetchain ⟨1, 0, 0, false, []⟩ ⟨65536, 0⟩ (fun _ => 0) (twoSegments 0)).1 =
      .descs 0 (twoDescs 0) := rfl
  refine (request_forwarded_iff (idle9p (twoSegments 0)) [15, 5] hchain (by unfold Mapped; decide)
    (by decide) rfl).mpr ⟨by decide, ?_, ⟨0, by decide, rfl⟩, .inr (.inr ⟨by decide, .inr (.inl rfl)⟩)⟩
  rintro e ⟨⟩
  exact .inr rfl

/-- With room for an answer behind them, the second `writev` is offered that room too. -/
theorem answer_offered : (pciVt9pNotify true [15, 5] (idle9p (twoSegments 100))).toOption.map fst =
      some [([⟨some 0, 10⟩, ⟨some 10, 10⟩], 15), ([⟨some 15, 5⟩, ⟨some 64, 100⟩], 5)] ∧
    ¬ RequestForwarded [15, 5] (idle9p (twoSegments 100)) (filled ⟨65536, 0⟩ (twoDescs 100)) := by
  have hcalls : (pciVt9pNotify true [15, 5] (idle9p (twoSegments 100))).toOption.map fst =
      some [([⟨some 0, 10⟩, ⟨some 10, 10⟩], 15), ([⟨some 15, 5⟩, ⟨some 64, 100⟩], 5)] := by
    decide +kernel
  refine ⟨hcalls, ?_⟩
  rintro ⟨calls, sc', hret, hf⟩
  rw [hret] at hcalls
  cases hcalls
  obtain ⟨-, -, -, htotal, -⟩ := hf
  cases htotal

end HyperCog.P9
