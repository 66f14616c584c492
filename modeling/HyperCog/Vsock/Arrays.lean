import HyperCog.Virtio.Bounds
import HyperCog.Vsock.Release

/-!
The receive functions as users of a local array: `vq_getchain` fills at most
`VTSOCK_MAXSEGS` entries but returns the length of the whole chain.
-/
namespace HyperCog.Vsock

open Virtio Machine List

/-- The chain fits the array, the call ends before it is walked, or the entries that are there
take the header and all that the peer has room for. -/
def ReceiveFits (sc : PciVtsockSoftc) (i : SockId) (vds : List VirtioDesc) : Prop :=
  vds.length ≤ vtsockMaxsegs ∨ (sc.socks i).fd < 0 ∨ vqHasDescs sc.vqRx = false ∨
    (∃ v ∈ (rxArray sc vds).head?, v.iovLen < sizeofHdr ∨ v.iovBase = none) ∨
    peerFree (sc.socks i) = 0 ∨
    sizeofHdr + (peerFree (sc.socks i)).toNat ≤ iovTotal (rxArray sc vds)

/-- The chain fits the array, there is no reply, a segment outside guest RAM stops the copy, or
the entries that are there take the header. -/
def ReplyFits (sc : PciVtsockSoftc) (vds : List VirtioDesc) : Prop :=
  vds.length ≤ vtsockMaxsegs ∨ replyRingEmpty sc = true ∨ ¬ Mapped (rxArray sc vds) ∨
    sizeofHdr ≤ iovTotal (rxArray sc vds)

variable {m : HostMem} {v : Iovec} {iov vs : List Iovec} {iovLen : ℕ} {buf : List UInt8}
  {sc : PciVtsockSoftc} {i : SockId} {h : RxHost} {idx head : UInt16} {base : ℕ}
  {vds : List VirtioDesc}

theorem iovecPush_nil : iovecPush m iovLen iov [] = .ok ⟨0, m, iovLen, iov⟩ := by
  cases iovLen with
  | zero | succ => rfl

theorem copyTo_cases (m : HostMem) (v : Iovec) (bs : List UInt8) :
    ((bs = [] ∨ v.iovBase.isSome = true) ∧ ∃ m', copyTo m v bs = .ok m') ∨
      (¬ (bs = [] ∨ v.iovBase.isSome = true) ∧ copyTo m v bs = .error .segfault) := by
  unfold copyTo
  by_cases hbs : bs = []
  · simp [hbs]
  · cases hb : v.iovBase with
    | none | some => simp [hbs]

/-- Only a chain that is longer than the array, and whose entries are used up without a fault,
leads past them. -/
theorem iovecPush_overrun_iff (m : HostMem) (buf : List UInt8) (hlen : iov.length ≤ iovLen) :
    iovecPush m iovLen iov buf = .error .iovOverrun ↔
      iov.length < iovLen ∧ iovTotal iov < buf.length ∧ Mapped iov := by
  induction iov generalizing m iovLen buf with
  | nil =>
    cases iovLen with
    | zero => simp [iovecPush]
    | succ n =>
      by_cases h0 : buf = []
      · simp [h0, iovecPush]
      · simp [h0, iovecPush, Mapped, length_pos_iff]
  | cons v vs ih =>
    obtain ⟨n, rfl⟩ : ∃ n, iovLen = n + 1 := Nat.exists_eq_succ_of_ne_zero (by
      rw [length_cons] at hlen
      omega)
    rw [iovTotal_cons, length_cons, mapped_cons, iovecPush]
    by_cases h0 : buf = []
    · simp [h0]
    have hpos := length_pos_iff.mpr h0
    rw [if_neg h0]
    dsimp only
    generalize hc : (if buf.length < v.iovLen then buf.length else v.iovLen) = c
    have hmin : c = min buf.length v.iovLen := by
      rw [← hc]
      split <;> omega
    have htake : buf.take c = [] ↔ v.iovLen = 0 := by
      rw [take_eq_nil_iff]
      simp only [h0, or_false]
      omega
    obtain ⟨hv, m', hcopy⟩ | ⟨hv, hcopy⟩ := copyTo_cases m v (buf.take c)
    · rw [htake] at hv
      rw [hcopy]
      dsimp only
      by_cases hfull : v.iovLen - c = 0
      · have hrest := ih m' (buf.drop c) (Nat.le_of_succ_le_succ hlen)
        rw [length_drop] at hrest
        rw [if_pos hfull]
        refine (Iff.trans ?_ hrest).trans ?_
        · cases iovecPush m' n vs (buf.drop c) with
          | error | ok => simp
        constructor
        · rintro ⟨hmore, hfew, hm⟩
          exact ⟨by omega, by omega, hv, hm⟩
        · rintro ⟨hmore, hfew, -, hm⟩
          exact ⟨by omega, by omega, hm⟩
      · rw [if_neg hfull]
        exact iff_of_false nofun (by omega)
    · rw [htake] at hv
      rw [hcopy]
      exact iff_of_false nofun fun hall => hv hall.2.2.1

/-- A header that fits the first entry is copied there, and the cursor moves by at most one. -/
theorem iovecPush_head (m : HostMem) (vs : List Iovec) (n : ℕ) (hb : v.iovBase = some base) (h0 : buf ≠ [])
    (hle : buf.length ≤ v.iovLen) : ∃ p, iovecPush m (n + 1) (v :: vs) buf = .ok p ∧
      iovTotal p.iov + buf.length = iovTotal (v :: vs) ∧ p.iov.length + n = vs.length + p.iovLen := by
  have hpos := length_pos_iff.mpr h0
  rw [iovecPush, if_neg h0]
  by_cases hlt : buf.length < v.iovLen
  · have hleft : v.iovLen - buf.length ≠ 0 := by omega
    simp only [if_pos hlt, take_length, copyTo, if_neg h0, hb, if_neg hleft]
    refine ⟨_, rfl, ?_, ?_⟩
    · rw [iovTotal_cons, iovTotal_cons, advance]
      dsimp only
      omega
    · change vs.length + 1 + n = vs.length + (n + 1)
      omega
  · have hall : buf.length = v.iovLen := by omega
    simp only [← hall, ite_self, take_length, drop_length, copyTo, if_neg h0, hb, Nat.sub_self,
      if_true, iovecPush_nil]
    refine ⟨_, rfl, ?_, ?_⟩
    · rw [iovTotal_cons]
      dsimp only
      omega
    · rfl

theorem length_rxArray (sc : PciVtsockSoftc) (vds : List VirtioDesc) :
    (rxArray sc vds).length = min vtsockMaxsegs vds.length := by
  rw [rxArray, length_take, length_map]

theorem rxArray_ne_nil (sc : PciVtsockSoftc) (hne : vds ≠ []) : rxArray sc vds ≠ [] := by
  rw [← length_pos_iff, length_rxArray]
  have hpos := List.length_pos_iff.mpr hne
  have hmax : 0 < vtsockMaxsegs := by decide
  omega

theorem length_toBytes (hdr : VirtioSockHdr) : hdr.toBytes.length = sizeofHdr := by
  rfl

/-- The exits behind the array walk leave no array. -/
theorem closing_ne_overrun {rc : ShutdownResult} {sock : Option SockId} :
    closeSock rc sc sock ≠ .error .iovOverrun := by
  cases sock with
  | none => nofun
  | some i =>
    intro he
    obtain he | ⟨s, -, he⟩ := bind_eq_error.mp he
    · obtain h | h := shutdownPeerLocalFd_error he
      all_goals cases h
    · cases he

theorem rxReadError_ne_overrun : rxReadError h sc i idx base ≠ .error .iovOverrun := by
  intro he
  obtain he | ⟨sc₁, -, he⟩ := bind_eq_error.mp he
  · exact closing_ne_overrun he
  · cases he

theorem rxEof_ne_overrun : rxEof h sc i idx base ≠ .error .iovOverrun := by
  intro he
  obtain he | ⟨s, -, he⟩ := bind_eq_error.mp he
  · unfold shutdownLocalSock at he
    split_ifs at he
    all_goals cases he
  · cases he

/-- With the header in the first entry, the rest of the array has to hold what the peer allows. -/
theorem rxChain_overrun_iff (h : RxHost) (sc : PciVtsockSoftc) (i : SockId) (idx : UInt16)
    (hv : rxArray sc vds = v :: vs) (hb : v.iovBase = some base) (hle : sizeofHdr ≤ v.iovLen) :
    rxChain h sc i idx base vds = .error .iovOverrun ↔
      vtsockMaxsegs < vds.length ∧ peerFree (sc.socks i) ≠ 0 ∧
        iovTotal (rxArray sc vds) < sizeofHdr + (peerFree (sc.socks i)).toNat := by
  have hlen := length_rxArray sc vds
  rw [hv, length_cons] at hlen
  rw [rxChain, hv]
  dsimp only
  by_cases hp : peerFree (sc.socks i) = 0
  · simp [hp]
  obtain ⟨n, hn⟩ : ∃ n, vds.length = n + 1 := Nat.exists_eq_succ_of_ne_zero (by omega)
  have hne : (rxHeader (sc.socks i)).toBytes ≠ [] := by
    rw [← length_pos_iff, length_toBytes]
    decide
  obtain ⟨p, hpush, htot, hcount⟩ := iovecPush_head sc.mem vs n hb hne
    (by rwa [length_toBytes])
  rw [length_toBytes] at htot
  rw [if_neg hp, hn, hpush]
  change (iovecClip p.iovLen p.iov (peerFree (sc.socks i)).toNat >>= _) = _ ↔ _
  obtain ⟨hmore, hfew, hclip⟩ | ⟨hno, kept, hclip, -⟩ :=
    iovecClip_cases p.iovLen p.iov (peerFree (sc.socks i)).toNat
  · rw [hclip]
    refine iff_of_true rfl ⟨?_, hp, ?_⟩
    all_goals omega
  · rw [hclip]
    refine iff_of_false (fun he => ?_) (by omega)
    dsimp only [bind, Except.bind] at he
    split at he
    · cases he
    · exact rxReadError_ne_overrun he
    · split at he
      · exact rxEof_ne_overrun he
      · split at he
        · exact rxReadError_ne_overrun he
        · cases he

theorem procRx_within_iff (h : RxHost) (i : SockId)
    (hchain : (vqGetchain sc.vs sc.ram sc.mem sc.vqRx).1 = .descs head vds) :
    pciVtsockProcRx h sc i ≠ .error .iovOverrun ↔ ReceiveFits sc i vds := by
  obtain ⟨vq, hget⟩ : ∃ vq, vqGetchain sc.vs sc.ram sc.mem sc.vqRx = (.descs head vds, vq) :=
    ⟨_, Prod.ext hchain rfl⟩
  obtain ⟨v, vs, hv⟩ := exists_cons_of_ne_nil (rxArray_ne_nil sc (vqGetchain_ne_nil hchain))
  rw [pciVtsockProcRx, ReceiveFits, hget]
  simp only [hv, head?_cons, Option.mem_def, Option.some.injEq, exists_eq_left']
  by_cases hfd : (sc.socks i).fd < 0
  · simp [hfd]
  by_cases hhas : vqHasDescs sc.vqRx = false
  · simp [hfd, hhas]
  by_cases hshort : v.iovLen < sizeofHdr
  · simp [hfd, hhas, hshort]
  cases hb : v.iovBase with
  | none => simp [hfd, hhas, hshort]
  | some base =>
    have hover := rxChain_overrun_iff h { sc with vqRx := vq } i head hv hb
      (Nat.le_of_not_lt hshort)
    simp only [hfd, hhas, hshort, if_false, ne_eq, false_or, reduceCtorEq, Bool.not_true,
      Bool.false_eq_true]
    rw [hover]
    change ¬ (_ ∧ peerFree (sc.socks i) ≠ 0 ∧
      iovTotal (rxArray sc vds) < sizeofHdr + (peerFree (sc.socks i)).toNat) ↔ _
    rw [hv, not_and_or, not_and_or, not_not, Nat.not_lt, Nat.not_lt]

theorem reply_within_iff (hchain : (vqGetchain sc.vs sc.ram sc.mem sc.vqRx).1 = .descs head vds) :
    rxDoOneReply sc ≠ .error .iovOverrun ↔ ReplyFits sc vds := by
  obtain ⟨vq, hget⟩ : ∃ vq, vqGetchain sc.vs sc.ram sc.mem sc.vqRx = (.descs head vds, vq) :=
    ⟨_, Prod.ext hchain rfl⟩
  have hlen := length_rxArray sc vds
  have hover := iovecPush_overrun_iff sc.mem
    (sc.replyRing sc.replyCons).toBytes (show (rxArray sc vds).length ≤ vds.length by omega)
  rw [length_toBytes] at hover
  rw [rxDoOneReply, ReplyFits]
  by_cases hempty : replyRingEmpty sc = true
  · simp [hempty]
  simp only [hempty, hget, if_false, false_or, Bool.false_eq_true]
  change (iovecPush sc.mem vds.length (rxArray sc vds) _ >>= _) ≠ _ ↔ _
  -- a push that returns is followed by an assertion or the release
  rw [ne_eq, bind_eq_error, or_iff_left (by
    rintro ⟨p, -, he⟩
    split at he
    all_goals cases he), hover]
  by_cases hm : Mapped (rxArray sc vds)
  · simp only [hm, and_true, not_true_eq_false, false_or]
    omega
  · simp [hm]

theorem credit_within (sc : PciVtsockSoftc) (i : SockId) :
    sendCreditUpdate sc i ≠ .error .iovOverrun := by
  unfold sendCreditUpdate
  dsimp only
  repeat' split
  all_goals nofun

end HyperCog.Vsock
