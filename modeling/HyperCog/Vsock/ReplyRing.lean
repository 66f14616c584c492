import HyperCog.Lib.Ring
import HyperCog.Vsock.Effects

/-! The reply ring over whole runs of both threads and the guest. -/
namespace HyperCog.Vsock

open Virtio List Function

/-- The replies queued and not yet taken, as the two indices count them. -/
def pendingReplies (sc : PciVtsockSoftc) : ℕ :=
  (sc.replyProd + vtsockReplyringsz - sc.replyCons) % vtsockReplyringsz

/-- The ring holds the replies `q` and nothing queued was lost or reordered. -/
structure RingOk (r : Replies) (q : List VirtioSockHdr) : Prop where
  cons_lt : r.cons < vtsockReplyringsz
  prod_eq : r.prod = (r.cons + q.length) % vtsockReplyringsz
  room : q.length < vtsockReplyringsz
  holds : Ring.Holds vtsockReplyringsz r.ring r.cons q
  history : r.queued = r.delivered ++ q

variable {r r' : Replies} {q queued : List VirtioSockHdr} {hdr : VirtioSockHdr}
  {sc : PciVtsockSoftc} {s t : System} {a : Action} {as : List Action} {guestCid : UInt64}
  {ram : GuestRam} {fwds : List UInt32} {msix kick : Bool} {n : ℕ} {k : UInt16}
  {ring : ℕ → VirtioSockHdr} {used : ℕ → VirtioUsed}

theorem nextSlot_eq_mod {slot : ℕ} (h : slot < vtsockReplyringsz) :
    nextSlot slot = (slot + 1) % vtsockReplyringsz := by
  unfold nextSlot
  split
  · rename_i hwrap
    rw [hwrap, Nat.mod_self]
  · rw [Nat.mod_eq_of_lt (by omega)]

theorem RingOk.nextSlot_prod (h : RingOk r q) :
    nextSlot r.prod = (r.cons + (q.length + 1)) % vtsockReplyringsz := by
  have hlt : r.prod < vtsockReplyringsz := by
    rw [h.prod_eq]
    exact Nat.mod_lt _ (by decide)
  rw [nextSlot_eq_mod hlt, h.prod_eq, Nat.mod_add_mod, Nat.add_assoc]

/-- The producer meets the consumer only when all but one slot are taken. -/
theorem RingOk.full_iff (h : RingOk r q) :
    r.cons = nextSlot r.prod ↔ q.length + 1 = vtsockReplyringsz := by
  have hcons := h.cons_lt
  have hroom := h.room
  rw [h.nextSlot_prod]
  simp only [vtsockReplyringsz, vtsockRingsz] at hcons hroom ⊢
  omega

theorem RingOk.empty_iff (h : RingOk r q) : r.cons = r.prod ↔ q = [] := by
  have hcons := h.cons_lt
  have hroom := h.room
  rw [h.prod_eq, ← length_eq_zero_iff]
  simp only [vtsockReplyringsz, vtsockRingsz] at hcons hroom ⊢
  omega

theorem RingOk.pending (h : RingOk sc.replies q) : pendingReplies sc = q.length := by
  have hcons : sc.replyCons < vtsockReplyringsz := h.cons_lt
  have hprod : sc.replyProd = (sc.replyCons + q.length) % vtsockReplyringsz := h.prod_eq
  have hroom := h.room
  rw [pendingReplies, hprod]
  simp only [vtsockReplyringsz, vtsockRingsz] at hcons hroom ⊢
  omega

theorem ringOk_queue (h : RingOk r q) (hroom : r.cons ≠ nextSlot r.prod) :
    RingOk (r.queue hdr) (q ++ [hdr]) := by
  have hlen := h.room
  rw [ne_eq, h.full_iff] at hroom
  refine ⟨h.cons_lt, ?_, ?_, ?_, ?_⟩
  · rw [length_append]
    exact h.nextSlot_prod
  · rw [length_append, length_singleton]
    omega
  · have hpush := Ring.holds_push (x := hdr) h.holds hlen
    rw [← h.prod_eq] at hpush
    exact hpush
  · simp only [Replies.queue, h.history, append_assoc]

theorem ringOk_deliver (h : RingOk r q) (hsome : r.cons ≠ r.prod) : ∃ q', RingOk r.deliver q' := by
  rw [ne_eq, h.empty_iff] at hsome
  obtain ⟨x, q', rfl⟩ := exists_cons_of_ne_nil hsome
  have hhead : r.ring r.cons = x := by
    have hx := Ring.holds_head h.holds
    rwa [Nat.mod_eq_of_lt h.cons_lt] at hx
  have hlen := h.room
  rw [length_cons] at hlen
  refine ⟨q', ?_, ?_, by omega, ?_, ?_⟩
  · simp only [Replies.deliver]
    rw [nextSlot_eq_mod h.cons_lt]
    exact Nat.mod_lt _ (by decide)
  · simp only [Replies.deliver]
    rw [nextSlot_eq_mod h.cons_lt, Nat.mod_add_mod, h.prod_eq, length_cons]
    congr 1
    omega
  · simp only [Replies.deliver]
    rw [nextSlot_eq_mod h.cons_lt, Ring.holds_mod]
    exact Ring.holds_pop h.holds
  · simp only [Replies.deliver, h.history, hhead, append_assoc, singleton_append]

theorem ringOk_moved (h : RingOk r q) (hm : Moved r r') : ∃ q', RingOk r' q' := by
  rcases hm with (rfl | ⟨hroom, hdr, rfl⟩) | ⟨hsome, rfl⟩
  · exact ⟨q, h⟩
  · exact ⟨_, ringOk_queue h hroom⟩
  · exact ringOk_deliver h hsome

/-- The ring invariant of a whole system. -/
def RingKept (s : System) : Prop := ∃ q, RingOk s.sc.replies q

theorem ringKept_init : RingKept (initSystem guestCid ram fwds msix) :=
  ⟨[], Nat.zero_lt_succ _, rfl, Nat.zero_lt_succ _, Ring.holds_nil, rfl⟩

theorem ringKept_step (hs : step s a = .ok t) (h : RingKept s) : RingKept t := by
  obtain ⟨q, hq⟩ := h
  exact ringOk_moved hq ((step_effects s a).moved t hs)

theorem ringKept_run (hrun : Machine.Run step Machine.Any (initSystem guestCid ram fwds msix) as s) :
    RingKept s :=
  hrun.invariant (fun _ _ _ _ hs h => ringKept_step hs h) ringKept_init

/-- Whenever a handler is about to queue a reply, two slots are free. -/
def ReplyRoom (s : System) (a : Action) : Prop :=
  Queues s a → pendingReplies s.sc + 1 < vtsockReplyringsz

/-- In every state that the threads and the guest can reach, the ring holds exactly the
replies queued and not yet delivered, in order, and no action that respects
`ReplyRoom` makes the producer catch up with the consumer. -/
theorem reply_ring_sound
    (hrun : Machine.Run step Machine.Any (initSystem guestCid ram fwds msix) as s) :
    (∃ q, s.sc.queued = s.sc.delivered ++ q ∧ q.length = pendingReplies s.sc ∧
      Ring.Holds vtsockReplyringsz s.sc.replyRing s.sc.replyCons q) ∧
    ∀ a, ReplyRoom s a → step s a ≠ .error (.fault .replyRingOverflow) := by
  obtain ⟨q, hq⟩ := ringKept_run hrun
  refine ⟨⟨q, hq.history, hq.pending.symm, hq.holds⟩, ?_⟩
  intro a hroom hover
  obtain ⟨hqueues, hfull⟩ := (step_effects s a).overflow hover
  have hpending := hroom hqueues
  rw [hq.pending] at hpending
  have hall := hq.full_iff.mp hfull
  omega

/-- The device after `n` unanswered packets from a guest that posts no receive buffer.
Both sides are at index `k` of the transmit queue and the guest offers up to `avail`. -/
def flooded (n : ℕ) (k avail : UInt16) (ring : ℕ → VirtioSockHdr) (queued : List VirtioSockHdr)
    (kick : Bool) (used : ℕ → VirtioUsed) : System where
  sc := { guestStep (initSoftc 3 ⟨4096, 0⟩ [] false) .initQueues with
    vqTx := { viVqInit initQueue with
      vqLastAvail := k
      vqDesc := fun _ => ⟨0, 44, 0, 0⟩
      vqAvail := ⟨0, avail, fun _ => 0⟩
      vqUsed := ⟨0, k, used⟩ }
    replyRing := ring
    replyProd := n
    queued := queued
    rxKickPending := kick }
  tx := ⟨.packets, [], [], false⟩
  rx := ⟨.top, true, [], [], []⟩

/-- The guest offers one more packet, 44 zero bytes at address 0. -/
def offerZero (k : UInt16) (used : ℕ → VirtioUsed) : Action :=
  .guest (.rings (fun _ => ⟨0, 44, 0, 0⟩) ⟨0, k + 1, fun _ => 0⟩ ⟨0, k, used⟩
    initQueue.vqDesc initQueue.vqAvail initQueue.vqUsed)

/-- With one chain on offer, a single plain descriptor, `vq_getchain` returns it. -/
theorem getchain_single {vs : VirtioSoftc} {gram : GuestRam} {m : HostMem} {vq : VqueueInfo}
    {vd : VirtioDesc} (hdist : vq.vqAvail.vaIdx - vq.vqLastAvail = 1)
    (hsize : 0 < vq.vqQsize.toNat) (hring : vq.vqAvail.vaRing = fun _ => 0)
    (hdesc : vq.vqDesc 0 = vd) (hflags : vd.vdFlags = 0) :
    vqGetchain vs gram m vq = (.descs 0 [vd], { vq with vqLastAvail := vq.vqLastAvail + 1 }) := by
  have hne : ¬ vq.vqAvail.vaIdx - vq.vqLastAvail = 0 := by
    rw [hdist]
    decide
  have hle : ¬ vq.vqQsize < vq.vqAvail.vaIdx - vq.vqLastAvail := by
    rw [hdist]
    change ¬ vq.vqQsize.toNat < 1
    omega
  have hzero : (0 : UInt16).toNat = 0 := rfl
  have hwalk : walkChain vs gram m vq vqMaxDescriptors vqMaxDescriptors 0 = .ok [vd] := by
    have hin : ¬ vq.vqQsize.toNat = 0 := by omega
    simp [vqMaxDescriptors, walkChain, hdesc, hflags, hin]
  simp only [vqGetchain, if_neg hne, if_neg hle, hring, hzero, hwalk]

theorem flooded_getchain :
    let sc := (flooded n k (k + 1) ring queued kick used).sc
    vqGetchain sc.vs sc.ram sc.mem sc.vqTx =
      (.descs 0 [⟨0, 44, 0, 0⟩], { sc.vqTx with vqLastAvail := k + 1 }) := by
  have hsize : 0 < initQueue.vqQsize.toNat := by decide
  have hdist : k + 1 - k = 1 := by simp
  exact getchain_single hdist hsize rfl rfl rfl

theorem flooded_hasDescs : vqHasDescs (flooded n k (k + 1) ring queued kick used).sc.vqTx := by
  simp [vqHasDescs, flooded, viVqInit, vqRingReady, vqAlloc]

/-- The header of a packet whose bytes are all zero. -/
def zeroHdr : VirtioSockHdr := ⟨0, 0, 0, 0, 0, 0, 0, 0, 0, 0⟩

theorem pull_zeros : iovecPull (fun _ => 0) true [⟨some 0, 44⟩] sizeofHdr =
    .ok ⟨44, replicate 44 0, []⟩ := rfl

theorem ofBytes_zeros : VirtioSockHdr.ofBytes (replicate 44 0) = zeroHdr := by decide

theorem flooded_nextPacket :
    let sc := (flooded n k (k + 1) ring queued kick used).sc
    nextPacket sc = some ⟨0, zeroHdr, [], { sc.vqTx with vqLastAvail := k + 1 }⟩ := by
  have hshort : ¬ vtsockMaxsegs < [(⟨0, 44, 0, 0⟩ : VirtioDesc)].length := by decide
  have hmem : (flooded n k (k + 1) ring queued kick used).sc.mem = fun _ => 0 := rfl
  have hiov : [⟨0, 44, 0, 0⟩].map
      (vqRecord (flooded n k (k + 1) ring queued kick used).sc.ram) = [⟨some 0, 44⟩] := rfl
  have hwhole : ¬ 44 ≠ sizeofHdr := by decide
  dsimp only
  rw [nextPacket, flooded_getchain]
  simp only [if_neg hshort, hmem, hiov, pull_zeros, if_neg hwhole, ofBytes_zeros]

/-- The RST that answers a zero header. -/
def zeroRst : VirtioSockHdr := { zeroHdr with op := virtioVsockOpRst }

/-- The device that has taken the zero packet off the queue. -/
def taken (n : ℕ) (k : UInt16) (ring : ℕ → VirtioSockHdr) (queued : List VirtioSockHdr)
    (kick : Bool) (used : ℕ → VirtioUsed) : PciVtsockSoftc :=
  { (flooded n k (k + 1) ring queued kick used).sc with
    vqTx := { (flooded n k (k + 1) ring queued kick used).sc.vqTx with vqLastAvail := k + 1 } }

theorem taken_addressed : addressed (taken n k ring queued kick used) zeroHdr = false := rfl

theorem taken_send : sendResponseNosock (taken n k ring queued kick used) virtioVsockOpRst zeroHdr.type
      zeroHdr.dstAddr zeroHdr.srcAddr =
    if 0 = nextSlot n then .error .replyRingOverflow
    else .ok (taken (nextSlot n) k (update ring n zeroRst) (queued ++ [zeroRst]) true
      used) := rfl

theorem flooded_procTx : pciVtsockProcTx calmHost (flooded n k (k + 1) ring queued kick used).sc =
    if 0 = nextSlot n then .error .replyRingOverflow
    else .ok (flooded (nextSlot n) (k + 1) (k + 1) (update ring n zeroRst)
      (queued ++ [zeroRst]) true
      (update used (k &&& (initQueue.vqQsize - 1)).toNat ⟨0, 0⟩)).sc := by
  rw [procTx_of_nextPacket flooded_nextPacket]
  change procPacket calmHost (taken n k ring queued kick used) 0 zeroHdr [] = _
  simp only [procPacket, taken_addressed, Bool.not_false, if_true, taken_send]
  split
  · rfl
  · rfl

/-- One more zero packet is answered with a RST while there is room, and then aborts. -/
theorem flooded_packet : step (flooded n k (k + 1) ring queued kick used) (.txPacket calmHost) =
    if 0 = nextSlot n then .error (.fault .replyRingOverflow)
    else .ok (flooded (nextSlot n) (k + 1) (k + 1) (update ring n zeroRst)
      (queued ++ [zeroRst]) true
      (update used (k &&& (initQueue.vqQsize - 1)).toNat ⟨0, 0⟩)) := by
  have hfresh : ¬ (!freshFd (flooded n k (k + 1) ring queued kick used).sc
      calmHost.connect.socket) = true := by
    simp [freshFd, flooded, guestStep, initSoftc]
  have hpc : (flooded n k (k + 1) ring queued kick used).tx.pc = .packets := rfl
  simp only [step, txPacketStep, hpc, if_neg hfresh, if_pos flooded_hasDescs, flooded_procTx]
  split
  · rfl
  · rfl

/-- While the ring has room the flood goes on. -/
theorem flood_run (hn : n < vtsockReplyringsz) : ∃ as k ring queued kick used,
    Machine.Run step Machine.Any (initSystem 3 ⟨4096, 0⟩ [] false) as
      (flooded n k k ring queued kick used) := by
  induction n with
  | zero =>
    refine ⟨[.guest .initQueues, .txTop, .txScan 0 .ok, .txSelect true [] false (fun _ => false),
      .txConnect ⟨-1, none, ⟨true, true, none⟩⟩, .txDrain 0 .eagain .ok,
      .guest (.rings (fun _ => ⟨0, 44, 0, 0⟩) ⟨0, 0, fun _ => 0⟩ ⟨0, 0, fun _ => ⟨0, 0⟩⟩
        initQueue.vqDesc initQueue.vqAvail initQueue.vqUsed)], 0, fun _ => zeroHdr, [], false,
      fun _ => ⟨0, 0⟩, ?_⟩
    exact .stepL trivial rfl (.stepL trivial rfl (.stepL trivial rfl (.stepL trivial rfl
      (.stepL trivial rfl (.stepL trivial rfl (.stepL trivial rfl .refl))))))
  | succ n ih =>
    obtain ⟨as, k, ring, queued, kick, used, hrun⟩ := ih (by omega)
    have hnext : nextSlot n = n + 1 := if_neg (by omega)
    have hpacket : step (flooded n k (k + 1) ring queued kick used) (.txPacket calmHost) = _ :=
      flooded_packet
    rw [hnext] at hpacket
    exact ⟨as ++ [offerZero k used, .txPacket calmHost], k + 1, _, _, _, _,
      hrun.append (.stepL trivial rfl (.stepL trivial hpacket .refl))⟩

/-- A guest that sends 512 zero packets and never posts a receive buffer aborts the device:
the reply to the last one would make the full ring look empty. -/
theorem reply_ring_overflow : ∃ as s h,
    Machine.Run step Machine.Any (initSystem 3 ⟨4096, 0⟩ [] false) as s ∧
      step s (.txPacket h) = .error (.fault .replyRingOverflow) := by
  have hlast : 511 < vtsockReplyringsz := by decide
  obtain ⟨as, k, ring, queued, kick, used, hrun⟩ := flood_run hlast
  refine ⟨as ++ [offerZero k used], flooded 511 k (k + 1) ring queued kick used, calmHost,
    hrun.append (.stepL trivial rfl .refl), ?_⟩
  have hfull : 0 = nextSlot 511 := rfl
  rw [flooded_packet, if_pos hfull]

/-- With 510 replies pending one more packet still finds room. -/
theorem reply_ring_sound_at_limit : ∃ as s,
    Machine.Run step Machine.Any (initSystem 3 ⟨4096, 0⟩ [] false) as s ∧
      pendingReplies s.sc = 510 ∧ Queues s (.txPacket calmHost) ∧
      step s (.txPacket calmHost) ≠ .error (.fault .replyRingOverflow) := by
  have hroom : 510 < vtsockReplyringsz := by decide
  obtain ⟨as, k, ring, queued, kick, used, hrun⟩ := flood_run hroom
  have hrun' : Machine.Run step Machine.Any (initSystem 3 ⟨4096, 0⟩ [] false)
      (as ++ [offerZero k used]) (flooded 510 k (k + 1) ring queued kick used) :=
    hrun.append (.stepL trivial rfl .refl)
  have hpending : pendingReplies (flooded 510 k (k + 1) ring queued kick used).sc = 510 := by
    simp [pendingReplies, flooded, guestStep, initSoftc, vtsockReplyringsz, vtsockRingsz]
  refine ⟨_, _, hrun', hpending, ⟨_, flooded_nextPacket, .inl rfl⟩, ?_⟩
  apply (reply_ring_sound hrun').2
  intro _
  rw [hpending]
  decide

end HyperCog.Vsock
