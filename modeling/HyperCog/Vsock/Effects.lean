import HyperCog.Vsock.Release

/-!
What every handler does to the reply ring, and which handler can trip the assertions
of `send_response_common` and `shutdown_local_sock`.
-/
namespace HyperCog.Vsock

open Virtio Machine Option Prod

/-- The ring after one more reply. -/
def Replies.queue (r : Replies) (hdr : VirtioSockHdr) : Replies :=
  { r with
    ring := Function.update r.ring r.prod hdr
    prod := nextSlot r.prod
    queued := r.queued ++ [hdr] }

/-- The ring after the oldest reply was taken. -/
def Replies.deliver (r : Replies) : Replies :=
  { r with cons := nextSlot r.cons, delivered := r.delivered ++ [r.ring r.cons] }

/-- At most one reply was queued, and it found room. -/
def Sent (r r' : Replies) : Prop :=
  r' = r ∨ (r.cons ≠ nextSlot r.prod ∧ ∃ hdr, r' = r.queue hdr)

/-- The assertion of `shutdown_local_sock` fails on this sock. -/
def ShutTwice (s : PciVtsockSock) : Prop := s.state = .connected ∧ s.localShutdown = shutdownAll

variable {β γ : Type} {P D Q D' : Prop} {sc sc' : PciVtsockSoftc} {e : Fault} {i : SockId}
  {s : PciVtsockSock} {now : Int} {res : WriteResult} {rc : ShutdownResult} {h : TxHost}
  {hdr : VirtioSockHdr} {idx op type : UInt16} {p : β → PciVtsockSoftc} {q : γ → PciVtsockSoftc}
  {x : Except Fault β} {f : β → Except Fault γ} {b : β} {len flags bufAlloc fwdCnt mode : UInt32}
  {iov : List Iovec} {num : ℕ} {sock : Option SockId} {localAddr peerAddr : VsockAddr} {m : HostMem}

/-- The computation queues at most one reply, and only where `P` holds; it overflows only a full
ring. `D` is what it takes to trip the assertion on a second shutdown. -/
structure Effect (P D : Prop) (sc : PciVtsockSoftc) (p : β → PciVtsockSoftc)
    (x : Except Fault β) : Prop where
  replies : ∀ b, x = .ok b → (p b).replies = sc.replies ∨ (P ∧ Sent sc.replies (p b).replies)
  faults : ∀ e, x = .error e →
    (e = .replyRingOverflow → P ∧ replyRingFull sc) ∧ (e = .alreadyShutdown → D)

/-- The computation does not touch the reply ring. -/
abbrev Quiet (D : Prop) (sc : PciVtsockSoftc) (p : β → PciVtsockSoftc) (x : Except Fault β) : Prop :=
  Effect False D sc p x

theorem Effect.sent (h : Effect P D sc p x) (hb : x = .ok b) : Sent sc.replies (p b).replies := by
  rcases h.replies b hb with hsame | ⟨-, hsent⟩
  · exact .inl hsame
  · exact hsent

theorem Quiet.same (h : Quiet D sc p x) (hb : x = .ok b) : (p b).replies = sc.replies :=
  (h.replies b hb).resolve_right And.left

theorem Effect.weaken (h : Effect P D sc p x) (hP : P → Q) (hD : D → D') : Effect Q D' sc p x :=
  ⟨fun b hb => (h.replies b hb).imp_right (And.imp_left hP), fun e he =>
    ⟨fun hf => ((h.faults e he).1 hf).imp_left hP, fun hs => hD ((h.faults e he).2 hs)⟩⟩

theorem effect_ok (h : (p b).replies = sc.replies) : Effect P D sc p (.ok b) := by
  refine ⟨?_, by simp⟩
  rintro _ ⟨⟩
  exact .inl h

theorem effect_error (h : e ≠ .replyRingOverflow ∧ e ≠ .alreadyShutdown) :
    Effect P D sc p (.error e) := by
  refine ⟨by simp, ?_⟩
  rintro _ ⟨⟩
  exact ⟨fun he => absurd he h.1, fun he => absurd he h.2⟩

theorem Effect.congr (h : Effect P D sc' p x) (he : sc'.replies = sc.replies) : Effect P D sc p x := by
  refine ⟨?_, ?_⟩
  · rw [← he]
    exact h.replies
  · intro e hx
    obtain ⟨hover, hshut⟩ := h.faults e hx
    exact ⟨fun hf => (hover hf).imp_right (replyRingFull_congr he).mp, hshut⟩

/-- Silence followed by at most one reply. -/
theorem Quiet.bind (hx : Quiet D sc p x) (hf : ∀ b, x = .ok b → Effect P D (p b) q (f b)) :
    Effect P D sc q (x >>= f) := by
  cases x with
  | error e =>
    refine ⟨by simp [Bind.bind, Except.bind], ?_⟩
    rintro _ ⟨⟩
    exact (hx.weaken False.elim id).faults e rfl
  | ok b => exact (hf b rfl).congr (hx.same rfl)

/-- At most one reply followed by silence. -/
theorem Effect.bind (hx : Effect P D sc p x) (hf : ∀ b, x = .ok b → Quiet D (p b) q (f b)) :
    Effect P D sc q (x >>= f) := by
  cases x with
  | error e =>
    refine ⟨by simp [Bind.bind, Except.bind], ?_⟩
    rintro _ ⟨⟩
    exact hx.faults e rfl
  | ok b =>
    refine ⟨?_, ?_⟩
    · intro c hc
      rw [(hf b rfl).same hc]
      exact hx.replies b rfl
    · intro e he
      obtain ⟨hover, hshut⟩ := (hf b rfl).faults e he
      exact ⟨fun hfull => (hover hfull).1.elim, hshut⟩

theorem sendResponseCommon_effect (hP : P) :
    Effect P D sc id (sendResponseCommon sc localAddr peerAddr op type flags bufAlloc fwdCnt) := by
  refine ⟨?_, ?_⟩
  · intro sc' hs
    obtain ⟨hroom, hdr, rfl⟩ := sendResponseCommon_cases hs
    exact .inr ⟨hP, .inr ⟨hroom, hdr, rfl⟩⟩
  · intro e hs
    unfold sendResponseCommon at hs
    split_ifs at hs with _ hfull
    · cases hs
      exact ⟨by simp, by simp⟩
    · cases hs
      exact ⟨fun _ => ⟨hP, hfull⟩, by simp⟩

theorem sendResponseSock_effect (hP : P) : Effect P D sc id (sendResponseSock sc op flags i) :=
  sendResponseCommon_effect hP

theorem sendRst_effect (hP : P) : Effect P D sc id (sendRst sc hdr sock) := by
  cases sock with
  | none =>
    simp only [sendRst, sendResponseNosock]
    exact sendResponseCommon_effect hP
  | some i => exact sendResponseSock_effect hP

/-- Reflecting the peer's shutdown trips neither assertion. -/
theorem shutdownPeerLocalFd_quiet (i : SockId) :
    Effect P D sc (fun s' => sc.setSock i s') (shutdownPeerLocalFd rc s mode) := by
  refine ⟨by simp, ?_⟩
  intro e he
  rcases shutdownPeerLocalFd_error he with rfl | rfl
  all_goals exact ⟨by simp, by simp⟩

theorem shutdownLocalSock_error (hs : shutdownLocalSock now s mode = .error e) :
    e = .shutdownMode ∨ (e = .alreadyShutdown ∧ ShutTwice s) := by
  unfold shutdownLocalSock at hs
  split_ifs at hs with _ hst hall
  · cases hs
    exact .inl rfl
  · cases hs
    exact .inr ⟨rfl, not_not.mp hst, hall⟩

theorem shutdownLocalSock_quiet (i : SockId) :
    Effect P (ShutTwice s) sc (fun s' => sc.setSock i s') (shutdownLocalSock now s mode) := by
  refine ⟨by simp, ?_⟩
  intro e he
  rcases shutdownLocalSock_error he with rfl | ⟨rfl, htwice⟩
  · exact ⟨by simp, by simp⟩
  · exact ⟨by simp, fun _ => htwice⟩

theorem closeSock_quiet : Effect P D sc id (closeSock rc sc sock) := by
  cases sock with
  | none => exact effect_ok rfl
  | some i =>
    refine Quiet.bind (shutdownPeerLocalFd_quiet i) ?_
    intro s _
    exact effect_ok (by simp)

theorem doRst_effect (hP : P) : Effect P D sc id (doRst h sc idx hdr sock) := by
  refine (sendRst_effect hP).bind fun sc₁ _ => ⟨?_, ?_⟩
  · intro sc' hclose
    exact ((closeSock_quiet (D := D)).congr (by simp)).replies sc' (mapError_eq_ok.mp hclose)
  · intro e he
    cases hclose : closeSock h.shutdown (sc₁.relTx idx 0) sock with
    | ok _ =>
      rw [hclose] at he
      cases he
    | error _ =>
      rw [hclose] at he
      cases he
      exact ⟨nofun, nofun⟩

theorem bufferRest_quiet : Effect P D sc snd (bufferRest sc i s len iov) := by
  have hwrite : Quiet D sc (fun r => sc.setSock i r.2) (bufferWrite sc.mem s len iov) := by
    refine ⟨by simp, ?_⟩
    intro e he
    rcases bufferWrite_error he with rfl | rfl | rfl
    all_goals exact ⟨by simp, by simp⟩
  refine hwrite.bind ?_
  intro r _
  exact effect_ok rfl

theorem acceptWritten_quiet : Effect P D sc snd (acceptWritten sc i len iov num) := by
  unfold acceptWritten
  split
  · exact effect_ok (by simp)
  · obtain ⟨p, hp⟩ := iovecPull_discard sc.mem iov num
    rw [hp]
    simp only [bind, Except.bind]
    split
    · exact effect_error (by simp)
    · exact bufferRest_quiet

/-- Only an EPIPE is answered while the payload is written and buffered. -/
theorem handleWrite_effect :
    Effect (sockIsBuffering (sc.socks i) = false ∧ res = .epipe) (ShutTwice (sc.socks i)) sc snd
      (handleWrite now res sc i len iov) := by
  unfold handleWrite
  dsimp only
  split
  · exact bufferRest_quiet
  · rename_i hbuf
    cases res with
    | epipe =>
      refine Quiet.bind (shutdownLocalSock_quiet i) ?_
      intro s _
      refine (sendResponseSock_effect ⟨by simpa using hbuf, rfl⟩).bind ?_
      intro sc₁ _
      exact effect_ok rfl
    | eagain => exact acceptWritten_quiet
    | error => exact effect_ok rfl
    | wrote n => exact acceptWritten_quiet.congr (by simp)

/-- A refused payload has not queued anything yet. -/
theorem handleWrite_reject (hw : handleWrite now res sc i len iov = .ok (.reject, sc')) :
    sc'.replies = sc.replies := by
  rcases handleWrite_effect.replies _ hw with hsame | ⟨⟨hbuf, rfl⟩, -⟩
  · exact hsame
  · simp only [handleWrite, hbuf, Bool.false_eq_true, if_false, bind_eq_ok] at hw
    obtain ⟨s, -, sc₁, -, hw⟩ := hw
    cases hw

/-- A sock that accepts payload is not shut down in full. -/
theorem not_shutTwice_of_rwOpen (hopen : rwOpen s) : ¬ ShutTwice s := by
  rintro ⟨-, hall⟩
  obtain ⟨-, -, hrx⟩ := rwOpen_iff.mp hopen
  rw [hall] at hrx
  exact absurd hrx (by decide)

/-- A drain queues a reply on EPIPE and on a hard error only. -/
theorem bufferDrain_effect : Effect (res = .epipe ∨ res = .error) (ShutTwice (sc.socks i)) sc id
      (bufferDrain now res rc sc i) := by
  unfold bufferDrain
  dsimp only
  split
  · exact effect_error (by simp)
  · cases res with
    | epipe =>
      refine Quiet.bind (shutdownLocalSock_quiet i) ?_
      intro s _
      exact sendResponseSock_effect (.inl rfl)
    | eagain => exact effect_ok rfl
    | error =>
      refine (sendResponseSock_effect (.inr rfl)).bind ?_
      intro sc₁ _
      exact closeSock_quiet
    | wrote n =>
      dsimp only
      split_ifs
      · exact effect_ok (by simp)
      · exact effect_error (by simp)
      all_goals exact effect_ok (by simp)

theorem opRequest_effect (hP : P) : Effect P D sc id (opRequest h sc idx hdr sock) := by
  cases sock with
  | some i => exact doRst_effect hP
  | none =>
    simp only [opRequest]
    split
    · exact doRst_effect hP
    · generalize hc : connectSock h.connect sc hdr.dstAddr hdr.srcAddr hdr.bufAlloc hdr.fwdCnt = r
      obtain ⟨o, sc₁⟩ := r
      refine Effect.congr ?_ (connectSock_frame hc).2
      cases o with
      | none => exact doRst_effect hP
      | some j =>
        refine (sendResponseSock_effect hP).bind ?_
        intro sc₂ _
        exact effect_ok (by simp)

theorem opShutdown_effect (hP : P) : Effect P D sc id (opShutdown h sc idx hdr sock) := by
  cases sock with
  | none => exact doRst_effect hP
  | some i =>
    simp only [opShutdown]
    split
    · exact doRst_effect hP
    · refine Quiet.bind (shutdownPeerLocalFd_quiet i) ?_
      intro s _
      split
      · exact doRst_effect hP
      · exact effect_ok (by simp)

theorem opRw_effect (hP : P) : Effect P D sc id (opRw h sc idx hdr iov sock) := by
  cases sock with
  | none => exact doRst_effect hP
  | some i =>
    simp only [opRw]
    split
    · exact doRst_effect hP
    · rename_i hclosed
      have hopen : rwOpen (sc.socks i) := by simpa using hclosed
      have hone : Effect P D sc snd (handleWrite h.now h.writev sc i hdr.len iov) :=
        handleWrite_effect.weaken (fun _ => hP) fun ht => absurd ht (not_shutTwice_of_rwOpen hopen)
      cases hw : handleWrite h.now h.writev sc i hdr.len iov with
      | error e =>
        refine ⟨by simp [bind, Except.bind], ?_⟩
        rintro _ ⟨⟩
        exact hone.faults e hw
      | ok r =>
        obtain ⟨v, sc₁⟩ := r
        rw [hw] at hone
        cases v with
        | reject => exact (doRst_effect hP).congr (handleWrite_reject hw)
        | credit | quiet =>
          refine hone.bind ?_
          rintro _ ⟨⟩
          exact effect_ok (by simp)

/-- A handler that turns a packet away in the wrong state and is otherwise silent. -/
theorem stateGuard_effect (hP : P) {C : Prop} [Decidable C] {sc₁ : PciVtsockSoftc}
    (h₁ : sc₁.replies = sc.replies) :
    Effect P D sc id (if C then doRst h sc idx hdr sock else .ok sc₁) := by
  split
  · exact doRst_effect hP
  · exact effect_ok h₁

theorem opRst_quiet : Effect P D sc id (opRst h sc idx sock) := by
  refine closeSock_quiet.bind ?_
  intro sc₁ _
  exact effect_ok (by simp)

theorem procOp_effect (hP : P) : Effect P D sc id (procOp h sc idx hdr iov sock) := by
  unfold procOp
  split_ifs
  · exact doRst_effect hP
  · exact opRequest_effect hP
  · cases sock with
    | none => exact doRst_effect hP
    | some i => exact stateGuard_effect hP (by simp)
  · exact opRst_quiet
  · exact opShutdown_effect hP
  · exact opRw_effect hP
  · cases sock with
    | none => exact doRst_effect hP
    | some i => exact stateGuard_effect hP rfl
  · cases sock with
    | none => exact doRst_effect hP
    | some i => exact stateGuard_effect hP (by simp)
  · exact effect_ok rfl

/-- A packet that is not answered touches no reply slot. -/
theorem procOp_quiet (hlen : hdr.len.toNat = iovTotal iov)
    (hno : ¬ Answered h hdr (sock.map sc.socks)) :
    Quiet D sc id (procOp h sc idx hdr iov sock) := by
  cases sock with
  | none =>
    cases procOp_dispatched with
    | rst _ hr =>
      rw [← hr]
      exact opRst_quiet
    | unknown _ hr =>
      rw [← hr]
      exact effect_ok rfl
    | _ ho =>
      refine absurd ?_ hno
      rw [map_none, Answered, ho]
      decide
  | some i =>
    simp only [map_some, Answered, Refused, not_or, not_and] at hno
    obtain ⟨⟨hinv, hreq, hresp, hshut, hrw, hcredit⟩, hboth, hepipe⟩ := hno
    cases procOp_dispatched with
    | invalid ho => exact absurd ho hinv
    | request ho => exact absurd ho hreq
    | response ho hr =>
      rw [← hr, opResponse, if_neg (hresp ho)]
      exact effect_ok (by simp)
    | rst ho hr =>
      rw [← hr]
      exact opRst_quiet
    | shutdown ho hr =>
      have hacc : ShutdownAccepted (sc.socks i) hdr.flags := not_not.mp (hshut ho)
      rw [← hr, opShutdown, if_neg (shutdownAccepted_iff.mp hacc)]
      refine Quiet.bind (shutdownPeerLocalFd_quiet i) ?_
      intro s hs
      obtain ⟨l, rfl, -⟩ := shutdownPeerLocalFd_cases hs
      simp only [if_neg (hboth ho hacc)]
      exact effect_ok (by simp)
    | rw ho hr =>
      obtain ⟨hopen, hwrite⟩ := hrw ho
      have hopen : rwOpen (sc.socks i) := not_not.mp hopen
      have hguard : ¬ ((!rwOpen (sc.socks i)) = true) := by simp [hopen]
      rw [← hr, opRw, if_neg hguard]
      have hquiet : Quiet D sc snd (handleWrite h.now h.writev sc i hdr.len iov) :=
        handleWrite_effect.weaken (fun hep => hepipe ho hopen hep.1 hep.2) fun ht =>
          absurd ht (not_shutTwice_of_rwOpen hopen)
      refine hquiet.bind ?_
      rintro ⟨v, sc₁⟩ hw
      cases v with
      | reject => exact absurd ((handleWrite_verdict hlen hw).1.mp rfl) hwrite
      | credit | quiet => exact effect_ok (by simp)
    | creditUpdate ho hr =>
      rw [← hr, opCreditUpdate, if_neg (hcredit (.inl ho))]
      exact effect_ok rfl
    | creditRequest ho hr =>
      rw [← hr, opCreditRequest, if_neg (hcredit (.inr ho))]
      exact effect_ok (by simp)
    | unknown _ hr =>
      rw [← hr]
      exact effect_ok rfl

theorem applyCredit_replies : (applyCredit sc hdr sock).replies = sc.replies := by
  cases sock <;> rfl

/-- The packet queues a reply; one whose length is not that of its payload may. -/
def Replied (h : TxHost) (sc : PciVtsockSoftc) (hdr : VirtioSockHdr) (iov : List Iovec) : Prop :=
  addressed sc hdr = false ∨ hdr.len.toNat ≠ iovTotal iov ∨ Answered h hdr (found sc hdr)

theorem procPacket_effect : Effect (Replied h sc hdr iov) D sc id (procPacket h sc idx hdr iov) := by
  by_cases hrep : Replied h sc hdr iov
  · unfold procPacket
    split
    · refine Effect.bind (sendResponseCommon_effect hrep) ?_
      intro sc₁ _
      exact effect_ok (by simp)
    · exact (procOp_effect hrep).congr applyCredit_replies
  · have hno := hrep
    simp only [Replied, not_or, not_not, Bool.not_eq_false] at hno
    obtain ⟨ha, hlen, hans⟩ := hno
    simp only [procPacket, ha, Bool.not_true, Bool.false_eq_true, if_false]
    refine Effect.weaken (Effect.congr (procOp_quiet hlen ?_) applyCredit_replies) False.elim id
    rw [found] at hans
    cases hsock : lookupSock sc hdr.dstAddr hdr.srcAddr with
    | none => simpa [hsock] using hans
    | some i =>
      simp only [hsock, map_some] at hans
      simp only [map_some, applyCredit, PciVtsockSoftc.setSock_socks_self]
      exact hans

/-- One packet queues at most one reply. -/
theorem procTx_effect : Effect (∃ k, nextPacket sc = some k ∧ Replied h sc k.hdr k.iov) D sc id
      (pciVtsockProcTx h sc) := by
  rcases procTx_cases h sc with ⟨k, hk, he⟩ | ⟨-, vq, he⟩ | ⟨-, f, he, hf⟩
  · rw [he]
    exact Effect.congr (procPacket_effect.weaken (fun hrep => ⟨k, hk, hrep⟩) id) rfl
  · rw [he]
    exact effect_ok rfl
  · rw [he]
    refine effect_error ⟨?_, ?_⟩
    all_goals
      rintro rfl
      simp at hf

/-- Only a connection that is accepted and set up is announced to the guest. -/
theorem handleConnectFd_effect {h : AcceptHost} {cid : UInt64} {port : UInt32} :
    Effect (0 ≤ h.accept ∧ h.opts.ok = true) D sc id (handleConnectFd h sc cid port) := by
  rcases handleConnectFd_cases h sc cid port with ⟨closed, he⟩ | ⟨i, rest, port', alloc, -, hfd, -,
    ⟨-, he⟩ | ⟨hok, he⟩⟩
  · rw [he]
    exact effect_ok rfl
  · rw [he]
    exact effect_ok (by simp [accepted])
  · rw [he]
    exact (sendResponseSock_effect ⟨hfd, hok⟩).congr (by simp [accepted])

/-- The reset deadline of a sock that the transmit thread still serves has passed. -/
def RstDue (now : Int) (s : PciVtsockSock) : Prop :=
  (s.state = .connected ∨ (s.state = .closingTx ∧ sockIsBuffering s)) ∧
    s.localShutdown = shutdownAll ∧ s.rstDeadline < now

theorem txVisitOpen_effect :
    Effect ((sc.socks i).localShutdown = shutdownAll ∧ (sc.socks i).rstDeadline < now) D sc snd
      (txVisitOpen now rc sc i) := by
  unfold txVisitOpen
  dsimp only
  split_ifs with _ hdue
  · exact effect_error (by simp)
  · refine (sendResponseSock_effect hdue).bind ?_
    intro sc₁ _
    refine Quiet.bind closeSock_quiet ?_
    intro sc₂ _
    exact effect_ok rfl
  all_goals exact effect_ok rfl

theorem txVisit_effect : Effect (RstDue now (sc.socks i)) D sc snd (txVisit now rc sc i) := by
  unfold txVisit
  dsimp only
  split
  · rename_i hst
    split_ifs with hbuf
    · exact txVisitOpen_effect.weaken (fun hdue => ⟨.inr ⟨hst, hbuf⟩, hdue⟩) id
    · exact effect_error (by simp)
    · exact effect_ok (by simp)
  · rename_i hst
    exact txVisitOpen_effect.weaken (fun hdue => ⟨.inl hst, hdue⟩) id
  all_goals exact effect_ok rfl

section Receiving

variable {h : RxHost} {base : ℕ} {data : ℕ} {vds : List VirtioDesc} {more : Bool}

@[simp] theorem rxFinish_replies : (rxFinish sc i idx base hdr s data).replies = sc.replies := rfl

theorem rxCreditUpdate_replies : (rxCreditUpdate sc i idx base).replies = sc.replies := by
  unfold rxCreditUpdate
  dsimp only
  split
  · simp
  · rfl

theorem rxReadError_quiet : Quiet D sc snd (rxReadError h sc i idx base) := by
  refine Quiet.bind (closeSock_quiet.congr rxFinish_replies) ?_
  intro sc₁ _
  exact effect_ok rfl

theorem rxEof_quiet : Quiet (ShutTwice (sc.socks i)) sc snd (rxEof h sc i idx base) := by
  refine Quiet.bind (shutdownLocalSock_quiet i) ?_
  intro s _
  exact effect_ok (by simp)

theorem rxChain_quiet (hD : ShutTwice (sc.socks i) → D) :
    Quiet D sc snd (rxChain h sc i idx base vds) := by
  unfold rxChain
  dsimp only
  split
  · exact effect_ok rxCreditUpdate_replies
  · have hpush : Quiet D sc (fun _ => sc)
        (iovecPush sc.mem vds.length (rxArray sc vds) (rxHeader (sc.socks i)).toBytes) := by
      refine ⟨fun _ _ => .inl rfl, ?_⟩
      intro e he
      obtain rfl | rfl := iovecPush_error he
      all_goals exact ⟨by simp, by simp⟩
    refine hpush.bind fun p _ => ?_
    have hclip : Quiet D sc (fun _ => sc)
        (iovecClip p.iovLen p.iov (peerFree (sc.socks i)).toNat) := by
      refine ⟨fun _ _ => .inl rfl, ?_⟩
      intro e he
      obtain rfl := iovecClip_error he
      exact ⟨by simp, by simp⟩
    refine hclip.bind fun iov _ => ?_
    split
    · exact effect_ok rxCreditUpdate_replies
    · exact rxReadError_quiet
    · split
      · exact rxEof_quiet.weaken id hD
      split
      · exact rxReadError_quiet
      · exact effect_ok rfl

/-- Only end of file on a sock that is already shut down trips an assertion here. -/
theorem procRx_quiet : Quiet (ShutTwice (sc.socks i)) sc snd (pciVtsockProcRx h sc i) := by
  unfold pciVtsockProcRx
  split
  · exact effect_error (by simp)
  split
  · exact effect_ok rfl
  split
  any_goals exact effect_error (by simp)
  split
  · exact effect_error (by simp)
  split
  · exact effect_error (by simp)
  split
  · exact effect_error (by simp)
  · exact Effect.congr (rxChain_quiet id) rfl

theorem sendCreditUpdate_quiet : Quiet D sc snd (sendCreditUpdate sc i) := by
  unfold sendCreditUpdate
  dsimp only
  split
  · exact effect_error (by simp)
  split
  · exact effect_ok rfl
  split
  any_goals exact effect_error (by simp)
  split
  · exact effect_error (by simp)
  split
  · exact effect_error (by simp)
  split
  · exact effect_error (by simp)
  · exact effect_ok rfl

/-- The receive thread takes the oldest reply, if there is one. -/
theorem rxDoOneReply_cases (hr : rxDoOneReply sc = .ok (more, sc')) :
    sc' = sc ∨ (sc.replyCons ≠ sc.replyProd ∧ ∃ mem vqRx, sc' = { sc with
      replyCons := nextSlot sc.replyCons
      delivered := sc.delivered ++ [sc.replyRing sc.replyCons]
      mem
      vqRx }) := by
  unfold rxDoOneReply at hr
  split at hr
  · cases hr
    exact .inl rfl
  · rename_i hempty
    dsimp only at hr
    split at hr
    any_goals cases hr
    rw [bind_eq_ok] at hr
    obtain ⟨p, -, hr⟩ := hr
    split_ifs at hr
    cases hr
    exact .inr ⟨by simpa [replyRingEmpty] using hempty, _, _, rfl⟩

theorem rxDoOneReply_error (hr : rxDoOneReply sc = .error e) :
    e ≠ .replyRingOverflow ∧ e ≠ .alreadyShutdown := by
  unfold rxDoOneReply at hr
  split_ifs at hr
  dsimp only at hr
  split at hr
  case h_4 =>
    rcases bind_eq_error.mp hr with hpush | ⟨p, -, hr⟩
    · obtain rfl | rfl := iovecPush_error hpush
      all_goals exact ⟨by simp, by simp⟩
    · split at hr
      · cases hr
        exact ⟨by simp, by simp⟩
      · cases hr
  all_goals
    cases hr
    exact ⟨by simp, by simp⟩

end Receiving

/-- One step of the system, seen from the reply ring. -/
def Moved (r r' : Replies) : Prop := Sent r r' ∨ (r.cons ≠ r.prod ∧ r' = r.deliver)

/-- The action makes a handler queue a reply. -/
def Queues (s : System) : Action → Prop
  | .txScan now _ => ∃ i todo, s.tx.pc = .scan (i :: todo) ∧ RstDue now (s.sc.socks i)
  | .txConnect h => 0 ≤ h.accept ∧ h.opts.ok
  | .txDrain _ res _ => res = .epipe ∨ res = .error
  | .txPacket h => ∃ k, nextPacket s.sc = some k ∧ Replied h s.sc k.hdr k.iov
  | _ => False

/-- The action serves a sock that is connected and already shut down in full. -/
def ServesShut (s : System) : Action → Prop
  | .txDrain _ _ _ => ∃ i todo, s.tx.pc = .drain (i :: todo) ∧ (s.sc.socks i).fd ∈ s.tx.wfd ∧
      ShutTwice (s.sc.socks i)
  | .rxSock _ => ∃ i todo nrDataRx didSomeWork, s.rx.pc = .socks (i :: todo) nrDataRx didSomeWork ∧
      (s.sc.socks i).fd ∈ s.rx.rfd ∧ ShutTwice (s.sc.socks i)
  | _ => False

/-- What a step may do to the ring, and when it trips the two assertions. -/
structure StepEffects (P D : Prop) (s : System) (r : Except Stop System) : Prop where
  moved : ∀ t, r = .ok t → Moved s.sc.replies t.sc.replies
  overflow : r = .error (.fault .replyRingOverflow) → P ∧ replyRingFull s.sc
  shutTwice : r = .error (.fault .alreadyShutdown) → D

section System

variable {s t : System} {a : Action} {r : Except Stop System} {p : β → PciVtsockSoftc}
  {x : Except Fault β} {f : β → Except Stop System}

theorem stepEffects_ok (h : t.sc.replies = s.sc.replies) : StepEffects P D s (.ok t) := by
  refine ⟨?_, by simp, by simp⟩
  rintro _ ⟨⟩
  exact .inl (.inl h)

theorem stepEffects_blocked : StepEffects P D s (.error .blocked) :=
  ⟨by simp, by simp, by simp⟩

/-- A fault of a step is one of its handler or of what the thread does after it. -/
theorem fault_cases (he : (orFault x >>= f) = .error (.fault e)) :
    x = .error e ∨ ∃ b, f b = .error (.fault e) := by
  rcases bind_eq_error.mp he with hw | ⟨b, -, hb⟩
  · obtain ⟨e', hw, hx⟩ := orFault_eq_error.mp hw
    cases hw
    exact .inl hx
  · exact .inr ⟨b, hb⟩

/-- A step that runs a handler, with assertions of its own after it. -/
theorem stepEffects_bind (hx : Effect P D s.sc p x)
    (hok : ∀ b t, f b = .ok t → t.sc.replies = (p b).replies)
    (herr : ∀ b e, f b = .error (.fault e) → e ≠ .replyRingOverflow ∧ e ≠ .alreadyShutdown) :
    StepEffects P D s (orFault x >>= f) := by
  refine ⟨?_, ?_, ?_⟩
  · intro t ht
    obtain ⟨b, hb, ht⟩ := bind_eq_ok.mp ht
    rw [hok b t ht]
    exact .inl (hx.sent (orFault_eq_ok.mp hb))
  · intro he
    rcases fault_cases he with hxe | ⟨b, hb⟩
    · exact (hx.faults _ hxe).1 rfl
    · exact absurd rfl (herr b _ hb).1
  · intro he
    rcases fault_cases he with hxe | ⟨b, hb⟩
    · exact (hx.faults _ hxe).2 rfl
    · exact absurd rfl (herr b _ hb).2

/-- One that only updates its thread after it. -/
theorem stepEffects_handler (hx : Effect P D s.sc p x)
    (hf : ∀ b, ∃ t, f b = .ok t ∧ t.sc.replies = (p b).replies) :
    StepEffects P D s (orFault x >>= f) := by
  refine stepEffects_bind hx ?_ ?_
  · intro b t ht
    obtain ⟨t', ht', hsame⟩ := hf b
    rw [ht'] at ht
    cases ht
    exact hsame
  · intro b e he
    obtain ⟨t', ht', -⟩ := hf b
    rw [ht'] at he
    cases he

theorem txScan_effects : StepEffects (Queues s (.txScan now rc)) D s (txScanStep s now rc) := by
  unfold txScanStep
  split
  · refine stepEffects_ok ?_
    split
    · simp
    · rfl
  · rename_i i todo hpc
    refine stepEffects_handler (txVisit_effect.weaken (fun hdue => ⟨i, todo, hpc, hdue⟩) id) ?_
    rintro ⟨visit, sc₁⟩
    cases visit with
    | skip | closing | queue => exact ⟨_, rfl, rfl⟩
  · exact stepEffects_blocked

theorem txConnect_effects {h : AcceptHost} :
    StepEffects (Queues s (.txConnect h)) D s (txConnectStep s h) := by
  unfold txConnectStep
  split
  · exact stepEffects_ok rfl
  · split
    · exact stepEffects_blocked
    · exact stepEffects_handler handleConnectFd_effect fun sc₁ => ⟨_, rfl, rfl⟩
  · exact stepEffects_blocked

theorem txDrain_effects :
    StepEffects (Queues s (.txDrain now res rc)) (ServesShut s (.txDrain now res rc)) s
      (txDrainStep s now res rc) := by
  unfold txDrainStep
  split
  · exact stepEffects_ok rfl
  · rename_i i todo hpc
    dsimp only
    split
    · rename_i hready
      refine stepEffects_handler (bufferDrain_effect.weaken id ?_) fun sc₁ => ⟨_, rfl, rfl⟩
      exact fun htwice => ⟨i, todo, hpc, hready.2, htwice⟩
    · exact stepEffects_ok rfl
  · exact stepEffects_blocked

theorem txFinish_replies (sc : PciVtsockSoftc) : (txFinish sc).replies = sc.replies := by
  unfold txFinish
  dsimp only
  split
  all_goals split <;> rfl

theorem txPacket_effects : StepEffects (Queues s (.txPacket h)) D s (txPacketStep s h) := by
  unfold txPacketStep
  split
  · split
    · exact stepEffects_blocked
    split
    · exact stepEffects_handler procTx_effect fun sc₁ => ⟨_, rfl, rfl⟩
    · exact stepEffects_ok (txFinish_replies s.sc)
  · exact stepEffects_blocked

theorem rxScan_effects : StepEffects P D s (rxScanStep s) := by
  unfold rxScanStep
  split
  · exact stepEffects_ok rfl
  · dsimp only
    split
    · split
      · exact ⟨by simp, by simp, by simp⟩
      · exact stepEffects_ok (by simp)
    split
    · exact stepEffects_ok rfl
    split
    · exact ⟨by simp, by simp, by simp⟩
    · exact stepEffects_ok rfl
  · exact stepEffects_blocked

theorem rxReply_effects : StepEffects P D s (rxReplyStep s) := by
  unfold rxReplyStep
  split
  · split
    · refine ⟨?_, ?_, ?_⟩
      · intro t ht
        obtain ⟨⟨more, sc₁⟩, hr, ht⟩ := bind_eq_ok.mp ht
        cases ht
        rcases rxDoOneReply_cases (orFault_eq_ok.mp hr) with rfl | ⟨hsome, mem, vqRx, rfl⟩
        · exact .inl (.inl rfl)
        · exact .inr ⟨hsome, rfl⟩
      · intro he
        rcases fault_cases he with hx | ⟨b, hb⟩
        · exact absurd rfl (rxDoOneReply_error hx).1
        · cases hb
      · intro he
        rcases fault_cases he with hx | ⟨b, hb⟩
        · exact absurd rfl (rxDoOneReply_error hx).2
        · cases hb
    · exact stepEffects_ok rfl
  · exact stepEffects_blocked

theorem rxPassDone_replies (w : Bool) : (rxPassDone s w).sc.replies = s.sc.replies := by
  cases w <;> rfl

theorem rxSock_effects {h : RxHost} : StepEffects P (ServesShut s (.rxSock h)) s (rxSockStep s h) := by
  unfold rxSockStep
  split
  · exact stepEffects_ok (rxPassDone_replies _)
  · rename_i i todo nrDataRx didSomeWork hpc
    dsimp only
    split_ifs with _ _ _ hready
    · exact stepEffects_ok (rxPassDone_replies _)
    · exact stepEffects_ok rfl
    · exact ⟨by simp, by simp, by simp⟩
    · have hquiet : Quiet (ServesShut s (.rxSock h)) s.sc snd (pciVtsockProcRx h s.sc i) :=
        procRx_quiet.weaken id fun ht => ⟨i, todo, nrDataRx, didSomeWork, hpc, hready, ht⟩
      refine stepEffects_bind (hquiet.weaken False.elim id) ?_ ?_
      · rintro ⟨bytes, sc₁⟩ t ht
        split_ifs at ht
        all_goals
          cases ht
          rfl
      · rintro ⟨bytes, sc₁⟩ e he
        split at he
        · cases he
        split at he
        · cases he
          exact ⟨by simp, by simp⟩
        split at he
        all_goals cases he
    · refine stepEffects_bind (sendCreditUpdate_quiet.weaken False.elim id) ?_ ?_
      · rintro ⟨sent, sc₁⟩ t ht
        cases sent with
        | true =>
          cases ht
          simp
        | false =>
          cases ht
          rfl
      · rintro ⟨sent, sc₁⟩ e he
        cases sent with
        | true | false => cases he
    · exact stepEffects_ok rfl
  · exact stepEffects_blocked

/-- Every action queues or delivers at most one reply. It overflows the ring only by
queueing into a full one, and repeats a shutdown only on a sock that is shut down. -/
theorem step_effects (s : System) (a : Action) :
    StepEffects (Queues s a) (ServesShut s a) s (step s a) := by
  cases a with
  | guest g => exact stepEffects_ok (by cases g <;> rfl)
  | txTop =>
    simp only [step, txTopStep]
    split
    · exact stepEffects_ok rfl
    · exact stepEffects_blocked
  | txScan now rc => exact txScan_effects
  | txSelect ok writable connectReady fwdReady =>
    simp only [step, txSelectStep]
    split
    · split
      all_goals exact stepEffects_ok rfl
    · exact stepEffects_blocked
  | txConnect h => exact txConnect_effects
  | txDrain now res rc => exact txDrain_effects
  | txPacket h => exact txPacket_effects
  | rxTop =>
    simp only [step, rxTopStep]
    split
    · exact stepEffects_ok rfl
    · exact stepEffects_blocked
  | rxScan => exact rxScan_effects
  | rxFree =>
    simp only [step, rxFreeStep]
    split
    · split
      · exact stepEffects_ok rfl
      · exact stepEffects_ok (by simp)
    · exact stepEffects_blocked
  | rxSelect ok readable woken =>
    simp only [step, rxSelectStep]
    split
    · split
      · exact stepEffects_ok rfl
      · split
        all_goals exact stepEffects_ok rfl
    · exact stepEffects_blocked
  | rxReply => exact rxReply_effects
  | rxSock h => exact rxSock_effects

end System

end HyperCog.Vsock
