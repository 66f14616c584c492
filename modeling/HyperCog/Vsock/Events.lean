import HyperCog.Vsock.Effects
import HyperCog.Vsock.Steps
import HyperCog.Vsock.Table

/-! Which table event each handler causes: at most one, and never an event that is not enabled. -/
namespace HyperCog.Vsock

open Virtio Machine Function PciVtsockSock PciVtsockSoftc

attribute [local simp] Table.apply resetSock comp_update Table.Enabled acceptedSock

attribute [local simp] Event.free Event.inuse Event.sock Event.after Event.path

def PciVtsockSock.view (s : PciVtsockSock) : SockView :=
  ⟨s.state, s.fd, s.localShutdown, s.peerShutdown, s.localAddr, s.peerAddr⟩

def PciVtsockSoftc.table (sc : PciVtsockSoftc) : Table :=
  ⟨sc.freeList, sc.inuseList, view ∘ sc.socks, sc.moves⟩

/-- The table stayed as it was or took one enabled event of the kind `P`. -/
def Became (P : Event → Prop) (T T' : Table) : Prop :=
  T' = T ∨ ∃ e, P e ∧ T.Enabled e ∧ T' = T.apply e

theorem Became.mono {P Q : Event → Prop} {T T' : Table} (h : Became P T T')
    (hPQ : ∀ e, P e → Q e) : Became Q T T' := by
  rcases h with hsame | ⟨e, he, hen, happ⟩
  · exact .inl hsame
  · exact .inr ⟨e, hPQ e he, hen, happ⟩

variable {sc' sc : PciVtsockSoftc} {l p len flags peerBufAlloc peerFwdCnt alloc port : UInt32}
  {i : SockId} {now fd n : Int} {rc : ShutdownResult} {visit : TxVisit} {s s' : PciVtsockSock}
  {iov : List Iovec} {num : ℕ} {res : WriteResult} {h : TxHost} {hdr : VirtioSockHdr}
  {idx op : UInt16} {sock : Option SockId} {localAddr peerAddr : VsockAddr} {v : WriteVerdict}
  {rest : List SockId} {fits sent : Bool} {m : HostMem} {cid : UInt64}

section Setters

variable (sc : PciVtsockSoftc) (i : SockId) (s : PciVtsockSock)

@[simp] theorem table_view : sc.table.view i = (sc.socks i).view := rfl
@[simp] theorem table_free : sc.table.free = sc.freeList := rfl
@[simp] theorem table_inuse : sc.table.inuse = sc.inuseList := rfl

theorem setSock_table : (sc.setSock i s).table =
    { sc.table with view := update sc.table.view i s.view } := by
  simp [table, setSock]

theorem setState_table (st : SockState) : (sc.setState i st).table = { sc.table with
      view := update sc.table.view i { sc.table.view i with state := st }
      moves := sc.table.moves ++ [(i, (sc.table.view i).state, st)] } := by
  simp [table, setState, setSock, view]

theorem freeSock_table : (freeSock sc i).table =
    { free := i :: sc.table.free
      inuse := sc.table.inuse.erase i
      view := update sc.table.view i { sc.table.view i with state := .free }
      moves := sc.table.moves ++ [(i, (sc.table.view i).state, .free)] } := by
  simp [table, freeSock, setState, setSock, view]

theorem freeSock_table_congr {sc : PciVtsockSoftc} (h : sc'.table = sc.table) :
    (freeSock sc' i).table = (freeSock sc i).table := by
  rw [freeSock_table, freeSock_table, h]

/-- Writing back a sock that looks the same does not change the table. -/
theorem setSock_table_of_view (h : s.view = (sc.socks i).view) :
    (sc.setSock i s).table = sc.table := by
  rw [setSock_table, h, ← table_view, update_eq_self]

/-- Assigning the two flag words is a shutdown. -/
theorem setSock_shut (h : s.view = { (sc.socks i).view with localShutdown := l, peerShutdown := p }) :
    (sc.setSock i s).table = sc.table.apply (.shut i l p) := by
  simp [setSock_table, h]

theorem setSock_hangup :
    (sc.setSock i { sc.socks i with fd := -1 }).table = sc.table.apply (.hangup i) := by
  simp [setSock_table, view]

theorem freeSock_release : (freeSock sc i).table = sc.table.apply (.release i) := by
  simp [freeSock_table]

@[simp] theorem queueReply_table (hdr : VirtioSockHdr) : (queueReply sc hdr).table = sc.table := rfl
@[simp] theorem relTx_table (idx : UInt16) (n : UInt32) : (sc.relTx idx n).table = sc.table := rfl
@[simp] theorem closeFd_table (fd : Int) : (sc.closeFd fd).table = sc.table := rfl
@[simp] theorem kickRx_table : (kickRx sc).table = sc.table := rfl

@[simp] theorem logWrite_table (fd : Int) (bs : List UInt8) :
    (sc.logWrite fd bs).table = sc.table := rfl

@[simp] theorem setCreditUpdateRequired_table : (setCreditUpdateRequired sc i).table = sc.table := by
  unfold setCreditUpdateRequired
  split
  · rfl
  · exact setSock_table_of_view sc i _ rfl

end Setters

theorem lookupSock_some (hl : lookupSock sc localAddr peerAddr = some i) :
    i ∈ sc.inuseList ∧ Table.Answers (sc.table.view i) localAddr peerAddr := by
  refine ⟨List.mem_of_find?_eq_some hl, ?_⟩
  have hmatch := List.find?_some hl
  simp only [sockMatches, Bool.and_eq_true, Bool.or_eq_true, decide_eq_true_eq] at hmatch
  obtain ⟨hst, hpeer, hlocal⟩ := hmatch
  exact ⟨hst.symm, hlocal, hpeer⟩

theorem lookupSock_none_iff :
    lookupSock sc localAddr peerAddr = none ↔ sc.table.Unused localAddr peerAddr := by
  simp only [lookupSock, List.find?_eq_none, Table.Unused, Table.Answers, table_view, table_inuse,
    sockMatches, Bool.and_eq_true, Bool.or_eq_true, decide_eq_true_eq, view]
  constructor
  · rintro hnone j hj ⟨hst, hlocal, hpeer⟩
    exact hnone j hj ⟨hst.symm, hpeer, hlocal⟩
  · rintro hnone j hj ⟨hst, hpeer, hlocal⟩
    exact hnone j hj ⟨hst.symm, hlocal, hpeer⟩

theorem sendResponseSock_table (hs : sendResponseSock sc op flags i = .ok sc') :
    sc'.table = sc.table := by
  obtain ⟨-, hdr, rfl⟩ := sendResponseSock_cases hs
  rfl

theorem closeSock_table (hc : closeSock rc sc (some i) = .ok sc') :
    ∃ l p, sc'.table = sc.table.apply (.close i l p) := by
  obtain ⟨l, rfl⟩ := closeSock_cases hc
  refine ⟨l, shutdownAll ||| (sc.socks i).peerShutdown, ?_⟩
  simp [setState_table, setSock_table, view]

/-- The states a sock can be closed in. -/
def Closable (v : SockView) : Prop :=
  v.state = .connecting ∨ v.state = .connected ∨ v.state = .closingTx

theorem doRst_none_table (hd : doRst h sc idx hdr none = .ok sc') : sc'.table = sc.table := by
  obtain ⟨sc₁, hsend, hclose⟩ := doRst_eq_ok.mp hd
  obtain ⟨-, hdr', rfl⟩ := sendRst_cases hsend
  cases hclose
  rfl

theorem doRst_some_table (hd : doRst h sc idx hdr (some i) = .ok sc') :
    ∃ l p, sc'.table = sc.table.apply (.close i l p) := by
  obtain ⟨sc₁, hsend, hclose⟩ := doRst_eq_ok.mp hd
  obtain ⟨-, hdr', rfl⟩ := sendRst_cases hsend
  have hclosed := closeSock_table hclose
  exact hclosed

theorem bufferWrite_view (hw : bufferWrite m s len iov = .ok (fits, s')) : s'.view = s.view := by
  rcases bufferWrite_eq_ok hw with ⟨-, -, rfl⟩ | ⟨-, -, p, -, -, -, rfl⟩
  · rfl
  · rfl

theorem bufferRest_table (hw : bufferRest sc i s len iov = .ok (v, sc'))
    (hs : s.view = (sc.socks i).view) : sc'.table = sc.table := by
  rw [bufferRest, bind_eq_ok] at hw
  obtain ⟨⟨fits, s'⟩, hb, hw⟩ := hw
  cases hw
  exact setSock_table_of_view sc i s' ((bufferWrite_view hb).trans hs)

theorem acceptWritten_table (hw : acceptWritten sc i len iov num = .ok (v, sc')) :
    sc'.table = sc.table := by
  unfold acceptWritten at hw
  split at hw
  · cases hw
    exact setSock_table_of_view sc i _ rfl
  · rw [bind_eq_ok] at hw
    obtain ⟨p, -, hw⟩ := hw
    split_ifs at hw
    exact bufferRest_table hw rfl

/-- Without an EPIPE payload leaves the table alone. -/
theorem handleWrite_table (hno : sockIsBuffering (sc.socks i) = false → res ≠ .epipe)
    (hw : handleWrite now res sc i len iov = .ok (v, sc')) : sc'.table = sc.table := by
  unfold handleWrite at hw
  dsimp only at hw
  split at hw
  · exact bufferRest_table hw rfl
  · rename_i hbuf
    cases res with
    | epipe => exact absurd rfl (hno (by simpa using hbuf))
    | eagain => exact acceptWritten_table hw
    | error =>
      cases hw
      rfl
    | wrote n =>
      have hsame := acceptWritten_table hw
      exact hsame

/-- A local shutdown adds its flag to a connected sock. -/
theorem shutdownLocalSock_table {mode : UInt32} (hst : (sc.socks i).state = .connected)
    (hs : shutdownLocalSock now (sc.socks i) mode = .ok s') :
    (sc.setSock i s').table = sc.table.apply
      (.shut i (mode ||| (sc.socks i).localShutdown) (sc.socks i).peerShutdown) := by
  rcases shutdownLocalSock_cases hs with ⟨hne, -⟩ | ⟨-, -, head, tail, deadline, rfl⟩
  · exact absurd hst hne
  · exact setSock_shut sc i _ rfl

theorem handleWrite_epipe_table (hst : (sc.socks i).state = .connected)
    (hbuf : sockIsBuffering (sc.socks i) = false)
    (hw : handleWrite now .epipe sc i len iov = .ok (v, sc')) :
    v = .quiet ∧ sc'.table = sc.table.apply
      (.shut i (shutdownRx ||| (sc.socks i).localShutdown) (sc.socks i).peerShutdown) := by
  simp only [handleWrite, hbuf, Bool.false_eq_true, if_false, bind_eq_ok] at hw
  obtain ⟨s, hs, sc₁, hsend, hw⟩ := hw
  cases hw
  refine ⟨rfl, ?_⟩
  rw [sendResponseSock_table hsend]
  exact shutdownLocalSock_table hst hs

/-- What a packet for the sock can do to the table. -/
inductive PacketEvent (h : TxHost) (sc : PciVtsockSoftc) (hdr : VirtioSockHdr)
    (sock : Option SockId) : Event → Prop
  | dial {i : SockId} {w : SockView} (hfd : w.fd = h.connect.socket) :
      PacketEvent h sc hdr sock (.dial i w)
  | giveUp {i : SockId} {w : SockView} (hfd : h.connect.opts.ok → w.fd = (sc.socks i).fd) :
      PacketEvent h sc hdr sock (.giveUp i w)
  | establish {i : SockId} : PacketEvent h sc hdr sock (.establish i)
  | close {i : SockId} {l p : UInt32} : PacketEvent h sc hdr sock (.close i l p)
  | peerShut {i : SockId} {l : UInt32} (hi : sock = some i) (hop : hdr.op = virtioVsockOpShutdown)
      (hacc : ShutdownAccepted (sc.socks i) hdr.flags)
      (hopen : hdr.flags ||| (sc.socks i).peerShutdown ≠ shutdownAll)
      (hl : Reflects (sc.socks i) hdr.flags l) :
      PacketEvent h sc hdr sock (.shut i l (hdr.flags ||| (sc.socks i).peerShutdown))
  | epipe {i : SockId} (hi : sock = some i) (hop : hdr.op = virtioVsockOpRw)
      (hrw : rwOpen (sc.socks i)) (hbuf : sockIsBuffering (sc.socks i) = false)
      (hw : h.writev = .epipe) :
      PacketEvent h sc hdr sock
        (.shut i (shutdownRx ||| (sc.socks i).localShutdown) (sc.socks i).peerShutdown)

section

variable (hfree : sc.freeList = i :: rest) (hs : s.state = .connecting)

include hfree hs

/-- A sock taken off the free list and filled in. -/
theorem allocated_setSock_table :
    ((allocated sc i rest).setSock i s).table = sc.table.apply (.accept i s.view) := by
  have hview : { s.view with state := .connecting } = s.view := by
    rw [view, ← hs]
  simp only [allocated, setSock_table, setState_table, update_idem, Table.apply,
    Event.free, Event.inuse, Event.sock, Event.after, Event.path, hview]
  simp [table, hfree]

/-- The same sock given back. -/
theorem giveUp_table :
    (freeSock ((allocated sc i rest).setSock i s) i).table = sc.table.apply (.giveUp i s.view) := by
  rw [freeSock_table, allocated_setSock_table hfree hs]
  simp [hfree]

theorem dial_table : (((allocated sc i rest).setSock i s).setState i .connected).table =
      sc.table.apply (.dial i s.view) := by
  rw [setState_table, allocated_setSock_table hfree hs]
  simp

end

theorem boundSock_state :
    (boundSock ((allocated sc i rest).socks i) fd localAddr peerAddr peerBufAlloc peerFwdCnt
      alloc).state = .connecting := by
  simp [boundSock]

/-- `connect_sock` either leaves the table alone, takes a sock and gives it back, or opens it
under a pair of addresses that was free. -/
theorem connectSock_became {h : ConnectHost} {o : Option SockId}
    (hfresh : 0 ≤ h.socket → sc.table.Fresh h.socket) (hunused : sc.table.Unused localAddr peerAddr)
    (hc : connectSock h sc localAddr peerAddr peerBufAlloc peerFwdCnt = (o, sc')) :
    Became (fun e => ∃ i w, (e = .dial i w ∧ w.fd = h.socket) ∨
      (e = .giveUp i w ∧ (h.opts.ok → w.fd = (sc.socks i).fd))) sc.table sc'.table := by
  rcases connectSock_cases hc with ⟨-, -, rfl⟩ | ⟨i, rest, hfree, ⟨-, closed, rfl⟩ |
    ⟨hfd, alloc, -, ⟨hbad, -, rfl⟩ | ⟨-, -, rfl⟩⟩⟩
  · exact .inl rfl
  · refine .inr ⟨.giveUp i ((allocated sc i rest).socks i).view, ⟨i, _, .inr ⟨rfl, ?_⟩⟩, ?_, ?_⟩
    · simp [view]
    · simp [hfree]
    · rw [← giveUp_table hfree (by simp)]
      apply freeSock_table_congr
      rw [setSock_table_of_view _ _ _ rfl]
      rfl
  · refine .inr ⟨_, ⟨i, _, .inr ⟨rfl, ?_⟩⟩, ?_,
      (freeSock_table_congr i (closeFd_table _ _)).trans (giveUp_table hfree boundSock_state)⟩
    · simp [hbad]
    · simp [hfree]
  · refine .inr ⟨_, ⟨i, _, .inl ⟨rfl, rfl⟩⟩, ?_, dial_table hfree boundSock_state⟩
    refine ⟨by simp [hfree], hfd, hfresh hfd, ?_, ?_, hunused⟩
    all_goals simp [view, boundSock]

/-- Closing a sock whose flags have just changed is the same close. -/
theorem apply_close_setSock {l' p' : UInt32} :
    (sc.setSock i { sc.socks i with localShutdown := l, peerShutdown := p }).table.apply
      (.close i l' p') = sc.table.apply (.close i l' p') := by
  simp [setSock_table, view]

section Packets

variable (hst : ∀ i, sock = some i → Closable (sc.table.view i))

include hst

theorem doRst_became {sc₀ : PciVtsockSoftc} (hd : doRst h sc idx hdr sock = .ok sc') :
    Became (PacketEvent h sc₀ hdr sock) sc.table sc'.table := by
  cases sock with
  | none => exact .inl (doRst_none_table hd)
  | some i =>
    obtain ⟨l, p, he⟩ := doRst_some_table hd
    exact .inr ⟨_, .close, hst i rfl, he⟩

theorem opRequest_became (hfresh : 0 ≤ h.connect.socket → sc.table.Fresh h.connect.socket)
    (hunused : sock = none → sc.table.Unused hdr.dstAddr hdr.srcAddr)
    (hr : opRequest h sc idx hdr sock = .ok sc') :
    Became (PacketEvent h sc hdr sock) sc.table sc'.table := by
  cases sock with
  | some i => exact doRst_became hst hr
  | none =>
    simp only [opRequest] at hr
    split at hr
    · exact .inl (doRst_none_table hr)
    · generalize hc : connectSock h.connect sc hdr.dstAddr hdr.srcAddr hdr.bufAlloc hdr.fwdCnt = r
        at hr
      obtain ⟨o, sc₁⟩ := r
      have hsame : sc'.table = sc₁.table := by
        cases o with
        | none => exact doRst_none_table hr
        | some i =>
          obtain ⟨sc₂, hsend, hr⟩ := bind_eq_ok.mp hr
          cases hr
          have hkeep := sendResponseSock_table hsend
          exact hkeep
      rw [hsame]
      refine (connectSock_became hfresh (hunused rfl) hc).mono ?_
      rintro e ⟨i, w, ⟨rfl, hfd⟩ | ⟨rfl, hfd⟩⟩
      · exact .dial hfd
      · exact .giveUp hfd

/-- A handler that turns a packet away in the wrong state and otherwise keeps the table. -/
theorem stateGuard_became {P : Prop} [Decidable P] {sc₁ : PciVtsockSoftc}
    (hr : (if P then doRst h sc idx hdr sock else .ok sc₁) = .ok sc')
    (h₁ : sc₁.table = sc.table) :
    Became (PacketEvent h sc hdr sock) sc.table sc'.table := by
  split at hr
  · exact doRst_became hst hr
  · cases hr
    exact .inl h₁

theorem opResponse_became (hr : opResponse h sc idx hdr sock = .ok sc') :
    Became (PacketEvent h sc hdr sock) sc.table sc'.table := by
  cases sock with
  | none => exact .inl (doRst_none_table hr)
  | some i =>
    simp only [opResponse] at hr
    split at hr
    · exact doRst_became hst hr
    · rename_i hconn
      cases hr
      exact .inr ⟨.establish i, .establish, not_not.mp hconn, by simp [setState_table]⟩

theorem opRst_became (hr : opRst h sc idx sock = .ok sc') :
    Became (PacketEvent h sc hdr sock) sc.table sc'.table := by
  simp only [opRst, bind_eq_ok] at hr
  obtain ⟨sc₁, hclose, hr⟩ := hr
  cases hr
  cases sock with
  | none =>
    cases hclose
    exact .inl rfl
  | some i =>
    obtain ⟨l, p, he⟩ := closeSock_table hclose
    exact .inr ⟨_, .close, hst i rfl, he⟩

theorem opShutdown_became (ho : hdr.op = virtioVsockOpShutdown)
    (hr : opShutdown h sc idx hdr sock = .ok sc') :
    Became (PacketEvent h sc hdr sock) sc.table sc'.table := by
  cases sock with
  | none => exact .inl (doRst_none_table hr)
  | some i =>
    simp only [opShutdown] at hr
    split_ifs at hr with hguard
    · exact doRst_became hst hr
    · simp only [not_or, not_not] at hguard
      obtain ⟨s, hs, hr⟩ := bind_eq_ok.mp hr
      obtain ⟨l, rfl, hl⟩ := shutdownPeerLocalFd_cases hs
      split_ifs at hr with hopen
      · obtain ⟨l', p', he⟩ := doRst_some_table hr
        rw [apply_close_setSock] at he
        exact .inr ⟨_, .close, hst i rfl, he⟩
      · cases hr
        exact .inr ⟨_, .peerShut rfl ho hguard hopen hl, .inl hguard.1, setSock_shut sc i _ rfl⟩

theorem opRw_became (ho : hdr.op = virtioVsockOpRw) (hr : opRw h sc idx hdr iov sock = .ok sc') :
    Became (PacketEvent h sc hdr sock) sc.table sc'.table := by
  cases sock with
  | none => exact .inl (doRst_none_table hr)
  | some i =>
    simp only [opRw] at hr
    split at hr
    · exact doRst_became hst hr
    · rename_i hclosed
      have hopen : rwOpen (sc.socks i) := by simpa using hclosed
      obtain ⟨⟨v, sc₁⟩, hw, hr⟩ := bind_eq_ok.mp hr
      by_cases hep : sockIsBuffering (sc.socks i) = false → h.writev ≠ .epipe
      · have hsame := handleWrite_table hep hw
        cases v with
        | reject =>
          rw [← hsame] at hst ⊢
          exact doRst_became hst hr
        | credit =>
          cases hr
          exact .inl (by simpa using hsame)
        | quiet =>
          cases hr
          exact .inl hsame
      · simp only [Classical.not_imp, not_not] at hep
        obtain ⟨hbuf, hwr⟩ := hep
        rw [hwr] at hw
        have hconn := (rwOpen_iff.mp hopen).1
        obtain ⟨rfl, he⟩ := handleWrite_epipe_table hconn hbuf hw
        cases hr
        exact .inr ⟨_, .epipe rfl ho hopen hbuf hwr, .inl hconn, he⟩

/-- Every packet that returns caused at most one event. -/
theorem procOp_became (hfresh : 0 ≤ h.connect.socket → sc.table.Fresh h.connect.socket)
    (hunused : sock = none → sc.table.Unused hdr.dstAddr hdr.srcAddr)
    (hr : procOp h sc idx hdr iov sock = .ok sc') :
    Became (PacketEvent h sc hdr sock) sc.table sc'.table := by
  cases hr ▸ procOp_dispatched with
  | invalid _ hr => exact doRst_became hst hr
  | request _ hr => exact opRequest_became hst hfresh hunused hr
  | response _ hr => exact opResponse_became hst hr
  | rst _ hr => exact opRst_became hst hr
  | shutdown ho hr => exact opShutdown_became hst ho hr
  | rw ho hr => exact opRw_became hst ho hr
  | creditUpdate _ hr =>
    cases sock with
    | none => exact .inl (doRst_none_table hr)
    | some i => exact stateGuard_became hst hr rfl
  | creditRequest _ hr =>
    cases sock with
    | none => exact .inl (doRst_none_table hr)
    | some i => exact stateGuard_became hst hr (by simp)
  | unknown _ hr =>
    cases hr
    exact .inl rfl

end Packets

theorem applyCredit_table (sc : PciVtsockSoftc) (hdr : VirtioSockHdr) (sock : Option SockId) :
    (applyCredit sc hdr sock).table = sc.table := by
  cases sock with
  | none => rfl
  | some i => exact setSock_table_of_view sc i _ rfl

/-- Refreshing the credit of the sock does not change what its packet can do. -/
theorem PacketEvent.of_applyCredit {e : Event}
    (he : PacketEvent h (applyCredit sc hdr sock) hdr sock e) : PacketEvent h sc hdr sock e := by
  cases sock with
  | none => exact he
  | some j =>
    cases he with
    | dial hfd => exact .dial hfd
    | @giveUp i w hfd =>
      refine .giveUp fun hok => (hfd hok).trans ?_
      by_cases hij : i = j
      · subst hij
        simp [applyCredit, creditUpdate]
      · simp [applyCredit, setSock, hij]
    | establish => exact .establish
    | close => exact .close
    | peerShut hi hop hacc hopen hl =>
      cases hi
      simp only [applyCredit, setSock_socks_self] at hacc hopen hl ⊢
      exact .peerShut rfl hop hacc hopen hl
    | epipe hi hop hrw hbuf hw =>
      cases hi
      simp only [applyCredit, setSock_socks_self] at hrw hbuf ⊢
      exact .epipe rfl hop hrw hbuf hw

theorem procPacket_became (hfresh : 0 ≤ h.connect.socket → sc.table.Fresh h.connect.socket)
    (hr : procPacket h sc idx hdr iov = .ok sc') :
    Became (PacketEvent h sc hdr (lookupSock sc hdr.dstAddr hdr.srcAddr)) sc.table sc'.table := by
  unfold procPacket at hr
  split at hr
  · obtain ⟨sc₁, hsend, hr⟩ := bind_eq_ok.mp hr
    cases hr
    obtain ⟨-, hdr', rfl⟩ := sendResponseCommon_cases hsend
    exact .inl rfl
  · have hst : ∀ i, lookupSock sc hdr.dstAddr hdr.srcAddr = some i → Closable (sc.table.view i) := by
      intro i hi
      rcases (lookupSock_some hi).2.1 with hst | hst
      · exact .inl hst
      · exact .inr (.inl hst)
    have hunused : lookupSock sc hdr.dstAddr hdr.srcAddr = none →
        sc.table.Unused hdr.dstAddr hdr.srcAddr := lookupSock_none_iff.mp
    generalize lookupSock sc hdr.dstAddr hdr.srcAddr = sock at hr hst hunused
    rw [← applyCredit_table sc hdr sock] at hst hfresh hunused ⊢
    exact (procOp_became hst hfresh hunused hr).mono fun e => PacketEvent.of_applyCredit

/-- What one call of `pci_vtsock_proc_tx` can do to the table. -/
def TxEvent (h : TxHost) (sc : PciVtsockSoftc) (e : Event) : Prop :=
  ∃ k, nextPacket sc = some k ∧ PacketEvent h sc k.hdr (lookupSock sc k.hdr.dstAddr k.hdr.srcAddr) e

theorem procTx_became (hfresh : 0 ≤ h.connect.socket → sc.table.Fresh h.connect.socket)
    (hr : pciVtsockProcTx h sc = .ok sc') : Became (TxEvent h sc) sc.table sc'.table := by
  rcases procTx_cases h sc with ⟨k, hk, he⟩ | ⟨-, vq, he⟩ | ⟨-, f, he, -⟩
  · rw [he] at hr
    have hfresh' : 0 ≤ h.connect.socket →
        { sc with vqTx := k.vq }.table.Fresh h.connect.socket := hfresh
    refine (procPacket_became hfresh' hr).mono ?_
    intro e hpacket
    refine ⟨k, hk, ?_⟩
    cases hpacket with
    | dial hfd => exact .dial hfd
    | giveUp hfd => exact .giveUp hfd
    | establish => exact .establish
    | close => exact .close
    | peerShut hi hop hacc hopen hl => exact .peerShut hi hop hacc hopen hl
    | epipe hi hop hrw hbuf hw => exact .epipe hi hop hrw hbuf hw
  · rw [he] at hr
    cases hr
    exact .inl rfl
  · rw [he] at hr
    cases hr

/-- What `handle_connect_fd` can do to the table. -/
inductive ConnectEvent (h : AcceptHost) (sc : PciVtsockSoftc) (cid : UInt64) (port : UInt32) :
    Event → Prop
  | accept {i : SockId} {w : SockView} {port' : UInt32} (hfd : w.fd = h.accept)
      (htarget : connectTarget h cid port = some (sc.guestCid, port'))
      (hlocal : w.localAddr = ⟨vmaddrCidHost, hostPort i ((sc.socks i).portGeneration + 1)⟩)
      (hpeer : w.peerAddr = ⟨sc.guestCid, port'⟩) : ConnectEvent h sc cid port (.accept i w)
  | giveUp {i : SockId} {w : SockView} (hbad : h.opts.ok = false) :
      ConnectEvent h sc cid port (.giveUp i w)

theorem acceptedSock_state :
    (acceptedSock i ((allocated sc i rest).socks i) fd cid port alloc).state = .connecting := by
  simp

theorem handleConnectFd_became {h : AcceptHost} (hfresh : 0 ≤ h.accept → sc.table.Fresh h.accept)
    (hr : handleConnectFd h sc cid port = .ok sc') :
    Became (ConnectEvent h sc cid port) sc.table sc'.table := by
  rcases handleConnectFd_cases h sc cid port with ⟨closed, he⟩ | ⟨i, rest, port', alloc, hfree, hfd,
    htarget, ⟨hbad, he⟩ | ⟨-, he⟩⟩
  · rw [he] at hr
    cases hr
    exact .inl rfl
  · rw [he] at hr
    cases hr
    refine .inr ⟨_, .giveUp hbad, ?_,
      (closeFd_table _ _).trans (giveUp_table hfree acceptedSock_state)⟩
    simp [hfree]
  · rw [he] at hr
    have hsame := sendResponseSock_table hr
    refine .inr ⟨_, .accept rfl htarget ?_ rfl, ?_,
      hsame.trans (allocated_setSock_table hfree acceptedSock_state)⟩
    · simp [view]
    · refine ⟨by simp [hfree], hfd, hfresh hfd, ?_, ?_⟩
      all_goals simp [view]

/-- What `buffer_drain` can do to the table. -/
inductive DrainEvent (res : WriteResult) (s : PciVtsockSock) (i : SockId) : Event → Prop
  | epipe (hres : res = .epipe) (hst : s.state = .connected) :
      DrainEvent res s i (.shut i (shutdownRx ||| s.localShutdown) s.peerShutdown)
  | drained (hpeer : s.peerShutdown &&& shutdownTx ≠ 0)
      (hlocal : s.localShutdown &&& shutdownRx = 0) :
      DrainEvent res s i (.shut i (s.localShutdown ||| shutdownRx) s.peerShutdown)
  | close {l p : UInt32} : DrainEvent res s i (.close i l p)

theorem bufferDrain_became (hst : (sc.socks i).state = .connected ∨ (sc.socks i).state = .closingTx)
    (hr : bufferDrain now res rc sc i = .ok sc') :
    Became (DrainEvent res (sc.socks i) i) sc.table sc'.table := by
  unfold bufferDrain at hr
  dsimp only at hr
  split at hr
  · cases hr
  · cases res with
    | epipe =>
      obtain ⟨s, hs, hr⟩ := bind_eq_ok.mp hr
      have hsame := sendResponseSock_table hr
      rcases hst with hconn | hclosing
      · exact .inr ⟨_, .epipe rfl hconn, .inl hconn, hsame.trans (shutdownLocalSock_table hconn hs)⟩
      · rcases shutdownLocalSock_cases hs with ⟨-, rfl⟩ | ⟨hconn, -⟩
        · exact .inl (hsame.trans (setSock_table_of_view sc i _ rfl))
        · rw [hclosing] at hconn
          cases hconn
    | eagain =>
      cases hr
      exact .inl rfl
    | error =>
      obtain ⟨sc₁, hsend, hr⟩ := bind_eq_ok.mp hr
      obtain ⟨-, hdr, rfl⟩ := sendResponseSock_cases hsend
      obtain ⟨l, p, he⟩ := closeSock_table hr
      exact .inr ⟨_, .close, .inr hst, he⟩
    | wrote n =>
      dsimp only at hr
      split_ifs at hr with _ hdefer
      · cases hr
        refine .inl (setSock_table_of_view _ i _ ?_)
        rfl
      · cases hr
        refine .inr ⟨_, .drained hdefer.1 hdefer.2, hst, ?_⟩
        rw [setCreditUpdateRequired_table]
        exact setSock_shut _ i _ rfl
      · cases hr
        rw [setCreditUpdateRequired_table]
        exact .inl (setSock_table_of_view _ i _ rfl)

/-- What a visit of the transmit thread can do to the table. -/
inductive VisitEvent (i : SockId) : Event → Prop
  | close {l p : UInt32} : VisitEvent i (.close i l p)
  | retire : VisitEvent i (.retire i)

theorem txVisitOpen_became (hst : Closable (sc.table.view i))
    (hr : txVisitOpen now rc sc i = .ok (visit, sc')) :
    Became (VisitEvent i) sc.table sc'.table := by
  unfold txVisitOpen at hr
  dsimp only at hr
  split_ifs at hr
  · obtain ⟨sc₁, hsend, hr⟩ := bind_eq_ok.mp hr
    obtain ⟨-, hdr, rfl⟩ := sendResponseSock_cases hsend
    obtain ⟨sc₂, hclose, hr⟩ := bind_eq_ok.mp hr
    cases hr
    obtain ⟨l, p, he⟩ := closeSock_table hclose
    exact .inr ⟨_, .close, hst, he⟩
  all_goals
    cases hr
    exact .inl rfl

theorem txVisit_became (hr : txVisit now rc sc i = .ok (visit, sc')) :
    Became (VisitEvent i) sc.table sc'.table := by
  unfold txVisit at hr
  dsimp only at hr
  split at hr
  · rename_i hst
    split_ifs at hr
    · exact txVisitOpen_became (.inr (.inr hst)) hr
    · cases hr
      exact .inr ⟨.retire i, .retire, hst, by simp [setState_table]⟩
  · rename_i hst
    exact txVisitOpen_became (.inr (.inl hst)) hr
  all_goals
    cases hr
    exact .inl rfl

/-- What a receive can do to the table. -/
inductive ReceiveEvent (s : PciVtsockSock) (i : SockId) : Event → Prop
  | eof : ReceiveEvent s i (.shut i (shutdownTx ||| s.localShutdown) s.peerShutdown)
  | close {l p : UInt32} : ReceiveEvent s i (.close i l p)

section Receive

variable {h : RxHost} {ms : List (SockState × SockState)}

theorem receivedAs_table (he : sc' = { sc with
      socks := update sc.socks i s'
      moves := sc.moves ++ ms.map fun m => (i, m)
      mem := sc'.mem
      vqRx := sc'.vqRx }) :
    sc'.table = { sc.table with
      view := update sc.table.view i s'.view
      moves := sc.table.moves ++ ms.map fun m => (i, m) } := by
  rw [he]
  simp [table]

theorem receivedAs_table_same (he : sc' = { sc with
      socks := update sc.socks i s'
      moves := sc.moves ++ ([] : List (SockState × SockState)).map fun m => (i, m)
      mem := sc'.mem
      vqRx := sc'.vqRx }) (hview : s'.view = (sc.socks i).view) : sc'.table = sc.table := by
  rw [receivedAs_table he, hview, ← table_view, update_eq_self, List.map_nil, List.append_nil]

theorem procRx_became (hst : (sc.socks i).state = .connected)
    (hr : pciVtsockProcRx h sc i = .ok (n, sc')) :
    Became (ReceiveEvent (sc.socks i) i) sc.table sc'.table := by
  obtain ⟨s', ms, hrec, he⟩ := received_procRx hr
  cases hrec with
  | idle | creditSent | data => exact .inl (receivedAs_table_same he rfl)
  | reset l =>
    refine .inr ⟨.close i l (shutdownAll ||| (sc.socks i).peerShutdown), .close, .inr (.inl hst), ?_⟩
    rw [receivedAs_table he]
    simp [view]
  | eof hs =>
    rcases shutdownLocalSock_cases hs with ⟨hne, -⟩ | ⟨-, -, head, tail, deadline, rfl⟩
    · exact absurd hst hne
    · refine .inr ⟨_, .eof, .inl hst, ?_⟩
      rw [receivedAs_table he]
      simp [view]

/-- A receive that changes the table returns zero. -/
theorem procRx_table (hn : n ≠ 0) (hr : pciVtsockProcRx h sc i = .ok (n, sc')) :
    sc'.table = sc.table := by
  obtain ⟨s', ms, hrec, he⟩ := received_procRx hr
  cases hrec with
  | idle | data => exact receivedAs_table_same he rfl
  | creditSent | reset | eof => exact absurd rfl hn

end Receive

theorem sendCreditUpdate_table (hr : sendCreditUpdate sc i = .ok (sent, sc')) :
    sc'.table = sc.table := by
  unfold sendCreditUpdate at hr
  dsimp only at hr
  split_ifs at hr
  · cases hr
    rfl
  · split at hr
    any_goals cases hr
    split at hr
    any_goals cases hr
    split_ifs at hr
    split at hr
    any_goals cases hr
    rfl

theorem creditSent_table (hr : sendCreditUpdate sc i = .ok (sent, sc')) :
    (sc'.setSock i { sc'.socks i with creditUpdateRequired := false }).table = sc.table := by
  refine Eq.trans (setSock_table_of_view sc' i _ ?_) (sendCreditUpdate_table hr)
  rfl

theorem rxDoOneReply_table {more : Bool} (hr : rxDoOneReply sc = .ok (more, sc')) :
    sc'.table = sc.table := by
  rcases rxDoOneReply_cases hr with rfl | ⟨-, mem, vqRx, rfl⟩
  all_goals rfl

/-- Which event an action can cause in a state. -/
inductive StepEvent (s : System) : Action → Event → Prop
  | visit {now : Int} {rc : ShutdownResult} {i : SockId} {todo : List SockId} {e : Event}
      (hpc : s.tx.pc = .scan (i :: todo)) (he : VisitEvent i e) : StepEvent s (.txScan now rc) e
  | connect {h : AcceptHost} {cid : UInt64} {port : UInt32} {pending : List (UInt64 × UInt32)}
      {e : Event} (hpc : s.tx.pc = .connect ((cid, port) :: pending))
      (he : ConnectEvent h s.sc cid port e) : StepEvent s (.txConnect h) e
  | drain {now : Int} {res : WriteResult} {rc : ShutdownResult} {i : SockId} {todo : List SockId}
      {e : Event} (hpc : s.tx.pc = .drain (i :: todo)) (he : DrainEvent res (s.sc.socks i) i e) :
      StepEvent s (.txDrain now res rc) e
  | packet {h : TxHost} {e : Event} (he : TxEvent h s.sc e) : StepEvent s (.txPacket h) e
  | hangup {i : SockId} {todo : List SockId} (hpc : s.rx.pc = .scan (i :: todo)) :
      StepEvent s .rxScan (.hangup i)
  | release {i : SockId} {rest : List SockId} (hpc : s.rx.pc = .closing)
      (hq : s.rx.closingQueue = i :: rest) : StepEvent s .rxFree (.release i)
  | receive {h : RxHost} {i : SockId} {todo : List SockId} {nrDataRx : ℕ} {didSomeWork : Bool}
      {e : Event} (hpc : s.rx.pc = .socks (i :: todo) nrDataRx didSomeWork)
      (he : ReceiveEvent (s.sc.socks i) i e) : StepEvent s (.rxSock h) e

section Steps

variable {s t : System} {a : Action} {sc : PciVtsockSoftc} {tx : TxThread} {rx : RxThread}

theorem freshFd_iff {sc : PciVtsockSoftc} : freshFd sc fd ↔ (0 ≤ fd → sc.table.Fresh fd) := by
  simp only [freshFd, Bool.or_eq_true, decide_eq_true_eq, List.all_eq_true, Table.Fresh,
    table_inuse, table_view, view]
  constructor
  · rintro (hneg | hall) hpos
    · omega
    · exact hall
  · intro h
    by_cases hpos : 0 ≤ fd
    · exact .inr (h hpos)
    · exact .inl (by omega)

theorem txFinish_table (sc : PciVtsockSoftc) : (txFinish sc).table = sc.table := by
  unfold txFinish
  dsimp only
  split
  all_goals split <;> rfl

variable {todo : List SockId}

theorem txStep_became (h : TxStep s a sc tx) : Became (StepEvent s a) s.sc.table sc.table := by
  cases h with
  | top hpc => exact .inl rfl
  | scanned hpc =>
    refine .inl ?_
    split
    · simp
    · rfl
  | skip hpc hv | closing hpc hv | queue hpc hv =>
    exact (txVisit_became hv).mono fun _ he => .visit hpc he
  | selectFailed | selected | connected => exact .inl rfl
  | accept hpc hfresh hr =>
    exact (handleConnectFd_became (freshFd_iff.mp hfresh) hr).mono fun _ he => .connect hpc he
  | drained hpc => exact .inl rfl
  | drain hpc hst hfd hr => exact (bufferDrain_became hst hr).mono fun _ he => .drain hpc he
  | pass hpc => exact .inl rfl
  | packet hpc hfresh hr =>
    exact (procTx_became (freshFd_iff.mp hfresh) hr).mono fun _ he => .packet he
  | finish hpc => exact .inl (txFinish_table s.sc)

theorem procRx_stepEvent {h : RxHost} {nrDataRx : ℕ} {didSomeWork : Bool}
    (hpc : s.rx.pc = .socks (i :: todo) nrDataRx didSomeWork)
    (hst : (s.sc.socks i).state = .connected) (hr : pciVtsockProcRx h s.sc i = .ok (n, sc)) :
    Became (StepEvent s (.rxSock h)) s.sc.table sc.table :=
  (procRx_became hst hr).mono fun _ he => .receive hpc he

section

variable (hq : ∀ i ∈ s.rx.closingQueue, (s.sc.socks i).state = .closingRx)

include hq

theorem rxStep_became (h : RxStep s a sc rx) : Became (StepEvent s a) s.sc.table sc.table := by
  cases h with
  | top | scanned => exact .inl rfl
  | hangup hpc hst => exact .inr ⟨_, .hangup hpc, hst, setSock_hangup (s.sc.closeFd _) _⟩
  | skip | poll | freed => exact .inl rfl
  | free hpc hqueue =>
    exact .inr ⟨_, .release hpc hqueue, hq _ (by simp [hqueue]), freeSock_release s.sc _⟩
  | selectFailed | selected | noDescs => exact .inl rfl
  | reply hpc hr => exact .inl (rxDoOneReply_table hr)
  | repliesLeft | passAgain | passDone | drop => exact .inl rfl
  | starved hpc hst hr =>
    have hb := procRx_stepEvent hpc hst hr
    exact hb
  | spent hpc hst hr | data hpc hst hbytes hr => exact procRx_stepEvent hpc hst hr
  | credit hpc hr => exact .inl (creditSent_table hr)
  | creditStarved hpc hr =>
    have hsame := sendCreditUpdate_table hr
    exact .inl hsame

/-- One action of the system is at most one enabled event of the table. -/
theorem step_became (hs : step s a = .ok t) : Became (StepEvent s a) s.sc.table t.sc.table := by
  cases step_stepped hs with
  | guest g => exact .inl (by cases g <;> rfl)
  | tx h => exact txStep_became h
  | rx h => exact rxStep_became hq h

end

end Steps

end HyperCog.Vsock
