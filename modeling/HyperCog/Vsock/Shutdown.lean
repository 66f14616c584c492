import HyperCog.Vsock.Address

/-!
Why `shutdown_local_sock` does not meet a connected sock that is already shut down in
full, and the one race in which it does.
-/
namespace HyperCog.Vsock

open Virtio List

/-- The socks the transmit thread has yet to visit in this turn. -/
def TxThread.todo (tx : TxThread) : List SockId :=
  match tx.pc with
  | .scan todo => todo
  | _ => []

attribute [local simp] TxThread.todo

/-- The socks queued for a drain in this turn. -/
def TxThread.pending (tx : TxThread) : List SockId :=
  match tx.pc with
  | .scan _ | .select | .connect _ => tx.queue
  | .drain todo => todo
  | .packets | .top => []

/-- What a step does to the part of the transmit thread that drains socks. -/
inductive TxMove (s : System) (a : Action) (t : System) : Prop
  | keep (htodo : t.tx.todo = s.tx.todo) (hpending : t.tx.pending = s.tx.pending)
      (hdrain : ∀ now res rc, a ≠ .txDrain now res rc) (hpacket : ∀ h, a ≠ .txPacket h)
  | clear (htodo : t.tx.todo = s.tx.todo) (hpending : t.tx.pending = [])
  | top (htodo : t.tx.todo = s.sc.inuseList) (hpending : t.tx.pending = [])
  | visit {i : SockId} (htodo : s.tx.todo = i :: t.tx.todo)
      (hpending : t.tx.pending = s.tx.pending)
      (hdrain : ∀ now res rc, a ≠ .txDrain now res rc) (hpacket : ∀ h, a ≠ .txPacket h)
  | queue {i : SockId} (htodo : s.tx.todo = i :: t.tx.todo)
      (hpending : t.tx.pending = i :: s.tx.pending)
      (hrx : (s.sc.socks i).localShutdown &&& shutdownRx = 0) (hsc : t.sc = s.sc)
  | drain {i : SockId} (htodo : t.tx.todo = s.tx.todo) (hpending : s.tx.pending = i :: t.tx.pending)
      (hhead : ∀ e, StepEvent s a e → e.sock = i)

variable {s t : System} {a : Action} {i j : SockId} {todo : List SockId} {now : Int}
  {rc : ShutdownResult} {sc sc' : PciVtsockSoftc} {tx : TxThread} {rx : RxThread}
  {l p mode c : UInt32} {sock : PciVtsockSock} {T : Table} {e : Event} {as : List Action}
  {guestCid : UInt64} {ram : GuestRam} {fwds : List UInt32} {msix : Bool}

/-- Only a sock that still takes data is queued for a drain. -/
theorem txVisitOpen_queue (hr : txVisitOpen now rc sc i = .ok (.queue, sc')) :
    sc' = sc ∧ (sc.socks i).localShutdown &&& shutdownRx = 0 := by
  unfold txVisitOpen at hr
  dsimp only at hr
  split at hr
  · cases hr
  split at hr
  · obtain ⟨sc₁, -, hr⟩ := Machine.bind_eq_ok.mp hr
    obtain ⟨sc₂, -, hr⟩ := Machine.bind_eq_ok.mp hr
    cases hr
  split at hr
  · cases hr
  · rename_i hrx
    split at hr
    · cases hr
      exact ⟨rfl, not_not.mp hrx⟩
    · cases hr

theorem txVisit_queue (hr : txVisit now rc sc i = .ok (.queue, sc')) :
    sc' = sc ∧ (sc.socks i).localShutdown &&& shutdownRx = 0 := by
  unfold txVisit at hr
  dsimp only at hr
  split at hr
  · split at hr
    · exact txVisitOpen_queue hr
    split at hr
    · cases hr
    · cases hr
  · exact txVisitOpen_queue hr
  all_goals cases hr

/-- A drain concerns the sock at the head of the list. -/
theorem stepEvent_drain {res : WriteResult}
    (hpc : s.tx.pc = .drain (i :: todo)) (e : Event) (he : StepEvent s (.txDrain now res rc) e) :
    e.sock = i := by
  cases he with
  | drain hpc' hv =>
    rw [hpc] at hpc'
    cases hpc'
    cases hv <;> rfl

/-- A visit that queues nothing. -/
theorem txVisited_move (hpc : s.tx.pc = .scan (i :: todo))
    (hnext : tx.pc = .scan todo) (hqueue : tx.queue = s.tx.queue) :
    TxMove s (.txScan now rc) { s with sc, tx } := by
  have htodo : s.tx.todo = i :: tx.todo := by simp [hpc, hnext]
  refine .visit htodo ?_ (by simp) (by simp)
  simp [TxThread.pending, hpc, hnext, hqueue]

theorem txStep_move (h : TxStep s a sc tx) : TxMove s a { s with sc, tx } := by
  cases h with
  | top hpc => exact .top rfl rfl
  | scanned hpc | selected hpc | connected hpc | accept hpc =>
    refine .keep ?_ ?_ (by simp) (by simp)
    · simp [hpc]
    · simp [TxThread.pending, hpc]
  | skip hpc | closing hpc => exact txVisited_move hpc rfl rfl
  | queue hpc hv =>
    obtain ⟨rfl, hrx⟩ := txVisit_queue hv
    refine .queue ?_ ?_ hrx rfl
    · simp [hpc]
    · simp [TxThread.pending, hpc]
  | selectFailed hpc | drained hpc | finish hpc =>
    refine .clear ?_ rfl
    simp [hpc]
  | drain hpc | pass hpc =>
    refine .drain ?_ ?_ (stepEvent_drain hpc)
    · simp [hpc]
    · simp [TxThread.pending, hpc]
  | packet hpc hfresh hr =>
    refine .clear rfl ?_
    simp [TxThread.pending, hpc]

theorem RxStep.not_tx (h : RxStep s a sc rx) :
    (∀ now res rc, a ≠ .txDrain now res rc) ∧ ∀ h, a ≠ .txPacket h := by
  cases h <;> simp

/-- What any step does to the transmit thread's lists. -/
theorem step_txMove (hs : step s a = .ok t) : TxMove s a t := by
  cases step_stepped hs with
  | guest g => exact .keep rfl rfl (by simp) (by simp)
  | tx h => exact txStep_move h
  | rx h => exact .keep rfl rfl h.not_tx.1 h.not_tx.2

/-- The sock's descriptor is in the read set of the receive thread. -/
def Polled (s : System) (i : SockId) : Prop := (s.sc.socks i).fd ∈ s.rx.rfd

/-- While a sock is polled, it does not lose both directions one after the other: no `EPIPE`
once its reads are shut down, and no shutdown of its reads once its writes are. -/
def ShutdownSafe (s : System) : Action → Prop
  | .txDrain _ res _ => ∀ i todo, s.tx.pc = .drain (i :: todo) → Polled s i → res = .epipe →
      (s.sc.socks i).localShutdown &&& shutdownTx = 0
  | .txPacket h => ∀ k i, nextPacket s.sc = some k →
      lookupSock s.sc k.hdr.dstAddr k.hdr.srcAddr = some i → Polled s i →
      (k.hdr.op = virtioVsockOpRw ∧ sockIsBuffering (s.sc.socks i) = false ∧ h.writev = .epipe →
        (s.sc.socks i).localShutdown &&& shutdownTx = 0) ∧
      (k.hdr.op = virtioVsockOpShutdown ∧ k.hdr.flags = shutdownRx ∧ (s.sc.socks i).peerShutdown = 0 →
        (s.sc.socks i).localShutdown &&& shutdownRx = 0)
  | _ => True

/-- The ways in which a sock that stays open is shut down further. -/
inductive Shuts (s : System) (i : SockId) : Action → UInt32 → UInt32 → Prop
  | drainEpipe {now : Int} {rc : ShutdownResult} {todo : List SockId}
      (hpc : s.tx.pc = .drain (i :: todo)) :
      Shuts s i (.txDrain now .epipe rc) (shutdownRx ||| (s.sc.socks i).localShutdown)
        (s.sc.socks i).peerShutdown
  | drained {now : Int} {res : WriteResult} {rc : ShutdownResult}
      (hpeer : (s.sc.socks i).peerShutdown &&& shutdownTx ≠ 0) :
      Shuts s i (.txDrain now res rc) ((s.sc.socks i).localShutdown ||| shutdownRx)
        (s.sc.socks i).peerShutdown
  | packetEpipe {h : TxHost} {k : TxPacket} (hk : nextPacket s.sc = some k)
      (hi : lookupSock s.sc k.hdr.dstAddr k.hdr.srcAddr = some i)
      (hop : k.hdr.op = virtioVsockOpRw) (hbuf : sockIsBuffering (s.sc.socks i) = false)
      (hw : h.writev = .epipe) :
      Shuts s i (.txPacket h) (shutdownRx ||| (s.sc.socks i).localShutdown)
        (s.sc.socks i).peerShutdown
  | peer {h : TxHost} {k : TxPacket} {l : UInt32} (hk : nextPacket s.sc = some k)
      (hi : lookupSock s.sc k.hdr.dstAddr k.hdr.srcAddr = some i)
      (hop : k.hdr.op = virtioVsockOpShutdown)
      (hacc : ShutdownAccepted (s.sc.socks i) k.hdr.flags)
      (hopen : k.hdr.flags ||| (s.sc.socks i).peerShutdown ≠ shutdownAll)
      (hl : Reflects (s.sc.socks i) k.hdr.flags l) :
      Shuts s i (.txPacket h) l (k.hdr.flags ||| (s.sc.socks i).peerShutdown)
  | eof {h : RxHost} {todo : List SockId} {nrDataRx : ℕ} {didSomeWork : Bool}
      (hpc : s.rx.pc = .socks (i :: todo) nrDataRx didSomeWork) :
      Shuts s i (.rxSock h) (shutdownTx ||| (s.sc.socks i).localShutdown)
        (s.sc.socks i).peerShutdown

/-- The peer has shut down at most one direction. -/
def HalfOpen (p : UInt32) : Prop := p = 0 ∨ p = shutdownRx ∨ p = shutdownTx

/-- What a polled sock may have shut down. -/
def Readable (l p : UInt32) : Prop :=
  l ≠ shutdownAll ∧ (l &&& shutdownTx ≠ 0 → p = shutdownRx)

theorem ne_all_of_and (hc : shutdownAll &&& c ≠ 0) (h : l &&& c = 0) : l ≠ shutdownAll := by
  rintro rfl
  exact hc h

theorem readable_of_and (h : l &&& shutdownTx = 0) : Readable l p :=
  ⟨ne_all_of_and (by decide) h, fun hne => absurd h hne⟩

theorem rx_or_and_tx : (shutdownRx ||| l) &&& shutdownTx = l &&& shutdownTx := by
  have hrx : shutdownRx &&& shutdownTx = 0 := by decide
  rw [Flags.or_and, hrx, UInt32.zero_or]

theorem or_rx_and_tx : (l ||| shutdownRx) &&& shutdownTx = l &&& shutdownTx := by
  rw [UInt32.or_comm, rx_or_and_tx]

theorem tx_or_and_rx : (shutdownTx ||| l) &&& shutdownRx = l &&& shutdownRx := by
  have htx : shutdownTx &&& shutdownRx = 0 := by decide
  rw [Flags.or_and, htx, UInt32.zero_or]

/-- What an accepted mode that leaves the connection open makes of the peer's flags. -/
theorem newPeerFlags_halfOpen (hm : ValidMode mode) (hp : HalfOpen sock.peerShutdown)
    (hopen : mode ||| sock.peerShutdown ≠ shutdownAll) :
    HalfOpen (mode ||| sock.peerShutdown) ∧
    (newPeerFlags sock mode = 0 → mode ||| sock.peerShutdown = sock.peerShutdown) ∧
    (newPeerFlags sock mode = shutdownRx → mode = shutdownRx ∧ sock.peerShutdown = 0) ∧
    (newPeerFlags sock mode = shutdownTx → sock.peerShutdown = 0) ∧
    newPeerFlags sock mode ≠ shutdownAll := by
  unfold newPeerFlags HalfOpen at *
  generalize sock.peerShutdown = p at *
  rcases hm.flags with rfl | rfl | rfl
  all_goals
    rcases hp with rfl | rfl | rfl
    all_goals first | exact absurd rfl hopen | decide

theorem stepEvent_shut (h : StepEvent s a (.shut i l p)) : Shuts s i a l p := by
  cases h with
  | visit hpc he => cases he
  | connect hpc he => cases he
  | drain hpc he =>
    cases he with
    | epipe hres hst =>
      subst hres
      exact .drainEpipe hpc
    | drained hpeer hlocal => exact .drained hpeer
  | packet he =>
    obtain ⟨k, hk, he⟩ := he
    cases he with
    | peerShut hi hop hacc hopen hl => exact .peer hk hi hop hacc hopen hl
    | epipe hi hop hrw hbuf hw => exact .packetEpipe hk hi hop hbuf hw
  | receive hpc he =>
    cases he with
    | eof => exact .eof hpc

theorem shuts_halfOpen (hp : HalfOpen (s.sc.socks i).peerShutdown) (h : Shuts s i a l p) :
    HalfOpen p := by
  cases h with
  | drainEpipe | drained | packetEpipe => exact hp
  | peer hk hi hop hacc hopen hl => exact (newPeerFlags_halfOpen hacc.validMode hp hopen).1
  | eof hpc => exact hp

/-- Short of the end of the stream, a polled sock stays readable. -/
theorem shuts_readable (hc : ShutdownSafe s a) (hpolled : Polled s i)
    (hp : HalfOpen (s.sc.socks i).peerShutdown)
    (hr : Readable (s.sc.socks i).localShutdown (s.sc.socks i).peerShutdown)
    (h : Shuts s i a l p) (hne : ∀ h, a ≠ .rxSock h) : Readable l p := by
  cases h with
  | drainEpipe hpc =>
    refine readable_of_and ?_
    rw [rx_or_and_tx]
    exact hc i _ hpc hpolled rfl
  | drained hpeer =>
    refine readable_of_and ?_
    rw [or_rx_and_tx]
    by_contra hlocal
    rw [hr.2 hlocal] at hpeer
    exact hpeer (by decide)
  | packetEpipe hk hi hop hbuf hw =>
    refine readable_of_and ?_
    rw [rx_or_and_tx]
    exact (hc _ i hk hi hpolled).1 ⟨hop, hbuf, hw⟩
  | peer hk hi hop hacc hopen hl =>
    obtain ⟨-, hzero, hrx, htx, hall⟩ := newPeerFlags_halfOpen hacc.validMode hp hopen
    rcases hl with ⟨h0, rfl⟩ | ⟨h0, rfl⟩ | ⟨h0, hl⟩ | h0
    · rw [hzero h0]
      exact hr
    · obtain ⟨hflags, hpeer⟩ := hrx h0
      have hlocal := (hc _ i hk hi hpolled).2 ⟨hop, hflags, hpeer⟩
      refine ⟨?_, fun _ => ?_⟩
      · refine ne_all_of_and (c := shutdownRx) (by decide) ?_
        rw [UInt32.or_comm, tx_or_and_rx]
        exact hlocal
      · rw [hflags, hpeer]
        decide
    · have hlocal : (s.sc.socks i).localShutdown &&& shutdownTx = 0 := by
        by_contra hlocal
        have hpeer := (htx h0).symm.trans (hr.2 hlocal)
        exact absurd hpeer (by decide)
      refine readable_of_and ?_
      rcases hl with rfl | rfl
      · exact hlocal
      · rw [or_rx_and_tx]
        exact hlocal
    · exact absurd h0 hall
  | eof hpc => exact absurd rfl (hne _)

/-- The flags of an open sock. -/
structure FlagsOk (s : System) : Prop where
  connecting : ∀ i, (s.sc.table.view i).state = .connecting →
    (s.sc.table.view i).localShutdown = 0 ∧ (s.sc.table.view i).peerShutdown = 0
  connected : ∀ i, (s.sc.table.view i).state = .connected → HalfOpen (s.sc.table.view i).peerShutdown

/-- Every descriptor in the read set belongs to one sock in use, which has been visited. -/
structure PollOk (s : System) : Prop where
  owner : s.sc.table.Owner
  holder : ∀ f ∈ s.rx.rfd, ∃ j ∈ s.sc.table.inuse, (s.sc.table.view j).fd = f ∧ 0 ≤ f
  ahead : ∀ i ∈ s.rx.todo, i ∈ s.sc.table.inuse ∧ (s.sc.table.view i).fd ∉ s.rx.rfd

/-- The socks queued for a drain are open for it, and each is queued once. -/
structure DrainOk (s : System) : Prop where
  nodup : (s.tx.todo ++ s.tx.pending).Nodup
  rx_clear : ∀ i ∈ s.tx.pending, (s.sc.table.view i).state = .connected →
    (s.sc.table.view i).localShutdown &&& shutdownRx = 0

/-- A connected sock in the read set can still be read. -/
def ReadOk (s : System) : Prop :=
  ∀ i, (s.sc.table.view i).state = .connected → (s.sc.table.view i).fd ∈ s.rx.rfd →
    Readable (s.sc.table.view i).localShutdown (s.sc.table.view i).peerShutdown

structure ShutOk (s : System) : Prop where
  life : LifeOk s
  flags : FlagsOk s
  poll : PollOk s
  drain : DrainOk s
  read : ReadOk s

/-- How a sock comes to be connected, or stays so. -/
theorem Table.apply_connected (he : T.Enabled e) (hst : ((T.apply e).view e.sock).state = .connected) :
    (∃ v : SockView, (T.apply e).view e.sock = { v with state := .connected } ∧
      T.Fresh v.fd ∧ v.localShutdown = 0 ∧ v.peerShutdown = 0) ∨
    ((T.view e.sock).state = .connecting ∧
      (T.apply e).view e.sock = { T.view e.sock with state := .connected }) ∨
    ∃ l p, e = .shut e.sock l p ∧ (T.view e.sock).state = .connected ∧
      (T.apply e).view e.sock = { T.view e.sock with localShutdown := l, peerShutdown := p } := by
  rw [apply_view_self] at hst ⊢
  cases e with
  | dial i v => exact .inl ⟨v, rfl, he.2.2.1, he.2.2.2.1, he.2.2.2.2.1⟩
  | accept | giveUp => cases hst
  | establish i => exact .inr (.inl ⟨he, rfl⟩)
  | shut i l p => exact .inr (.inr ⟨l, p, rfl, hst, rfl⟩)
  | close | retire => cases hst
  | hangup i =>
    have hold := hst.symm.trans he
    cases hold
  | release i => cases hst

/-- A sock is connecting because it has just been accepted, or still is. -/
theorem Table.apply_connecting (he : T.Enabled e) (hst : ((T.apply e).view j).state = .connecting) :
    (((T.apply e).view j).localShutdown = 0 ∧ ((T.apply e).view j).peerShutdown = 0) ∨
    (T.apply e).view j = T.view j := by
  by_cases hj : j = e.sock
  · subst hj
    rw [apply_view_self] at hst ⊢
    cases e with
    | dial i v => cases hst
    | accept i v => exact .inl ⟨he.2.2.2.1, he.2.2.2.2⟩
    | giveUp | establish => cases hst
    | shut i l p =>
      rcases he with hold | hold
      all_goals cases hst.symm.trans hold
    | close | retire => cases hst
    | hangup i =>
      have hold := hst.symm.trans he
      cases hold
    | release i => cases hst
  · exact .inr (apply_view_ne hj)

/-- How a step leaves a sock connected. -/
theorem connected_cases (h : LifeOk s) (hs : step s a = .ok t)
    (hst : (t.sc.table.view j).state = .connected) :
    t.sc.table.view j = s.sc.table.view j ∨
    (∃ v : SockView, t.sc.table.view j = { v with state := .connected } ∧
      s.sc.table.Fresh v.fd ∧ v.localShutdown = 0 ∧ v.peerShutdown = 0) ∨
    ((s.sc.table.view j).state = .connecting ∧
      t.sc.table.view j = { s.sc.table.view j with state := .connected }) ∨
    ∃ l p, Shuts s j a l p ∧ (s.sc.table.view j).state = .connected ∧
      t.sc.table.view j = { s.sc.table.view j with localShutdown := l, peerShutdown := p } := by
  rcases h.became hs with hsame | ⟨e, hev, hen, he⟩
  · exact .inl (by rw [hsame])
  · rw [he] at hst ⊢
    by_cases hne : j = e.sock
    · subst hne
      rcases Table.apply_connected hen hst with hdial | hold | ⟨l, p, hshut, hold⟩
      · exact .inr (.inl hdial)
      · exact .inr (.inr (.inl hold))
      · rw [hshut] at hev
        exact .inr (.inr (.inr ⟨l, p, stepEvent_shut hev, hold⟩))
    · exact .inl (Table.apply_view_ne hne)

theorem flagsOk_step (h : LifeOk s) (hf : FlagsOk s) (hs : step s a = .ok t) : FlagsOk t := by
  refine ⟨?_, ?_⟩
  · intro j hj
    rcases h.became hs with hsame | ⟨e, hev, hen, he⟩
    · rw [hsame] at hj ⊢
      exact hf.connecting j hj
    · rw [he] at hj ⊢
      rcases Table.apply_connecting hen hj with hnew | hold
      · exact hnew
      · rw [hold] at hj ⊢
        exact hf.connecting j hj
  · intro j hj
    rcases connected_cases h hs hj with hsame | ⟨v, hview, -, -, hpeer⟩ | ⟨hst, hview⟩ |
      ⟨l, p, hshuts, hst, hview⟩
    · rw [hsame] at hj ⊢
      exact hf.connected j hj
    · rw [hview]
      exact .inl hpeer
    · rw [hview]
      exact .inl (hf.connecting _ hst).2
    · rw [hview]
      exact shuts_halfOpen (hf.connected _ hst) hshuts

theorem owner_became {P : Event → Prop} {T' : Table} (h : T.Ok) (hb : Became P T T')
    (ho : T.Owner) : T'.Owner := by
  rcases hb with rfl | ⟨e, -, he, rfl⟩
  · exact ho
  · exact Table.owner_apply h he ho

/-- Outside the receive thread's scan and free pass, a sock in use stays so with its
descriptor. -/
theorem inuse_keep (h : LifeOk s) (hs : step s a = .ok t) (hj : j ∈ s.sc.table.inuse)
    (hno : ¬ StepEvent s a (.hangup j)) (hkept : ¬ StepEvent s a (.release j)) :
    j ∈ t.sc.table.inuse ∧ (t.sc.table.view j).fd = (s.sc.table.view j).fd := by
  rcases h.became hs with hsame | ⟨e, hev, hen, he⟩
  · rw [hsame]
    exact ⟨hj, rfl⟩
  · rw [he]
    refine ⟨Table.mem_inuse_apply hj ?_, Table.fd_apply h.table hen hj ?_⟩
    · rintro rfl
      exact hkept hev
    · rintro rfl
      exact hno hev

/-- A step that takes no descriptor into the read set, where each sock that is polled or still to be
visited keeps its place and its descriptor. -/
theorem PollOk.of_kept (hp : PollOk s) (howner : t.sc.table.Owner) {k : SockId → Prop}
    (hrfd : ∀ f ∈ t.rx.rfd, f ∈ s.rx.rfd)
    (hkeep : ∀ j ∈ s.sc.table.inuse, k j →
      j ∈ t.sc.table.inuse ∧ (t.sc.table.view j).fd = (s.sc.table.view j).fd)
    (hpolled : ∀ j, (s.sc.table.view j).fd ∈ s.rx.rfd → 0 ≤ (s.sc.table.view j).fd → k j)
    (htodo : ∀ j ∈ t.rx.todo, j ∈ s.rx.todo ∧ k j) : PollOk t := by
  refine ⟨howner, fun f hf => ?_, fun j hj => ?_⟩
  · obtain ⟨j, hj, rfl, hpos⟩ := hp.holder f (hrfd f hf)
    obtain ⟨hj', hfd'⟩ := hkeep j hj (hpolled j (hrfd _ hf) hpos)
    exact ⟨j, hj', hfd', hpos⟩
  · obtain ⟨hmem, hk⟩ := htodo j hj
    obtain ⟨hin, hout⟩ := hp.ahead j hmem
    obtain ⟨hin', hfd'⟩ := hkeep j hin hk
    refine ⟨hin', fun hpoll => hout ?_⟩
    rw [← hfd']
    exact hrfd _ hpoll

theorem pollOk_step (h : LifeOk s) (hp : PollOk s) (hs : step s a = .ok t) : PollOk t := by
  have howner := owner_became h.table (h.became hs) hp.owner
  have hnodup := h.rx.nodup
  cases step_rxMove hs with
  | keep htodo hclosing hrfd hno hkept =>
    exact hp.of_kept howner (fun f hf => hrfd hf)
      (fun j hj _ => inuse_keep h hs hj (hno j) (hkept j)) (fun _ _ _ => trivial)
      fun j hj => ⟨htodo ▸ hj, trivial⟩
  | top htodo hclosing hrfd hsc =>
    refine ⟨howner, by simp [hrfd], ?_⟩
    intro j hj
    rw [htodo] at hj
    refine ⟨by rw [hsc]; exact hj, by simp [hrfd]⟩
  | skip htodo hclosing hrfd hsc =>
    refine hp.of_kept howner (fun f hf => hrfd ▸ hf) (fun j hj _ => ?_)
      (fun _ _ _ => trivial) fun j hj => ⟨?_, trivial⟩
    · rw [hsc]
      exact ⟨hj, rfl⟩
    · rw [htodo]
      exact mem_cons_of_mem _ hj
  | @poll i htodo hclosing hrfd hst hfd hpoll hsc =>
    rw [htodo] at hnodup
    have hi := (hp.ahead i (by rw [htodo]; exact mem_cons_self)).1
    refine ⟨howner, ?_, ?_⟩
    · intro f hf
      rw [hrfd, mem_cons] at hf
      rw [hsc]
      rcases hf with rfl | hf
      · exact ⟨i, hi, rfl, hfd⟩
      · exact hp.holder f hf
    · intro j hj
      obtain ⟨hin, hout⟩ := hp.ahead j (by rw [htodo]; exact mem_cons_of_mem _ hj)
      rw [hrfd, hsc]
      refine ⟨hin, ?_⟩
      intro hmem
      rcases mem_cons.mp hmem with heq | hmem
      · have hij := hp.owner i hi j hin hfd heq.symm
        rw [← hij] at hj
        exact hnodup.notMem (mem_append_left _ hj)
      · exact hout hmem
  | @hangup i htodo hclosing hrfd hst htable =>
    rw [htodo] at hnodup
    have hout := (hp.ahead i (by rw [htodo]; exact mem_cons_self)).2
    refine hp.of_kept howner (k := (· ≠ i)) (fun f hf => hrfd ▸ hf) (fun j hj hne => ?_) ?_
      fun j hj => ⟨?_, ?_⟩
    · rw [htable, Table.apply_view_ne hne]
      exact ⟨hj, rfl⟩
    · rintro j hmem - rfl
      exact hout hmem
    · rw [htodo]
      exact mem_cons_of_mem _ hj
    · rintro rfl
      exact hnodup.notMem (mem_append_left _ hj)
  | @release i htodo hclosing hrfd htable =>
    rw [hclosing] at hnodup
    have hfree := (h.rx.closing i (by rw [hclosing]; exact mem_cons_self)).2
    refine hp.of_kept howner (k := (· ≠ i)) (fun f hf => hrfd ▸ hf) (fun j hj hne => ?_) ?_
      fun j hj => ⟨htodo ▸ hj, ?_⟩
    · rw [htable, Table.apply_view_ne hne]
      exact ⟨(mem_erase_of_ne hne).mpr hj, rfl⟩
    · rintro j - hpos rfl
      omega
    · rintro rfl
      have hperm := (perm_middle.nodup_iff).mp hnodup
      rw [htodo] at hj
      exact hperm.notMem (mem_append_left _ hj)

/-- The receive thread stops polling a sock whose flags it changes. -/
theorem rxSock_rfd {h : RxHost} {nrDataRx : ℕ} {didSomeWork : Bool}
    (hpc : s.rx.pc = .socks (i :: todo) nrDataRx didSomeWork) (hs : step s (.rxSock h) = .ok t) :
    t.sc.table = s.sc.table ∨ (s.sc.socks i).fd ∉ t.rx.rfd := by
  cases step_stepped hs with
  | tx hstep => cases hstep
  | rx hstep =>
    cases hstep with
    | passAgain | passDone | drop => exact .inl rfl
    | starved hpc' hst hr =>
      have hsame := procRx_table (by decide) hr
      exact .inl hsame
    | spent hpc' hst hr =>
      rw [hpc] at hpc'
      cases hpc'
      refine .inr ?_
      simp
    | data hpc' hst hbytes hr => exact .inl (procRx_table hbytes hr)
    | credit hpc' hr => exact .inl (creditSent_table hr)
    | creditStarved hpc' hr =>
      have hsame := sendCreditUpdate_table hr
      exact .inl hsame

/-- While the read set does not grow, what it holds stays readable. -/
theorem readable_step (h : ShutOk s) (hc : ShutdownSafe s a) (hs : step s a = .ok t)
    (hst : (t.sc.table.view j).state = .connected) (hin : (t.sc.table.view j).fd ∈ s.rx.rfd)
    (hmem : (t.sc.table.view j).fd ∈ t.rx.rfd) :
    Readable (t.sc.table.view j).localShutdown (t.sc.table.view j).peerShutdown := by
  rcases connected_cases h.life hs hst with hsame | ⟨v, hview, hfresh, -⟩ | ⟨hold, hview⟩ |
    ⟨l, p, hshuts, hold, hview⟩
  · rw [hsame] at hst hin ⊢
    exact h.read j hst hin
  · rw [hview] at hin
    obtain ⟨k, hk, hfd, -⟩ := h.poll.holder _ hin
    exact absurd hfd (hfresh k hk)
  · rw [hview]
    refine readable_of_and ?_
    rw [(h.flags.connecting _ hold).1]
    decide
  · rw [hview] at hin hmem ⊢
    by_cases hrx : ∃ h, a = .rxSock h
    · obtain ⟨h', rfl⟩ := hrx
      cases hshuts with
      | eof hpc =>
        rcases rxSock_rfd hpc hs with hsame | hout
        · rw [← hview, hsame]
          exact h.read _ hold hin
        · exact absurd hmem hout
    · exact shuts_readable hc hin (h.flags.connected _ hold) (h.read _ hold hin) hshuts
        fun h' ha => hrx ⟨h', ha⟩

theorem readOk_step (h : ShutOk s) (hc : ShutdownSafe s a) (hs : step s a = .ok t) : ReadOk t := by
  intro j hst hmem
  cases step_rxMove hs with
  | keep htodo hclosing hrfd hno hkept => exact readable_step h hc hs hst (hrfd hmem) hmem
  | top htodo hclosing hrfd hsc => simp [hrfd] at hmem
  | skip htodo hclosing hrfd | hangup htodo hclosing hrfd | release htodo hclosing hrfd =>
    exact readable_step h hc hs hst (hrfd ▸ hmem) hmem
  | @poll i htodo hclosing hrfd hst' hfd hpoll hsc =>
    rcases mem_cons.mp (hrfd ▸ hmem) with heq | hin
    · have hi := (h.poll.ahead i (by rw [htodo]; exact mem_cons_self)).1
      rw [hsc] at hst heq ⊢
      have hj : j ∈ s.sc.table.inuse := by
        rw [h.life.table.mem_inuse_iff, hst]
        simp
      have hij := h.poll.owner i hi j hj hfd heq.symm
      subst hij
      simp only [rxPolling, Bool.and_eq_true, decide_eq_true_eq] at hpoll
      exact readable_of_and hpoll.1.1
    · exact readable_step h hc hs hst hin hmem

/-- The receive thread and new connections leave the reads of a sock as they were. -/
theorem rx_clear_step (h : ShutOk s) (hs : step s a = .ok t) (hj : j ∈ s.tx.pending)
    (hdrain : ∀ now res rc, a ≠ .txDrain now res rc) (hpacket : ∀ h, a ≠ .txPacket h)
    (hst : (t.sc.table.view j).state = .connected) :
    (t.sc.table.view j).localShutdown &&& shutdownRx = 0 := by
  rcases connected_cases h.life hs hst with hsame | ⟨v, hview, -, hlocal, -⟩ | ⟨hold, hview⟩ |
    ⟨l, p, hshuts, hold, hview⟩
  · rw [hsame] at hst ⊢
    exact h.drain.rx_clear j hj hst
  · rw [hview]
    simp [hlocal]
  · rw [hview]
    have hlocal := (h.flags.connecting _ hold).1
    simp only [hlocal, UInt32.zero_and]
  · rw [hview]
    cases hshuts with
    | drainEpipe | drained => exact absurd rfl (hdrain _ _ _)
    | packetEpipe | peer => exact absurd rfl (hpacket _)
    | eof hpc => exact tx_or_and_rx.trans (h.drain.rx_clear _ hj hold)

theorem drainOk_step (h : ShutOk s) (hs : step s a = .ok t) : DrainOk t := by
  have hnodup := h.drain.nodup
  cases step_txMove hs with
  | keep htodo hpending hdrain hpacket =>
    refine ⟨by rw [htodo, hpending]; exact hnodup, ?_⟩
    intro j hj
    rw [hpending] at hj
    exact rx_clear_step h hs hj hdrain hpacket
  | clear htodo hpending =>
    refine ⟨?_, by simp [hpending]⟩
    rw [htodo, hpending, append_nil]
    exact hnodup.of_append_left
  | top htodo hpending =>
    refine ⟨?_, by simp [hpending]⟩
    rw [htodo, hpending, append_nil]
    exact Pool.nodup_inuse h.life.table.split
  | visit htodo hpending hdrain hpacket =>
    rw [htodo] at hnodup
    refine ⟨by rw [hpending]; exact hnodup.of_cons, ?_⟩
    intro j hj
    rw [hpending] at hj
    exact rx_clear_step h hs hj hdrain hpacket
  | queue htodo hpending hrx hsc =>
    rw [htodo] at hnodup
    refine ⟨?_, ?_⟩
    · rw [hpending]
      exact (perm_middle.nodup_iff).mpr hnodup
    · intro j hj hst
      rw [hpending, mem_cons] at hj
      rw [hsc] at hst ⊢
      rcases hj with rfl | hj
      · exact hrx
      · exact h.drain.rx_clear j hj hst
  | @drain i htodo hpending hhead =>
    rw [hpending] at hnodup
    have hperm := (perm_middle.nodup_iff).mp hnodup
    refine ⟨by rw [htodo]; exact hperm.of_cons, ?_⟩
    intro j hj hst
    have hne : j ≠ i := by
      rintro rfl
      exact hperm.notMem (mem_append_right _ hj)
    have hkept : t.sc.table.view j = s.sc.table.view j := by
      rcases h.life.became hs with hsame | ⟨e, hev, hen, he⟩
      · rw [hsame]
      · rw [he]
        refine Table.apply_view_ne ?_
        rw [hhead e hev]
        exact hne
    rw [hkept] at hst ⊢
    exact h.drain.rx_clear j (by rw [hpending]; exact mem_cons_of_mem _ hj) hst

theorem shutOk_step (hc : ShutdownSafe s a) (hs : step s a = .ok t) (h : ShutOk s) : ShutOk t :=
  ⟨lifeOk_step h.life hs, flagsOk_step h.life h.flags hs, pollOk_step h.life h.poll hs,
    drainOk_step h hs, readOk_step h hc hs⟩

theorem shutOk_init : ShutOk (initSystem guestCid ram fwds msix) := by
  refine ⟨lifeOk_init, ⟨?_, ?_⟩, ⟨?_, ?_, ?_⟩, ⟨nodup_nil, ?_⟩, ?_⟩
  all_goals
    intro _ hmem
    cases hmem

theorem shutOk_run
    (hrun : Machine.Run step ShutdownSafe (initSystem guestCid ram fwds msix) as s) : ShutOk s :=
  hrun.invariant (fun _ _ _ hc hs h => shutOk_step hc hs h) shutOk_init

/-- In every state of a run that meets `ShutdownSafe`, no next action enters
`shutdown_local_sock` with a connected sock that is already shut down in full. -/
theorem shutdown_never_repeated
    (hrun : Machine.Run step ShutdownSafe (initSystem guestCid ram fwds msix) as s) (a : Action) :
    step s a ≠ .error (.fault .alreadyShutdown) := by
  have h := shutOk_run hrun
  intro hfault
  have hserves := (step_effects s a).shutTwice hfault
  cases a with
  | txDrain now res rc =>
    obtain ⟨i, todo, hpc, -, hst, hall⟩ := hserves
    have hi : i ∈ s.tx.pending := by simp [TxThread.pending, hpc]
    have hclear : (s.sc.socks i).localShutdown &&& shutdownRx = 0 := h.drain.rx_clear i hi hst
    exact ne_all_of_and (by decide) hclear hall
  | rxSock h' =>
    obtain ⟨i, todo, nrDataRx, didSomeWork, -, hfd, hst, hall⟩ := hserves
    exact (h.read i hst hfd).1 hall
  | guest | txTop | txScan | txSelect | txConnect | txPacket | rxTop | rxScan | rxFree | rxSelect
  | rxReply => exact hserves

/-- A request, one byte of data and a shutdown of the guest's receive side. -/
def halfClosePackets : HostMem :=
  let request := requestHdr 80
  storeBytes (storeBytes (storeBytes (fun _ => 0) 0 request.toBytes)
    64 { request with op := virtioVsockOpRw, len := 1 }.toBytes)
    128 { request with op := virtioVsockOpShutdown, flags := shutdownRx }.toBytes

/-- Host calls for a packet that opens no connection. -/
def laterHost (res : WriteResult) : TxHost :=
  { calmHost with connect := { connectNine with socket := -1 }, writev := res }

/-- The guest posts the packets and three receive buffers, the transmit thread serves the
request, the receive thread polls the new sock, and the write of the data meets `EPIPE`. -/
def pollThenEpipe : List Action :=
  [.guest (.store halfClosePackets), .guest .initQueues,
    .guest (.rings (fun i => ⟨.ofNat (64 * i), if i = 1 then 45 else 44, 0, 0⟩)
      ⟨0, 3, fun i => .ofNat i⟩ initQueue.vqUsed
      (fun i => ⟨.ofNat (4096 + 128 * i), 128, 2, 0⟩) ⟨0, 3, fun i => .ofNat i⟩ initQueue.vqUsed),
    .txTop, .txScan 0 .ok, .txSelect true [] false (fun _ => false),
    .txConnect ⟨-1, none, ⟨true, true, none⟩⟩, .txDrain 0 .eagain .ok, .txPacket calmHost,
    .rxTop, .rxScan, .rxScan, .rxFree, .rxSelect true [9] false,
    .txPacket (laterHost .epipe)]

/-- The receive thread delivers the two replies that are pending by then. -/
def twoReplies : List Action := [.rxReply, .rxReply]

def endOfStream : Action := .rxSock ⟨.read [], .ok, 0⟩

set_option maxRecDepth 4096 in
/-- The end of the stream after the `EPIPE` alone. -/
theorem shutdown_never_repeated_epipe : ∃ s,
    Machine.Run step ShutdownSafe (initSystem 3 ⟨65536, 0⟩ [] false)
      (pollThenEpipe ++ twoReplies) s ∧
    (s.sc.socks firstSock).localShutdown = shutdownRx ∧
    step s endOfStream ≠ .error (.fault .alreadyShutdown) := by
  have hrun : Machine.Run step ShutdownSafe (initSystem 3 ⟨65536, 0⟩ [] false)
      (pollThenEpipe ++ twoReplies) _ :=
    .stepL trivial rfl (.stepL trivial rfl (.stepL trivial rfl (.stepL trivial rfl
    (.stepL trivial rfl (.stepL trivial rfl (.stepL trivial rfl
    (.stepL (fun _ _ hpc => nomatch hpc) rfl
    (.stepL (fun _ _ _ _ hpolled => nomatch hpolled) rfl
    (.stepL trivial rfl (.stepL trivial rfl (.stepL trivial rfl
    (.stepL trivial rfl (.stepL trivial rfl
    (.stepL (fun k i hk hi _ => by
      cases hk
      cases hi
      exact ⟨fun _ => rfl, fun h => absurd h.1 (by decide)⟩) rfl
    (.stepL trivial rfl (.stepL trivial rfl .refl))))))))))))))))
  exact ⟨_, hrun, rfl, shutdown_never_repeated hrun endOfStream⟩

set_option maxRecDepth 4096 in
/-- A shutdown by the guest between the two, and the end of the stream aborts the device. -/
theorem half_close_race : ∃ s, Machine.Run step Machine.Any (initSystem 3 ⟨65536, 0⟩ [] false)
      (pollThenEpipe ++ .txPacket (laterHost (.wrote 0)) :: twoReplies) s ∧
    step s endOfStream = .error (.fault .alreadyShutdown) :=
  ⟨_, Machine.run_any_iff_exec.mpr rfl, rfl⟩

/-- The receive thread only polls descriptors of socks in use, each held by one sock alone. -/
theorem polled_owned (hrun : Machine.Run step Machine.Any (initSystem guestCid ram fwds msix) as s) :
    s.sc.table.Owner ∧ ∀ f ∈ s.rx.rfd, ∃! j ∈ s.sc.table.inuse, (s.sc.table.view j).fd = f := by
  have hok : PollOk s := (hrun.invariant (I := fun s => LifeOk s ∧ PollOk s)
    (fun _ _ _ _ hs h => ⟨lifeOk_step h.1 hs, pollOk_step h.1 h.2 hs⟩) ⟨lifeOk_init, shutOk_init.poll⟩).2
  refine ⟨hok.owner, fun f hf => ?_⟩
  obtain ⟨j, hj, rfl, hopen⟩ := hok.holder f hf
  exact ⟨j, ⟨hj, rfl⟩, fun i hi => (hok.owner j hj i hi.1 hopen hi.2.symm).symm⟩

theorem polled_owned_nine : ∃ s, Machine.Run step Machine.Any
    (initSystem 3 ⟨65536, 0⟩ [] false) pollThenEpipe s ∧
    ∃! j ∈ s.sc.table.inuse, (s.sc.table.view j).fd = 9 := by
  have hrun : Machine.Run step Machine.Any (initSystem 3 ⟨65536, 0⟩ [] false) pollThenEpipe _ :=
    Machine.run_any_iff_exec.mpr rfl
  exact ⟨_, hrun, (polled_owned hrun).2 9 mem_cons_self⟩

end HyperCog.Vsock
