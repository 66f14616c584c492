import HyperCog.Vsock.Threads

/-! The paths through the two thread loops, one constructor for each way a step can succeed. -/
namespace HyperCog.Vsock

open Virtio Machine

/-- A step of the transmit thread: the device and the thread after it. -/
inductive TxStep (s : System) : Action → PciVtsockSoftc → TxThread → Prop
  | top (hpc : s.tx.pc = .top) : TxStep s .txTop s.sc ⟨.scan s.sc.inuseList, [], [], false⟩
  | scanned {now rc} (hpc : s.tx.pc = .scan []) :
      TxStep s (.txScan now rc) (if s.tx.kickRxClosing then kickRx s.sc else s.sc)
        { s.tx with pc := .select }
  | skip {now rc i todo sc} (hpc : s.tx.pc = .scan (i :: todo))
      (hv : txVisit now rc s.sc i = .ok (.skip, sc)) :
      TxStep s (.txScan now rc) sc { s.tx with pc := .scan todo }
  | closing {now rc i todo sc} (hpc : s.tx.pc = .scan (i :: todo))
      (hv : txVisit now rc s.sc i = .ok (.closing, sc)) :
      TxStep s (.txScan now rc) sc { s.tx with pc := .scan todo, kickRxClosing := true }
  | queue {now rc i todo sc} (hpc : s.tx.pc = .scan (i :: todo))
      (hv : txVisit now rc s.sc i = .ok (.queue, sc)) :
      TxStep s (.txScan now rc) sc { s.tx with
        pc := .scan todo
        queue := i :: s.tx.queue
        wfd := (s.sc.socks i).fd :: s.tx.wfd }
  | selectFailed {writable connectReady fwdReady} (hpc : s.tx.pc = .select) :
      TxStep s (.txSelect false writable connectReady fwdReady) s.sc { s.tx with pc := .top }
  | selected {writable connectReady fwdReady} (hpc : s.tx.pc = .select) :
      TxStep s (.txSelect true writable connectReady fwdReady) s.sc { s.tx with
        pc := .connect (listeners s.sc connectReady fwdReady)
        wfd := s.tx.wfd.filter (· ∈ writable) }
  | connected {h} (hpc : s.tx.pc = .connect []) :
      TxStep s (.txConnect h) s.sc { s.tx with pc := .drain s.tx.queue }
  | accept {h cid port pending sc} (hpc : s.tx.pc = .connect ((cid, port) :: pending))
      (hfresh : freshFd s.sc h.accept) (hr : handleConnectFd h s.sc cid port = .ok sc) :
      TxStep s (.txConnect h) sc { s.tx with pc := .connect pending }
  | drained {now res rc} (hpc : s.tx.pc = .drain []) :
      TxStep s (.txDrain now res rc) s.sc { s.tx with pc := .packets }
  | drain {now res rc i todo sc} (hpc : s.tx.pc = .drain (i :: todo))
      (hst : (s.sc.socks i).state = .connected ∨ (s.sc.socks i).state = .closingTx)
      (hfd : (s.sc.socks i).fd ∈ s.tx.wfd) (hr : bufferDrain now res rc s.sc i = .ok sc) :
      TxStep s (.txDrain now res rc) sc { s.tx with pc := .drain todo }
  | pass {now res rc i todo} (hpc : s.tx.pc = .drain (i :: todo)) :
      TxStep s (.txDrain now res rc) s.sc { s.tx with pc := .drain todo }
  | packet {h sc} (hpc : s.tx.pc = .packets) (hfresh : freshFd s.sc h.connect.socket)
      (hr : pciVtsockProcTx h s.sc = .ok sc) :
      TxStep s (.txPacket h) sc s.tx
  | finish {h} (hpc : s.tx.pc = .packets) :
      TxStep s (.txPacket h) (txFinish s.sc) { s.tx with pc := .top }

/-- A step of the receive thread: the device and the thread after it. -/
inductive RxStep (s : System) : Action → PciVtsockSoftc → RxThread → Prop
  | top (hpc : s.rx.pc = .top) : RxStep s .rxTop s.sc { s.rx with
        pc := .scan s.sc.inuseList, queue := [], closingQueue := [], rfd := [] }
  | scanned (hpc : s.rx.pc = .scan []) : RxStep s .rxScan s.sc { s.rx with pc := .closing }
  | hangup {i todo} (hpc : s.rx.pc = .scan (i :: todo)) (hst : (s.sc.socks i).state = .closingRx) :
      RxStep s .rxScan
        ((s.sc.closeFd (s.sc.socks i).fd).setSock i { s.sc.socks i with fd := -1 })
        { s.rx with pc := .scan todo, closingQueue := i :: s.rx.closingQueue }
  | skip {i todo} (hpc : s.rx.pc = .scan (i :: todo)) :
      RxStep s .rxScan s.sc { s.rx with pc := .scan todo }
  | poll {i todo} (hpc : s.rx.pc = .scan (i :: todo)) (hst : (s.sc.socks i).state = .connected)
      (hfd : 0 ≤ (s.sc.socks i).fd) :
      RxStep s .rxScan s.sc { s.rx with
        pc := .scan todo
        rfd := if rxPolling (s.sc.socks i) then (s.sc.socks i).fd :: s.rx.rfd else s.rx.rfd
        queue := if rxPolling (s.sc.socks i) || (s.sc.socks i).creditUpdateRequired then
            i :: s.rx.queue
          else s.rx.queue }
  | freed (hpc : s.rx.pc = .closing) (hqueue : s.rx.closingQueue = []) :
      RxStep s .rxFree s.sc { s.rx with pc := .select }
  | free {i rest} (hpc : s.rx.pc = .closing) (hqueue : s.rx.closingQueue = i :: rest) :
      RxStep s .rxFree (freeSock s.sc i) { s.rx with closingQueue := rest }
  | selectFailed {readable woken} (hpc : s.rx.pc = .select) :
      RxStep s (.rxSelect false readable woken) s.sc { s.rx with pc := .top }
  | selected {readable woken} (hpc : s.rx.pc = .select) :
      RxStep s (.rxSelect true readable woken) s.sc { s.rx with
        pc := .replies false
        rfd := s.rx.rfd.filter (· ∈ readable)
        pollSocks := woken || s.rx.pollSocks }
  | noDescs {readable woken} (hpc : s.rx.pc = .select) :
      RxStep s (.rxSelect true readable woken) s.sc { s.rx with
        pc := .top, rfd := s.rx.rfd.filter (· ∈ readable), pollSocks := false }
  | reply {didSomeWork more sc} (hpc : s.rx.pc = .replies didSomeWork)
      (hr : rxDoOneReply s.sc = .ok (more, sc)) :
      RxStep s .rxReply sc { s.rx with
        pc := if more then .replies true else .socks s.rx.queue 0 didSomeWork }
  | repliesLeft {didSomeWork} (hpc : s.rx.pc = .replies didSomeWork) :
      RxStep s .rxReply (endRx s.sc true) { s.rx with pc := .top, pollSocks := false }
  | passAgain {h todo nrDataRx} (hpc : s.rx.pc = .socks todo nrDataRx true) :
      RxStep s (.rxSock h) s.sc { s.rx with pc := .replies false }
  | passDone {h todo nrDataRx} (hpc : s.rx.pc = .socks todo nrDataRx false) :
      RxStep s (.rxSock h) (endRx s.sc false) { s.rx with pc := .top }
  | drop {h i todo nrDataRx didSomeWork} (hpc : s.rx.pc = .socks (i :: todo) nrDataRx didSomeWork) :
      RxStep s (.rxSock h) s.sc { s.rx with
        pc := .socks todo (nrDataRx + 1) didSomeWork, queue := s.rx.queue.erase i }
  | starved {h i todo nrDataRx didSomeWork sc}
      (hpc : s.rx.pc = .socks (i :: todo) nrDataRx didSomeWork)
      (hst : (s.sc.socks i).state = .connected) (hr : pciVtsockProcRx h s.sc i = .ok (-1, sc)) :
      RxStep s (.rxSock h) (endRx sc true) { s.rx with pc := .top }
  | spent {h i todo nrDataRx didSomeWork sc}
      (hpc : s.rx.pc = .socks (i :: todo) nrDataRx didSomeWork)
      (hst : (s.sc.socks i).state = .connected) (hr : pciVtsockProcRx h s.sc i = .ok (0, sc)) :
      RxStep s (.rxSock h) sc { s.rx with
        pc := .socks todo (nrDataRx + 1) didSomeWork
        queue := s.rx.queue.erase i
        rfd := s.rx.rfd.filter (· ≠ (s.sc.socks i).fd) }
  | data {h i todo nrDataRx didSomeWork sc bytes}
      (hpc : s.rx.pc = .socks (i :: todo) nrDataRx didSomeWork)
      (hst : (s.sc.socks i).state = .connected) (hbytes : bytes ≠ 0)
      (hr : pciVtsockProcRx h s.sc i = .ok (bytes, sc)) :
      RxStep s (.rxSock h) sc { s.rx with pc := .socks todo (nrDataRx + 1) true }
  | credit {h i todo nrDataRx didSomeWork sc}
      (hpc : s.rx.pc = .socks (i :: todo) nrDataRx didSomeWork)
      (hr : sendCreditUpdate s.sc i = .ok (true, sc)) :
      RxStep s (.rxSock h) (sc.setSock i { sc.socks i with creditUpdateRequired := false })
        { s.rx with pc := .socks todo (nrDataRx + 1) didSomeWork }
  | creditStarved {h i todo nrDataRx didSomeWork sc}
      (hpc : s.rx.pc = .socks (i :: todo) nrDataRx didSomeWork)
      (hr : sendCreditUpdate s.sc i = .ok (false, sc)) :
      RxStep s (.rxSock h) (endRx sc true) { s.rx with pc := .top }

/-- Either thread leaves the other alone, and the guest both. -/
inductive Stepped (s : System) : Action → System → Prop
  | guest (g : GuestAction) : Stepped s (.guest g) { s with sc := guestStep s.sc g }
  | tx {a sc tx} (h : TxStep s a sc tx) : Stepped s a { s with sc, tx }
  | rx {a sc rx} (h : RxStep s a sc rx) : Stepped s a { s with sc, rx }

variable {s t : System} {a : Action} {now : Int} {rc : ShutdownResult} {res : WriteResult}

theorem txScanStep_stepped (hs : txScanStep s now rc = .ok t) : Stepped s (.txScan now rc) t := by
  unfold txScanStep at hs
  split at hs
  · rename_i hpc
    cases hs
    exact .tx (.scanned hpc)
  · rename_i i todo hpc
    obtain ⟨⟨visit, sc⟩, hv, hs⟩ := bind_eq_ok.mp hs
    rw [orFault_eq_ok] at hv
    cases visit with
    | skip =>
      cases hs
      exact .tx (.skip hpc hv)
    | closing =>
      cases hs
      exact .tx (.closing hpc hv)
    | queue =>
      cases hs
      exact .tx (.queue hpc hv)
  · cases hs

theorem txSelectStep_stepped {ok connectReady : Bool} {writable : List Int}
    {fwdReady : UInt32 → Bool} (hs : txSelectStep s ok writable connectReady fwdReady = .ok t) :
    Stepped s (.txSelect ok writable connectReady fwdReady) t := by
  unfold txSelectStep at hs
  split at hs
  · rename_i hpc
    cases ok with
    | false =>
      cases hs
      exact .tx (.selectFailed hpc)
    | true =>
      cases hs
      exact .tx (.selected hpc)
  · cases hs

theorem txConnectStep_stepped {h : AcceptHost} (hs : txConnectStep s h = .ok t) :
    Stepped s (.txConnect h) t := by
  unfold txConnectStep at hs
  split at hs
  · rename_i hpc
    cases hs
    exact .tx (.connected hpc)
  · rename_i hpc
    split_ifs at hs with hfresh
    obtain ⟨sc, hr, hs⟩ := bind_eq_ok.mp hs
    cases hs
    exact .tx (.accept hpc (by simpa using hfresh) (orFault_eq_ok.mp hr))
  · cases hs

theorem txDrainStep_stepped (hs : txDrainStep s now res rc = .ok t) :
    Stepped s (.txDrain now res rc) t := by
  unfold txDrainStep at hs
  split at hs
  · rename_i hpc
    cases hs
    exact .tx (.drained hpc)
  · rename_i hpc
    dsimp only at hs
    split at hs
    · rename_i hready
      obtain ⟨sc, hr, hs⟩ := bind_eq_ok.mp hs
      cases hs
      exact .tx (.drain hpc hready.1 hready.2 (orFault_eq_ok.mp hr))
    · cases hs
      exact .tx (.pass hpc)
  · cases hs

theorem txPacketStep_stepped {h : TxHost} (hs : txPacketStep s h = .ok t) :
    Stepped s (.txPacket h) t := by
  unfold txPacketStep at hs
  split at hs
  · rename_i hpc
    split_ifs at hs with hfresh
    · obtain ⟨sc, hr, hs⟩ := bind_eq_ok.mp hs
      cases hs
      exact .tx (.packet hpc (by simpa using hfresh) (orFault_eq_ok.mp hr))
    · cases hs
      exact .tx (.finish hpc)
  · cases hs

theorem rxScanStep_stepped (hs : rxScanStep s = .ok t) : Stepped s .rxScan t := by
  unfold rxScanStep at hs
  split at hs
  · rename_i hpc
    cases hs
    exact .rx (.scanned hpc)
  · rename_i i todo hpc
    dsimp only at hs
    split at hs
    · rename_i hst
      split_ifs at hs
      cases hs
      exact .rx (.hangup hpc hst)
    split at hs
    · cases hs
      exact .rx (.skip hpc)
    · rename_i hconn
      simp only [not_or, not_not] at hconn
      split at hs
      · cases hs
      · cases hs
        exact .rx (.poll hpc hconn.1 (by omega))
  · cases hs

theorem rxFreeStep_stepped (hs : rxFreeStep s = .ok t) : Stepped s .rxFree t := by
  unfold rxFreeStep at hs
  split at hs
  · rename_i hpc
    split at hs
    · rename_i hqueue
      cases hs
      exact .rx (.freed hpc hqueue)
    · rename_i hqueue
      cases hs
      exact .rx (.free hpc hqueue)
  · cases hs

theorem rxSelectStep_stepped {ok woken : Bool} {readable : List Int}
    (hs : rxSelectStep s ok readable woken = .ok t) :
    Stepped s (.rxSelect ok readable woken) t := by
  unfold rxSelectStep at hs
  split at hs
  · rename_i hpc
    cases ok with
    | false =>
      cases hs
      exact .rx (.selectFailed hpc)
    | true =>
      simp only [Bool.not_true, Bool.false_eq_true, if_false] at hs
      split at hs
      · cases hs
        exact .rx (.selected hpc)
      · cases hs
        exact .rx (.noDescs hpc)
  · cases hs

theorem rxReplyStep_stepped (hs : rxReplyStep s = .ok t) : Stepped s .rxReply t := by
  unfold rxReplyStep at hs
  split at hs
  · rename_i hpc
    split at hs
    · obtain ⟨⟨more, sc⟩, hr, hs⟩ := bind_eq_ok.mp hs
      cases hs
      exact .rx (.reply hpc (orFault_eq_ok.mp hr))
    · cases hs
      exact .rx (.repliesLeft hpc)
  · cases hs

theorem rxPassDone_stepped {h : RxHost} {todo : List SockId} {nrDataRx : ℕ} {didSomeWork : Bool}
    (hpc : s.rx.pc = .socks todo nrDataRx didSomeWork) :
    Stepped s (.rxSock h) (rxPassDone s didSomeWork) := by
  cases didSomeWork with
  | true => exact .rx (.passAgain hpc)
  | false => exact .rx (.passDone hpc)

theorem rxSockStep_stepped {h : RxHost} (hs : rxSockStep s h = .ok t) : Stepped s (.rxSock h) t := by
  unfold rxSockStep at hs
  split at hs
  · rename_i hpc
    cases hs
    exact rxPassDone_stepped hpc
  · rename_i i todo nrDataRx didSomeWork hpc
    dsimp only at hs
    split at hs
    · cases hs
      exact rxPassDone_stepped hpc
    split at hs
    · cases hs
      exact .rx (.drop hpc)
    rename_i hconn
    have hst := not_not.mp hconn
    split_ifs at hs
    · obtain ⟨⟨bytes, sc⟩, hr, hs⟩ := bind_eq_ok.mp hs
      rw [orFault_eq_ok] at hr
      split_ifs at hs with hbytes _ hbytes
      · subst hbytes
        cases hs
        exact .rx (.starved hpc hst hr)
      · subst hbytes
        cases hs
        exact .rx (.spent hpc hst hr)
      · cases hs
        exact .rx (.data hpc hst hbytes hr)
    · obtain ⟨⟨sent, sc⟩, hr, hs⟩ := bind_eq_ok.mp hs
      rw [orFault_eq_ok] at hr
      cases sent with
      | true =>
        cases hs
        exact .rx (.credit hpc hr)
      | false =>
        cases hs
        exact .rx (.creditStarved hpc hr)
    · cases hs
      exact .rx (.drop hpc)
  · cases hs

/-- Every step that succeeds is one of the paths. -/
theorem step_stepped (hs : step s a = .ok t) : Stepped s a t := by
  cases a with
  | guest g =>
    cases hs
    exact .guest g
  | txTop =>
    simp only [step, txTopStep] at hs
    split at hs
    · rename_i hpc
      cases hs
      exact .tx (.top hpc)
    · cases hs
  | txScan now rc => exact txScanStep_stepped hs
  | txSelect ok writable connectReady fwdReady => exact txSelectStep_stepped hs
  | txConnect h => exact txConnectStep_stepped hs
  | txDrain now res rc => exact txDrainStep_stepped hs
  | txPacket h => exact txPacketStep_stepped hs
  | rxTop =>
    simp only [step, rxTopStep] at hs
    split at hs
    · rename_i hpc
      cases hs
      exact .rx (.top hpc)
    · cases hs
  | rxScan => exact rxScanStep_stepped hs
  | rxFree => exact rxFreeStep_stepped hs
  | rxSelect ok readable woken => exact rxSelectStep_stepped hs
  | rxReply => exact rxReplyStep_stepped hs
  | rxSock h => exact rxSockStep_stepped hs

end HyperCog.Vsock
