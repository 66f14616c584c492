import HyperCog.Vsock.Events

/-! The life of a sock over whole runs of both threads and the guest. -/
namespace HyperCog.Vsock

open Virtio List

/-- The socks that the receive thread has yet to visit in this pass. -/
def RxThread.todo (rx : RxThread) : List SockId :=
  match rx.pc with
  | .scan todo => todo
  | _ => []

attribute [local simp] RxThread.todo

/-- What a step does to the part of the receive thread that closes and polls socks. -/
inductive RxMove (s : System) (a : Action) (t : System) : Prop
  | keep (htodo : t.rx.todo = s.rx.todo) (hclosing : t.rx.closingQueue = s.rx.closingQueue)
      (hrfd : t.rx.rfd ⊆ s.rx.rfd) (hno : ∀ i, ¬ StepEvent s a (.hangup i))
      (hkept : ∀ i, ¬ StepEvent s a (.release i))
  | top (htodo : t.rx.todo = s.sc.inuseList) (hclosing : t.rx.closingQueue = [])
      (hrfd : t.rx.rfd = []) (hsc : t.sc = s.sc)
  | skip {i : SockId} (htodo : s.rx.todo = i :: t.rx.todo)
      (hclosing : t.rx.closingQueue = s.rx.closingQueue) (hrfd : t.rx.rfd = s.rx.rfd)
      (hsc : t.sc = s.sc)
  | poll {i : SockId} (htodo : s.rx.todo = i :: t.rx.todo)
      (hclosing : t.rx.closingQueue = s.rx.closingQueue)
      (hrfd : t.rx.rfd = (s.sc.socks i).fd :: s.rx.rfd) (hst : (s.sc.socks i).state = .connected)
      (hfd : 0 ≤ (s.sc.socks i).fd) (hpoll : rxPolling (s.sc.socks i)) (hsc : t.sc = s.sc)
  | hangup {i : SockId} (htodo : s.rx.todo = i :: t.rx.todo)
      (hclosing : t.rx.closingQueue = i :: s.rx.closingQueue) (hrfd : t.rx.rfd = s.rx.rfd)
      (hst : (s.sc.socks i).state = .closingRx)
      (htable : t.sc.table = s.sc.table.apply (.hangup i))
  | release {i : SockId} (htodo : t.rx.todo = s.rx.todo)
      (hclosing : s.rx.closingQueue = i :: t.rx.closingQueue) (hrfd : t.rx.rfd = s.rx.rfd)
      (htable : t.sc.table = s.sc.table.apply (.release i))

variable {s t : System} {a : Action} {i : SockId} {sc : PciVtsockSoftc} {tx : TxThread} {rx : RxThread} {T : Table}
  {e : Event} {as : List Action} {guestCid : UInt64} {ram : GuestRam} {fwds : List UInt32} {msix : Bool}

theorem stepEvent_hangup (h : StepEvent s a (.hangup i)) :
    a = .rxScan ∧ ∃ todo, s.rx.pc = .scan (i :: todo) := by
  cases h with
  | visit hpc he | connect hpc he | drain hpc he => cases he
  | packet he =>
    obtain ⟨k, -, he⟩ := he
    cases he
  | hangup hpc => exact ⟨rfl, _, hpc⟩
  | receive hpc he => cases he

theorem stepEvent_release (h : StepEvent s a (.release i)) :
    a = .rxFree ∧ ∃ rest, s.rx.closingQueue = i :: rest := by
  cases h with
  | visit hpc he | connect hpc he | drain hpc he => cases he
  | packet he =>
    obtain ⟨k, -, he⟩ := he
    cases he
  | release hpc hq => exact ⟨rfl, _, hq⟩
  | receive hpc he => cases he

/-- A step that neither scans nor frees keeps the closing queue. -/
theorem rxMove_keep (htodo : t.rx.todo = s.rx.todo)
    (hclosing : t.rx.closingQueue = s.rx.closingQueue) (hrfd : t.rx.rfd ⊆ s.rx.rfd)
    (hscan : a ≠ .rxScan) (hfree : a ≠ .rxFree) : RxMove s a t := by
  refine .keep htodo hclosing hrfd ?_ ?_
  · intro i he
    exact hscan (stepEvent_hangup he).1
  · intro i he
    exact hfree (stepEvent_release he).1

theorem rxScanned_move (hpc : s.rx.pc = .scan []) :
    RxMove s .rxScan { s with rx := { s.rx with pc := .closing } } := by
  refine .keep ?_ rfl (List.Subset.refl _) ?_ ?_
  · simp [hpc]
  · intro i he
    obtain ⟨-, todo, hpc'⟩ := stepEvent_hangup he
    rw [hpc] at hpc'
    cases hpc'
  · intro i he
    cases (stepEvent_release he).1

theorem rxFreed_move (hpc : s.rx.pc = .closing) (hqueue : s.rx.closingQueue = []) :
    RxMove s .rxFree { s with rx := { s.rx with pc := .select } } := by
  refine .keep ?_ rfl (List.Subset.refl _) ?_ ?_
  · simp [hpc]
  · intro i he
    cases (stepEvent_hangup he).1
  · intro i he
    obtain ⟨-, rest, hq⟩ := stepEvent_release he
    rw [hqueue] at hq
    cases hq

/-- A pass over the receive queue only takes socks out of the read set. -/
theorem rxSock_move {h : RxHost} {todo : List SockId} {nrDataRx : ℕ} {didSomeWork : Bool}
    (hpc : s.rx.pc = .socks todo nrDataRx didSomeWork) (htodo : rx.todo = [])
    (hclosing : rx.closingQueue = s.rx.closingQueue) (hrfd : rx.rfd ⊆ s.rx.rfd) :
    RxMove s (.rxSock h) { s with sc, rx } := by
  refine rxMove_keep (htodo.trans ?_) hclosing hrfd (by simp) (by simp)
  simp [hpc]

theorem rxStep_move (h : RxStep s a sc rx) : RxMove s a { s with sc, rx } := by
  cases h with
  | top hpc => exact .top rfl rfl rfl rfl
  | scanned hpc => exact rxScanned_move hpc
  | hangup hpc hst =>
    refine .hangup ?_ rfl rfl hst (setSock_hangup (s.sc.closeFd _) _)
    simp [hpc]
  | @skip i todo hpc =>
    have htodo : s.rx.todo = i :: todo := by simp [hpc]
    exact .skip htodo rfl rfl rfl
  | @poll i todo hpc hst hfd =>
    have htodo : s.rx.todo = i :: todo := by simp [hpc]
    by_cases hpoll : rxPolling (s.sc.socks i)
    · refine .poll htodo rfl ?_ hst hfd hpoll rfl
      simp [hpoll]
    · refine .skip htodo rfl ?_ rfl
      simp [hpoll]
  | freed hpc hqueue => exact rxFreed_move hpc hqueue
  | free hpc hqueue =>
    refine .release ?_ hqueue rfl (freeSock_release s.sc _)
    simp [hpc]
  | selectFailed hpc | repliesLeft hpc =>
    refine rxMove_keep ?_ rfl (List.Subset.refl _) (by simp) (by simp)
    simp [hpc]
  | selected hpc | noDescs hpc =>
    refine rxMove_keep ?_ rfl filter_sublist.subset (by simp) (by simp)
    simp [hpc]
  | @reply didSomeWork more sc hpc hr =>
    refine rxMove_keep ?_ rfl (List.Subset.refl _) (by simp) (by simp)
    cases more <;> simp [hpc]
  | passAgain hpc | passDone hpc | drop hpc | starved hpc | data hpc | credit hpc | creditStarved hpc =>
    exact rxSock_move hpc rfl rfl (List.Subset.refl _)
  | spent hpc hst hr => exact rxSock_move hpc rfl rfl filter_sublist.subset

theorem TxStep.not_rx (h : TxStep s a sc tx) : a ≠ .rxScan ∧ a ≠ .rxFree := by
  cases h <;> simp

/-- What any step does to the receive thread's lists. -/
theorem step_rxMove (hs : step s a = .ok t) : RxMove s a t := by
  cases step_stepped hs with
  | guest g => exact rxMove_keep rfl rfl (List.Subset.refl _) (by simp) (by simp)
  | tx h => exact rxMove_keep rfl rfl (List.Subset.refl _) h.not_rx.1 h.not_rx.2
  | rx h => exact rxStep_move h

/-- The socks the receive thread is about to free have lost their descriptor. -/
structure RxOk (s : System) : Prop where
  nodup : (s.rx.todo ++ s.rx.closingQueue).Nodup
  closing : ∀ i ∈ s.rx.closingQueue,
    (s.sc.table.view i).state = .closingRx ∧ (s.sc.table.view i).fd = -1

structure LifeOk (s : System) : Prop where
  table : s.sc.table.Ok
  rx : RxOk s

/-- Every sock on the free list is without a descriptor. -/
def FreeClosed (T : Table) : Prop := ∀ i, (T.view i).state = .free → (T.view i).fd = -1

/-- The host's `setsockopt` and `getsockopt` calls for a new connection all succeed. -/
def OptionsSucceed (_ : System) : Action → Prop
  | .txConnect h => h.opts.ok
  | .txPacket h => h.connect.opts.ok
  | _ => True

/-- Nothing but its release moves a sock on that waits to be freed. -/
theorem Table.apply_closingRx (h : T.Ok) (he : T.Enabled e) (hst : (T.view i).state = .closingRx)
    (hfd : (T.view i).fd = -1) (hne : e ≠ .release i) :
    ((T.apply e).view i).state = .closingRx ∧ ((T.apply e).view i).fd = -1 := by
  by_cases hi : i = e.sock
  · subst hi
    have hhead : T.free.head? ≠ some e.sock := by
      intro hhead
      have hfree := (h.free_iff e.sock).mp (mem_of_mem_head? hhead)
      rw [hst] at hfree
      cases hfree
    rw [Table.apply_view_self]
    cases e with
    | dial | accept => exact absurd he.1 hhead
    | giveUp i v => exact absurd he hhead
    | establish | retire => cases hst.symm.trans he
    | shut i l p => exact ⟨hst, hfd⟩
    | close i l p =>
      rcases he with hold | hold | hold
      all_goals cases hst.symm.trans hold
    | hangup i => exact ⟨hst, rfl⟩
    | release i => exact absurd rfl hne
  · rw [Table.apply_view_ne hi]
    exact ⟨hst, hfd⟩

theorem tableOk_became {P : Event → Prop} {T' : Table} (h : T.Ok) (hb : Became P T T') : T'.Ok := by
  rcases hb with rfl | ⟨e, -, he, rfl⟩
  · exact h
  · exact Table.ok_apply h he

theorem LifeOk.became (h : LifeOk s) (hs : step s a = .ok t) :
    Became (StepEvent s a) s.sc.table t.sc.table :=
  step_became (fun i hi => (h.rx.closing i hi).1) hs

theorem rxOk_step (h : LifeOk s) (hs : step s a = .ok t) : RxOk t := by
  have hnodup := h.rx.nodup
  cases step_rxMove hs with
  | keep htodo hclosing hrfd hno hkept =>
    refine ⟨by rw [htodo, hclosing]; exact hnodup, ?_⟩
    intro i hi
    rw [hclosing] at hi
    obtain ⟨hst, hfd⟩ := h.rx.closing i hi
    rcases h.became hs with hsame | ⟨e, hev, hen, he⟩
    · rw [hsame]
      exact ⟨hst, hfd⟩
    · rw [he]
      refine Table.apply_closingRx h.table hen hst hfd ?_
      rintro rfl
      exact hkept i hev
  | top htodo hclosing hrfd hsc =>
    refine ⟨?_, by simp [hclosing]⟩
    rw [htodo, hclosing, append_nil]
    exact Pool.nodup_inuse h.table.split
  | skip htodo hclosing hrfd hsc | poll htodo hclosing hrfd hst hfd hpoll hsc =>
    rw [htodo] at hnodup
    refine ⟨by rw [hclosing]; exact hnodup.of_cons, ?_⟩
    rw [hclosing, hsc]
    exact h.rx.closing
  | @hangup i htodo hclosing hrfd hst htable =>
    rw [htodo] at hnodup
    refine ⟨?_, ?_⟩
    · rw [hclosing]
      exact (perm_middle.nodup_iff).mpr hnodup
    · intro j hj
      rw [hclosing, mem_cons] at hj
      rw [htable]
      rcases hj with rfl | hj
      · have hview : (s.sc.table.apply (.hangup j)).view j =
            { s.sc.table.view j with fd := -1 } := Table.apply_view_self
        rw [hview]
        exact ⟨hst, rfl⟩
      · have hne : j ≠ i := by
          rintro rfl
          exact hnodup.notMem (mem_append_right _ hj)
        rw [Table.apply_view_ne hne]
        exact h.rx.closing j hj
  | @release i htodo hclosing hrfd htable =>
    rw [hclosing] at hnodup
    have hperm := (perm_middle.nodup_iff).mp hnodup
    refine ⟨by rw [htodo]; exact hperm.of_cons, ?_⟩
    intro j hj
    have hne : j ≠ i := by
      rintro rfl
      exact hperm.notMem (mem_append_right _ hj)
    rw [htable, Table.apply_view_ne hne]
    exact h.rx.closing j (by rw [hclosing]; exact mem_cons_of_mem _ hj)

theorem lifeOk_step (h : LifeOk s) (hs : step s a = .ok t) : LifeOk t :=
  ⟨tableOk_became h.table (h.became hs), rxOk_step h hs⟩

theorem count_freeSocks (n : ℕ) (hn : n ≤ vtsockMaxsocks) (i : SockId) :
    (freeSocks n hn).count i = if i.val < n then 1 else 0 := by
  induction n with
  | zero => simp [freeSocks]
  | succ n ih =>
    rw [freeSocks, count_cons, ih]
    by_cases hi : i.val = n
    · have he : ⟨n, hn⟩ = i := Fin.ext hi.symm
      simp [he, hi]
    · have hne : ¬ ⟨n, hn⟩ = i := by
        rintro rfl
        exact hi rfl
      simp only [beq_iff_eq, hne, if_false, Nat.add_zero]
      split <;> split <;> omega

theorem lifeOk_init : LifeOk (initSystem guestCid ram fwds msix) := by
  have hcount : ∀ i : SockId, (freeSocks vtsockMaxsocks (Nat.le_refl _)).count i = 1 := by
    intro i
    rw [count_freeSocks, if_pos i.isLt]
  refine ⟨⟨?_, ?_, ?_, ?_⟩, ⟨nodup_nil, by simp [initSystem]⟩⟩
  · intro i
    change (freeSocks vtsockMaxsocks (Nat.le_refl _) ++ []).count i = 1
    rw [append_nil]
    exact hcount i
  · intro i
    refine iff_of_true ?_ rfl
    change i ∈ freeSocks vtsockMaxsocks (Nat.le_refl _)
    rw [← count_pos_iff, hcount]
    exact Nat.one_pos
  · intro i hfree
    exact absurd rfl hfree
  · intro i
    exact .refl

/-- A free sock keeps no descriptor, unless its options could not be set. -/
theorem freeClosed_step (h : LifeOk s) (hc : OptionsSucceed s a) (hs : step s a = .ok t)
    (hf : FreeClosed s.sc.table) : FreeClosed t.sc.table := by
  rcases h.became hs with hsame | ⟨e, hev, hen, he⟩
  · rw [hsame]
    exact hf
  · rw [he]
    intro j hj
    by_cases hi : j = e.sock
    · subst hi
      rw [Table.apply_view_self] at hj ⊢
      cases e with
      | dial | accept => cases hj
      | giveUp i v =>
        have hfree := (h.table.free_iff i).mp (mem_of_mem_head? hen)
        cases hev with
        | visit hpc hv => cases hv
        | connect hpc hv =>
          cases hv with
          | giveUp hbad =>
            have hok : _ = true := hc
            rw [hbad] at hok
            cases hok
        | drain hpc hv => cases hv
        | packet hv =>
          obtain ⟨k, -, hv⟩ := hv
          cases hv with
          | giveUp hfd => exact (hfd hc).trans (hf i hfree)
        | receive hpc hv => cases hv
      | establish i => cases hj
      | shut i l p => exact hf i hj
      | close | retire => cases hj
      | hangup i => rfl
      | release i =>
        obtain ⟨-, rest, hq⟩ := stepEvent_release hev
        exact (h.rx.closing i (by rw [hq]; exact mem_cons_self)).2
    · rw [Table.apply_view_ne hi] at hj ⊢
      exact hf j hj

/-- The lifecycle invariant with closed free socks. -/
def Lifecycle (s : System) : Prop := LifeOk s ∧ FreeClosed s.sc.table

theorem lifecycle_run
    (hrun : Machine.Run step OptionsSucceed (initSystem guestCid ram fwds msix) as s) :
    Lifecycle s := by
  refine hrun.invariant ?_ ⟨lifeOk_init, fun _ _ => rfl⟩
  rintro s a t hc hs ⟨h, hf⟩
  exact ⟨lifeOk_step h hs, freeClosed_step h hc hs hf⟩

/-- In every state of a run in which the socket options can be set: each sock is on one
of the lists, once; it is on the free list iff its state is free; a free sock has no
descriptor and a connected one has; and its states so far follow the edges. -/
theorem sock_lifecycle
    (hrun : Machine.Run step OptionsSucceed (initSystem guestCid ram fwds msix) as s) (i : SockId) :
    (s.sc.freeList ++ s.sc.inuseList).count i = 1 ∧
    (i ∈ s.sc.freeList ↔ (s.sc.socks i).state = .free) ∧
    ((s.sc.socks i).state = .free → (s.sc.socks i).fd = -1) ∧
    ((s.sc.socks i).state = .connected → 0 ≤ (s.sc.socks i).fd) ∧
    Walk .free (s.sc.table.history i) (s.sc.socks i).state := by
  obtain ⟨h, hf⟩ := lifecycle_run hrun
  refine ⟨h.table.split i, h.table.free_iff i, hf i, ?_, h.table.walk i⟩
  intro hst
  have hview : (s.sc.table.view i).state = .connected := hst
  exact h.table.fd_nonneg i (by rw [hview]; simp) (by rw [hview]; simp)

/-- A host client on the wildcard listener, bound for port 5 of guest 3. -/
def hostClient (fd : Int) (setSndbuf : Bool) : AcceptHost :=
  ⟨fd, some (3, 5), ⟨setSndbuf, true, some 262144⟩⟩

/-- The transmit thread up to the connect fd of its first turn. -/
def hostConnects (h : AcceptHost) : List Action :=
  [.txTop, .txScan 0 .ok, .txSelect true [] true (fun _ => false), .txConnect h]

/-- The sock that the first connection takes. -/
def firstSock : SockId := ⟨1023, by decide⟩

theorem sock_lifecycle_accept : ∃ s, Machine.Run step OptionsSucceed (initSystem 3 ⟨4096, 0⟩ [] false)
      (hostConnects (hostClient 9 true)) s ∧
    (s.sc.socks firstSock).state = .connecting ∧ (s.sc.socks firstSock).fd = 9 ∧
    Walk .free (s.sc.table.history firstSock) (s.sc.socks firstSock).state := by
  have hrun : Machine.Run step OptionsSucceed (initSystem 3 ⟨4096, 0⟩ [] false)
      (hostConnects (hostClient 9 true)) _ :=
    .stepL trivial rfl (.stepL trivial rfl (.stepL trivial rfl (.stepL rfl rfl .refl)))
  exact ⟨_, hrun, rfl, rfl, (sock_lifecycle hrun firstSock).2.2.2.2⟩

/-- When `setsockopt` fails the sock goes back to the free list with its descriptor. -/
theorem free_sock_keeps_fd : ∃ s, Machine.Run step Machine.Any (initSystem 3 ⟨4096, 0⟩ [] false)
      (hostConnects (hostClient 9 false)) s ∧
    (s.sc.socks firstSock).state = .free ∧ (s.sc.socks firstSock).fd = 9 :=
  ⟨_, Machine.run_any_iff_exec.mpr rfl, rfl, rfl⟩

end HyperCog.Vsock
