import HyperCog.Vsock.Lifecycle

/-! Connections are told apart by their addresses, as long as synthesized ports are free. -/
namespace HyperCog.Vsock

open Virtio

/-- Every pair of addresses is answered by one sock at most. -/
def Table.UniqueAddr (T : Table) : Prop :=
  ∀ i j localAddr peerAddr, Table.Answers (T.view i) localAddr peerAddr →
    Table.Answers (T.view j) localAddr peerAddr → i = j

/-- When `handle_connect_fd` is about to synthesize a port, no open connection has it
towards the same guest port. -/
def HostPortUnused (s : System) : Action → Prop
  | .txConnect h => ∀ cid port pending i rest port',
      s.tx.pc = .connect ((cid, port) :: pending) → s.sc.freeList = i :: rest →
      connectTarget h cid port = some (s.sc.guestCid, port') →
      lookupSock s.sc ⟨vmaddrCidHost, hostPort i ((s.sc.socks i).portGeneration + 1)⟩
        ⟨s.sc.guestCid, port'⟩ = none
  | _ => True

variable {T : Table} {e : Event} {s t : System} {a : Action} {i j : SockId} {as : List Action}
  {guestCid : UInt64} {ram : GuestRam} {fwds : List UInt32} {msix : Bool}
  {localAddr peerAddr : VsockAddr}

/-- The sock answers to the addresses the event opens it under. -/
def Opens (i : SockId) (localAddr peerAddr : VsockAddr) (e : Event) : Prop :=
  ∃ v, (e = .dial i v ∨ e = .accept i v) ∧ v.localAddr = localAddr ∧ v.peerAddr = peerAddr

theorem answers_apply (he : T.Enabled e) (h : Table.Answers ((T.apply e).view i) localAddr peerAddr) :
    Table.Answers (T.view i) localAddr peerAddr ∨ Opens i localAddr peerAddr e := by
  by_cases hi : i = e.sock
  · subst hi
    rw [Table.apply_view_self] at h
    obtain ⟨hst, hlocal, hpeer⟩ := h
    cases e with
    | dial i v => exact .inr ⟨v, .inl rfl, hlocal, hpeer⟩
    | accept i v => exact .inr ⟨v, .inr rfl, hlocal, hpeer⟩
    | establish i => exact .inl ⟨.inl he, hlocal, hpeer⟩
    | shut | hangup => exact .inl ⟨hst, hlocal, hpeer⟩
    | giveUp | close | retire | release => rcases hst with hst | hst <;> cases hst
  · rw [Table.apply_view_ne hi] at h
    exact .inl h

/-- A pair of addresses that no sock in use answers to is answered to by none. -/
theorem Table.Unused.not_answers (h : T.Ok) (hu : T.Unused localAddr peerAddr) :
    ¬ Table.Answers (T.view i) localAddr peerAddr := by
  intro ha
  refine hu i (h.mem_inuse_iff.mpr ?_) ha
  rcases ha.1 with hst | hst
  all_goals
    rw [hst]
    simp

/-- Opening a sock under unused addresses keeps addresses unique. -/
theorem uniqueAddr_apply (h : T.Ok) (he : T.Enabled e) (hu : T.UniqueAddr)
    (hnew : ∀ i localAddr peerAddr, Opens i localAddr peerAddr e → T.Unused localAddr peerAddr) :
    (T.apply e).UniqueAddr := by
  intro i j localAddr peerAddr hi hj
  rcases answers_apply he hi with hi | hi
  · rcases answers_apply he hj with hj | hj
    · exact hu i j localAddr peerAddr hi hj
    · exact absurd hi ((hnew j _ _ hj).not_answers h)
  · rcases answers_apply he hj with hj | hj
    · exact absurd hj ((hnew i _ _ hi).not_answers h)
    · obtain ⟨v, hv, -, -⟩ := hi
      obtain ⟨w, hw, -, -⟩ := hj
      rcases hv with rfl | rfl
      · rcases hw with hw | hw
        · cases hw
          rfl
        · cases hw
      · rcases hw with hw | hw
        · cases hw
        · cases hw
          rfl

/-- Both ways of opening a sock meet unused addresses. -/
theorem unused_of_opens (hc : HostPortUnused s a) (hev : StepEvent s a e)
    (hen : s.sc.table.Enabled e) (ho : Opens i localAddr peerAddr e) :
    s.sc.table.Unused localAddr peerAddr := by
  obtain ⟨v, rfl | rfl, rfl, rfl⟩ := ho
  · exact hen.2.2.2.2.2
  · cases hev with
    | visit hpc hv => cases hv
    | connect hpc hv =>
      cases hv with
      | accept hfd htarget hlocal hpeer =>
        obtain ⟨rest, hfree⟩ := List.head?_eq_some_iff.mp hen.1
        rw [hlocal, hpeer]
        exact lookupSock_none_iff.mp (hc _ _ _ _ _ _ hpc hfree htarget)
    | drain hpc hv => cases hv
    | packet hv =>
      obtain ⟨k, -, hv⟩ := hv
      cases hv
    | receive hpc hv => cases hv

theorem uniqueAddr_step (h : LifeOk s) (hc : HostPortUnused s a) (hs : step s a = .ok t)
    (hu : s.sc.table.UniqueAddr) : t.sc.table.UniqueAddr := by
  rcases h.became hs with hsame | ⟨e, hev, hen, he⟩
  · rw [hsame]
    exact hu
  · rw [he]
    refine uniqueAddr_apply h.table hen hu ?_
    intro i localAddr peerAddr ho
    exact unused_of_opens hc hev hen ho

/-- The table invariant with unique addresses. -/
def Addressed (s : System) : Prop := LifeOk s ∧ s.sc.table.UniqueAddr

theorem uniqueAddr_init : (initSystem guestCid ram fwds msix).sc.table.UniqueAddr := by
  intro i j localAddr peerAddr hi hj
  rcases hi.1 with hst | hst <;> cases hst

theorem addressed_run
    (hrun : Machine.Run step HostPortUnused (initSystem guestCid ram fwds msix) as s) :
    Addressed s := by
  refine hrun.invariant ?_ ⟨lifeOk_init, uniqueAddr_init⟩
  rintro s a t hc hs ⟨h, hu⟩
  exact ⟨lifeOk_step h hs, uniqueAddr_step h hc hs hu⟩

theorem sockMatches_iff {sock : PciVtsockSock} :
    sockMatches localAddr peerAddr sock ↔ Table.Answers sock.view localAddr peerAddr := by
  simp only [sockMatches, Bool.and_eq_true, Bool.or_eq_true, decide_eq_true_eq, Table.Answers,
    PciVtsockSock.view]
  constructor
  · rintro ⟨hst, hpeer, hlocal⟩
    exact ⟨hst.symm, hlocal, hpeer⟩
  · rintro ⟨hst, hlocal, hpeer⟩
    exact ⟨hst.symm, hpeer, hlocal⟩

/-- In every state of a run that meets `HostPortUnused`, at most one open sock carries a
pair of addresses, and `lookup_sock` finds that sock. -/
theorem connections_uniquely_addressed
    (hrun : Machine.Run step HostPortUnused (initSystem guestCid ram fwds msix) as s)
    (localAddr peerAddr : VsockAddr) :
    (∀ i j, sockMatches localAddr peerAddr (s.sc.socks i) →
      sockMatches localAddr peerAddr (s.sc.socks j) → i = j) ∧
    ∀ i, sockMatches localAddr peerAddr (s.sc.socks i) →
      lookupSock s.sc localAddr peerAddr = some i := by
  obtain ⟨h, hu⟩ := addressed_run hrun
  have hunique : ∀ i j, sockMatches localAddr peerAddr (s.sc.socks i) →
      sockMatches localAddr peerAddr (s.sc.socks j) → i = j := by
    intro i j hi hj
    exact hu i j localAddr peerAddr (sockMatches_iff.mp hi) (sockMatches_iff.mp hj)
  refine ⟨hunique, ?_⟩
  intro i hi
  cases hl : lookupSock s.sc localAddr peerAddr with
  | none =>
    have hnone := (lookupSock_none_iff.mp hl).not_answers h.table (i := i)
    exact absurd (sockMatches_iff.mp hi) hnone
  | some k =>
    have hk := (lookupSock_some hl).2
    rw [hunique i k hi (sockMatches_iff.mpr hk)]

def secondSock : SockId := ⟨1022, by decide⟩

/-- Two host clients, one of them on the listener of a forwarded port. -/
def twoClients : List Action :=
  [.txTop, .txScan 0 .ok, .txSelect true [] true (fun _ => true), .txConnect (hostClient 9 true),
    .txConnect (hostClient 10 true)]

theorem connections_uniquely_addressed_accept : ∃ s,
    Machine.Run step HostPortUnused (initSystem 3 ⟨4096, 0⟩ [5] false) twoClients s ∧
    lookupSock s.sc ⟨2, 67108865⟩ ⟨3, 5⟩ = some firstSock ∧
    lookupSock s.sc ⟨2, 67043329⟩ ⟨3, 5⟩ = some secondSock := by
  have hrun : ∃ s, Machine.Run step HostPortUnused (initSystem 3 ⟨4096, 0⟩ [5] false) twoClients s ∧
      sockMatches ⟨2, 67108865⟩ ⟨3, 5⟩ (s.sc.socks firstSock) ∧
      sockMatches ⟨2, 67043329⟩ ⟨3, 5⟩ (s.sc.socks secondSock) := by
    refine ⟨_, .stepL trivial rfl (.stepL trivial rfl (.stepL trivial rfl
      (.stepL (fun _ _ _ _ _ _ _ _ _ => rfl) rfl (.stepL ?_ rfl .refl)))), rfl, rfl⟩
    intro cid port pending i rest port' hpc hfree htarget
    have hi : secondSock = i := Option.some.inj (congrArg List.head? hfree)
    cases TxPc.connect.inj (hpc : TxPc.connect [(3, 5)] = _)
    cases (htarget : some ((3 : UInt64), (5 : UInt32)) = _)
    subst hi
    rfl
  obtain ⟨s, hrun, hfirst, hsecond⟩ := hrun
  exact ⟨s, hrun, (connections_uniquely_addressed hrun _ _).2 _ hfirst,
    (connections_uniquely_addressed hrun _ _).2 _ hsecond⟩

/-- A connection request from guest port 5 to a host port. -/
def requestHdr (port : UInt32) : VirtioSockHdr :=
  ⟨3, 2, 5, port, 0, virtioVsockTypeStream, virtioVsockOpRequest, 0, 262144, 0⟩

/-- The guest posts one packet, the transmit thread serves it and goes round its loop. -/
def guestDials (port : UInt32) : List Action :=
  [.guest (.store (storeBytes (fun _ => 0) 0 (requestHdr port).toBytes)), .guest .initQueues,
    .guest (.rings (fun _ => ⟨0, 44, 0, 0⟩) ⟨0, 1, fun _ => 0⟩ initQueue.vqUsed
      initQueue.vqDesc initQueue.vqAvail initQueue.vqUsed),
    .txTop, .txScan 0 .ok, .txSelect true [] false (fun _ => false),
    .txConnect ⟨-1, none, ⟨true, true, none⟩⟩, .txDrain 0 .eagain .ok, .txPacket calmHost,
    .txPacket { calmHost with connect := { connectNine with socket := -1 } }]

/-- Then a host client connects to guest port 5. -/
def dialThenHost (port : UInt32) : List Action :=
  guestDials port ++ [.txTop, .txScan 0 .ok, .txScan 0 .ok,
    .txSelect true [] true (fun _ => false), .txConnect (hostClient 10 true)]

/-- The port that the second sock synthesizes first is one a guest can ask for. -/
theorem synthesized_port_collides : ∃ s,
    Machine.Run step Machine.Any (initSystem 3 ⟨4096, 0⟩ [] false) (dialThenHost 67043329) s ∧
    sockMatches ⟨2, 67043329⟩ ⟨3, 5⟩ (s.sc.socks firstSock) ∧
    sockMatches ⟨2, 67043329⟩ ⟨3, 5⟩ (s.sc.socks secondSock) :=
  ⟨_, Machine.run_any_iff_exec.mpr rfl, rfl, rfl⟩

end HyperCog.Vsock
