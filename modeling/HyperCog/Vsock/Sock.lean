import HyperCog.Lib.Flags
import HyperCog.Vsock.Iovec

/-! One vsock socket: its record, and the functions that touch nothing else. -/
namespace HyperCog.Vsock

open Virtio

inductive SockState
  | free
  | connecting
  | connected
  | closingTx
  | closingRx
  deriving DecidableEq, Repr

structure PciVtsockSock where
  state : SockState
  fd : Int
  portGeneration : UInt16
  localShutdown : UInt32
  peerShutdown : UInt32
  rstDeadline : Int
  localAddr : VsockAddr
  peerAddr : VsockAddr
  bufAlloc : UInt32
  fwdCnt : UInt32
  creditUpdateRequired : Bool
  rxCnt : UInt32
  peerBufAlloc : UInt32
  peerFwdCnt : UInt32
  writeBuf : ℕ → UInt8
  writeBufHead : UInt32
  writeBufTail : UInt32

/-- Result of `write` or `writev`. A success moves at most what was offered. -/
inductive WriteResult
  | wrote (n : ℕ)
  | epipe
  | eagain
  | error
  deriving DecidableEq, Repr

/-- Result of `shutdown(2)`: ENOTCONN is tolerated, any other failure aborts. -/
inductive ShutdownResult
  | ok
  | enotconn
  | failed
  deriving DecidableEq, Repr

/-- Results of the three option calls of `set_socket_options`. -/
structure SockoptHost where
  setSndbuf : Bool
  setRcvbuf : Bool
  getSndbuf : Option ℕ
  deriving DecidableEq, Repr

def sockIsBuffering (s : PciVtsockSock) : Bool := 0 < s.writeBufTail

/-- The buffered bytes not yet handed to the host descriptor. -/
def buffered (s : PciVtsockSock) : List UInt8 :=
  bytesAt s.writeBuf s.writeBufHead.toNat (s.writeBufTail.toNat - s.writeBufHead.toNat)

/-- The fields `alloc_sock` initialises once the sock is off the free list. -/
def resetSock (s : PciVtsockSock) : PciVtsockSock :=
  { s with
    bufAlloc := writeBufLength
    fwdCnt := 0
    peerBufAlloc := 0
    peerFwdCnt := 0
    rxCnt := 0
    creditUpdateRequired := false
    localShutdown := 0
    peerShutdown := 0
    writeBufHead := 0
    writeBufTail := 0 }

/-- `set_socket_options`; false stands for a negative return. A send buffer smaller
than requested is exposed to the guest. -/
def setSocketOptions (h : SockoptHost) (s : PciVtsockSock) : Bool × PciVtsockSock :=
  if !h.setSndbuf then (false, s)
  else if !h.setRcvbuf then (false, s)
  else match h.getSndbuf with
    | none => (false, s)
    | some n =>
      if n < s.bufAlloc.toNat then (true, { s with bufAlloc := .ofNat n }) else (true, s)

/-- What the header of every guest packet does to the sock it addresses. -/
def creditUpdate (hdr : VirtioSockHdr) (s : PciVtsockSock) : PciVtsockSock :=
  { s with peerBufAlloc := hdr.bufAlloc, peerFwdCnt := hdr.fwdCnt }

/-- The direction to close in order to reflect newly set peer flags. -/
inductive How
  | none
  | rd
  | wr
  | rdwr
  deriving DecidableEq, Repr

/-- The test `if (how)`: `SHUT_RD` is 0, so no call is made for it. -/
def How.calls : How → Bool
  | .none | .rd => false
  | .wr | .rdwr => true

/-- The `switch (set)` of `shutdown_peer_local_fd`, with the new `local_shutdown`; the default
case aborts. -/
def reflectPeer (s : PciVtsockSock) (set : UInt32) : Option (How × UInt32) :=
  if set = shutdownTx then
    if sockIsBuffering s then some (.none, s.localShutdown)
    else some (.wr, s.localShutdown ||| shutdownRx)
  else if set = shutdownRx then some (.rd, s.localShutdown ||| shutdownTx)
  else if set = shutdownAll then
    if sockIsBuffering s then some (.rd, s.localShutdown ||| shutdownTx)
    else some (.rdwr, s.localShutdown ||| shutdownAll)
  else none

attribute [local simp] reflectPeer

/-- Reflect `peer_shutdown` into the local descriptor. -/
def shutdownPeerLocalFd (rc : ShutdownResult) (s : PciVtsockSock) (mode : UInt32) :
    Except Fault PciVtsockSock :=
  let new := mode ||| s.peerShutdown
  let set := s.peerShutdown ^^^ new
  if mode &&& ~~~shutdownAll ≠ 0 ∨ mode = 0 then .error .shutdownMode
  else if set = 0 then .ok s
  else match reflectPeer s set with
    | none => .error .shutdownMode
    | some (how, newLocal) =>
      if how.calls ∧ rc = .failed then .error .shutdownFailed
      else .ok { s with localShutdown := newLocal, peerShutdown := new }

/-- Once the host end receives nothing more, what is still buffered is dropped. -/
def shutdownLocalSock (now : Int) (s : PciVtsockSock) (mode : UInt32) : Except Fault PciVtsockSock :=
  if mode &&& ~~~shutdownAll ≠ 0 then .error .shutdownMode
  else if s.state ≠ .connected then .ok s
  else if s.localShutdown = shutdownAll then .error .alreadyShutdown
  else
    let new := mode ||| s.localShutdown
    let s₁ := { s with localShutdown := new }
    let s₂ :=
      if new &&& shutdownRx ≠ 0 ∧ sockIsBuffering s then
        { s₁ with writeBufHead := 0, writeBufTail := 0 }
      else s₁
    .ok (if new = shutdownAll then { s₂ with rstDeadline := now + shutdownRstDelay } else s₂)

/-- `buffer_write`; false stands for -1, the buffer has no room. -/
def bufferWrite (m : HostMem) (s : PciVtsockSock) (len : UInt32) (iov : List Iovec) :
    Except Fault (Bool × PciVtsockSock) :=
  if writeBufLength - s.writeBufTail < len then .ok (false, s)
  else match iovecPull m true iov len.toNat with
    | .error e => .error e
    | .ok p =>
      if p.res ≠ len.toNat then .error .bufferedShort
      else if p.iov ≠ [] then .error .bufferLeftover
      else .ok (true, { s with
        writeBuf := storeBytes s.writeBuf s.writeBufTail.toNat p.data
        writeBufTail := s.writeBufTail + .ofNat p.res })

/-- All three option calls succeed. -/
def SockoptHost.ok (h : SockoptHost) : Bool := h.setSndbuf && h.setRcvbuf && h.getSndbuf.isSome

attribute [local simp] SockoptHost.ok

/-- The options can only lower the advertised buffer. -/
theorem setSocketOptions_cases {h : SockoptHost} {s s' : PciVtsockSock} {ok : Bool}
    (he : setSocketOptions h s = (ok, s')) :
    ok = h.ok ∧ ∃ alloc, s' = { s with bufAlloc := alloc } ∧ alloc.toNat ≤ s.bufAlloc.toNat := by
  unfold setSocketOptions at he
  repeat' split at he
  any_goals
    cases he
    exact ⟨by simp_all, s.bufAlloc, rfl, Nat.le_refl _⟩
  rename_i n _ hless
  cases he
  refine ⟨by simp_all, .ofNat n, rfl, ?_⟩
  rw [UInt32.toNat_ofNat']
  omega

/-- A mode argument that passes the assertions. -/
def ValidMode (mode : UInt32) : Prop := mode &&& ~~~shutdownAll = 0 ∧ mode ≠ 0

/-- The flags that `mode` adds to what the peer has already shut down. -/
def newPeerFlags (s : PciVtsockSock) (mode : UInt32) : UInt32 :=
  s.peerShutdown ^^^ (mode ||| s.peerShutdown)

/-- How the local flags follow what the peer newly shuts down. -/
def Reflects (s : PciVtsockSock) (mode l : UInt32) : Prop :=
  (newPeerFlags s mode = 0 ∧ l = s.localShutdown) ∨
  (newPeerFlags s mode = shutdownRx ∧ l = s.localShutdown ||| shutdownTx) ∨
  (newPeerFlags s mode = shutdownTx ∧ (l = s.localShutdown ∨ l = s.localShutdown ||| shutdownRx)) ∨
  newPeerFlags s mode = shutdownAll

/-- Reflecting `mode` makes a `shutdown(2)` call on the local descriptor. -/
def callsShutdown (s : PciVtsockSock) (mode : UInt32) : Prop :=
  sockIsBuffering s = false ∧ (newPeerFlags s mode = shutdownTx ∨ newPeerFlags s mode = shutdownAll)

variable {s s' : PciVtsockSock} {mode : UInt32} {rc : ShutdownResult} {now : Int}

theorem flags_cases {a : UInt32} (h : a.toNat ≤ 3) :
    a = 0 ∨ a = shutdownRx ∨ a = shutdownTx ∨ a = shutdownAll := by
  have h4 : a.toNat = 0 ∨ a.toNat = 1 ∨ a.toNat = 2 ∨ a.toNat = 3 := by omega
  rcases h4 with h | h | h | h
  · exact .inl (UInt32.toNat_inj.mp h)
  · exact .inr (.inl (UInt32.toNat_inj.mp h))
  · exact .inr (.inr (.inl (UInt32.toNat_inj.mp h)))
  · exact .inr (.inr (.inr (UInt32.toNat_inj.mp h)))

section

variable (hm : ValidMode mode)

include hm

theorem ValidMode.toNat_le : mode.toNat ≤ 3 := by
  rw [← Flags.and_eq_self hm.1]
  exact Nat.and_le_right

theorem ValidMode.flags : mode = shutdownRx ∨ mode = shutdownTx ∨ mode = shutdownAll := by
  rcases flags_cases hm.toNat_le with h0 | h
  · exact absurd h0 hm.2
  · exact h

/-- The `switch` covers everything a valid mode can newly set. -/
theorem newPeerFlags_cases : newPeerFlags s mode = 0 ∨ newPeerFlags s mode = shutdownRx ∨
      newPeerFlags s mode = shutdownTx ∨ newPeerFlags s mode = shutdownAll := by
  apply flags_cases
  rw [newPeerFlags, Flags.xor_or]
  exact Nat.and_le_left.trans hm.toNat_le

/-- What the `switch` answers for the flags a valid mode newly sets. -/
theorem reflectPeer_cases (h0 : newPeerFlags s mode ≠ 0) :
    ∃ how l, reflectPeer s (newPeerFlags s mode) = some (how, l) ∧
      (how.calls = true ↔ callsShutdown s mode) ∧ Reflects s mode l := by
  have hra : shutdownRx ≠ shutdownAll := by decide
  have hrt : shutdownRx ≠ shutdownTx := by decide
  have hat : shutdownAll ≠ shutdownTx := by decide
  have har : shutdownAll ≠ shutdownRx := by decide
  obtain h | h | h | h := newPeerFlags_cases hm
  · exact absurd h h0
  · refine ⟨.rd, s.localShutdown ||| shutdownTx, ?_, ?_, .inr (.inl ⟨h, rfl⟩)⟩
    all_goals simp [callsShutdown, How.calls, h, hrt, hra]
  · cases hb : sockIsBuffering s with
    | true =>
      refine ⟨.none, s.localShutdown, ?_, ?_, .inr (.inr (.inl ⟨h, .inl rfl⟩))⟩
      all_goals simp [callsShutdown, How.calls, h, hb]
    | false =>
      refine ⟨.wr, s.localShutdown ||| shutdownRx, ?_, ?_, .inr (.inr (.inl ⟨h, .inr rfl⟩))⟩
      all_goals simp [callsShutdown, How.calls, h, hb]
  · cases hb : sockIsBuffering s with
    | true =>
      refine ⟨.rd, s.localShutdown ||| shutdownTx, ?_, ?_, .inr (.inr (.inr h))⟩
      all_goals simp [callsShutdown, How.calls, h, hb, hat, har]
    | false =>
      refine ⟨.rdwr, s.localShutdown ||| shutdownAll, ?_, ?_, .inr (.inr (.inr h))⟩
      all_goals simp [callsShutdown, How.calls, h, hb, hat, har]

theorem shutdownPeerLocalFd_eq : shutdownPeerLocalFd rc s mode =
    if newPeerFlags s mode = 0 then .ok s
    else match reflectPeer s (newPeerFlags s mode) with
      | none => .error .shutdownMode
      | some (how, l) =>
        if how.calls ∧ rc = .failed then .error .shutdownFailed
        else .ok { s with localShutdown := l, peerShutdown := mode ||| s.peerShutdown } := by
  have hguard : ¬ (mode &&& ~~~shutdownAll ≠ 0 ∨ mode = 0) := by
    simp [hm.1, hm.2]
  rw [shutdownPeerLocalFd, if_neg hguard]
  rfl

/-- The reflection aborts only when a `shutdown(2)` it makes fails. -/
theorem shutdownPeerLocalFd_ok_iff : (∃ s', shutdownPeerLocalFd rc s mode = .ok s') ↔
      ¬ (callsShutdown s mode ∧ rc = .failed) := by
  rw [shutdownPeerLocalFd_eq hm]
  by_cases h0 : newPeerFlags s mode = 0
  · have hno : ¬ callsShutdown s mode := by
      rintro ⟨-, h | h⟩
      all_goals exact absurd (h0.symm.trans h) (by decide)
    simp [hno, h0]
  · obtain ⟨how, l, hr, hcalls, -⟩ := reflectPeer_cases hm h0
    simp only [if_neg h0, hr, ← hcalls]
    by_cases hf : how.calls = true ∧ rc = .failed
    · simp [hf]
    · rw [if_neg hf]
      exact iff_of_true ⟨_, rfl⟩ hf

end

theorem shutdownPeerLocalFd_error {e : Fault} (h : shutdownPeerLocalFd rc s mode = .error e) :
    e = .shutdownMode ∨ e = .shutdownFailed := by
  unfold shutdownPeerLocalFd at h
  dsimp only at h
  split at h
  · exact .inl (by cases h; rfl)
  · split at h
    · cases h
    · split at h
      · exact .inl (by cases h; rfl)
      · split_ifs at h
        exact .inr (by cases h; rfl)

/-- Only the two shutdown words change, and the peer's word gains exactly `mode`. -/
theorem shutdownPeerLocalFd_cases (h : shutdownPeerLocalFd rc s mode = .ok s') :
    ∃ l, s' = { s with localShutdown := l, peerShutdown := mode ||| s.peerShutdown } ∧
      Reflects s mode l := by
  by_cases hm : ValidMode mode
  · rw [shutdownPeerLocalFd_eq hm] at h
    by_cases h0 : newPeerFlags s mode = 0
    · have hsame : mode ||| s.peerShutdown = s.peerShutdown := (UInt32.xor_eq_zero_iff.mp h0).symm
      rw [if_pos h0] at h
      cases h
      exact ⟨s.localShutdown, by simp [hsame], .inl ⟨h0, rfl⟩⟩
    · obtain ⟨how, l, hr, -, hl⟩ := reflectPeer_cases hm h0
      simp only [if_neg h0, hr] at h
      split_ifs at h
      cases h
      exact ⟨l, rfl, hl⟩
  · have hguard : mode &&& ~~~shutdownAll ≠ 0 ∨ mode = 0 := by
      simpa [ValidMode, imp_iff_not_or] using hm
    simp [shutdownPeerLocalFd, if_pos hguard] at h

/-- A local shutdown adds its flags to a connected sock and may drop what is buffered. -/
theorem shutdownLocalSock_cases (h : shutdownLocalSock now s mode = .ok s') :
    (s.state ≠ .connected ∧ s' = s) ∨
    (s.state = .connected ∧ s.localShutdown ≠ shutdownAll ∧ ∃ head tail deadline, s' = { s with
        localShutdown := mode ||| s.localShutdown
        writeBufHead := head
        writeBufTail := tail
        rstDeadline := deadline }) := by
  unfold shutdownLocalSock at h
  split at h
  · cases h
  · split at h
    · rename_i hst
      cases h
      exact .inl ⟨hst, rfl⟩
    · split_ifs at h
      rename_i _ hst hall
      refine .inr ⟨not_not.mp hst, hall, ?_⟩
      simp only [Except.ok.injEq] at h
      subst h
      split <;> split <;> exact ⟨_, _, _, rfl⟩

theorem shutdownLocalSock_ok_iff (hm : mode &&& ~~~shutdownAll = 0) :
    (∃ s', shutdownLocalSock now s mode = .ok s') ↔
      ¬ (s.state = .connected ∧ s.localShutdown = shutdownAll) := by
  by_cases hst : s.state = .connected
  · by_cases hall : s.localShutdown = shutdownAll
    all_goals simp [shutdownLocalSock, hm, hst, hall]
  · simp [shutdownLocalSock, hm, hst]

/-- A local shutdown keeps the write buffer or drops it. -/
theorem shutdownLocalSock_buffer (h : shutdownLocalSock now s mode = .ok s') :
    (s'.writeBufHead = s.writeBufHead ∧ s'.writeBufTail = s.writeBufTail) ∨
      (s'.writeBufHead = 0 ∧ s'.writeBufTail = 0) := by
  unfold shutdownLocalSock at h
  split_ifs at h
  · cases h
    exact .inl ⟨rfl, rfl⟩
  · cases h
    by_cases hdrop : (mode ||| s.localShutdown) &&& shutdownRx ≠ 0 ∧ sockIsBuffering s
    · right
      split <;> exact ⟨rfl, rfl⟩
    · left
      split <;> exact ⟨rfl, rfl⟩

/-- `buffer_write` changes nothing without room, and otherwise appends the whole payload. -/
theorem bufferWrite_eq_ok {m : HostMem} {len : UInt32} {iov : List Iovec} {fits : Bool}
    (h : bufferWrite m s len iov = .ok (fits, s')) :
    (fits = false ∧ writeBufLength - s.writeBufTail < len ∧ s' = s) ∨
    (fits = true ∧ ¬ writeBufLength - s.writeBufTail < len ∧
      ∃ p, iovecPull m true iov len.toNat = .ok p ∧ p.res = len.toNat ∧ p.iov = [] ∧ s' = { s with
          writeBuf := storeBytes s.writeBuf s.writeBufTail.toNat p.data
          writeBufTail := s.writeBufTail + len }) := by
  unfold bufferWrite at h
  split at h
  · rename_i hfull
    cases h
    exact .inl ⟨rfl, hfull, rfl⟩
  rename_i hroom
  split at h
  · cases h
  rename_i p hp
  split_ifs at h with hres hnil
  rw [not_not] at hres hnil
  cases h
  refine .inr ⟨rfl, hroom, p, hp, hres, hnil, ?_⟩
  rw [hres, UInt32.ofNat_toNat]

theorem bufferWrite_error {m : HostMem} {len : UInt32} {iov : List Iovec} {e : Fault}
    (hs : bufferWrite m s len iov = .error e) :
    e = .segfault ∨ e = .bufferedShort ∨ e = .bufferLeftover := by
  unfold bufferWrite at hs
  split at hs
  · cases hs
  · split at hs
    · rename_i f hp
      cases hs
      exact .inl (iovecPull_error hp)
    · split_ifs at hs
      · cases hs
        exact .inr (.inl rfl)
      · cases hs
        exact .inr (.inr rfl)

end HyperCog.Vsock
