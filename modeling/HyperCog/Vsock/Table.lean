import HyperCog.Lib.Pool
import HyperCog.Vsock.Device

/-!
The socket table on its own: which list a sock is on, its state, descriptor, shutdown
flags and addresses, and the events that change them.
-/
namespace HyperCog.Vsock

open List

/-- What the table knows of a sock. -/
structure SockView where
  state : SockState
  fd : Int
  localShutdown : UInt32
  peerShutdown : UInt32
  localAddr : VsockAddr
  peerAddr : VsockAddr
  deriving DecidableEq, Repr

structure Table where
  free : List SockId
  inuse : List SockId
  view : SockId → SockView
  moves : List (SockId × SockState × SockState)

/-- The changes of state in the life of a sock. -/
inductive Edge : SockState → SockState → Prop
  | take : Edge .free .connecting
  | connect : Edge .connecting .connected
  | giveUp : Edge .connecting .free
  | reset : Edge .connecting .closingTx
  | close : Edge .connected .closingTx
  | retire : Edge .closingTx .closingRx
  | release : Edge .closingRx .free

/-- A record of assignments that starts in one state, ends in another, and changes the
state along edges only. -/
def Walk : SockState → List (SockState × SockState) → SockState → Prop :=
  Machine.Run (fun (_ : SockState) (m : SockState × SockState) => (.ok m.2 : Except Unit SockState))
    fun st m => m.1 = st ∧ (m.2 = st ∨ Edge st m.2)

/-- What happens to a sock of the table. A view carries what a new connection is filled
in with; its state is not used. -/
inductive Event
  /-- the guest connects to the host -/
  | dial (i : SockId) (v : SockView)
  /-- the host connects to the guest -/
  | accept (i : SockId) (v : SockView)
  /-- a sock is taken and given back at once -/
  | giveUp (i : SockId) (v : SockView)
  | establish (i : SockId)
  | shut (i : SockId) (localShutdown peerShutdown : UInt32)
  | close (i : SockId) (localShutdown peerShutdown : UInt32)
  | retire (i : SockId)
  /-- the descriptor is closed -/
  | hangup (i : SockId)
  | release (i : SockId)
  deriving DecidableEq, Repr

namespace Event

def sock : Event → SockId
  | .dial i _ | .accept i _ | .giveUp i _ | .establish i | .shut i _ _ | .close i _ _
  | .retire i | .hangup i | .release i => i

/-- The sock after the event. -/
def after (v : SockView) : Event → SockView
  | .dial _ w => { w with state := .connected }
  | .accept _ w => { w with state := .connecting }
  | .giveUp _ w => { w with state := .free }
  | .establish _ => { v with state := .connected }
  | .shut _ l p => { v with localShutdown := l, peerShutdown := p }
  | .close _ l p => { v with localShutdown := l, peerShutdown := p, state := .closingTx }
  | .retire _ => { v with state := .closingRx }
  | .hangup _ => { v with fd := -1 }
  | .release _ => { v with state := .free }

/-- The assignments to the sock's state that the event makes. -/
def path (st : SockState) : Event → List (SockState × SockState)
  | .dial _ _ => [(st, .connecting), (.connecting, .connected)]
  | .accept _ _ => [(st, .connecting)]
  | .giveUp _ _ => [(st, .connecting), (.connecting, .free)]
  | .establish _ => [(st, .connected)]
  | .close _ _ _ => [(st, .closingTx)]
  | .retire _ => [(st, .closingRx)]
  | .release _ => [(st, .free)]
  | .shut _ _ _ | .hangup _ => []

def free (l : List SockId) : Event → List SockId
  | .dial _ _ | .accept _ _ => l.tail
  | .release i => i :: l
  | _ => l

def inuse (l : List SockId) : Event → List SockId
  | .dial i _ | .accept i _ => i :: l
  | .release i => l.erase i
  | _ => l

end Event

namespace Table

def apply (T : Table) (e : Event) : Table where
  free := e.free T.free
  inuse := e.inuse T.inuse
  view := Function.update T.view e.sock (e.after (T.view e.sock))
  moves := T.moves ++ (e.path (T.view e.sock).state).map fun m => (e.sock, m)

/-- No sock in use holds the descriptor. -/
def Fresh (T : Table) (fd : Int) : Prop := ∀ j ∈ T.inuse, (T.view j).fd ≠ fd

/-- The sock is open under this pair of addresses. -/
def Answers (v : SockView) (localAddr peerAddr : VsockAddr) : Prop :=
  (v.state = .connecting ∨ v.state = .connected) ∧ v.localAddr = localAddr ∧ v.peerAddr = peerAddr

/-- No sock in use is open under the pair of addresses. -/
def Unused (T : Table) (localAddr peerAddr : VsockAddr) : Prop :=
  ∀ j ∈ T.inuse, ¬ Answers (T.view j) localAddr peerAddr

/-- When the event can happen. -/
def Enabled (T : Table) : Event → Prop
  | .dial i v => T.free.head? = some i ∧ 0 ≤ v.fd ∧ T.Fresh v.fd ∧ v.localShutdown = 0 ∧
      v.peerShutdown = 0 ∧ T.Unused v.localAddr v.peerAddr
  | .accept i v => T.free.head? = some i ∧ 0 ≤ v.fd ∧ T.Fresh v.fd ∧ v.localShutdown = 0 ∧
      v.peerShutdown = 0
  | .giveUp i _ => T.free.head? = some i
  | .establish i => (T.view i).state = .connecting
  | .shut i _ _ => (T.view i).state = .connected ∨ (T.view i).state = .closingTx
  | .close i _ _ => (T.view i).state = .connecting ∨ (T.view i).state = .connected ∨
      (T.view i).state = .closingTx
  | .retire i => (T.view i).state = .closingTx
  | .hangup i => (T.view i).state = .closingRx
  | .release i => (T.view i).state = .closingRx

/-- The record of one sock. -/
def history (T : Table) (i : SockId) : List (SockState × SockState) :=
  (T.moves.filter fun m => m.1 = i).map Prod.snd

/-- The table invariant. -/
structure Ok (T : Table) : Prop where
  split : Pool.Split T.free T.inuse
  free_iff : ∀ i, i ∈ T.free ↔ (T.view i).state = .free
  fd_nonneg : ∀ i, (T.view i).state ≠ .free → (T.view i).state ≠ .closingRx → 0 ≤ (T.view i).fd
  walk : ∀ i, Walk .free (T.history i) (T.view i).state

variable {T : Table} {e : Event} {i j : SockId}

@[simp] theorem apply_view_self : (T.apply e).view e.sock = e.after (T.view e.sock) := by
  simp [apply]

theorem apply_view_ne (h : j ≠ e.sock) : (T.apply e).view j = T.view j := by
  simp [apply, h]

theorem history_apply_self :
    (T.apply e).history e.sock = T.history e.sock ++ e.path (T.view e.sock).state := by
  simp [apply, history, filter_map, Function.comp_def]

theorem history_apply_ne (h : j ≠ e.sock) : (T.apply e).history j = T.history j := by
  have hne : ¬ e.sock = j := fun he => h he.symm
  simp [apply, history, filter_map, Function.comp_def, hne]

theorem Ok.mem_inuse_iff (h : T.Ok) : i ∈ T.inuse ↔ (T.view i).state ≠ .free := by
  rw [Pool.mem_inuse_iff h.split, h.free_iff]

/-- The free list gains or loses no sock but the event's own. -/
theorem mem_free_apply_ne (he : T.Enabled e) (hj : j ≠ e.sock) :
    j ∈ (T.apply e).free ↔ j ∈ T.free := by
  have htail : ∀ i, T.free.head? = some i → j ≠ i → (j ∈ T.free.tail ↔ j ∈ T.free) := by
    intro i hi hne
    obtain ⟨rest, hfree⟩ := List.head?_eq_some_iff.mp hi
    rw [hfree]
    simp [hne]
  cases e with
  | dial i | accept i => exact htail i he.1 hj
  | release i =>
    have hne : j ≠ i := hj
    simp [apply, Event.free, hne]
  | giveUp | establish | shut | close | retire | hangup => exact Iff.rfl

section Enabled

variable (h : T.Ok) (he : T.Enabled e)

include h he

/-- The event's assignments lead from the old state of the sock to the new one. -/
theorem path_walk :
    Walk (T.view e.sock).state (e.path (T.view e.sock).state) (e.after (T.view e.sock)).state := by
  have hhead : ∀ i, T.free.head? = some i → (T.view i).state = .free := by
    intro i hi
    exact (h.free_iff i).mp (mem_of_mem_head? hi)
  cases e with
  | dial i v =>
    refine .stepL ⟨rfl, .inr ?_⟩ rfl (.stepL ⟨rfl, .inr .connect⟩ rfl .refl)
    rw [Event.sock, hhead i he.1]
    exact .take
  | accept i v =>
    refine .stepL ⟨rfl, .inr ?_⟩ rfl .refl
    rw [Event.sock, hhead i he.1]
    exact .take
  | giveUp i v =>
    refine .stepL ⟨rfl, .inr ?_⟩ rfl (.stepL ⟨rfl, .inr .giveUp⟩ rfl .refl)
    rw [Event.sock, hhead i he]
    exact .take
  | establish i =>
    have hst : (T.view i).state = .connecting := he
    refine .stepL ⟨rfl, .inr ?_⟩ rfl .refl
    rw [Event.sock, hst]
    exact .connect
  | shut i l p => exact .refl
  | close i l p =>
    refine .stepL ⟨rfl, ?_⟩ rfl .refl
    rw [Event.sock]
    rcases he with hst | hst | hst
    · exact .inr (by rw [hst]; exact .reset)
    · exact .inr (by rw [hst]; exact .close)
    · exact .inl hst.symm
  | retire i =>
    have hst : (T.view i).state = .closingTx := he
    refine .stepL ⟨rfl, .inr ?_⟩ rfl .refl
    rw [Event.sock, hst]
    exact .retire
  | hangup i => exact .refl
  | release i =>
    have hst : (T.view i).state = .closingRx := he
    refine .stepL ⟨rfl, .inr ?_⟩ rfl .refl
    rw [Event.sock, hst]
    exact .release

theorem walk_apply (j : SockId) : Walk .free ((T.apply e).history j) ((T.apply e).view j).state := by
  by_cases hj : j = e.sock
  · subst hj
    rw [history_apply_self, apply_view_self]
    exact (h.walk _).append (path_walk h he)
  · rw [history_apply_ne hj, apply_view_ne hj]
    exact h.walk j

theorem fd_nonneg_apply (hst : ((T.apply e).view j).state ≠ .free)
    (hrx : ((T.apply e).view j).state ≠ .closingRx) : 0 ≤ ((T.apply e).view j).fd := by
  by_cases hj : j = e.sock
  · subst hj
    rw [apply_view_self] at hst hrx ⊢
    cases e with
    | dial | accept => exact he.2.1
    | giveUp i v => exact absurd rfl hst
    | establish i =>
      have hold : (T.view i).state = .connecting := he
      exact h.fd_nonneg i (by simp [hold]) (by simp [hold])
    | shut i l p => exact h.fd_nonneg i hst hrx
    | close i l p =>
      refine h.fd_nonneg i ?_ ?_
      all_goals rcases he with hold | hold | hold <;> simp [hold]
    | retire i => exact absurd rfl hrx
    | hangup i => exact absurd he hrx
    | release i => exact absurd rfl hst
  · rw [apply_view_ne hj] at hst hrx ⊢
    exact h.fd_nonneg j hst hrx

theorem split_apply : Pool.Split (T.apply e).free (T.apply e).inuse := by
  have htake : ∀ i, T.free.head? = some i → Pool.Split T.free.tail (i :: T.inuse) := by
    intro i hi
    obtain ⟨rest, hfree⟩ := List.head?_eq_some_iff.mp hi
    have hsplit := h.split
    rw [hfree] at hsplit ⊢
    exact Pool.split_take hsplit
  cases e with
  | dial i | accept i => exact htake i he.1
  | release i =>
    refine Pool.split_give h.split (h.mem_inuse_iff.mpr ?_)
    have hst : (T.view i).state = .closingRx := he
    simp [hst]
  | giveUp | establish | shut | close | retire | hangup => exact h.split

theorem mem_free_apply_self : e.sock ∈ (T.apply e).free ↔ (e.after (T.view e.sock)).state = .free := by
  have hsplit := split_apply h he
  have hout : ∀ i, i ∈ (T.apply e).inuse → i ∉ (T.apply e).free := by
    intro i hi
    exact (Pool.mem_inuse_iff hsplit).mp hi
  have hsame : ∀ i st, (T.view i).state = st → st ≠ .free → i ∉ T.free := by
    intro i st hst hne hmem
    exact hne (hst.symm.trans ((h.free_iff i).mp hmem))
  cases e with
  | dial i | accept i =>
    refine iff_of_false (hout i ?_) (by simp [Event.after])
    exact mem_cons_self
  | giveUp i v => exact iff_of_true (mem_of_mem_head? he) rfl
  | establish i | retire i => exact iff_of_false (hsame i _ he (by simp)) (by simp [Event.after])
  | shut i | hangup i => exact h.free_iff i
  | close i l p =>
    refine iff_of_false ?_ (by simp [Event.after])
    rcases he with hst | hst | hst
    all_goals exact hsame i _ hst (by simp)
  | release i => exact iff_of_true mem_cons_self rfl

/-- Every event keeps the invariant. -/
theorem ok_apply : (T.apply e).Ok := by
  refine ⟨split_apply h he, ?_, fun j => fd_nonneg_apply h he, walk_apply h he⟩
  intro j
  by_cases hj : j = e.sock
  · subst hj
    rw [apply_view_self]
    exact mem_free_apply_self h he
  · rw [mem_free_apply_ne he hj, apply_view_ne hj]
    exact h.free_iff j

end Enabled

/-- No two socks in use hold the same descriptor. -/
def Owner (T : Table) : Prop :=
  ∀ i ∈ T.inuse, ∀ j ∈ T.inuse, 0 ≤ (T.view i).fd → (T.view i).fd = (T.view j).fd → i = j

/-- A sock in use keeps its descriptor until it is hung up. -/
theorem fd_apply (h : T.Ok) (he : T.Enabled e) (hj : j ∈ T.inuse) (hne : e ≠ .hangup j) :
    ((T.apply e).view j).fd = (T.view j).fd := by
  by_cases hi : j = e.sock
  · subst hi
    have hhead : T.free.head? ≠ some e.sock := by
      intro hhead
      exact (Pool.mem_inuse_iff h.split).mp hj (mem_of_mem_head? hhead)
    rw [apply_view_self]
    cases e with
    | dial | accept => exact absurd he.1 hhead
    | giveUp i v => exact absurd he hhead
    | establish | shut | close | retire => rfl
    | hangup i => exact absurd rfl hne
    | release i => rfl
  · rw [apply_view_ne hi]

theorem mem_inuse_apply (hj : j ∈ T.inuse) (hne : e ≠ .release j) : j ∈ (T.apply e).inuse := by
  cases e with
  | dial | accept => exact mem_cons_of_mem _ hj
  | release i =>
    refine (mem_erase_of_ne ?_).mpr hj
    rintro rfl
    exact hne rfl
  | giveUp | establish | shut | close | retire | hangup => exact hj

/-- A sock that comes into use brings a descriptor that no other holds. -/
theorem inuse_apply (he : T.Enabled e) (hj : j ∈ (T.apply e).inuse) :
    j ∈ T.inuse ∨ (j = e.sock ∧ T.Fresh ((T.apply e).view j).fd) := by
  have hopen : ∀ i, j ∈ i :: T.inuse → i = e.sock → T.Fresh (e.after (T.view i)).fd →
      j ∈ T.inuse ∨ (j = e.sock ∧ T.Fresh ((T.apply e).view j).fd) := by
    rintro i hmem rfl hfresh
    rcases mem_cons.mp hmem with rfl | hold
    · exact .inr ⟨rfl, by rw [apply_view_self]; exact hfresh⟩
    · exact .inl hold
  cases e with
  | dial i | accept i => exact hopen i hj rfl he.2.2.1
  | release i => exact .inl (mem_of_mem_erase hj)
  | giveUp | establish | shut | close | retire | hangup => exact .inl hj

theorem owner_apply (h : T.Ok) (he : T.Enabled e) (ho : T.Owner) : (T.apply e).Owner := by
  have hold : ∀ i, i ∈ T.inuse → 0 ≤ ((T.apply e).view i).fd →
      ((T.apply e).view i).fd = (T.view i).fd := by
    intro i hi hpos
    refine fd_apply h he hi ?_
    rintro rfl
    have hfd : ((T.apply (.hangup i)).view i).fd = -1 := congrArg SockView.fd apply_view_self
    omega
  intro i hi j hj hpos heq
  have hpos' : 0 ≤ ((T.apply e).view j).fd := heq ▸ hpos
  rcases inuse_apply he hi with hi | ⟨hi, hfresh⟩
  · rcases inuse_apply he hj with hj | ⟨hj, hfresh⟩
    · have hfd := hold i hi hpos
      rw [hfd, hold j hj hpos'] at heq
      exact ho i hi j hj (hfd ▸ hpos) heq
    · exact absurd ((hold i hi hpos).symm.trans heq) (hfresh i hi)
  · rcases inuse_apply he hj with hj | ⟨hj, -⟩
    · exact absurd ((hold j hj hpos').symm.trans heq.symm) (hfresh j hj)
    · rw [hi, hj]

end Table

end HyperCog.Vsock
