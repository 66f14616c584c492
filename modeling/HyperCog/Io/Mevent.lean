import HyperCog.Lib.Run
import Mathlib.Data.List.Nodup

/-!
The event loop's registrations: calls from any thread leave their changes on a list,
and the dispatch loop turns the list into one `kevent` call.
-/
namespace HyperCog.Io

open Machine List
open Function (update update_of_ne update_self update_eq_self)

/-- `enum ev_type`, which also selects the kernel's filter. -/
inductive EvType
  | read
  | write
  | timer
  | signal
  deriving DecidableEq, Repr

inductive MevState
  | add
  | enable
  | disable
  | delPending
  deriving DecidableEq, Repr

def meventMax : ℕ := 64

/-- For a timer `fd` holds the period. -/
structure Mevent where
  fd : Int
  timid : Int
  type : EvType
  cq : Bool
  state : MevState
  closefd : Bool
  deriving DecidableEq, Repr

/-- Events by address, and the two lists that link them. -/
structure Mevents where
  heap : ℕ → Option Mevent
  next : ℕ
  timid : Int
  globalHead : List ℕ
  changeHead : List ℕ

/-- What the kernel knows an event by. -/
structure Key where
  ident : Int
  filter : EvType
  deriving DecidableEq, Repr

inductive KqFlags
  | add
  | enable
  | disable
  | delete
  deriving DecidableEq, Repr

structure Kevent where
  key : Key
  flags : KqFlags
  data : Int
  deriving DecidableEq, Repr

/-- The registered filters, each enabled or not. -/
abbrev Kqueue := Key → Option Bool

/-- One change, by the kernel that the results assume: EV_ADD registers and enables, the others act on
registered filters only, and no change fails. kevent(2) without room for events would stop at the first one
that does. -/
def Kqueue.apply (kq : Kqueue) (c : Kevent) : Kqueue :=
  update kq c.key <| match c.flags with
    | .add => some true
    | .enable => (kq c.key).map fun _ => true
    | .disable => (kq c.key).map fun _ => false
    | .delete => none

attribute [local simp] Kqueue.apply

/-- Closing a descriptor removes its filters. -/
def Kqueue.close (kq : Kqueue) (fd : Int) : Kqueue := fun k =>
  if k.ident = fd ∧ k.filter ≠ .timer ∧ k.filter ≠ .signal then none else kq k

def Mevent.key (ev : Mevent) : Key :=
  match ev.type with
  | .timer => ⟨ev.timid, .timer⟩
  | type => ⟨ev.fd, type⟩

def meventKqFlags (ev : Mevent) : KqFlags :=
  match ev.state with
  | .add => .add
  | .enable => .enable
  | .disable => .disable
  | .delPending => .delete

def Mevent.kevent (ev : Mevent) : Kevent where
  key := ev.key
  flags := meventKqFlags ev
  data := match ev.type with
    | .timer => ev.fd
    | _ => 0

attribute [local simp] Mevent.kevent

/-- A call uses an event that was freed, more changes than the array takes, or not this thread's turn. -/
inductive Stop
  | freed
  | changesFull
  | blocked
  deriving DecidableEq, Repr

def Mevents.set (m : Mevents) (e : ℕ) (ev : Option Mevent) : Mevents :=
  { m with heap := update m.heap e ev }

/-- The events on either list. -/
def Mevents.all (m : Mevents) : List ℕ := m.globalHead ++ m.changeHead

attribute [local simp] Mevents.all

/-- An event with this descriptor and type is on one of the lists. -/
def Mevents.present (m : Mevents) (fd : Int) (type : EvType) : Bool :=
  m.all.any fun e =>
    match m.heap e with
    | none => false
    | some lp => type ≠ .timer && lp.fd = fd && lp.type = type

/-- The event that `mevent_add` makes; a timer takes the next number. -/
def newEvent (m : Mevents) (tfd : Int) (type : EvType) : Mevent where
  fd := tfd
  timid := if type = .timer then m.timid else 0
  type := type
  cq := true
  state := .add
  closefd := false

/-- The heap and the lists with that event. -/
def added (m : Mevents) (tfd : Int) (type : EvType) : Mevents :=
  { m.set m.next (some (newEvent m tfd type)) with
    next := m.next + 1
    timid := if type = .timer then m.timid + 1 else m.timid
    changeHead := m.next :: m.changeHead }

/-- `mevent_add`; `func` tells a callback from a null pointer, `calloc` whether memory was left. -/
def meventAdd (m : Mevents) (tfd : Int) (type : EvType) (func calloc : Bool) : Option ℕ × Mevents :=
  if tfd < 0 ∨ func = false then (none, m)
  else if m.present tfd type = true then (none, m)
  else if calloc = false then (none, m)
  else (some m.next, added m tfd type)

/-- An event that is not on the change list yet moves there. -/
def enqueue (m : Mevents) (e : ℕ) (ev : Mevent) : Mevents :=
  if ev.cq then m.set e (some ev)
  else
    { m.set e (some { ev with cq := true }) with
      globalHead := m.globalHead.erase e
      changeHead := e :: m.changeHead }

def requestState : Bool → MevState
  | true => .enable
  | false => .disable

/-- What the tests at the head of `mevent_update` decide, which take no lock. -/
inductive Test
  | einval
  | same
  | proceed
  deriving DecidableEq, Repr

def meventTest (ev : Mevent) (newstate : MevState) : Test :=
  if ev.state = .delPending then .einval
  else if ev.state = newstate then .same
  else .proceed

/-- The rest of `mevent_update`, under the lock. -/
def meventUpdate (m : Mevents) (e : ℕ) (ev : Mevent) (newstate : MevState) : Mevents :=
  enqueue m e { ev with state := newstate }

def meventDeleteEvent (m : Mevents) (e : ℕ) (ev : Mevent) (closefd : Bool) : Mevents :=
  enqueue m e { ev with state := .delPending, closefd := closefd || ev.closefd }

/-- What the loop of `mevent_build` has done so far. -/
structure Built where
  me : Mevents
  kevs : List Kevent
  closed : List Int

/-- A deleted event is freed, another one leaves the change list. -/
def Mevent.taken (ev : Mevent) : Option Mevent :=
  if ev.state = .delPending then none else some { ev with cq := false }

/-- One turn of the loop for the event at the head of the change list. -/
def buildOne (b : Built) (e : ℕ) (rest : List ℕ) (ev : Mevent) : Built where
  me := { b.me.set e ev.taken with
    changeHead := rest
    globalHead := if ev.state = .delPending then b.me.globalHead else e :: b.me.globalHead }
  kevs := if ev.closefd then b.kevs else b.kevs ++ [ev.kevent]
  closed := if ev.closefd then b.closed ++ [ev.fd] else b.closed

attribute [local simp] Io.buildOne

def buildLoop : List ℕ → Built → Except Stop Built
  | [], b => .ok b
  | e :: rest, b =>
    match b.me.heap e with
    | none => .error .freed
    | some ev =>
      if meventMax ≤ (buildOne b e rest ev).kevs.length then .error .changesFull
      else buildLoop rest (buildOne b e rest ev)

def meventBuild (m : Mevents) : Except Stop Built := buildLoop m.changeHead ⟨m, [], []⟩

/-- The process and the kernel: `changelist` is what the dispatch loop has built and not yet handed
over, `updates` the calls of `mevent_update` past their tests. `wanted` and `built` are not in the
source: the events that were added and not deleted, each as last requested, and the same when the
loop last built. -/
structure World where
  me : Mevents
  kq : Kqueue
  changelist : Option (List Kevent)
  updates : List (ℕ × Bool)
  wanted : Kqueue
  built : Kqueue

inductive Action
  | add (tfd : Int) (type : EvType) (func calloc : Bool)
  /-- a call of `mevent_enable` or `mevent_disable` up to the lock -/
  | test (e : ℕ) (on : Bool)
  /-- such a call with the lock -/
  | update (e : ℕ) (on : Bool)
  | delete (e : ℕ)
  | build
  | kevent
  deriving DecidableEq, Repr

/-- A call that is handed the event's address. -/
def World.using (w : World) (e : ℕ) (f : Mevent → World) : Except Stop World :=
  match w.me.heap e with
  | none => .error .freed
  | some ev => .ok (f ev)

/-- The dispatch loop with the changes it has built. -/
def World.hold (w : World) (b : Built) : World :=
  { w with
    me := b.me
    kq := b.closed.foldl Kqueue.close w.kq
    changelist := some b.kevs
    built := w.wanted }

def step (w : World) : Action → Except Stop World
  | .add tfd type func calloc =>
    match meventAdd w.me tfd type func calloc with
    | (none, me) => .ok { w with me }
    | (some _, me) =>
      .ok { w with me, wanted := update w.wanted (newEvent w.me tfd type).key (some true) }
  | .test e on => w.using e fun ev =>
    match meventTest ev (requestState on) with
    | .einval => w
    | .same => { w with wanted := update w.wanted ev.key (some on) }
    | .proceed => { w with updates := (e, on) :: w.updates }
  | .update e on =>
    if (e, on) ∉ w.updates then .error .blocked
    else w.using e fun ev =>
      { w with
        me := meventUpdate w.me e ev (requestState on)
        updates := w.updates.erase (e, on)
        wanted := update w.wanted ev.key ((w.wanted ev.key).map fun _ => on) }
  | .delete e => w.using e fun ev =>
    { w with
      me := meventDeleteEvent w.me e ev false
      wanted := update w.wanted ev.key none }
  | .build =>
    if w.changelist.isSome then .error .blocked else (meventBuild w.me).map w.hold
  | .kevent =>
    match w.changelist with
    | none => .error .blocked
    | some kevs => .ok { w with kq := kevs.foldl Kqueue.apply w.kq, changelist := none }

/-- No event, and an empty kernel queue. -/
def start : World where
  me := ⟨fun _ => none, 0, 43, [], []⟩
  kq := fun _ => none
  changelist := none
  updates := []
  wanted := fun _ => none
  built := fun _ => none

/-- A request takes the lock only when the event is not deleted and its EV_ADD has been built. -/
def Orderly (w : World) : Action → Prop
  | .update e _ => ∀ ev ∈ w.me.heap e, ev.state ≠ .delPending ∧ ¬ (ev.cq = true ∧ ev.state = .add)
  | _ => True

instance (w : World) : (a : Action) → Decidable (Orderly w a)
  | .update e _ => inferInstanceAs (Decidable (∀ ev ∈ w.me.heap e,
      ev.state ≠ .delPending ∧ ¬ (ev.cq = true ∧ ev.state = .add)))
  | .add .. | .test .. | .delete _ | .build | .kevent => isTrue trivial

/-- What an event's state says of its filter and of what was requested: an event off the change
list has what it asks for, one on it asks for a change that the kernel can make. -/
def Settled (ev : Mevent) (reg want : Option Bool) : Prop :=
  match ev.state with
  | .add => want = some true ∧ reg = if ev.cq then none else some true
  | .enable => want = some true ∧ reg.isSome = true ∧ (ev.cq = false → reg = some true)
  | .disable => want = some false ∧ reg.isSome = true ∧ (ev.cq = false → reg = some false)
  | .delPending => want = none ∧ ev.cq = true

attribute [local simp] Settled

/-- What holds of the event at address `e`. -/
structure EventOk (m : Mevents) (kq wanted : Kqueue) (e : ℕ) (ev : Mevent) : Prop where
  queued : ev.cq = true ↔ e ∈ m.changeHead
  fresh : e < m.next
  timid : ev.type = .timer → ev.timid < m.timid
  kept : ev.closefd = false
  settled : Settled ev (kq ev.key) (wanted ev.key)

/-- The lists, the heap and the kernel fit together: no two events share a kernel key, and what no
event has is neither registered nor requested. -/
structure Consistent (m : Mevents) (kq wanted : Kqueue) : Prop where
  nodup : m.all.Nodup
  live : ∀ e, e ∈ m.all ↔ (m.heap e).isSome = true
  keys : ∀ e ev e' ev', m.heap e = some ev → m.heap e' = some ev' → ev.key = ev'.key → e = e'
  event : ∀ e ev, m.heap e = some ev → EventOk m kq wanted e ev
  owned : ∀ k, (∀ e ev, m.heap e = some ev → ev.key ≠ k) → kq k = none ∧ wanted k = none

variable {m : Mevents} {kq wanted : Kqueue} {e : ℕ} {ev : Mevent}

@[simp] theorem heap_set_self (m : Mevents) (e : ℕ) (x : Option Mevent) : (m.set e x).heap e = x := by
  simp [Mevents.set]

variable {i : ℕ} {reg want : Option Bool} {tfd : Int} {type : EvType} {on : Bool} {x : Option Mevent} {ev' : Mevent}
  {k : Key} {wanted' kq' : Kqueue} {b : Built} {m' : Mevents} {rest l : List ℕ}

theorem heap_set_of_ne (m : Mevents) (x : Option Mevent) (h : i ≠ e) :
    (m.set e x).heap i = m.heap i := by
  simp [Mevents.set, h]

/-- An event found after a store is the one stored or an old one at another address. -/
theorem of_heap_set (hi : (m.set e x).heap i = some ev') :
    (i = e ∧ x = some ev') ∨ (i ≠ e ∧ m.heap i = some ev') := by
  by_cases hie : i = e
  · subst i
    rw [heap_set_self] at hi
    exact .inl ⟨rfl, hi⟩
  · rw [heap_set_of_ne _ _ hie] at hi
    exact .inr ⟨hie, hi⟩

/-- Off the change list an event has what it asks for. -/
theorem Settled.eq_of_not_queued (h : Settled ev reg want) (hcq : ev.cq = false) : reg = want := by
  cases hs : ev.state <;> simp_all

/-- On it the change that `mevent_build` makes of the event gives it what it asks for. -/
theorem Settled.apply_kevent (h : Settled ev (kq ev.key) want) (hcq : ev.cq = true) :
    kq.apply ev.kevent ev.key = want := by
  cases hs : ev.state with
  | add | delPending => simp_all [meventKqFlags]
  | enable | disable =>
    obtain ⟨b, hb⟩ := Option.isSome_iff_exists.mp (show (kq ev.key).isSome = true by
      simp_all)
    simp_all [meventKqFlags]

/-- An event that has what it asks for is settled off the change list. -/
theorem Settled.off (h : Settled ev reg want) (hlive : ev.state ≠ .delPending) :
    Settled { ev with cq := false } want want := by
  cases hs : ev.state <;> simp_all

section

variable (h : Consistent m kq wanted)

include h

/-- One address changes, and with it only what is known of one key, which no other event has. -/
theorem Consistent.store (hheap : m'.heap = (m.set e x).heap) (hnodup : m'.all.Nodup)
    (hself : e ∈ m'.all ↔ x.isSome = true) (hall : ∀ i, i ≠ e → (i ∈ m'.all ↔ i ∈ m.all))
    (hchange : ∀ i, i ≠ e → (i ∈ m'.changeHead ↔ i ∈ m.changeHead))
    (hnext : m.next ≤ m'.next) (htimid : m.timid ≤ m'.timid)
    (hsole : ∀ i ev, m.heap i = some ev → (i = e ↔ ev.key = k))
    (hkq : ∀ k', k' ≠ k → kq' k' = kq k' ∧ wanted' k' = wanted k')
    (hnone : x = none → kq' k = none ∧ wanted' k = none)
    (hsome : ∀ ev ∈ x, ev.key = k ∧ EventOk m' kq' wanted' e ev) :
    Consistent m' kq' wanted' := by
  refine ⟨hnodup, ?_, ?_, ?_, ?_⟩
  · intro i
    rw [hheap]
    by_cases hie : i = e
    · rw [hie, heap_set_self, hself]
    · rw [heap_set_of_ne _ _ hie, hall i hie, h.live]
  · intro i ev₁ j ev₂ hi hj hk
    rw [hheap] at hi hj
    rcases of_heap_set hi with ⟨rfl, hx⟩ | ⟨hie, hi'⟩ <;>
      rcases of_heap_set hj with ⟨rfl, hy⟩ | ⟨hje, hj'⟩
    · rfl
    · exact absurd ((hsole j ev₂ hj').mpr (hk.symm.trans (hsome ev₁ hx).1)) hje
    · exact absurd ((hsole i ev₁ hi').mpr (hk.trans (hsome ev₂ hy).1)) hie
    · exact h.keys i ev₁ j ev₂ hi' hj' hk
  · intro i ev hi
    rw [hheap] at hi
    rcases of_heap_set hi with ⟨rfl, hx⟩ | ⟨hie, hi⟩
    · exact (hsome ev hx).2
    · obtain ⟨hq, hfresh, hid, hkept, hset⟩ := h.event i ev hi
      obtain ⟨hreg, hwant⟩ := hkq _ (mt (hsole i ev hi).mpr hie)
      exact ⟨by rw [hchange i hie, hq], Nat.lt_of_lt_of_le hfresh hnext,
        fun ht => Int.lt_of_lt_of_le (hid ht) htimid, hkept, by rwa [hreg, hwant]⟩
  · intro k' hk'
    rw [hheap] at hk'
    by_cases hkk : k' = k
    · subst k'
      refine hnone (Option.eq_none_iff_forall_not_mem.mpr fun ev hx => ?_)
      exact hk' e ev ((heap_set_self m e x).trans hx) (hsome ev hx).1
    · rw [(hkq k' hkk).1, (hkq k' hkk).2]
      refine h.owned k' fun i ev hi hkey => ?_
      by_cases hie : i = e
      · subst i
        exact hkk (hkey.symm.trans ((hsole e ev hi).mp rfl))
      · exact hk' i ev ((heap_set_of_ne m x hie).trans hi) hkey

theorem Consistent.mem_all (he : m.heap e = some ev) : e ∈ m.all :=
  (h.live e).mpr (by rw [he]; rfl)

/-- The key of an event is its own. -/
theorem Consistent.sole (he : m.heap e = some ev) (i : ℕ) (ev₁ : Mevent)
    (hi : m.heap i = some ev₁) : i = e ↔ ev₁.key = ev.key := by
  refine ⟨?_, h.keys i ev₁ e ev hi he⟩
  rintro rfl
  rw [Option.some.inj (hi.symm.trans he)]

/-- The case in which an event stays, with its key, and may change lists. -/
theorem Consistent.restate (he : m.heap e = some ev)
    (hheap : m'.heap = (m.set e (some ev')).heap) (hkey : ev'.key = ev.key)
    (hperm : m'.all.Perm m.all)
    (hchange : ∀ i, i ≠ e → (i ∈ m'.changeHead ↔ i ∈ m.changeHead))
    (hnext : m'.next = m.next) (htimid : m'.timid = m.timid)
    (hkq : ∀ k, k ≠ ev.key → kq' k = kq k ∧ wanted' k = wanted k)
    (hok : EventOk m' kq' wanted' e ev') : Consistent m' kq' wanted' := by
  refine h.store hheap (hperm.nodup_iff.mpr h.nodup)
    (iff_of_true (hperm.mem_iff.mpr (h.mem_all he)) rfl) (fun i _ => hperm.mem_iff) hchange
    (Nat.le_of_eq hnext.symm) (Int.le_of_eq htimid.symm) (h.sole he) hkq nofun ?_
  rintro _ ⟨⟩
  exact ⟨hkey, hok⟩

end

/-- Enabling, disabling or deleting an event: it joins the change list, and only what it asks for
changes. -/
theorem Consistent.enqueue {st : MevState} (h : Consistent m kq wanted)
    (he : m.heap e = some ev) (hwant : ∀ k, k ≠ ev.key → wanted' k = wanted k)
    (hself : Settled { ev with cq := true, state := st } (kq ev.key) (wanted' ev.key)) :
    Consistent (enqueue m e { ev with state := st }) kq wanted' := by
  have hok := h.event e ev he
  by_cases hcq : ev.cq = true
  · have hev : { ev with cq := true, state := st } = { ev with state := st } := by
      cases ev
      simp_all
    have hm : Io.enqueue m e { ev with state := st } = m.set e (some { ev with state := st }) :=
      if_pos hcq
    rw [hm]
    rw [hev] at hself
    exact h.restate he rfl rfl (List.Perm.refl _) (fun _ _ => Iff.rfl) rfl rfl
      (fun k hk => ⟨rfl, hwant k hk⟩) ⟨hok.queued, hok.fresh, hok.timid, hok.kept, hself⟩
  · have hm : Io.enqueue m e { ev with state := st } =
        { m.set e (some { ev with cq := true, state := st }) with
          globalHead := m.globalHead.erase e
          changeHead := e :: m.changeHead } := if_neg hcq
    have hmem : e ∈ m.globalHead := by
      rcases mem_append.mp (h.mem_all he) with hg | hc
      · exact hg
      · exact absurd (hok.queued.mpr hc) hcq
    have hperm : (m.globalHead.erase e ++ e :: m.changeHead).Perm m.all :=
      perm_middle.trans ((perm_cons_erase hmem).symm.append_right m.changeHead)
    rw [hm]
    exact h.restate he rfl rfl hperm (fun i hie => by simp [hie]) rfl rfl
      (fun k hk => ⟨rfl, hwant k hk⟩)
      ⟨iff_of_true rfl mem_cons_self, hok.fresh, hok.timid, hok.kept, hself⟩

/-- With nothing left on the change list the kernel has what was requested. -/
theorem Consistent.eq_wanted (h : Consistent m kq wanted) (hc : m.changeHead = []) : kq = wanted := by
  funext k
  by_cases hk : ∃ e ev, m.heap e = some ev ∧ ev.key = k
  · obtain ⟨e, ev, he, rfl⟩ := hk
    have hok := h.event e ev he
    apply hok.settled.eq_of_not_queued
    have hnot : ¬ ev.cq = true := by
      rw [hok.queued, hc]
      exact not_mem_nil
    simpa using hnot
  · have hnone := h.owned k fun e ev he hkey => hk ⟨e, ev, he, hkey⟩
    rw [hnone.1, hnone.2]

/-- What the loop of `mevent_build` keeps while `l` is left of the change list. -/
structure Building (kq wanted : Kqueue) (l : List ℕ) (b : Built) : Prop where
  consistent : Consistent b.me (b.kevs.foldl Kqueue.apply kq) wanted
  left : b.me.changeHead = l
  closed : b.closed = []

/-- One turn: the event leaves the change list, and the heap if it was deleted; its change joins the
array, which gives the event what it asks for. -/
theorem Building.buildOne (h : Building kq wanted (e :: rest) b) (he : b.me.heap e = some ev) :
    Building kq wanted rest (buildOne b e rest ev) := by
  have hok := h.consistent.event e ev he
  have hcq : ev.cq = true := by
    rw [hok.queued, h.left]
    exact mem_cons_self
  have hgets := hok.settled.apply_kevent hcq
  have hkevs : (Io.buildOne b e rest ev).kevs.foldl Kqueue.apply kq =
      Kqueue.apply (b.kevs.foldl Kqueue.apply kq) ev.kevent := by
    simp [hok.kept]
  have hkq : ∀ k, k ≠ ev.key → Kqueue.apply (b.kevs.foldl Kqueue.apply kq) ev.kevent k =
      b.kevs.foldl Kqueue.apply kq k ∧ wanted k = wanted k :=
    fun k hk => ⟨by simp [hk], rfl⟩
  have hperm : b.me.all.Perm (e :: (b.me.globalHead ++ rest)) := by
    rw [Mevents.all, h.left]
    exact perm_middle
  obtain ⟨hnot, hnodup⟩ := nodup_cons.mp (hperm.nodup_iff.mp h.consistent.nodup)
  have hrest : e ∉ rest := fun hmem => hnot (mem_append_right _ hmem)
  have hchange : ∀ i, i ≠ e → (i ∈ rest ↔ i ∈ b.me.changeHead) := by
    intro i hie
    rw [h.left]
    simp [hie]
  refine ⟨?_, rfl, by simp [hok.kept, h.closed]⟩
  rw [hkevs]
  by_cases hdel : ev.state = .delPending
  · have hall : (Io.buildOne b e rest ev).me.all = b.me.globalHead ++ rest := by
      simp [hdel]
    have hgone : ev.taken = none := if_pos hdel
    have hwant : wanted ev.key = none := by
      have hset := hok.settled
      simp only [Settled, hdel] at hset
      exact hset.1
    refine h.consistent.store rfl (hall ▸ hnodup) ?_ ?_ hchange (Nat.le_refl _) (Int.le_refl _)
      (h.consistent.sole he) hkq (fun _ => ⟨hgets.trans hwant, hwant⟩) (by simp [hgone])
    · rw [hall, hgone]
      exact iff_of_false hnot Bool.false_ne_true
    · intro i hie
      rw [hall, hperm.mem_iff]
      simp [hie]
  · have hall : (Io.buildOne b e rest ev).me.all = e :: (b.me.globalHead ++ rest) := by
      simp [hdel]
    have htaken : ev.taken = some { ev with cq := false } := if_neg hdel
    refine h.consistent.restate he (congrArg (fun x => (b.me.set e x).heap) htaken) rfl
      (hall ▸ hperm.symm) hchange rfl rfl hkq
      ⟨iff_of_false Bool.false_ne_true hrest, hok.fresh, hok.timid, hok.kept, ?_⟩
    exact hgets.symm ▸ hok.settled.off hdel

theorem Building.exists_heap (h : Building kq wanted (e :: rest) b) : ∃ ev, b.me.heap e = some ev := by
  apply Option.isSome_iff_exists.mp
  rw [← h.consistent.live, Mevents.all, h.left]
  simp

/-- The loop empties the change list. -/
theorem Building.buildLoop {b' : Built} (h : Building kq wanted l b) (hb : buildLoop l b = .ok b') :
    Building kq wanted [] b' := by
  induction l generalizing b with
  | nil =>
    cases hb
    exact h
  | cons e rest ih =>
    obtain ⟨ev, he⟩ := h.exists_heap
    rw [Io.buildLoop, he] at hb
    dsimp only at hb
    split_ifs at hb
    exact ih (h.buildOne he) hb

/-- The array is the only thing that can stop it. -/
theorem Building.buildLoop_ok (h : Building kq wanted l b)
    (hroom : b.kevs.length + l.length < meventMax) : ∃ b', Io.buildLoop l b = .ok b' := by
  induction l generalizing b with
  | nil => exact ⟨b, rfl⟩
  | cons e rest ih =>
    obtain ⟨ev, he⟩ := h.exists_heap
    have hlen : (Io.buildOne b e rest ev).kevs.length = b.kevs.length + 1 := by
      simp [(h.consistent.event e ev he).kept]
    rw [length_cons] at hroom
    rw [Io.buildLoop, he]
    dsimp only
    rw [if_neg (by omega)]
    exact ih (h.buildOne he) (by omega)

theorem filter_key (ev : Mevent) : ev.key.filter = ev.type := by
  rcases ev with ⟨_, _, _ | _ | _ | _, _, _, _⟩ <;> rfl

theorem ident_key_of_timer (h : ev.type = .timer) : ev.key.ident = ev.timid := by
  simp [Mevent.key, h]

theorem ident_key_of_ne_timer (h : ev.type ≠ .timer) : ev.key.ident = ev.fd := by
  rcases ev with ⟨_, _, _ | _ | _ | _, _, _, _⟩ <;> first | rfl | exact absurd rfl h

/-- No event has its key: the duplicate test covers descriptors, the counter covers timers. -/
theorem Consistent.newEvent_key_ne (h : Consistent m kq wanted) (hnew : m.present tfd type = false)
    (he : m.heap e = some ev) :
    ev.key ≠ (newEvent m tfd type).key := by
  intro hkey
  have htype : ev.type = type := by
    rw [← filter_key, hkey, filter_key]
    rfl
  have hident := congrArg Key.ident hkey
  by_cases htimer : type = .timer
  · have hlt := (h.event e ev he).timid (htype.trans htimer)
    have hnewid : (newEvent m tfd type).timid = m.timid := if_pos htimer
    have hsame : ev.timid = m.timid := by
      rw [ident_key_of_timer (htype.trans htimer), ident_key_of_timer htimer, hnewid] at hident
      exact hident
    omega
  · rw [ident_key_of_ne_timer (htype.symm ▸ htimer), ident_key_of_ne_timer htimer] at hident
    have hno := any_eq_false.mp hnew e (h.mem_all he)
    simp only [he] at hno
    exact hno (by simp [htimer, htype, hident, newEvent])

theorem meventAdd_cases (m : Mevents) (tfd : Int) (type : EvType) (func calloc : Bool) :
    meventAdd m tfd type func calloc = (none, m) ∨
    (m.present tfd type = false ∧
      meventAdd m tfd type func calloc = (some m.next, added m tfd type)) := by
  rw [meventAdd]
  by_cases hargs : tfd < 0 ∨ func = false
  · exact .inl (if_pos hargs)
  by_cases hpresent : m.present tfd type = true
  · rw [if_neg hargs]
    exact .inl (if_pos hpresent)
  by_cases hmem : calloc = false
  · rw [if_neg hargs, if_neg hpresent]
    exact .inl (if_pos hmem)
  · rw [if_neg hargs, if_neg hpresent, if_neg hmem]
    exact .inr ⟨by simpa using hpresent, rfl⟩

/-- A new event asks to be enabled, and the kernel has no filter with its key yet. -/
theorem Consistent.add (h : Consistent m kq wanted) (hnew : m.present tfd type = false) :
    Consistent (added m tfd type) kq
      (update wanted (newEvent m tfd type).key (some true)) := by
  have hfree : m.heap m.next = none := by
    cases hev : m.heap m.next with
    | none => rfl
    | some ev => exact absurd (h.event _ ev hev).fresh (Nat.lt_irrefl _)
  have hnot : m.next ∉ m.all := by
    rw [h.live, hfree]
    exact Bool.false_ne_true
  have hperm : (added m tfd type).all.Perm (m.next :: m.all) := perm_middle
  have htimid : m.timid ≤ (added m tfd type).timid := by
    change m.timid ≤ if type = .timer then m.timid + 1 else m.timid
    split <;> omega
  refine h.store rfl (hperm.nodup_iff.mpr (nodup_cons.mpr ⟨hnot, h.nodup⟩))
    (iff_of_true (hperm.mem_iff.mpr mem_cons_self) rfl) ?_ ?_ (Nat.le_succ _) htimid ?_
    (fun _ hk => ⟨rfl, update_of_ne hk _ _⟩) nofun ?_
  · intro i hie
    rw [hperm.mem_iff]
    simp [hie]
  · intro i hie
    simp [added, hie]
  · refine fun i ev hi => iff_of_false ?_ (h.newEvent_key_ne hnew hi)
    exact Nat.ne_of_lt (h.event i ev hi).fresh
  · rintro _ ⟨⟩
    refine ⟨rfl, iff_of_true rfl mem_cons_self, Nat.lt_succ_self _, fun htimer => ?_, rfl, ?_⟩
    · have htype : type = .timer := htimer
      simp only [newEvent, added, if_pos htype]
      omega
    · rw [(h.owned _ fun _ _ hi => h.newEvent_key_ne hnew hi).1, update_self]
      exact ⟨rfl, rfl⟩

/-- The kernel once it has the changes that are built and not handed over yet. -/
def World.ahead (w : World) : Kqueue := (w.changelist.getD []).foldl Kqueue.apply w.kq

attribute [local simp] World.ahead

/-- What every step of an orderly run keeps. -/
structure Faithful (w : World) : Prop where
  consistent : Consistent w.me w.ahead w.wanted
  ahead : w.ahead = w.built

theorem faithful_start : Faithful start := by
  refine ⟨⟨nodup_nil, ?_, ?_, ?_, ?_⟩, rfl⟩ <;> simp [start]

theorem wanted_of_test_same (hset : Settled ev reg (wanted ev.key))
    (hsame : meventTest ev (requestState on) = .same) :
    update wanted ev.key (some on) = wanted := by
  have hstate : ev.state = requestState on := by
    unfold meventTest at hsame
    split_ifs at hsame with h₁ h₂
    exact h₂
  have hwant : wanted ev.key = some on := by
    cases on <;> simp_all [requestState]
  rw [← hwant, update_eq_self]

/-- A request for a registered event is one that the kernel can carry out. -/
theorem Settled.update (h : Settled ev reg want) (hdel : ev.state ≠ .delPending)
    (hadd : ¬ (ev.cq = true ∧ ev.state = .add)) :
    Settled { ev with cq := true, state := requestState on } reg
      (want.map fun _ => on) := by
  have hreg : reg.isSome = true ∧ want.isSome = true := by
    cases hs : ev.state <;> simp_all
  obtain ⟨b, rfl⟩ := Option.isSome_iff_exists.mp hreg.2
  cases on <;> simp [requestState, hreg.1]

variable {w u : World}

theorem ahead_of_idle (hidle : w.changelist = none) : w.ahead = w.kq := by
  simp [hidle]

theorem Faithful.building (h : Faithful w) (hidle : w.changelist = none) :
    Building w.kq w.wanted w.me.changeHead ⟨w.me, [], []⟩ :=
  ⟨ahead_of_idle hidle ▸ h.consistent, rfl, rfl⟩

/-- What the dispatch loop builds is what is requested at that time. -/
theorem Faithful.build (h : Faithful w) (hidle : w.changelist = none)
    (hb : meventBuild w.me = .ok b) : Faithful (w.hold b) := by
  have hend := (h.building hidle).buildLoop hb
  rw [World.hold, hend.closed]
  exact ⟨hend.consistent, hend.consistent.eq_wanted hend.left⟩

theorem using_eq_ok {f : Mevent → World} (hs : w.using e f = .ok u) :
    ∃ ev, w.me.heap e = some ev ∧ u = f ev := by
  unfold World.using at hs
  split at hs
  · cases hs
  · rename_i ev he
    cases hs
    exact ⟨ev, he, rfl⟩

theorem Faithful.step {a : Action} (hc : Orderly w a) (hs : step w a = .ok u)
    (h : Faithful w) : Faithful u := by
  cases a with
  | add tfd type func calloc =>
    rw [Io.step] at hs
    rcases meventAdd_cases w.me tfd type func calloc with heq | ⟨hnew, heq⟩
    · rw [heq] at hs
      cases hs
      exact h
    · rw [heq] at hs
      cases hs
      exact ⟨h.consistent.add hnew, h.ahead⟩
  | test e on =>
    obtain ⟨ev, he, rfl⟩ := using_eq_ok hs
    cases ht : meventTest ev (requestState on) with
    | einval => exact h
    | same =>
      rw [wanted_of_test_same (h.consistent.event e ev he).settled ht]
      exact h
    | proceed => exact ⟨h.consistent, h.ahead⟩
  | update e on =>
    rw [Io.step] at hs
    split_ifs at hs
    obtain ⟨ev, he, rfl⟩ := using_eq_ok hs
    obtain ⟨hdel, hadd⟩ := hc ev he
    refine ⟨h.consistent.enqueue he (fun _ hk => update_of_ne hk _ _) ?_, h.ahead⟩
    dsimp only
    rw [update_self]
    exact (h.consistent.event e ev he).settled.update hdel hadd
  | delete e =>
    obtain ⟨ev, he, rfl⟩ := using_eq_ok hs
    have hkept : (false || ev.closefd) = ev.closefd := Bool.false_or _
    refine ⟨?_, h.ahead⟩
    dsimp only [meventDeleteEvent]
    refine h.consistent.enqueue he (fun _ hk => update_of_ne hk _ _) ?_
    rw [update_self]
    exact ⟨rfl, rfl⟩
  | build =>
    rw [Io.step] at hs
    split_ifs at hs with hidle
    cases hb : meventBuild w.me with
    | error s => simp [hb, Except.map] at hs
    | ok b =>
      simp only [hb, Except.map] at hs
      cases hs
      exact h.build (by simpa using hidle) hb
  | kevent =>
    rw [Io.step] at hs
    cases hl : w.changelist with
    | none => simp [hl] at hs
    | some kevs =>
      simp only [hl] at hs
      cases hs
      have hahead : w.ahead = kevs.foldl Kqueue.apply w.kq := by simp [hl]
      exact ⟨hahead ▸ h.consistent, hahead ▸ h.ahead⟩

theorem faithful_run {as : List Action} (h : Run step Orderly start as w) : Faithful w :=
  Run.invariant (fun _ _ _ hc hs hw => hw.step hc hs) h faithful_start

/-- From an idle loop with room in the array both calls of the next pass go through. -/
theorem Faithful.exists_pass (h : Faithful w) (hidle : w.changelist = none)
    (hroom : w.me.changeHead.length < meventMax) :
    ∃ u v, Io.step w .build = .ok u ∧ Io.step u .kevent = .ok v ∧ v.kq = w.wanted := by
  obtain ⟨b, hb⟩ := (h.building hidle).buildLoop_ok (by simpa using hroom)
  have hm : meventBuild w.me = .ok b := hb
  refine ⟨w.hold b, _, ?_, rfl, (h.build hidle hm).ahead⟩
  simp [Io.step, hidle, hm, Except.map]

/-- Whenever the dispatch loop has handed its changes over, the kernel has exactly the events that
were not deleted when it built them, each as last requested; and the next pass gets there as long
as the changes fit the array. -/
theorem registration_faithful {as : List Action} (h : Run step Orderly start as w)
    (hidle : w.changelist = none) :
    w.kq = w.built ∧
    (w.me.changeHead.length < meventMax →
      ∃ u v, step w .build = .ok u ∧ step u .kevent = .ok v ∧ v.kq = w.wanted) := by
  have hf := faithful_run h
  refine ⟨?_, hf.exists_pass hidle⟩
  exact (ahead_of_idle hidle).symm.trans hf.ahead

/-- A descriptor added, registered, and disabled before the next pass. -/
def disableAfterPass : List Action :=
  [.add 5 .read true true, .build, .kevent, .test 0 false, .update 0 false, .build, .kevent]

def disabledWorld : World := (exec step start disableAfterPass).toOption.getD start

theorem registration_faithful_disabled :
    disabledWorld.kq = disabledWorld.built ∧ disabledWorld.kq ⟨5, .read⟩ = some false := by
  have hrun : Run step Orderly start disableAfterPass disabledWorld :=
    run_of_checked rfl
  exact ⟨(registration_faithful hrun rfl).1, by decide +kernel⟩

/-- The same request before the first pass takes the place of EV_ADD. -/
def disableBeforePass : List Action :=
  [.add 5 .read true true, .test 0 false, .update 0 false, .build, .kevent]

/-- A deletion between the tests of `mevent_disable` and its lock. -/
def disableAcrossDelete : List Action :=
  [.add 5 .read true true, .build, .kevent, .test 0 false, .delete 0, .update 0 false, .build, .kevent]

/-- The first event is never registered; the second stays registered although it was deleted. -/
theorem requests_overwritten : (∃ w, Run step Any start disableBeforePass w ∧ w.changelist = none ∧
      w.built ⟨5, .read⟩ = some false ∧ w.kq ⟨5, .read⟩ = none) ∧
    (∃ w, Run step Any start disableAcrossDelete w ∧ w.changelist = none ∧
      w.built ⟨5, .read⟩ = none ∧ w.kq ⟨5, .read⟩ = some false) := by
  constructor
  all_goals
    refine ⟨_, run_of_isOk (d := start) ?_, ?_, ?_, ?_⟩
    all_goals decide +kernel

end HyperCog.Io
