import HyperCog.Blockif.Queue

/-! What each queue function does to the layout of the queues and to the record of requests. -/
namespace HyperCog.Blockif

open Machine Function List Queues

attribute [local simp] setStatus count_singleton count_append

variable {ρ : Type} {op : Blockop} {be t : ElemId} {h h' : List Event} {ticket : ElemId → ℕ}
  {accepted : ℕ} {st : Blockstat} {reqs : ρ → BlockifReq} {q q' : Queues ρ} {r : ρ} {run : Bool}
  {l : List ElemId} {o : Option ElemId}

/-- The queues with the first free element pending for a request. -/
def Queues.accept (q : Queues ρ) (be : ElemId) (rest : List ElemId) (e : BlockifElem ρ) : Queues ρ :=
  { q with
    bcReqs := update q.bcReqs be e
    bcFreeq := rest
    bcPendq := q.bcPendq ++ [be] }

/-- The queues with a pending element in the worker's hands. -/
def Queues.takeUp (q : Queues ρ) (be : ElemId) : Queues ρ :=
  { q.setStatus be .busy with
    bcPendq := q.bcPendq.erase be
    bcBusyq := q.bcBusyq ++ [be] }

theorem blockifEnqueue_cases (he : blockifEnqueue reqs q r op = .ok (q', be, run)) :
    ∃ rest status, q.bcFreeq = be :: rest ∧
      (status = if q.behind (reqs r) then Blockstat.block else .pend) ∧
      run = decide (status = Blockstat.pend) ∧
      q' = q.accept be rest ⟨some r, op, status, blockEnd op (reqs r)⟩ := by
  unfold blockifEnqueue at he
  split at he
  · cases he
  · rename_i be' rest hfree
    split at he
    · cases he
      exact ⟨rest, _, hfree, rfl, rfl, rfl⟩
    · cases he

/-- The scan stops at the first element that may run; all others are blocked. -/
theorem firstPend_ok (hf : firstPend q l = .ok o) :
    (o = none ∧ ∀ be ∈ l, (q.bcReqs be).beStatus = .block) ∨
      ∃ be, o = some be ∧ be ∈ l ∧ (q.bcReqs be).beStatus = .pend := by
  induction l with
  | nil =>
    cases hf
    exact .inl ⟨rfl, by simp⟩
  | cons be rest ih =>
    unfold firstPend at hf
    split_ifs at hf with hp hb
    · cases hf
      exact .inr ⟨be, rfl, mem_cons_self, hp⟩
    · rcases ih hf with ⟨ho, hall⟩ | ⟨b, ho, hb', hp⟩
      · exact .inl ⟨ho, forall_mem_cons.mpr ⟨hb, hall⟩⟩
      · exact .inr ⟨b, ho, mem_cons_of_mem _ hb', hp⟩

/-- The scan trips no assertion over pending elements. -/
theorem firstPend_isOk
    (hl : ∀ be ∈ l, (q.bcReqs be).beStatus = .block ∨ (q.bcReqs be).beStatus = .pend) :
    ∃ o, firstPend q l = .ok o := by
  induction l with
  | nil => exact ⟨none, rfl⟩
  | cons be rest ih =>
    obtain ⟨hbe, hrest⟩ := forall_mem_cons.mp hl
    unfold firstPend
    rcases hbe with hb | hp
    · simpa [hb] using ih hrest
    · exact ⟨some be, by simp [hp]⟩

theorem blockifDequeue_cases (hd : blockifDequeue q = .ok (q', o)) :
    (o = none ∧ q' = q ∧ ∀ be ∈ q.bcPendq, (q.bcReqs be).beStatus = .block) ∨
      ∃ be, o = some be ∧ be ∈ q.bcPendq ∧ q' = q.takeUp be := by
  obtain ⟨o', hf, hd⟩ := bind_eq_ok.mp hd
  rcases firstPend_ok hf with ⟨rfl, hall⟩ | ⟨be, rfl, hmem, -⟩
  · cases hd
    exact .inl ⟨rfl, rfl, hall⟩
  · cases hd
    exact .inr ⟨be, rfl, hmem, rfl⟩

section Proc

variable {α : Type} {b : Build} {bc : BlockifCtxt} {h : Host} {br br' : BlockifReq} {s s' : Store}
  {err : Option Errno} {off : Int64}

/-- Every request that the computation returns starts at `off`. -/
def KeepsOffset (off : Int64) (m : StoreM (Option Errno × BlockifReq)) : Prop :=
  ∀ s err br s', m s = .ok ((err, br), s') → br.brOffset = off

theorem keepsOffset_pure (hoff : br.brOffset = off) : KeepsOffset off (pure (err, br)) := by
  intro s err' br' s' hp
  cases hp
  exact hoff

theorem keepsOffset_bind {m : StoreM α} {f : α → StoreM (Option Errno × BlockifReq)}
    (hf : ∀ a, KeepsOffset off (f a)) : KeepsOffset off (m >>= f) := by
  intro s err br s' hb
  obtain ⟨a, s₁, -, hfa⟩ := bind_run_eq_ok.mp hb
  exact hf a _ _ _ _ hfa

variable {fuel voff pos : ℕ} {iov : List Virtio.Iovec}

theorem keepsOffset_readLoop (hoff : br.brOffset = off) :
    KeepsOffset off (readLoop b bc h fuel iov voff pos br) := by
  induction fuel generalizing iov voff pos br with
  | zero => exact keepsOffset_pure hoff
  | succ fuel ih =>
    unfold readLoop
    split
    · exact keepsOffset_pure hoff
    refine keepsOffset_bind fun o => ?_
    cases o with
    | none => exact keepsOffset_bind fun e => keepsOffset_pure hoff
    | some n => exact keepsOffset_bind fun p => ih hoff

theorem keepsOffset_writeLoop (hoff : br.brOffset = off) :
    KeepsOffset off (writeLoop b bc h fuel iov voff pos br) := by
  induction fuel generalizing iov voff pos br with
  | zero => exact keepsOffset_pure hoff
  | succ fuel ih =>
    unfold writeLoop
    split
    · exact keepsOffset_pure hoff
    refine keepsOffset_bind fun p => keepsOffset_bind fun o => ?_
    cases o with
    | none => exact keepsOffset_bind fun e => keepsOffset_pure hoff
    | some n => exact ih hoff

theorem keepsOffset_transfer {call : StoreM (Option ℕ)} (hoff : br.brOffset = off) :
    KeepsOffset off (transfer call br) := by
  refine keepsOffset_bind fun o => ?_
  cases o with
  | none => exact keepsOffset_bind fun e => keepsOffset_pure hoff
  | some n => exact keepsOffset_pure hoff

/-- Serving a request leaves its offset alone. -/
theorem keepsOffset_blockifProc : KeepsOffset br.brOffset (blockifProc b bc h op br) := by
  cases op with
  | read =>
    unfold blockifProc
    dsimp only
    split
    · exact keepsOffset_readLoop rfl
    · exact keepsOffset_transfer rfl
  | write =>
    unfold blockifProc
    dsimp only
    split_ifs
    · exact keepsOffset_pure rfl
    · exact keepsOffset_writeLoop rfl
    · exact keepsOffset_transfer rfl
  | flush => exact keepsOffset_bind fun e => keepsOffset_pure rfl
  | delete =>
    refine keepsOffset_bind fun o => ?_
    cases o with
    | none => exact keepsOffset_bind fun e => keepsOffset_pure rfl
    | some n => exact keepsOffset_pure rfl

end Proc

/-- Every element that is not free, as `blockif_enqueue` sees them. -/
def Queues.outstanding {ρ : Type} (q : Queues ρ) : List ElemId := q.bcPendq ++ q.bcBusyq

/-- How often a request was executed, called back and cancelled. -/
abbrev Tally := ℕ × ℕ × ℕ

def tally (h : List Event) (t : ℕ) : Tally :=
  (h.count (.executed t), h.count (.called t), h.count (.cancelled t))

attribute [local simp] tally

/-- The element in the worker's hands, the status it has there, and its tally. -/
def Worker.serves : Worker → Option (ElemId × Blockstat × Tally)
  | .proc be => some (be, .busy, (0, 0, 0))
  | .callback be _ => some (be, .done, (1, 0, 0))
  | .complete be => some (be, .done, (1, 1, 0))
  | .loop | .parked _ | .exited => none

@[simp] theorem serves_signal (w : Worker) : w.signal.serves = w.serves := by
  cases w <;> rfl

/-- Every element is on the queue that its status names. -/
structure Layout {ρ : Type} (q : Queues ρ) (w : Worker) : Prop where
  split : Pool.Split q.bcFreeq q.outstanding
  free : ∀ be ∈ q.bcFreeq, (q.bcReqs be).beStatus = .free
  pend : ∀ be ∈ q.bcPendq, (q.bcReqs be).beStatus = .block ∨ (q.bcReqs be).beStatus = .pend
  request : ∀ be ∈ q.outstanding, (q.bcReqs be).beReq.isSome
  busy : q.bcBusyq = (w.serves.map Prod.fst).toList
  served : ∀ be st n, w.serves = some (be, st, n) → (q.bcReqs be).beStatus = st

/-- The record agrees with the queues. -/
structure Ledger {ρ : Type} (q : Queues ρ) (w : Worker) (ticket : ElemId → ℕ) (accepted : ℕ)
    (h : List Event) : Prop where
  numbered : ∀ be ∈ q.outstanding, ticket be < accepted
  distinct : ∀ be ∈ q.outstanding, ∀ t ∈ q.outstanding, ticket be = ticket t → be = t
  waiting : ∀ be ∈ q.bcPendq, tally h (ticket be) = (0, 0, 0)
  served : ∀ be st n, w.serves = some (be, st, n) → tally h (ticket be) = n
  settled : ∀ n < accepted, (∀ be ∈ q.outstanding, ticket be ≠ n) →
    tally h n = (1, 1, 0) ∨ tally h n = (0, 0, 1)
  fresh : ∀ n, accepted ≤ n → tally h n = (0, 0, 0)

/-- Every blocked element starts where an earlier one ends. -/
def Behind {ρ : Type} (q : Queues ρ) (reqs : ρ → BlockifReq) (ticket : ElemId → ℕ) : Prop :=
  ∀ be ∈ q.bcPendq, (q.bcReqs be).beStatus = .block →
    ∃ t ∈ q.outstanding, ticket t < ticket be ∧ (q.bcReqs be).startsAt reqs (q.bcReqs t).beBlock

/-- `q'` is `q` after the completion of `be`. -/
structure Completed {ρ : Type} [DecidableEq ρ] (reqs : ρ → BlockifReq) (q : Queues ρ)
    (be : ElemId) (q' : Queues ρ) : Prop where
  freeq : q'.bcFreeq = q.bcFreeq ++ [be]
  pendq : q'.bcPendq = q.bcPendq.erase be
  busyq : q'.bcBusyq = q.bcBusyq.erase be
  closing : q'.bcClosing = q.bcClosing
  freed : (q'.bcReqs be).beStatus = .free
  elem : ∀ t, t ≠ be → q'.bcReqs t =
    if t ∈ q.bcPendq ∧ (q.bcReqs t).startsAt reqs (q.bcReqs be).beBlock then
      { q.bcReqs t with beStatus := .pend }
    else q.bcReqs t

section Tally

variable {n t : ℕ}

theorem tally_executed : tally (h ++ [.executed t]) n =
    ((tally h n).1 + if t = n then 1 else 0, (tally h n).2) := by
  simp

theorem tally_called : tally (h ++ [.called t]) n =
    ((tally h n).1, (tally h n).2.1 + (if t = n then 1 else 0), (tally h n).2.2) := by
  simp

theorem tally_cancelled : tally (h ++ [.cancelled t]) n =
    ((tally h n).1, (tally h n).2.1, (tally h n).2.2 + if t = n then 1 else 0) := by
  simp

end Tally

variable {w w' : Worker} {reqs : ρ → BlockifReq} {q : Queues ρ} {r : ρ} {rest : List ElemId}
  {e : BlockifElem ρ}

section Layout

variable {q : Queues ρ} (hl : Layout q w)

include hl

theorem Layout.nodup : q.outstanding.Nodup := Pool.nodup_inuse hl.split

theorem Layout.not_busy (hbe : be ∈ q.bcPendq) : be ∉ q.bcBusyq :=
  fun hb => disjoint_of_nodup_append hl.nodup hbe hb

theorem Layout.not_free (hbe : be ∈ q.outstanding) : be ∉ q.bcFreeq :=
  (Pool.mem_inuse_iff hl.split).mp hbe

theorem Layout.mem_busyq_iff : be ∈ q.bcBusyq ↔ ∃ st n, w.serves = some (be, st, n) := by
  rw [hl.busy]
  simp

theorem Layout.mem_erase : t ∈ q.bcPendq.erase be ↔ t ≠ be ∧ t ∈ q.bcPendq :=
  (nodup_append.mp hl.nodup).1.mem_erase_iff

theorem Layout.busy_status (hbe : be ∈ q.bcBusyq) :
    (q.bcReqs be).beStatus = .busy ∨ (q.bcReqs be).beStatus = .done := by
  obtain ⟨st, n, hs⟩ := hl.mem_busyq_iff.mp hbe
  rw [hl.served be st n hs]
  cases w <;> cases hs <;> simp

end Layout

section Complete

variable [DecidableEq ρ] {reqs : ρ → BlockifReq} {q q' : Queues ρ}

/-- Completion of an outstanding element trips no assertion. -/
theorem blockifComplete_completed (reqs : ρ → BlockifReq) (hl : Layout q w)
    (hbe : be ∈ q.outstanding) :
    ∃ q', blockifComplete reqs q be = .ok q' ∧ Completed reqs q be q' := by
  have hunlink : q.unlink be =
      { q with bcPendq := q.bcPendq.erase be, bcBusyq := q.bcBusyq.erase be } := by
    unfold unlink
    rcases mem_append.mp hbe with hp | hb
    · have hst : ¬ ((q.bcReqs be).beStatus = .done ∨ (q.bcReqs be).beStatus = .busy) := by
        rcases hl.pend be hp with h | h <;> simp [h]
      rw [if_neg hst, erase_of_not_mem (hl.not_busy hp)]
    · have hp : be ∉ q.bcPendq := fun hp => hl.not_busy hp hb
      rw [if_pos (hl.busy_status hb).symm, erase_of_not_mem hp]
  have hall : (q.unlink be).bcPendq.all (fun t => (q.bcReqs t).beReq.isSome) = true := by
    rw [hunlink, all_eq_true]
    intro t ht
    exact hl.request t (mem_append_left _ (mem_of_mem_erase ht))
  refine ⟨_, if_pos hall, ?_⟩
  rw [hunlink]
  refine ⟨rfl, rfl, rfl, rfl, by simp, ?_⟩
  intro t hne
  have hmem : t ∈ q.bcPendq.erase be ↔ t ∈ q.bcPendq := mem_erase_of_ne hne
  simp [release, update_of_ne hne, hmem]

theorem completed_of_ok (hl : Layout q w) (hbe : be ∈ q.outstanding)
    (hq : blockifComplete reqs q be = .ok q') : Completed reqs q be q' := by
  obtain ⟨q₁, hq₁, hc⟩ := blockifComplete_completed reqs hl hbe
  cases hq₁.symm.trans hq
  exact hc

theorem Completed.mem_pendq (hl : Layout q w) (hc : Completed reqs q be q') :
    t ∈ q'.bcPendq ↔ t ≠ be ∧ t ∈ q.bcPendq := by
  rw [hc.pendq]
  exact hl.mem_erase

theorem Completed.mem_outstanding (hl : Layout q w) (hc : Completed reqs q be q') :
    t ∈ q'.outstanding ↔ t ≠ be ∧ t ∈ q.outstanding := by
  rw [outstanding, outstanding, mem_append, mem_append,
    hc.mem_pendq hl, hc.busyq, (nodup_append.mp hl.nodup).2.1.mem_erase_iff]
  tauto

section Others

variable (hc : Completed reqs q be q') (hne : t ≠ be)

include hc hne

theorem Completed.beReq : (q'.bcReqs t).beReq = (q.bcReqs t).beReq := by
  rw [hc.elem t hne]
  split <;> rfl

theorem Completed.beBlock : (q'.bcReqs t).beBlock = (q.bcReqs t).beBlock := by
  rw [hc.elem t hne]
  split <;> rfl

/-- An element that was not pending keeps its status. -/
theorem Completed.status_of_not_pend (ht : t ∉ q.bcPendq) :
    (q'.bcReqs t).beStatus = (q.bcReqs t).beStatus := by
  rw [hc.elem t hne, if_neg (fun hp => ht hp.1)]

/-- What is still blocked was blocked before, by another element. -/
theorem Completed.still_blocked (ht : t ∈ q.bcPendq) (hb : (q'.bcReqs t).beStatus = .block) :
    (q.bcReqs t).beStatus = .block ∧ ¬ (q.bcReqs t).startsAt reqs (q.bcReqs be).beBlock := by
  rw [hc.elem t hne] at hb
  split_ifs at hb with hs
  exact ⟨hb, fun hst => hs ⟨ht, hst⟩⟩

end Others

theorem layout_completed (hl : Layout q w) (hc : Completed reqs q be q')
    (hbe : be ∈ q.outstanding) (hbusy : q'.bcBusyq = (w'.serves.map Prod.fst).toList)
    (hsv : ∀ x, w'.serves = some x → w.serves = some x) : Layout q' w' where
  split := by
    have hsplit := Pool.split_give hl.split hbe
    refine Pool.split_perm hsplit ?_ ?_
    · rw [hc.freeq]
      exact (perm_append_singleton be q.bcFreeq).symm
    · rw [outstanding, outstanding, hc.pendq, hc.busyq, erase_append]
      split_ifs with hp
      · rw [erase_of_not_mem (hl.not_busy hp)]
      · rw [erase_of_not_mem hp]
  free := by
    intro t ht
    rw [hc.freeq] at ht
    by_cases hne : t = be
    · rw [hne]
      exact hc.freed
    · have hf : t ∈ q.bcFreeq := by simpa [hne] using ht
      have hp : t ∉ q.bcPendq := fun hp => hl.not_free (mem_append_left _ hp) hf
      rw [hc.status_of_not_pend hne hp]
      exact hl.free t hf
  pend := by
    intro t ht
    obtain ⟨hne, hp⟩ := (hc.mem_pendq hl).mp ht
    rw [hc.elem t hne]
    split
    · exact .inr rfl
    · exact hl.pend t hp
  request := by
    intro t ht
    obtain ⟨hne, ho⟩ := (hc.mem_outstanding hl).mp ht
    rw [hc.beReq hne]
    exact hl.request t ho
  busy := hbusy
  served := by
    intro t st n hs
    have hb' : t ∈ q'.bcBusyq := by rw [hbusy, hs]; simp
    obtain ⟨hne, -⟩ := (hc.mem_outstanding hl).mp (mem_append_right _ hb')
    have hb : t ∈ q.bcBusyq := hl.mem_busyq_iff.mpr ⟨st, n, hsv _ hs⟩
    rw [hc.status_of_not_pend hne (fun hp => hl.not_busy hp hb)]
    exact hl.served t st n (hsv _ hs)

/-- Completing an element strands nobody: whoever waited for it may now run. -/
theorem behind_completed (hl : Layout q w) (hb : Behind q reqs ticket)
    (hc : Completed reqs q be q') : Behind q' reqs ticket := by
  intro t ht hst
  obtain ⟨hne, hp⟩ := (hc.mem_pendq hl).mp ht
  obtain ⟨hst, hnot⟩ := hc.still_blocked hne hp hst
  obtain ⟨u, hu, hlt, hs⟩ := hb t hp hst
  have hube : u ≠ be := by
    rintro rfl
    exact hnot hs
  refine ⟨u, (hc.mem_outstanding hl).mpr ⟨hube, hu⟩, hlt, ?_⟩
  rw [hc.beBlock hube]
  obtain ⟨r, hr, hoff⟩ := hs
  exact ⟨r, by rw [hc.beReq hne]; exact hr, hoff⟩

/-- The request of a completed element is settled, and no other is. -/
theorem ledger_completed (hl : Layout q w)
    (hg : Ledger q w ticket accepted h) (hc : Completed reqs q be q') (hbe : be ∈ q.outstanding)
    (hsv : ∀ x, w'.serves = some x → w.serves = some x ∧ x.1 ≠ be)
    (hother : ∀ n, n ≠ ticket be → tally h' n = tally h n)
    (hself : tally h' (ticket be) = (1, 1, 0) ∨ tally h' (ticket be) = (0, 0, 1)) :
    Ledger q' w' ticket accepted h' where
  numbered := by
    intro t ht
    exact hg.numbered t ((hc.mem_outstanding hl).mp ht).2
  distinct := by
    intro t ht u hu heq
    exact hg.distinct t ((hc.mem_outstanding hl).mp ht).2 u ((hc.mem_outstanding hl).mp hu).2 heq
  waiting := by
    intro t ht
    obtain ⟨hne, hp⟩ := (hc.mem_pendq hl).mp ht
    have hn : ticket t ≠ ticket be := fun heq =>
      hne (hg.distinct t (mem_append_left _ hp) be hbe heq)
    rw [hother _ hn]
    exact hg.waiting t hp
  served := by
    intro t st n hs
    obtain ⟨hs', hne⟩ := hsv _ hs
    have hmem : t ∈ q.outstanding :=
      mem_append_right _ (hl.mem_busyq_iff.mpr ⟨st, n, hs'⟩)
    rw [hother _ (fun heq => hne (hg.distinct t hmem be hbe heq))]
    exact hg.served t st n hs'
  settled := by
    intro n hn hnone
    by_cases hself' : n = ticket be
    · rw [hself']
      exact hself
    · rw [hother n hself']
      refine hg.settled n hn fun t ht heq => ?_
      refine hnone t ((hc.mem_outstanding hl).mpr ⟨?_, ht⟩) heq
      rintro rfl
      exact hself' heq.symm
  fresh := by
    intro n hn
    have hlt := hg.numbered be hbe
    rw [hother n (by omega)]
    exact hg.fresh n hn

end Complete

theorem mem_accept : t ∈ (q.accept be rest e).outstanding ↔ t = be ∨ t ∈ q.outstanding := by
  simp only [accept, outstanding, mem_append, mem_singleton]
  tauto

theorem layout_accept (hl : Layout q w) (hfree : q.bcFreeq = be :: rest)
    (hst : st = .block ∨ st = .pend) :
    Layout (q.accept be rest ⟨some r, op, st, blockEnd op (reqs r)⟩) w := by
  have hbe : be ∉ q.outstanding := by
    intro ho
    exact hl.not_free ho (by simp [hfree])
  have hkeep : ∀ t, t ≠ be → (q.accept be rest ⟨some r, op, st, blockEnd op (reqs r)⟩).bcReqs t =
      q.bcReqs t := fun t hne => update_of_ne hne _ _
  have hself : (q.accept be rest ⟨some r, op, st, blockEnd op (reqs r)⟩).bcReqs be =
      ⟨some r, op, st, blockEnd op (reqs r)⟩ := update_self _ _ _
  have hsplit := hl.split
  rw [hfree] at hsplit
  constructor
  · refine Pool.split_perm (Pool.split_take hsplit) (List.Perm.refl _) ?_
    simp only [accept, outstanding, append_assoc, singleton_append]
    exact perm_middle.symm
  · intro t ht
    have hne : t ≠ be := by
      rintro rfl
      have hcount := hsplit t
      have hpos := count_pos_iff.mpr (show t ∈ rest from ht)
      simp only [cons_append, count_cons_self, count_append] at hcount
      omega
    rw [hkeep t hne]
    exact hl.free t (by rw [hfree]; exact mem_cons_of_mem _ ht)
  · intro t ht
    rcases mem_append.mp ht with hp | hs
    · have hne : t ≠ be := fun heq => hbe (heq ▸ mem_append_left _ hp)
      rw [hkeep t hne]
      exact hl.pend t hp
    · rw [mem_singleton.mp hs, hself]
      exact hst
  · intro t ht
    by_cases hne : t = be
    · rw [hne, hself]
      rfl
    · rw [hkeep t hne]
      exact hl.request t ((mem_accept.mp ht).resolve_left hne)
  · exact hl.busy
  · intro t st' n hs
    have hb : t ∈ q.outstanding := mem_append_right _ (hl.mem_busyq_iff.mpr ⟨st', n, hs⟩)
    rw [hkeep t (fun heq => hbe (heq ▸ hb))]
    exact hl.served t st' n hs

theorem ledger_accept (hl : Layout q w) (hg : Ledger q w ticket accepted h)
    (hbe : be ∉ q.outstanding) :
    Ledger (q.accept be rest e) w (update ticket be accepted) (accepted + 1) h := by
  have hkeep : ∀ t ∈ q.outstanding, update ticket be accepted t = ticket t := by
    intro t ht
    exact update_of_ne (fun heq => hbe (by rw [← heq]; exact ht)) _ _
  have hself : update ticket be accepted be = accepted := update_self _ _ _
  constructor
  · intro t ht
    rcases mem_accept.mp ht with rfl | ho
    · omega
    · rw [hkeep t ho]
      have := hg.numbered t ho
      omega
  · intro t ht u hu heq
    rcases mem_accept.mp ht with rfl | hto <;> rcases mem_accept.mp hu with rfl | huo
    · rfl
    · rw [hkeep u huo] at heq
      have := hg.numbered u huo
      omega
    · rw [hkeep t hto] at heq
      have := hg.numbered t hto
      omega
    · rw [hkeep t hto, hkeep u huo] at heq
      exact hg.distinct t hto u huo heq
  · intro t ht
    rcases mem_append.mp ht with hp | hs
    · rw [hkeep t (mem_append_left _ hp)]
      exact hg.waiting t hp
    · rw [mem_singleton.mp hs, hself]
      exact hg.fresh accepted le_rfl
  · intro t st n hs
    have hb : t ∈ q.outstanding := mem_append_right _ (hl.mem_busyq_iff.mpr ⟨st, n, hs⟩)
    rw [hkeep t hb]
    exact hg.served t st n hs
  · intro n hn hnone
    have hlt : n < accepted := by
      have hne := hnone be (mem_accept.mpr (.inl rfl))
      omega
    refine hg.settled n hlt fun t ht => ?_
    have hne := hnone t (mem_accept.mpr (.inr ht))
    rwa [hkeep t ht] at hne
  · intro n hn
    exact hg.fresh n (by omega)

/-- A new element is blocked only behind one that is outstanding already. -/
theorem behind_accept (hg : Ledger q w ticket accepted h) (hb : Behind q reqs ticket)
    (hbe : be ∉ q.outstanding)
    (hst : st = if q.behind (reqs r) then Blockstat.block else .pend) :
    Behind (q.accept be rest ⟨some r, op, st, blockEnd op (reqs r)⟩) reqs
      (update ticket be accepted) := by
  intro t ht hblock
  have hold : ∀ u ∈ q.outstanding, u ≠ be := fun u hu heq => hbe (by rw [← heq]; exact hu)
  rcases mem_append.mp ht with hp | hs
  · have hne := hold t (mem_append_left _ hp)
    simp only [accept, update_of_ne hne] at hblock ⊢
    obtain ⟨u, hu, hlt, hstart⟩ := hb t hp hblock
    refine ⟨u, mem_accept.mpr (.inr hu), ?_, ?_⟩
    all_goals rwa [update_of_ne (hold u hu)]
  · rw [mem_singleton.mp hs] at hblock ⊢
    simp only [accept, update_self] at hblock ⊢
    rw [hst] at hblock
    split_ifs at hblock with hbehind
    obtain ⟨u, hu, heq⟩ := any_eq_true.mp hbehind
    have hne := hold u hu
    refine ⟨u, mem_accept.mpr (.inr hu), ?_, r, rfl, ?_⟩
    · rw [update_of_ne hne]
      exact hg.numbered u hu
    · rw [update_of_ne hne]
      exact (of_decide_eq_true heq).symm

section Serve

variable {reqs : ρ → BlockifReq} {q : Queues ρ}

theorem perm_takeUp (hp : be ∈ q.bcPendq) : q.outstanding.Perm (q.takeUp be).outstanding := by
  have h1 := (perm_cons_erase hp).append_right q.bcBusyq
  refine h1.trans ?_
  simp only [takeUp, outstanding, cons_append]
  rw [← append_assoc]
  exact (perm_append_singleton be _).symm

variable (hl : Layout q w)

include hl

variable {st' : Blockstat} {n m : Tally}

/-- An element comes into the worker's hands, or gets another status there. -/
theorem Layout.handed {pend : List ElemId} (hperm : q.outstanding.Perm (pend ++ [be]))
    (hpend : ∀ t ∈ pend, t ≠ be ∧ t ∈ q.bcPendq) (hw' : w'.serves = some (be, st, n)) :
    Layout { q.setStatus be st with bcPendq := pend, bcBusyq := [be] } w' := by
  have hbe : be ∈ q.outstanding := hperm.mem_iff.mpr (by simp)
  have hkeep : ∀ t, t ≠ be → (q.setStatus be st).bcReqs t = q.bcReqs t :=
    fun t hne => update_of_ne hne _ _
  have hself : (q.setStatus be st).bcReqs be = { q.bcReqs be with beStatus := st } :=
    update_self _ _ _
  constructor
  · exact Pool.split_perm hl.split (List.Perm.refl _) hperm
  · intro t ht
    have hne : t ≠ be := by
      rintro rfl
      exact hl.not_free hbe ht
    rw [hkeep t hne]
    exact hl.free t ht
  · intro t ht
    obtain ⟨hne, hp⟩ := hpend t ht
    rw [hkeep t hne]
    exact hl.pend t hp
  · intro t ht
    have ho := hl.request t (hperm.mem_iff.mpr ht)
    by_cases hne : t = be
    · rw [hne] at ho ⊢
      rw [hself]
      exact ho
    · rw [hkeep t hne]
      exact ho
  · rw [hw']
    rfl
  · intro t st' n' hs
    rw [hw'] at hs
    cases hs
    rw [hself]

theorem layout_takeUp (hw : w.serves = none) (hp : be ∈ q.bcPendq)
    (hw' : w'.serves = some (be, .busy, (0, 0, 0))) : Layout (q.takeUp be) w' := by
  have hbusy : q.bcBusyq = [] := by rw [hl.busy, hw]; rfl
  have hperm := perm_takeUp hp
  rw [takeUp, hbusy] at hperm ⊢
  exact hl.handed hperm (fun t ht => hl.mem_erase.mp ht) hw'

theorem ledger_takeUp (hg : Ledger q w ticket accepted h)
    (hp : be ∈ q.bcPendq) (hw' : w'.serves = some (be, .busy, (0, 0, 0))) :
    Ledger (q.takeUp be) w' ticket accepted h := by
  have hmem : ∀ t, t ∈ (q.takeUp be).outstanding ↔ t ∈ q.outstanding :=
    fun t => (perm_takeUp hp).mem_iff.symm
  constructor
  · intro t ht
    exact hg.numbered t ((hmem t).mp ht)
  · intro t ht u hu heq
    exact hg.distinct t ((hmem t).mp ht) u ((hmem u).mp hu) heq
  · intro t ht
    exact hg.waiting t (hl.mem_erase.mp ht).2
  · intro t st n hs
    rw [hw'] at hs
    cases hs
    exact hg.waiting be hp
  · intro n hn hnone
    exact hg.settled n hn fun t ht => hnone t ((hmem t).mpr ht)
  · exact hg.fresh

theorem behind_takeUp (hb : Behind q reqs ticket) (hp : be ∈ q.bcPendq) :
    Behind (q.takeUp be) reqs ticket := by
  have hblock : ∀ t, ((q.takeUp be).bcReqs t).beBlock = (q.bcReqs t).beBlock := by
    intro t
    by_cases hne : t = be
    · simp [takeUp, hne]
    · simp [takeUp, update_of_ne hne]
  intro t ht hst
  obtain ⟨hne, hp'⟩ := hl.mem_erase.mp ht
  have hkeep : (q.takeUp be).bcReqs t = q.bcReqs t := update_of_ne hne _ _
  rw [hkeep] at hst ⊢
  obtain ⟨u, hu, hlt, hs⟩ := hb t hp' hst
  refine ⟨u, (perm_takeUp hp).mem_iff.mp hu, hlt, ?_⟩
  rw [hblock u]
  exact hs

/-- Changing the status of the element that is being served. -/
theorem layout_setStatus (hw : w.serves = some (be, st', m)) (hw' : w'.serves = some (be, st, n)) :
    Layout (q.setStatus be st) w' := by
  have hbusy : q.bcBusyq = [be] := by rw [hl.busy, hw]; rfl
  have hpend : ∀ t ∈ q.bcPendq, t ≠ be ∧ t ∈ q.bcPendq := by
    intro t ht
    refine ⟨?_, ht⟩
    rintro rfl
    exact hl.not_busy ht (hbusy ▸ mem_singleton_self t)
  have hlaid := hl.handed (by rw [outstanding, hbusy]) hpend hw'
  rw [← hbusy] at hlaid
  exact hlaid

/-- An event of the element that is being served moves its tally on, and no other. -/
theorem ledger_serve {q' : Queues ρ} (hg : Ledger q w ticket accepted h)
    (hpend : q'.bcPendq = q.bcPendq) (hbusy : q'.bcBusyq = q.bcBusyq)
    (hw : w.serves = some (be, st, m)) (hw' : w'.serves = some (be, st', n))
    (hother : ∀ k, k ≠ ticket be → tally h' k = tally h k) (hself : tally h' (ticket be) = n) :
    Ledger q' w' ticket accepted h' := by
  have hout : q'.outstanding = q.outstanding := by
    rw [outstanding, outstanding, hpend, hbusy]
  have hb : be ∈ q.bcBusyq := hl.mem_busyq_iff.mpr ⟨st, m, hw⟩
  have hbe : be ∈ q.outstanding := mem_append_right _ hb
  constructor
  · rw [hout]
    exact hg.numbered
  · rw [hout]
    exact hg.distinct
  · intro t ht
    rw [hpend] at ht
    have hne : t ≠ be := fun heq => hl.not_busy ht (heq ▸ hb)
    rw [hother _ fun heq => hne (hg.distinct t (mem_append_left _ ht) be hbe heq)]
    exact hg.waiting t ht
  · intro t st₁ n₁ hs
    rw [hw'] at hs
    cases hs
    exact hself
  · intro k hk hnone
    rw [hout] at hnone
    rw [hother k (hnone be hbe).symm]
    exact hg.settled k hk hnone
  · intro k hk
    have hlt := hg.numbered be hbe
    rw [hother k (by omega)]
    exact hg.fresh k hk

theorem behind_setStatus {reqs' : ρ → BlockifReq} (hb : Behind q reqs ticket) (hbe : be ∈ q.bcBusyq)
    (hoff : ∀ r, (reqs' r).brOffset = (reqs r).brOffset) :
    Behind (q.setStatus be st) reqs' ticket := by
  have hblock : ∀ t, ((q.setStatus be st).bcReqs t).beBlock = (q.bcReqs t).beBlock := by
    intro t
    by_cases hne : t = be
    · simp [hne]
    · simp [update_of_ne hne]
  intro t ht hst
  have hne : t ≠ be := fun heq => hl.not_busy ht (heq ▸ hbe)
  have hkeep : (q.setStatus be st).bcReqs t = q.bcReqs t := update_of_ne hne _ _
  rw [hkeep] at hst ⊢
  obtain ⟨u, hu, hlt, r, hr, hs⟩ := hb t ht hst
  refine ⟨u, hu, hlt, r, hr, ?_⟩
  rw [hblock u, hoff r]
  exact hs

end Serve

end HyperCog.Blockif
