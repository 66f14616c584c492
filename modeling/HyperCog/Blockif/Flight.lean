import HyperCog.Blockif.Worker

/-! The requests in flight: accepted by the block context, and not yet called back. -/
namespace HyperCog.Blockif

open Machine List World

attribute [local simp] Queues.setStatus

/-- The element in the worker's hands whose callback is still to come. -/
def Worker.owes : Worker → Option ElemId
  | .proc be | .callback be _ => some be
  | .loop | .complete _ | .parked _ | .exited => none

variable {ρ : Type} {be : ElemId}

def World.unanswered (s : World ρ) : List ElemId := s.q.bcPendq ++ s.worker.owes.toList

attribute [local simp] unanswered

def World.inFlight (s : World ρ) : List ρ :=
  s.unanswered.filterMap fun be => (s.q.bcReqs be).beReq

attribute [local simp] inFlight

variable {s s' : World ρ} {r : ρ} {q : Queues ρ}

@[simp] theorem owes_signal (w : Worker) : w.signal.owes = w.owes := by
  cases w <;> rfl

/-- What the worker owes is in its hands. -/
theorem Layout.owes_subset {w : Worker} (hl : Layout q w) : w.owes.toList ⊆ q.bcBusyq := by
  rw [hl.busy]
  cases w <;> simp [Worker.owes, Worker.serves]

theorem World.Ok.unanswered_subset (hok : s.Ok) : s.unanswered ⊆ s.q.outstanding :=
  append_subset.mpr ⟨subset_append_left _ _,
    fun _ ho => mem_append_right _ (hok.layout.owes_subset ho)⟩

/-- Each unanswered element has its request. -/
theorem World.Ok.length_inFlight (hok : s.Ok) : s.inFlight.length = s.unanswered.length := by
  have hsome : ∀ be ∈ s.unanswered, ((s.q.bcReqs be).beReq).isSome :=
    fun be hbe => hok.layout.request be (hok.unanswered_subset hbe)
  unfold inFlight
  generalize s.unanswered = l at hsome
  induction l with
  | nil => rfl
  | cons be l ih =>
    obtain ⟨hbe, hl⟩ := forall_mem_cons.mp hsome
    obtain ⟨r, hr⟩ := Option.isSome_iff_exists.mp hbe
    rw [filterMap_cons_some (f := fun t => (s.q.bcReqs t).beReq) hr, length_cons, length_cons, ih hl]

/-- The worker holds at most one element. -/
theorem World.Ok.length_outstanding (hok : s.Ok) : s.q.outstanding.length ≤ s.inFlight.length + 1 := by
  have hbusy : s.q.bcBusyq.length ≤ 1 := by
    rw [hok.layout.busy]
    cases s.worker.serves <;> simp
  rw [hok.length_inFlight]
  simp only [Queues.outstanding, unanswered, length_append]
  omega

/-- With few requests in flight an element is free. -/
theorem World.Ok.exists_free (hok : s.Ok) (hn : s.inFlight.length + 1 < blockifMaxreq) :
    s.q.bcFreeq ≠ [] := by
  intro hnil
  have hlen := Pool.length_split hok.layout.split
  have hout := hok.length_outstanding
  rw [hnil, length_nil, Fintype.card_fin] at hlen
  omega

theorem not_pending (hr : r ∉ s.inFlight) : ¬ s.Pending r := by
  rintro ⟨be, hbe, hreq⟩
  exact hr (mem_filterMap.mpr ⟨be, mem_append_left _ hbe, hreq⟩)

/-- A request is accepted and in flight from then on. -/
theorem blockifRequest_accepted (r : ρ) (op : Blockop) (hok : s.Ok)
    (hn : s.inFlight.length + 1 < blockifMaxreq) :
    ∃ s', blockifRequest s r op = .ok (s', none) ∧ s'.Ok ∧ s'.inFlight.Perm (r :: s.inFlight) := by
  obtain ⟨⟨s', err⟩, hreq⟩ := blockifRequest_isOk r op hok
  rcases blockifRequest_cases hreq with ⟨hnil, -, -⟩ | ⟨be, rest, status, hfree, -, rfl, hs⟩
  · exact absurd hnil (hok.exists_free hn)
  refine ⟨s', hreq, ok_request hok hreq, ?_⟩
  have hold : ∀ t ∈ s.unanswered, (s'.q.bcReqs t).beReq = (s.q.bcReqs t).beReq := by
    intro t ht
    have hne : t ≠ be := by
      rintro rfl
      exact hok.layout.not_free (hok.unanswered_subset ht) (by simp [hfree])
    rw [hs]
    simp [Queues.accept, Function.update_of_ne hne]
  have hself : (s'.q.bcReqs be).beReq = some r := by
    rw [hs]
    simp [Queues.accept]
  have hperm : s'.unanswered.Perm (be :: s.unanswered) := by
    have howes : s'.worker.owes = s.worker.owes := by
      rw [hs]
      split <;> simp
    rw [unanswered, howes, hs]
    simp only [Queues.accept, unanswered, append_assoc, singleton_append]
    exact perm_middle
  refine (hperm.filterMap _).trans ?_
  rw [filterMap_cons_some (f := fun t => (s'.q.bcReqs t).beReq) hself]
  exact List.Perm.cons _ (List.Perm.of_eq (filterMap_congr hold))

/-- A callback takes its request out of flight. -/
theorem inFlight_callback {err : Option Errno} (hw : s.worker = .callback be err)
    (hr : (s.q.bcReqs be).beReq = some r) :
    s.inFlight.Perm (r :: (workerCallback s be).inFlight) := by
  have hperm : s.unanswered.Perm (be :: s.q.bcPendq) := by
    rw [unanswered, hw]
    exact perm_append_singleton be s.q.bcPendq
  refine (hperm.filterMap _).trans ?_
  rw [filterMap_cons_some (f := fun t => (s.q.bcReqs t).beReq) hr]
  simp [workerCallback, Worker.owes]

section Steps

variable [DecidableEq ρ]

/-- A completed element takes its own request away and no other. -/
theorem inFlight_completed {l : List ElemId} (hc : Completed s.reqs s.q be q)
    (hl : be ∉ l) : (l.filterMap fun t => (q.bcReqs t).beReq) =
      l.filterMap fun t => (s.q.bcReqs t).beReq := by
  refine filterMap_congr fun t ht => hc.beReq ?_
  rintro rfl
  exact hl ht

/-- A request that was cancelled is no longer in flight. -/
theorem inFlight_cancel (hok : s.Ok) (hc : blockifCancel s r = .ok (s', none)) :
    s.inFlight.Perm (r :: s'.inFlight) := by
  rcases blockifCancel_cases hok hc with ⟨be, hp, hreq, -, q, hcomp, rfl⟩ | ⟨-, -, h | h⟩
  · have hnot : be ∉ s.q.bcPendq.erase be ++ s.worker.owes.toList := by
      rw [mem_append, hok.layout.mem_erase]
      rintro (⟨hne, -⟩ | ho)
      · exact hne rfl
      · exact hok.layout.not_busy hp (hok.layout.owes_subset ho)
    have hperm : s.unanswered.Perm (be :: (s.q.bcPendq.erase be ++ s.worker.owes.toList)) :=
      (perm_cons_erase hp).append_right _
    refine (hperm.filterMap _).trans ?_
    rw [filterMap_cons_some (f := fun t => (s.q.bcReqs t).beReq) hreq, inFlight, unanswered]
    rw [hcomp.pendq, inFlight_completed hcomp hnot]
  · cases h.1
  · cases h.1

/-- One that was not cancelled changes nothing. -/
theorem blockifCancel_refused {err : Errno} (hok : s.Ok)
    (hc : blockifCancel s r = .ok (s', some err)) : s' = s := by
  rcases blockifCancel_cases hok hc with ⟨be, -, -, herr, -⟩ | ⟨-, hs, -⟩
  · cases herr
  · exact hs

omit [DecidableEq ρ] in
theorem beReq_setStatus {q : Queues ρ} {be : ElemId} {status : Blockstat} (t : ElemId) :
    ((q.setStatus be status).bcReqs t).beReq = (q.bcReqs t).beReq := by
  by_cases hne : t = be
  · simp [hne]
  · simp [Function.update_of_ne hne]

/-- The worker's other steps leave the requests in flight as they are. -/
theorem inFlight_thr {b : Build} {bc : BlockifCtxt} {h : Host} (hok : s.Ok)
    (hw : ∀ be err, s.worker ≠ .callback be err) (hs : blockifThr b bc h s = .ok s') :
    s'.inFlight.Perm s.inFlight := by
  unfold blockifThr at hs
  split at hs
  · rename_i hloop
    obtain ⟨⟨q, o⟩, hd, hs⟩ := bind_eq_ok.mp hs
    rcases blockifDequeue_cases hd with ⟨rfl, rfl, -⟩ | ⟨be, rfl, hp, rfl⟩
    · dsimp only at hs
      split at hs <;> cases hs <;> simp [hloop, Worker.owes]
    · cases hs
      simp only [inFlight, unanswered, hloop, Worker.owes, Queues.takeUp, beReq_setStatus]
      refine List.Perm.filterMap _ ?_
      simp only [Option.toList_some, Option.toList_none, append_nil]
      exact (perm_append_singleton be _).trans (perm_cons_erase hp).symm
  · rename_i be hproc
    unfold workerProc at hs
    split at hs
    · cases hs
    · split at hs
      · cases hs
      · cases hs
        simp only [inFlight, unanswered, hproc, Worker.owes, beReq_setStatus]
        rfl
  · rename_i be err hcb
    exact absurd hcb (hw be err)
  · rename_i be hcomp
    obtain ⟨q, hq, hs⟩ := bind_eq_ok.mp hs
    cases hs
    have hbusy : be ∈ s.q.bcBusyq := hok.layout.mem_busyq_iff.mpr ⟨_, _, by rw [hcomp]; rfl⟩
    have hc := completed_of_ok hok.layout (mem_append_right _ hbusy) hq
    have hnot : be ∉ s.q.bcPendq := fun hp => hok.layout.not_busy hp hbusy
    simp only [inFlight, unanswered, hcomp, Worker.owes, Option.toList_none,
      append_nil, hc.pendq, erase_of_not_mem hnot]
    rw [inFlight_completed hc hnot]
  · rename_i hpark
    cases hs
    simp [hpark, Worker.owes]
  all_goals
    cases hs
    rfl

end Steps

end HyperCog.Blockif
