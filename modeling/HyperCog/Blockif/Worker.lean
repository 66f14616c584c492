import HyperCog.Blockif.Ledger

/-! What holds of the block queues in every state that the device and the worker reach. -/
namespace HyperCog.Blockif

open Machine List Function World

/-- The invariant of the context and its worker. -/
structure World.Ok {ρ : Type} (s : World ρ) : Prop where
  layout : Layout s.q s.worker
  ledger : Ledger s.q s.worker s.ticket s.accepted s.history
  behind : Behind s.q s.reqs s.ticket
  parked : s.worker = .parked false → s.q.bcPendq = []

variable {be : ElemId} {err : Option Errno} {b : Build} {bc : BlockifCtxt} {h : Host} {ρ : Type} {s s' : World ρ}
  {r : ρ} {op : Blockop}

section Worker

variable {ρ : Type} {q : Queues ρ} {w w' : Worker} {ticket : ElemId → ℕ} {accepted : ℕ}
  {h : List Event}

/-- Only what the worker holds matters. -/
theorem Layout.congr (hl : Layout q w) (hw : w'.serves = w.serves) : Layout q w' :=
  { hl with
    busy := by rw [hl.busy, hw]
    served := by simpa only [hw] using hl.served }

theorem Ledger.congr (hg : Ledger q w ticket accepted h) (hw : w'.serves = w.serves) :
    Ledger q w' ticket accepted h :=
  { hg with served := by simpa only [hw] using hg.served }

theorem World.Ok.withWorker {s : World ρ} (hok : s.Ok) (hw : w.serves = s.worker.serves)
    (hp : w = .parked false → s.q.bcPendq = []) : World.Ok { s with worker := w } :=
  ⟨hok.layout.congr hw, hok.ledger.congr hw, hok.behind, hp⟩

theorem signal_ne_parked : w.signal ≠ .parked false := by
  cases w <;> simp [Worker.signal]

/-- With nothing in the worker's hands, some pending element may run. -/
theorem exists_pend {s : World ρ} (hok : s.Ok) (hp : s.q.bcPendq ≠ [])
    (hb : s.q.bcBusyq = []) : ∃ be ∈ s.q.bcPendq, (s.q.bcReqs be).beStatus = .pend := by
  obtain ⟨be, hbe⟩ := exists_mem_of_ne_nil _ hp
  refine Pool.exists_ready s.ticket (fun t ht => ?_) hbe
  rcases hok.layout.pend t ht with hblock | hpend
  · obtain ⟨u, hu, hlt, -⟩ := hok.behind t ht hblock
    rw [Queues.outstanding, hb, append_nil] at hu
    exact .inr ⟨u, hu, hlt⟩
  · exact .inl hpend

theorem ok_workerLoop {s s' : World ρ} (hok : s.Ok) (hw : s.worker = .loop) (hs : workerLoop s = .ok s') :
    s'.Ok ∧ (s'.worker = .exited → s'.q.bcPendq = []) := by
  have hsv : s.worker.serves = none := by rw [hw]; rfl
  have hb : s.q.bcBusyq = [] := by rw [hok.layout.busy, hsv]; rfl
  obtain ⟨⟨q, o⟩, hd, hs⟩ := bind_eq_ok.mp hs
  rcases blockifDequeue_cases hd with ⟨rfl, rfl, hall⟩ | ⟨be, rfl, hp, rfl⟩
  · have hnil : s.q.bcPendq = [] := by
      by_contra hne
      obtain ⟨be, hbe, hpend⟩ := exists_pend hok hne hb
      rw [hall be hbe] at hpend
      cases hpend
    dsimp only at hs
    split at hs
    all_goals
      cases hs
      exact ⟨hok.withWorker (by rw [hsv]; rfl) (fun _ => hnil), fun _ => hnil⟩
  · cases hs
    refine ⟨⟨layout_takeUp hok.layout hsv hp rfl, ledger_takeUp hok.layout hok.ledger hp rfl,
      behind_takeUp hok.layout hok.behind hp, ?_⟩, ?_⟩
    · intro hpark
      cases hpark
    · intro hx
      cases hx

theorem ok_start (reqs : ρ → BlockifReq) : (start reqs).Ok := by
  refine ⟨⟨?_, ?_, ?_, ?_, rfl, ?_⟩, ⟨?_, ?_, ?_, ?_, ?_, ?_⟩, ?_, ?_⟩
  · intro be
    have hnodup : (List.finRange blockifMaxreq).reverse.Nodup :=
      nodup_reverse.mpr (nodup_finRange _)
    simp only [start, Queues.outstanding, append_nil]
    exact count_eq_one_of_mem hnodup (by simp)
  all_goals simp [start, Queues.outstanding, Worker.serves, tally, Behind]

theorem ok_workerCallback {s : World ρ}
    (hok : s.Ok) (hw : s.worker = .callback be err) : (workerCallback s be).Ok := by
  have hsv : s.worker.serves = some (be, .done, (1, 0, 0)) := by rw [hw]; rfl
  have htally := hok.ledger.served be _ _ hsv
  refine ⟨{ hok.layout with busy := ?_, served := ?_ },
    ledger_serve hok.layout hok.ledger rfl rfl hsv rfl ?_ ?_, hok.behind, ?_⟩
  · change s.q.bcBusyq = _
    rw [hok.layout.busy, hsv]
    rfl
  · rintro t st n hs
    cases hs
    exact hok.layout.served be _ _ hsv
  · intro k hk
    simp only [workerCallback] at hk ⊢
    rw [tally_called, if_neg (Ne.symm hk)]
    rfl
  · simp only [workerCallback]
    rw [tally_called, htally]
    simp
  · intro hpark
    cases hpark

end Worker

/-- A request is accepted on a free element, or refused for want of one. -/
theorem blockifRequest_cases (hreq : blockifRequest s r op = .ok (s', err)) :
    (s.q.bcFreeq = [] ∧ s' = s ∧ err = some .e2big) ∨
    ∃ be rest status, s.q.bcFreeq = be :: rest ∧
      (status = if s.q.behind (s.reqs r) then Blockstat.block else .pend) ∧ err = none ∧
      s' = { s with
        q := s.q.accept be rest ⟨some r, op, status, blockEnd op (s.reqs r)⟩
        worker := if status = .pend then s.worker.signal else s.worker
        ticket := update s.ticket be s.accepted
        accepted := s.accepted + 1 } := by
  unfold blockifRequest at hreq
  split at hreq
  · rename_i hempty
    cases hreq
    exact .inl ⟨isEmpty_iff.mp hempty, rfl, rfl⟩
  · obtain ⟨⟨q, be, run⟩, henq, hreq⟩ := bind_eq_ok.mp hreq
    obtain ⟨rest, status, hfree, hst, rfl, rfl⟩ := blockifEnqueue_cases henq
    cases hreq
    refine .inr ⟨be, rest, status, hfree, hst, rfl, ?_⟩
    simp

/-- The worker cannot be left waiting: the first request onto empty queues may run. -/
theorem ok_request (hok : s.Ok) (hreq : blockifRequest s r op = .ok (s', err)) : s'.Ok := by
  rcases blockifRequest_cases hreq with ⟨-, rfl, -⟩ | ⟨be, rest, status, hfree, hst, -, rfl⟩
  · exact hok
  have hbe : be ∉ s.q.outstanding := by
    intro ho
    exact hok.layout.not_free ho (by simp [hfree])
  have hst' : status = .block ∨ status = .pend := by
    rw [hst]
    split <;> simp
  have hw : (if status = .pend then s.worker.signal else s.worker).serves = s.worker.serves := by
    split <;> simp
  refine ⟨(layout_accept hok.layout hfree hst').congr hw,
    (ledger_accept hok.layout hok.ledger hbe).congr hw,
    behind_accept hok.ledger hok.behind hbe hst, ?_⟩
  intro hpark
  split at hpark
  · exact absurd hpark signal_ne_parked
  · rename_i hnot
    have hp := hok.parked hpark
    have hb : s.q.bcBusyq = [] := by rw [hok.layout.busy, hpark]; rfl
    have hbehind : s.q.behind (s.reqs r) = false := by simp [Queues.behind, hp, hb]
    simp [hst, hbehind] at hnot

/-- No assertion stands in the way of a request. -/
theorem blockifRequest_isOk (r : ρ) (op : Blockop) (hok : s.Ok) : ∃ p, blockifRequest s r op = .ok p := by
  unfold blockifRequest
  split
  · exact ⟨_, rfl⟩
  · rename_i hne
    obtain ⟨be, rest, hfree⟩ := exists_cons_of_ne_nil (mt isEmpty_iff.mpr hne)
    have hst : (s.q.bcReqs be).beStatus = .free := hok.layout.free be (by simp [hfree])
    exact ⟨_, by simp only [blockifEnqueue, hfree, hst, if_true]; rfl⟩

section Steps

variable {ρ : Type} [DecidableEq ρ] {s s' : World ρ} {r : ρ} {a : Action ρ}

section

variable (hok : s.Ok)

include hok

/-- A request that is not pending may be rewritten. -/
theorem ok_fill {br : BlockifReq} (hr : ¬ s.Pending r) : (s.fill r br).Ok := by
  refine ⟨hok.layout, hok.ledger, ?_, hok.parked⟩
  intro be hbe hst
  obtain ⟨u, hu, hlt, r', hr', hoff⟩ := hok.behind be hbe hst
  refine ⟨u, hu, hlt, r', hr', ?_⟩
  have hne : r' ≠ r := by
    rintro rfl
    exact hr ⟨be, hbe, hr'⟩
  change (update s.reqs r br r').brOffset = _
  rw [update_of_ne hne]
  exact hoff

/-- Cancelling completes a pending element, or changes nothing. -/
theorem blockifCancel_cases (hc : blockifCancel s r = .ok (s', err)) :
    (∃ be ∈ s.q.bcPendq, (s.q.bcReqs be).beReq = some r ∧ err = none ∧ ∃ q, Completed s.reqs s.q be q ∧
        s' = { s with q := q, history := s.history ++ [.cancelled (s.ticket be)] }) ∨
    (¬ s.Pending r ∧ s' = s ∧
      ((err = some .einval ∧ ∀ be ∈ s.q.bcBusyq, (s.q.bcReqs be).beReq ≠ some r) ∨
        (err = some .ebusy ∧ ∃ be ∈ s.q.bcBusyq, (s.q.bcReqs be).beReq = some r ∧
          (s.q.bcReqs be).beStatus = .done))) := by
  unfold blockifCancel at hc
  split at hc
  · rename_i be hfind
    obtain ⟨q, hq, hc⟩ := bind_eq_ok.mp hc
    cases hc
    have hmem := mem_of_find?_eq_some hfind
    have hreq : (s.q.bcReqs be).beReq = some r := by simpa using List.find?_some hfind
    have hcomp := completed_of_ok hok.layout (mem_append_left _ hmem) hq
    exact .inl ⟨be, hmem, hreq, rfl, q, hcomp, rfl⟩
  · rename_i hnone
    have hnp : ¬ s.Pending r := by
      rintro ⟨be, hbe, hreq⟩
      simpa [hreq] using List.find?_eq_none.mp hnone be hbe
    split at hc
    · rename_i hnob
      cases hc
      refine .inr ⟨hnp, rfl, .inl ⟨rfl, fun be hbe hreq => ?_⟩⟩
      simpa [hreq] using List.find?_eq_none.mp hnob be hbe
    · rename_i be hfind
      split_ifs at hc with hst
      cases hc
      have hmem := mem_of_find?_eq_some hfind
      refine .inr ⟨hnp, rfl, .inr ⟨rfl, be, hmem, by simpa using List.find?_some hfind, ?_⟩⟩
      exact (hok.layout.busy_status hmem).resolve_left hst

theorem ok_cancel (hc : blockifCancel s r = .ok (s', err)) : s'.Ok := by
  rcases blockifCancel_cases hok hc with ⟨be, hp, -, -, q, hcomp, rfl⟩ | ⟨-, rfl, -⟩
  · have hbe : be ∈ s.q.outstanding := mem_append_left _ hp
    have hb : be ∉ s.q.bcBusyq := hok.layout.not_busy hp
    have hwait := hok.ledger.waiting be hp
    refine ⟨layout_completed hok.layout hcomp hbe ?_ (fun _ hs => hs),
      ledger_completed hok.layout hok.ledger hcomp hbe ?_ ?_ ?_,
      behind_completed hok.layout hok.behind hcomp, ?_⟩
    · rw [hcomp.busyq, erase_of_not_mem hb]
      exact hok.layout.busy
    · rintro ⟨t, st, n⟩ hs
      refine ⟨hs, fun heq => hb ?_⟩
      rw [← heq]
      exact hok.layout.mem_busyq_iff.mpr ⟨st, n, hs⟩
    · intro n hn
      rw [tally_cancelled, if_neg (Ne.symm hn)]
      rfl
    · rw [tally_cancelled, hwait]
      simp
    · intro hpark
      have hnil := hok.parked hpark
      rw [hnil] at hp
      cases hp
  · exact hok

theorem ok_workerProc (hw : s.worker = .proc be) (hs : workerProc b bc h s be = .ok s') : s'.Ok := by
  have hsv : s.worker.serves = some (be, .busy, (0, 0, 0)) := by rw [hw]; rfl
  have hbe : be ∈ s.q.bcBusyq := hok.layout.mem_busyq_iff.mpr ⟨_, _, hsv⟩
  have htally := hok.ledger.served be _ _ hsv
  unfold workerProc at hs
  split at hs
  · cases hs
  · rename_i r hr
    split at hs
    · cases hs
    · rename_i err br st hproc
      cases hs
      refine ⟨layout_setStatus hok.layout hsv rfl,
        ledger_serve hok.layout hok.ledger rfl rfl hsv rfl ?_ ?_,
        behind_setStatus hok.layout hok.behind hbe ?_, ?_⟩
      · intro k hk
        rw [tally_executed, if_neg (Ne.symm hk)]
        rfl
      · rw [tally_executed, htally]
        simp
      · intro r'
        by_cases hne : r' = r
        · rw [hne]
          simpa using keepsOffset_blockifProc _ _ _ _ hproc
        · simp [update_of_ne hne]
      · intro hpark
        cases hpark

theorem ok_workerComplete (hw : s.worker = .complete be)
    (hs : workerComplete s be = .ok s') : s'.Ok := by
  have hsv : s.worker.serves = some (be, .done, (1, 1, 0)) := by rw [hw]; rfl
  have hbusy : s.q.bcBusyq = [be] := by rw [hok.layout.busy, hsv]; rfl
  have hbe : be ∈ s.q.outstanding := mem_append_right _ (by simp [hbusy])
  obtain ⟨q, hq, hs⟩ := bind_eq_ok.mp hs
  cases hs
  have hcomp := completed_of_ok hok.layout hbe hq
  refine ⟨layout_completed hok.layout hcomp hbe ?_ ?_,
    ledger_completed hok.layout hok.ledger hcomp hbe ?_ (fun _ _ => rfl) ?_,
    behind_completed hok.layout hok.behind hcomp, ?_⟩
  · rw [hcomp.busyq, hbusy]
    simp [Worker.serves]
  · intro x hx
    cases hx
  · intro x hx
    cases hx
  · exact .inl (hok.ledger.served be _ _ hsv)
  · intro hpark
    cases hpark

theorem ok_blockifThr (hs : blockifThr b bc h s = .ok s') : s'.Ok := by
  unfold blockifThr at hs
  split at hs
  · rename_i hw
    exact (ok_workerLoop hok hw hs).1
  · rename_i be hw
    exact ok_workerProc hok hw hs
  · rename_i be err hw
    cases hs
    exact ok_workerCallback hok hw
  · rename_i be hw
    exact ok_workerComplete hok hw hs
  · rename_i hw
    cases hs
    exact hok.withWorker (by rw [hw]; rfl) (by simp)
  all_goals
    cases hs
    exact hok

theorem ok_step (hs : step b bc s a = .ok s') : s'.Ok := by
  cases a with
  | fill r br =>
    rw [step] at hs
    split_ifs at hs with hr
    cases hs
    exact ok_fill hok hr
  | request r op =>
    obtain ⟨⟨s₁, err⟩, hreq, hs⟩ := bind_eq_ok.mp hs
    cases hs
    exact ok_request hok hreq
  | cancel r =>
    obtain ⟨⟨s₁, err⟩, hc, hs⟩ := bind_eq_ok.mp hs
    cases hs
    exact ok_cancel hok hc
  | close =>
    cases hs
    exact ⟨{ hok.layout with }, { hok.ledger with }, hok.behind, hok.parked⟩
  | wake =>
    cases hs
    exact hok.withWorker (serves_signal _) (fun hp => absurd hp signal_ne_parked)
  | worker h => exact ok_blockifThr hok hs

end

theorem ok_run {reqs : ρ → BlockifReq} {as : List (Action ρ)}
    (hrun : Run (step b bc) Any (start reqs) as s) : s.Ok :=
  hrun.invariant (fun _ _ _ _ hs hok => ok_step hok hs) (ok_start reqs)

/-- The worker only stops for a failure of `blockif_proc` itself. -/
theorem blockifThr_error {e : Stop} (hok : s.Ok) (hs : blockifThr b bc h s = .error e) :
    ∃ f, e = .fault f := by
  unfold blockifThr at hs
  split at hs
  · obtain ⟨o, ho⟩ := firstPend_isOk hok.layout.pend
    rcases bind_eq_error.mp hs with hd | ⟨⟨q, o'⟩, -, hs⟩
    · rcases bind_eq_error.mp hd with hf | ⟨o', -, hd⟩
      · cases ho.symm.trans hf
      · cases o' <;> cases hd
    · cases o' with
      | some be => cases hs
      | none =>
        dsimp only at hs
        split at hs <;> cases hs
  · rename_i be hw
    have hbe : be ∈ s.q.bcBusyq := hok.layout.mem_busyq_iff.mpr ⟨_, _, by rw [hw]; rfl⟩
    obtain ⟨r, hr⟩ := Option.isSome_iff_exists.mp
      (hok.layout.request be (mem_append_right _ hbe))
    simp only [workerProc, hr] at hs
    split at hs
    · rename_i f hproc
      cases hs
      exact ⟨f, rfl⟩
    · cases hs
  · cases hs
  · rename_i be hw
    have hbe : be ∈ s.q.bcBusyq := hok.layout.mem_busyq_iff.mpr ⟨_, _, by rw [hw]; rfl⟩
    obtain ⟨q, hq, -⟩ := blockifComplete_completed s.reqs hok.layout
      (mem_append_right _ hbe)
    rcases bind_eq_error.mp hs with hq' | ⟨q', -, hs⟩
    · cases hq.symm.trans hq'
    · cases hs
  all_goals cases hs

theorem blockifCancel_ne_assertion (hok : s.Ok) : blockifCancel s r ≠ .error .assertion := by
  intro hc
  unfold blockifCancel at hc
  split at hc
  · rename_i be hfind
    obtain ⟨q, hq, -⟩ := blockifComplete_completed s.reqs hok.layout
      (mem_append_left _ (mem_of_find?_eq_some hfind))
    rcases bind_eq_error.mp hc with hq' | ⟨q', -, hc⟩
    · cases hq.symm.trans hq'
    · cases hc
  · split at hc
    · cases hc
    · split at hc <;> cases hc

/-- No assertion on the queues fails, whatever a thread does next. -/
theorem step_ne_assertion (hok : s.Ok) : step b bc s a ≠ .error .assertion := by
  intro hs
  cases a with
  | fill r br =>
    rw [step] at hs
    split at hs <;> cases hs
  | request r op =>
    obtain ⟨p, hp⟩ := blockifRequest_isOk r op hok
    rcases bind_eq_error.mp hs with hreq | ⟨p', -, hs⟩
    · cases hp.symm.trans hreq
    · cases hs
  | cancel r =>
    rcases bind_eq_error.mp hs with hc | ⟨p', -, hs⟩
    · exact blockifCancel_ne_assertion hok hc
    · cases hs
  | close => cases hs
  | wake => cases hs
  | worker h =>
    obtain ⟨f, hf⟩ := blockifThr_error hok hs
    cases hf

end Steps

section Drain

variable {ρ : Type} [DecidableEq ρ] {s s' : World ρ}

/-- The steps the worker takes before it has nothing left to do. -/
def World.work (s : World ρ) : ℕ :=
  match s.worker with
  | .loop => 4 * s.q.bcPendq.length + 1
  | .proc _ => 4 * s.q.bcPendq.length + 4
  | .callback _ _ => 4 * s.q.bcPendq.length + 3
  | .complete _ => 4 * s.q.bcPendq.length + 2
  | .parked true => 4 * s.q.bcPendq.length + 2
  | .parked false | .exited => 0

/-- A worker that has not left its loop for good while elements are pending. -/
def World.Attended (s : World ρ) : Prop := s.worker = .exited → s.q.bcPendq = []

theorem blockifThr_work (hok : s.Ok) (hx : s.Attended) (hs : blockifThr b bc h s = .ok s') :
    s'.Attended ∧ s'.accepted = s.accepted ∧ (s'.work < s.work ∨ s'.work = 0) := by
  unfold blockifThr at hs
  split at hs
  · rename_i hw
    have hx' := (ok_workerLoop hok hw hs).2
    refine ⟨hx', ?_⟩
    obtain ⟨⟨q, o⟩, hd, hs⟩ := bind_eq_ok.mp hs
    rcases blockifDequeue_cases hd with ⟨rfl, rfl, -⟩ | ⟨be, rfl, hp, rfl⟩
    · dsimp only at hs
      split at hs <;> cases hs <;> exact ⟨rfl, .inr rfl⟩
    · cases hs
      refine ⟨rfl, .inl ?_⟩
      have hlen := length_erase_of_mem hp
      have hpos := length_pos_of_mem hp
      simp only [work, hw, Queues.takeUp]
      omega
  · rename_i be hw
    unfold workerProc at hs
    split at hs
    · cases hs
    · split at hs
      · cases hs
      · cases hs
        refine ⟨by simp [World.Attended], rfl, .inl ?_⟩
        simp [work, hw, Queues.setStatus]
  · rename_i be err hw
    cases hs
    refine ⟨by simp [World.Attended, workerCallback], rfl, .inl ?_⟩
    simp [work, hw, workerCallback]
  · rename_i be hw
    have hsv : s.worker.serves = some (be, .done, (1, 1, 0)) := by rw [hw]; rfl
    have hbusy : be ∈ s.q.bcBusyq := hok.layout.mem_busyq_iff.mpr ⟨_, _, hsv⟩
    obtain ⟨q, hq, hs⟩ := bind_eq_ok.mp hs
    cases hs
    have hcomp := completed_of_ok hok.layout (mem_append_right _ hbusy) hq
    refine ⟨by simp [World.Attended], rfl, .inl ?_⟩
    have hp : be ∉ s.q.bcPendq := fun hp => hok.layout.not_busy hp hbusy
    simp [work, hw, hcomp.pendq, erase_of_not_mem hp]
  · rename_i hw
    cases hs
    refine ⟨by simp [World.Attended], rfl, .inl ?_⟩
    simp [work, hw]
  all_goals
    rename_i hw
    cases hs
    exact ⟨hx, rfl, .inr (by simp [work, hw])⟩

/-- With no work left, nothing is outstanding. -/
theorem outstanding_of_idle {ρ : Type} {s : World ρ} (hok : s.Ok) (hx : s.Attended) (hw : s.work = 0) :
    s.q.outstanding = [] := by
  have hb := hok.layout.busy
  unfold work at hw
  split at hw
  any_goals omega
  · rename_i hpark
    rw [Queues.outstanding, hok.parked hpark, hb, hpark]
    rfl
  · rename_i hexit
    rw [Queues.outstanding, hx hexit, hb, hexit]
    rfl

/-- Left to itself, the worker settles every request that was accepted. -/
theorem worker_drains {hosts : List Host} (hok : s.Ok) (hx : s.Attended)
    (hlen : s.work ≤ hosts.length) :
    (∃ f, exec (step b bc) s (hosts.map .worker) = .error (.fault f)) ∨
      ∃ s', exec (step b bc) s (hosts.map .worker) = .ok s' ∧ s'.Ok ∧
        s'.q.outstanding = [] ∧ s'.accepted = s.accepted := by
  induction hosts generalizing s with
  | nil =>
    have h0 : s.work = 0 := by simpa using hlen
    exact .inr ⟨s, rfl, hok, outstanding_of_idle hok hx h0, rfl⟩
  | cons h hosts ih =>
    cases hs : blockifThr b bc h s with
    | error e =>
      obtain ⟨f, rfl⟩ := blockifThr_error hok hs
      exact .inl ⟨f, by simp [exec, step, hs]⟩
    | ok t =>
      obtain ⟨hxt, hacc, hwork⟩ := blockifThr_work hok hx hs
      have hlen' : t.work ≤ hosts.length := by
        simp only [length_cons] at hlen
        omega
      have hexec : exec (step b bc) s ((h :: hosts).map .worker) =
          exec (step b bc) t (hosts.map .worker) := by simp [exec, step, hs]
      rw [hexec, ← hacc]
      exact ih (ok_blockifThr hok hs) hxt hlen'

end Drain

variable {ρ : Type} {s : World ρ}

theorem layout_status (hok : s.Ok) (be : ElemId) :
    (be ∈ s.q.bcFreeq ↔ (s.q.bcReqs be).beStatus = .free) ∧
    (be ∈ s.q.bcPendq ↔ (s.q.bcReqs be).beStatus = .block ∨ (s.q.bcReqs be).beStatus = .pend) ∧
    (be ∈ s.q.bcBusyq ↔ (s.q.bcReqs be).beStatus = .busy ∨ (s.q.bcReqs be).beStatus = .done) := by
  have hl := hok.layout
  by_cases hf : be ∈ s.q.bcFreeq
  · have hno := mt hl.not_free (not_not.mpr hf)
    simp only [Queues.outstanding, mem_append, not_or] at hno
    simp [hl.free be hf, hf, hno]
  · have ho := (Pool.mem_inuse_iff hl.split).mpr hf
    rcases mem_append.mp ho with hp | hb
    · have hnb := hl.not_busy hp
      rcases hl.pend be hp with hst | hst <;> simp [hst, hf, hp, hnb]
    · have hnp : be ∉ s.q.bcPendq := fun hp => hl.not_busy hp hb
      rcases hl.busy_status hb with hst | hst <;> simp [hst, hf, hb, hnp]

/-- The life of an accepted request, from the queue it is on. -/
theorem tally_cases (hok : s.Ok) {n : ℕ} (hn : n < s.accepted) :
    (∃ be ∈ s.q.bcPendq, s.ticket be = n ∧ tally s.history n = (0, 0, 0)) ∨
    (∃ be ∈ s.q.bcBusyq, s.ticket be = n ∧ (tally s.history n = (0, 0, 0) ∨
      tally s.history n = (1, 0, 0) ∨ tally s.history n = (1, 1, 0))) ∨
    (∀ be ∈ s.q.outstanding, s.ticket be ≠ n) ∧
      (tally s.history n = (1, 1, 0) ∨ tally s.history n = (0, 0, 1)) := by
  by_cases hout : ∃ be ∈ s.q.outstanding, s.ticket be = n
  · obtain ⟨be, ho, rfl⟩ := hout
    rcases mem_append.mp ho with hp | hb
    · exact .inl ⟨be, hp, rfl, hok.ledger.waiting be hp⟩
    · obtain ⟨st, m, hs⟩ := hok.layout.mem_busyq_iff.mp hb
      refine .inr (.inl ⟨be, hb, rfl, ?_⟩)
      rw [hok.ledger.served be st m hs]
      cases hw : s.worker <;> rw [hw] at hs <;> cases hs <;> simp
  · have hnone : ∀ be ∈ s.q.outstanding, s.ticket be ≠ n :=
      fun be hbe heq => hout ⟨be, hbe, heq⟩
    exact .inr (.inr ⟨hnone, hok.ledger.settled n hn hnone⟩)

section Runs

variable {ρ : Type} [DecidableEq ρ] {reqs : ρ → BlockifReq} {as : List (Action ρ)} {s : World ρ}

/-- In every state that device and worker reach: each element is on the one queue of its
status; an accepted request is executed at most once, and once it has left the queues it was
called back once or cancelled while pending; whoever is blocked waits for an earlier element;
so something can always run, and the worker alone settles whatever was accepted. -/
theorem queue_invariant (hrun : Run (step b bc) Any (start reqs) as s) :
    (∀ be, (s.q.bcFreeq ++ s.q.bcPendq ++ s.q.bcBusyq).count be = 1 ∧
      (be ∈ s.q.bcFreeq ↔ (s.q.bcReqs be).beStatus = .free) ∧
      (be ∈ s.q.bcPendq ↔ (s.q.bcReqs be).beStatus = .block ∨ (s.q.bcReqs be).beStatus = .pend) ∧
      (be ∈ s.q.bcBusyq ↔ (s.q.bcReqs be).beStatus = .busy ∨ (s.q.bcReqs be).beStatus = .done)) ∧
    (∀ n < s.accepted, s.history.count (.executed n) ≤ 1 ∧ s.history.count (.called n) ≤ 1 ∧
      (.cancelled n ∈ s.history → s.history.count (.executed n) = 0 ∧
        s.history.count (.called n) = 0) ∧
      ((∀ be ∈ s.q.outstanding, s.ticket be ≠ n) → .cancelled n ∉ s.history →
        s.history.count (.executed n) = 1 ∧ s.history.count (.called n) = 1)) ∧
    (∀ be ∈ s.q.bcPendq, (s.q.bcReqs be).beStatus = .block →
      ∃ t ∈ s.q.outstanding, s.ticket t < s.ticket be ∧
        (s.q.bcReqs be).startsAt s.reqs (s.q.bcReqs t).beBlock) ∧
    (s.q.bcPendq ≠ [] → s.q.bcBusyq = [] → ∃ be ∈ s.q.bcPendq, (s.q.bcReqs be).beStatus = .pend) ∧
    (∀ a, step b bc s a ≠ .error .assertion) ∧
    (s.worker ≠ .exited → ∀ hosts : List Host, s.work ≤ hosts.length →
      (∃ f, exec (step b bc) s (hosts.map .worker) = .error (.fault f)) ∨
      ∃ s', exec (step b bc) s (hosts.map .worker) = .ok s' ∧ ∀ n < s.accepted,
        tally s'.history n = (1, 1, 0) ∨ tally s'.history n = (0, 0, 1)) := by
  have hok := ok_run hrun
  refine ⟨fun be => ⟨?_, layout_status hok be⟩, ?_, hok.behind, exists_pend hok,
    fun _ => step_ne_assertion hok, ?_⟩
  · rw [append_assoc]
    exact hok.layout.split be
  · intro n hn
    have hcases := tally_cases hok hn
    simp only [tally, Prod.mk.injEq] at hcases
    have hmem : .cancelled n ∈ s.history ↔ 0 < s.history.count (.cancelled n) :=
      count_pos_iff.symm
    rw [hmem]
    rcases hcases with ⟨be, hp, rfl, hc⟩ | ⟨be, hb, rfl, hc⟩ | ⟨hnone, hc⟩
    · refine ⟨by omega, by omega, by omega, fun hout => ?_⟩
      exact absurd rfl (hout be (mem_append_left _ hp))
    · refine ⟨by omega, by omega, by omega, fun hout => ?_⟩
      exact absurd rfl (hout be (mem_append_right _ hb))
    · exact ⟨by omega, by omega, by omega, by omega⟩
  · intro hx hosts hlen
    rcases worker_drains hok (fun hexit => absurd hexit hx) hlen with hf | ⟨s', hs', hok', hout, hacc⟩
    · exact .inl hf
    · refine .inr ⟨s', hs', fun n hn => hok'.ledger.settled n (by omega) ?_⟩
      simp [hout]

end Runs

/-- Two requests of a sector each, the second where the first ends. -/
def adjoining : Bool → BlockifReq
  | false => ⟨[⟨some 0, 512⟩], 0, 512⟩
  | true => ⟨[⟨some 512, 512⟩], 512, 512⟩

/-- A plain file. -/
def plainFile : BlockifCtxt := ⟨3, -1, false, false, true, false, 1048576, 512, 4096⟩

/-- Both requests are queued, and the first is cancelled. -/
def queueTwo : List (Action Bool) :=
  [.request false .write, .request true .write, .cancel false]

def queuedTwo : World Bool :=
  (exec (step macBuild plainFile) (start adjoining) queueTwo).toOption.getD
    (start adjoining)

theorem queue_invariant_two : Run (step macBuild plainFile) Any (start adjoining) queueTwo queuedTwo ∧
      queuedTwo.q.bcPendq.map Fin.val = [127] ∧ queuedTwo.q.bcBusyq = [] ∧
      ∃ be ∈ queuedTwo.q.bcPendq, (queuedTwo.q.bcReqs be).beStatus = .pend := by
  have hrun : Run (step macBuild plainFile) Any (start adjoining) queueTwo queuedTwo :=
    run_any_iff_exec.mpr rfl
  have hpend : queuedTwo.q.bcPendq.map Fin.val = [127] := rfl
  refine ⟨hrun, hpend, rfl, (queue_invariant hrun).2.2.2.1 (fun hnil => ?_) rfl⟩
  rw [hnil] at hpend
  cases hpend

section Wakeup

variable {ρ : Type} [DecidableEq ρ] {reqs : ρ → BlockifReq} {as : List (Action ρ)} {s : World ρ}

/-- A worker that waits without a signal has nothing to run. -/
theorem no_lost_wakeup (hrun : Run (step b bc) Any (start reqs) as s)
    (hpark : s.worker = .parked false) :
    ∀ be ∈ s.q.bcPendq, (s.q.bcReqs be).beStatus ≠ .pend := by
  intro be hbe
  rw [(ok_run hrun).parked hpark] at hbe
  cases hbe

end Wakeup

/-- The worker serves two requests, the second blocked behind the first, and comes to rest. -/
def serveTwo : List (Action Bool) :=
  [.request false .write, .request true .write] ++ replicate 12 (.worker willing)

def idleWorker : World Bool :=
  (exec (step macBuild plainFile) (start adjoining) serveTwo).toOption.getD
    (start adjoining)

theorem no_lost_wakeup_idle : idleWorker.accepted = 2 ∧ idleWorker.worker = .parked false ∧
      ∀ be ∈ idleWorker.q.bcPendq, (idleWorker.q.bcReqs be).beStatus ≠ .pend := by
  have hrun : Run (step macBuild plainFile) Any (start adjoining) serveTwo idleWorker :=
    run_any_iff_exec.mpr rfl
  exact ⟨rfl, rfl, no_lost_wakeup hrun rfl⟩

end HyperCog.Blockif
