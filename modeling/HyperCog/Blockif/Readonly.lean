import HyperCog.Lib.Run
import HyperCog.Blockif.Store

/-! Which requests a read-only or undeletable context refuses before they reach the store. -/
namespace HyperCog.Blockif

open Machine

/-- A request as the worker takes it, with the host's answers while it is served. -/
structure Job where
  op : Blockop
  req : BlockifReq
  host : Host

/-- What became of a job: the error given to the callback and the calls made. -/
structure Outcome where
  op : Blockop
  err : Option Errno
  calls : List (StoreCall × StoreResult)
  deriving DecidableEq, Repr

/-- The worker between two requests. -/
structure Served where
  errno : Option Errno
  outcomes : List Outcome
  deriving DecidableEq, Repr

def serve (b : Build) (bc : BlockifCtxt) (s : Served) (j : Job) : Except Fault Served :=
  match blockifProc b bc j.host j.op j.req ⟨[], s.errno⟩ with
  | .error f => .error f
  | .ok ((err, _), st) => .ok ⟨st.errno, s.outcomes ++ [⟨j.op, err, st.log⟩]⟩

/-- The flags of the context forbid the operation. -/
def Forbidden (bc : BlockifCtxt) : Blockop → Prop
  | .write => bc.bcRdonly = true
  | .delete => bc.bcRdonly = true ∨ bc.bcCandelete = false
  | .read | .flush => False

/-- The request failed without touching what the store holds. -/
def Outcome.Refused (o : Outcome) : Prop := o.err ≠ none ∧ ∀ c ∈ o.calls, c.1.modifies = false

/-- The context has a handle that the compiled `block_delete` acts on. -/
def DeleteBranch (b : Build) (bc : BlockifCtxt) : Prop :=
  (b.haveOcamlQcow = true ∧ 0 ≤ bc.bcMbh) ∨
  (b.platform = .freebsd ∧ 0 ≤ bc.bcFd ∧ bc.bcIschr = true) ∨
  (b.platform = .apple ∧ 0 ≤ bc.bcFd)

/-- A modifying call has been made. -/
def Store.Acted (s : Store) : Prop := ∃ c ∈ s.log, c.1.modifies = true

/-- The computation makes a modifying call, or does nothing and reports success. -/
def Tries {α : Type} (m : StoreM (Option α)) : Prop :=
  ∀ s r s', m s = .ok (r, s') → (s' = s ∧ r ≠ none) ∨ s'.Acted

variable {b : Build} {bc : BlockifCtxt} {h : Host} {s s' : Store} {r : Option ℕ} {α β : Type}
  {c : StoreCall} {offset : Int64} {len : ℤ}

theorem issue_log (hr : issue h c s = .ok (r, s')) : ∃ a, s'.log = s.log ++ [(c, a)] := by
  unfold issue at hr
  split at hr
  all_goals
    cases hr
    exact ⟨_, rfl⟩

theorem issue_acted (hc : c.modifies = true) (hr : issue h c s = .ok (r, s')) : s'.Acted := by
  obtain ⟨a, ha⟩ := issue_log hr
  exact ⟨(c, a), by simp [ha], hc⟩

theorem tries_pure (a : α) : Tries (pure (some a)) := by
  intro s r s' hr
  obtain ⟨rfl, rfl⟩ := pure_run_eq_ok.mp hr
  exact .inl ⟨rfl, by simp⟩

theorem tries_fault (f : Fault) : Tries (fault f : StoreM (Option α)) := by
  intro s r s' hr
  cases hr

theorem tries_issue (hc : c.modifies = true) : Tries (issue h c) := by
  intro s r s' hr
  exact .inr (issue_acted hc hr)

theorem tries_unlessOut {m : StoreM (Option α)} {f : α → StoreM (Option β)} (hm : Tries m)
    (hf : ∀ a, Tries (f a)) : Tries (unlessOut m f) := by
  intro s r s' hr
  obtain ⟨x, t, hx, hrest⟩ := bind_run_eq_ok.mp hr
  cases x with
  | none =>
    obtain ⟨-, rfl⟩ := pure_run_eq_ok.mp hrest
    rcases hm _ _ _ hx with ⟨-, hne⟩ | hacted
    · exact absurd rfl hne
    · exact .inr hacted
  | some a =>
    rcases hf a _ _ _ hrest with ⟨rfl, hne⟩ | hlater
    · rcases hm _ _ _ hx with ⟨rfl, -⟩ | hacted
      · exact .inl ⟨rfl, hne⟩
      · exact .inr hacted
    · exact .inr hlater

theorem tries_zeroHead (a o l : UInt64) : Tries (zeroHead h a o l) := by
  unfold zeroHead
  dsimp only
  split_ifs
  · exact tries_unlessOut (tries_issue rfl) fun _ => tries_pure _
  · exact tries_fault _
  · exact tries_pure _

theorem tries_punchMiddle (a o l : UInt64) : Tries (punchMiddle h a o l) := by
  unfold punchMiddle
  dsimp only
  split_ifs
  · exact tries_unlessOut (tries_issue rfl) fun _ => tries_pure _
  · exact tries_fault _
  · exact tries_pure _

theorem tries_zeroTail (a o l : UInt64) : Tries (zeroTail h a o l) := by
  unfold zeroTail
  split_ifs
  · exact tries_unlessOut (tries_issue rfl) fun _ => tries_pure _
  · exact tries_fault _
  · exact tries_pure _

theorem tries_blockDeleteApple (offset : Int64) (len : ℤ) :
    Tries (blockDeleteApple bc h offset len) := by
  unfold blockDeleteApple
  split
  · refine tries_unlessOut (tries_zeroHead _ _ _) fun mid => ?_
    exact tries_unlessOut (tries_punchMiddle _ _ _) fun tail => tries_zeroTail _ _ _
  · exact tries_fault _

theorem deleteErrno_forbidden (hp : Forbidden bc .delete)
    (hr : deleteErrno bc s = .ok ((), s')) : s'.log = s.log ∧ s'.errno ≠ none := by
  unfold deleteErrno at hr
  split_ifs at hr with hcan hro
  · cases hr
    exact ⟨rfl, by simp⟩
  · cases hr
    exact ⟨rfl, by simp⟩
  · rcases hp with hp | hp
    · exact absurd hp hro
    · simp [hp] at hcan

/-- Without a handle to act on, a forbidden delete only fails. -/
theorem blockDelete_refused (hp : Forbidden bc .delete) (hb : ¬ DeleteBranch b bc)
    (hr : blockDelete b bc h offset len s = .ok (r, s')) :
    r = none ∧ s'.log = s.log ∧ s'.errno ≠ none := by
  obtain ⟨_, t, hflags, hr⟩ := bind_run_eq_ok.mp hr
  obtain ⟨hlog, herr⟩ := deleteErrno_forbidden hp hflags
  rw [if_neg (fun hq => hb (.inl hq))] at hr
  cases hplat : b.platform with
  | freebsd =>
    have hno : ¬ (0 ≤ bc.bcFd ∧ bc.bcIschr = true) := fun hq => hb (.inr (.inl ⟨hplat, hq⟩))
    simp only [blockDeletePlatform, hplat, if_neg hno] at hr
    obtain ⟨rfl, rfl⟩ := pure_run_eq_ok.mp hr
    exact ⟨rfl, hlog, herr⟩
  | apple =>
    have hno : ¬ 0 ≤ bc.bcFd := fun hq => hb (.inr (.inr ⟨hplat, hq⟩))
    simp only [blockDeletePlatform, hplat, if_neg hno] at hr
    obtain ⟨rfl, rfl⟩ := pure_run_eq_ok.mp hr
    exact ⟨rfl, hlog, herr⟩
  | other =>
    simp only [blockDeletePlatform, hplat] at hr
    obtain ⟨_, u, hset, hr⟩ := bind_run_eq_ok.mp hr
    obtain ⟨rfl, rfl⟩ := pure_run_eq_ok.mp hr
    cases hset
    exact ⟨rfl, hlog, by simp⟩

/-- With a handle, the delete is carried out whatever the flags say. -/
theorem blockDelete_acts (hb : DeleteBranch b bc)
    (hr : blockDelete b bc h offset len s = .ok (r, s')) : r ≠ none ∨ s'.Acted := by
  obtain ⟨_, t, -, hr⟩ := bind_run_eq_ok.mp hr
  by_cases hq : b.haveOcamlQcow = true ∧ 0 ≤ bc.bcMbh
  · rw [if_pos hq] at hr
    exact .inr (issue_acted rfl hr)
  rw [if_neg hq] at hr
  unfold blockDeletePlatform at hr
  rcases hb with hb | ⟨hplat, hb⟩ | ⟨hplat, hb⟩
  · exact absurd hb hq
  · simp only [hplat, if_pos hb] at hr
    obtain ⟨x, u, hissue, hr⟩ := bind_run_eq_ok.mp hr
    obtain ⟨_, v, hset, hr⟩ := bind_run_eq_ok.mp hr
    obtain ⟨rfl, rfl⟩ := pure_run_eq_ok.mp hr
    cases hset
    have hacted : u.Acted := issue_acted rfl hissue
    exact .inr hacted
  · simp only [hplat, if_pos hb] at hr
    rcases tries_blockDeleteApple _ _ _ _ _ hr with ⟨-, hne⟩ | hacted
    · exact .inl hne
    · exact .inr hacted

section Run

variable {s t : Served} {j : Job} {jobs : List Job} {e : Option Errno}

/-- A step serves its job and records what became of it. -/
theorem serve_cases (hs : serve b bc s j = .ok t) :
    ∃ o br st, blockifProc b bc j.host j.op j.req ⟨[], s.errno⟩ = .ok ((o.err, br), st) ∧
      o.op = j.op ∧ o.calls = st.log ∧ t.outcomes = s.outcomes ++ [o] := by
  unfold serve at hs
  split at hs
  · cases hs
  · rename_i err br st hproc
    cases hs
    exact ⟨⟨j.op, err, st.log⟩, br, st, hproc, rfl, rfl, rfl⟩

variable {br br' : BlockifReq} {err : Option Errno} {st : Store}

/-- A forbidden write never gets past the flag. -/
theorem write_refused {st' : Store} (hp : Forbidden bc .write)
    (hr : blockifProc b bc h .write br st = .ok ((err, br'), st')) :
    err ≠ none ∧ st' = st := by
  have hro : bc.bcRdonly = true := hp
  simp only [blockifProc, hro, if_true] at hr
  obtain ⟨he, rfl⟩ := pure_run_eq_ok.mp hr
  cases he
  exact ⟨by simp, rfl⟩

/-- A forbidden delete is refused exactly when there is no handle to act on. -/
theorem delete_refused_iff {errno : Option Errno} (hp : Forbidden bc .delete)
    (hr : blockifProc b bc h .delete br ⟨[], errno⟩ = .ok ((err, br'), st)) :
    (err ≠ none ∧ ∀ c ∈ st.log, c.1.modifies = false) ↔ ¬ DeleteBranch b bc := by
  obtain ⟨x, u, hdel, hr⟩ := bind_run_eq_ok.mp hr
  constructor
  · rintro ⟨herr, hcalls⟩ hb
    have hst : st = u ∧ (x ≠ none → err = none) := by
      cases x with
      | none =>
        obtain ⟨_, v, hget, hr⟩ := bind_run_eq_ok.mp hr
        obtain ⟨-, rfl⟩ := pure_run_eq_ok.mp hr
        cases hget
        exact ⟨rfl, fun hne => absurd rfl hne⟩
      | some n =>
        obtain ⟨he, rfl⟩ := pure_run_eq_ok.mp hr
        cases he
        exact ⟨rfl, fun _ => rfl⟩
    rcases blockDelete_acts hb hdel with hne | ⟨c, hc, hmod⟩
    · exact herr (hst.2 hne)
    · rw [← hst.1] at hc
      exact absurd hmod (by simp [hcalls c hc])
  · intro hb
    obtain ⟨rfl, hlog, herr⟩ := blockDelete_refused hp hb hdel
    obtain ⟨_, v, hget, hr⟩ := bind_run_eq_ok.mp hr
    obtain ⟨he, rfl⟩ := pure_run_eq_ok.mp hr
    cases hget
    cases he
    exact ⟨herr, by simp [hlog]⟩

/-- One served job, judged by its operation alone. -/
theorem serve_refused_iff (hs : serve b bc s j = .ok t) :
    ∃ o, t.outcomes = s.outcomes ++ [o] ∧ o.op = j.op ∧ ((Forbidden bc o.op → o.Refused) ↔
        (j.op = .delete → Forbidden bc .delete → ¬ DeleteBranch b bc)) := by
  obtain ⟨o, br, st, hproc, hop, hcalls, hout⟩ := serve_cases hs
  refine ⟨o, hout, hop, ?_⟩
  rw [Outcome.Refused, hop, hcalls]
  cases hj : j.op with
  | read | flush => simp [Forbidden]
  | write =>
    rw [hj] at hproc
    refine iff_of_true ?_ (by simp)
    intro hp
    obtain ⟨herr, rfl⟩ := write_refused hp hproc
    exact ⟨herr, by simp⟩
  | delete =>
    rw [hj] at hproc
    constructor
    · intro hrefused _ hp
      exact (delete_refused_iff hp hproc).mp (hrefused hp)
    · intro hb hp
      exact (delete_refused_iff hp hproc).mpr (hb rfl hp)

/-- The outcomes of a run: each new one is judged by the job it came from. -/
theorem run_refused_iff (hrun : Run (serve b bc) Any s jobs t) :
    ∃ new, t.outcomes = s.outcomes ++ new ∧ ((∀ o ∈ new, Forbidden bc o.op → o.Refused) ↔
        ∀ j ∈ jobs, j.op = .delete → Forbidden bc .delete → ¬ DeleteBranch b bc) := by
  induction hrun with
  | refl => exact ⟨[], by simp, by simp⟩
  | stepL _ hs _ ih =>
    obtain ⟨new, hnew, hiff⟩ := ih
    obtain ⟨o, ho, -, hone⟩ := serve_refused_iff hs
    refine ⟨o :: new, by simp [hnew, ho], ?_⟩
    rw [List.forall_mem_cons, List.forall_mem_cons, hone, hiff]

/-- Over every run of the worker, forbidden writes and deletes all fail without touching the
store exactly when no forbidden delete meets a handle that `block_delete` acts on. -/
theorem readonly_never_modified (hrun : Run (serve b bc) Any ⟨e, []⟩ jobs s) :
    (∀ o ∈ s.outcomes, Forbidden bc o.op → o.Refused) ↔
      ∀ j ∈ jobs, j.op = .delete → Forbidden bc .delete → ¬ DeleteBranch b bc := by
  obtain ⟨new, hnew, hiff⟩ := run_refused_iff hrun
  rw [hnew]
  simpa using hiff

end Run

/-- A plain file opened for reading only. -/
def readonlyFile : BlockifCtxt := ⟨3, -1, false, false, true, true, 1048576, 512, 4096⟩

/-- A plain file on a file system without holes. -/
def solidFile : BlockifCtxt := ⟨3, -1, false, false, false, false, 1048576, 512, 4096⟩

/-- Sector 1, one sector long. -/
def sectorJob (op : Blockop) : Job := ⟨op, ⟨[⟨some 0, 512⟩], 512, 512⟩, willing⟩

theorem readonly_never_modified_write :
    ∃ s, Run (serve macBuild readonlyFile) Any ⟨none, []⟩ [sectorJob .read, sectorJob .write] s ∧
      s.outcomes.map Outcome.op = [.read, .write] ∧
      ∀ o ∈ s.outcomes, Forbidden readonlyFile o.op → o.Refused := by
  have hrun : Run (serve macBuild readonlyFile) Any ⟨none, []⟩ [sectorJob .read, sectorJob .write]
      ⟨none, [⟨.read, none, [(.readv 512 [⟨some 0, 512⟩], .count 512)]⟩,
        ⟨.write, some .erofs, []⟩]⟩ := run_any_iff_exec.mpr rfl
  exact ⟨_, hrun, rfl, (readonly_never_modified hrun).mpr (by simp [sectorJob])⟩

/-- A discard on the file without holes writes zeroes over the sector and succeeds. -/
theorem undeletable_file_zeroed : Forbidden solidFile .delete ∧
      ∃ s, Run (serve macBuild solidFile) Any ⟨none, []⟩ [sectorJob .delete] s ∧
        s.outcomes = [⟨.delete, none, [(.pwrite 512 512, .count 512)]⟩] ∧
        ¬ ∀ o ∈ s.outcomes, Forbidden solidFile o.op → o.Refused := by
  refine ⟨.inr rfl, ⟨some .eopnotsupp, _⟩, run_any_iff_exec.mpr rfl, rfl, ?_⟩
  intro hall
  exact (hall _ List.mem_cons_self (.inr rfl)).1 rfl

end HyperCog.Blockif
