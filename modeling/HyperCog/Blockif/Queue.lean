import HyperCog.Blockif.Store
import HyperCog.Lib.Run
import HyperCog.Lib.Pool

/-! The request queues of a block context, and the worker thread that serves them. -/
namespace HyperCog.Blockif

open Machine Function

inductive Blockstat
  | free
  | block
  | pend
  | busy
  | done
  deriving DecidableEq, Repr

abbrev ElemId := Fin blockifMaxreq

/-- `struct blockif_elem`, over the addresses `ρ` of requests. -/
structure BlockifElem (ρ : Type) where
  beReq : Option ρ
  beOp : Blockop
  beStatus : Blockstat
  beBlock : Int64

/-- The part of `struct blockif_ctxt` that `bc_mtx` protects. -/
structure Queues (ρ : Type) where
  bcReqs : ElemId → BlockifElem ρ
  bcFreeq : List ElemId
  bcPendq : List ElemId
  bcBusyq : List ElemId
  bcClosing : Bool

/-- Why a thread takes no step. -/
inductive Stop
  /-- it waits for another thread -/
  | blocked
  /-- an assertion on the queues, or a use of a request that is not there -/
  | assertion
  | fault (f : Fault)
  deriving DecidableEq, Repr

section Functions

variable {ρ : Type} [DecidableEq ρ]

/-- Where a request ends; one that starts there waits for it. -/
def blockEnd (op : Blockop) (br : BlockifReq) : Int64 :=
  match op with
  | .read | .write | .delete => br.brIov.foldl (fun off v => off + .ofNat v.iovLen) br.brOffset
  | .flush => offMax

/-- Some outstanding element ends where the request starts. -/
def Queues.behind (q : Queues ρ) (br : BlockifReq) : Bool :=
  (q.bcPendq ++ q.bcBusyq).any fun t => (q.bcReqs t).beBlock = br.brOffset

/-- Returns the element taken as well. -/
def blockifEnqueue (reqs : ρ → BlockifReq) (q : Queues ρ) (r : ρ) (op : Blockop) :
    Except Stop (Queues ρ × ElemId × Bool) :=
  match q.bcFreeq with
  | [] => .error .assertion
  | be :: rest =>
    if (q.bcReqs be).beStatus = .free then
      let status := if q.behind (reqs r) then Blockstat.block else .pend
      let elem : BlockifElem ρ := ⟨some r, op, status, blockEnd op (reqs r)⟩
      .ok ({ q with
        bcReqs := update q.bcReqs be elem
        bcFreeq := rest
        bcPendq := q.bcPendq ++ [be] }, be, status = .pend)
    else .error .assertion

/-- The scan of `blockif_dequeue` for an element that may run. -/
def firstPend (q : Queues ρ) : List ElemId → Except Stop (Option ElemId)
  | [] => .ok none
  | be :: rest =>
    if (q.bcReqs be).beStatus = .pend then .ok (some be)
    else if (q.bcReqs be).beStatus = .block then firstPend q rest
    else .error .assertion

def Queues.setStatus (q : Queues ρ) (be : ElemId) (status : Blockstat) : Queues ρ :=
  { q with bcReqs := update q.bcReqs be { q.bcReqs be with beStatus := status } }

def blockifDequeue (q : Queues ρ) : Except Stop (Queues ρ × Option ElemId) := do
  match ← firstPend q q.bcPendq with
  | none => .ok (q, none)
  | some be =>
    .ok ({ q.setStatus be .busy with
      bcPendq := q.bcPendq.erase be
      bcBusyq := q.bcBusyq ++ [be] }, some be)

/-- The request of an element starts at the offset. -/
def BlockifElem.startsAt (reqs : ρ → BlockifReq) (e : BlockifElem ρ) (off : Int64) : Prop :=
  ∃ r, e.beReq = some r ∧ (reqs r).brOffset = off

instance (reqs : ρ → BlockifReq) (e : BlockifElem ρ) (off : Int64) : Decidable (e.startsAt reqs off) :=
  match h : e.beReq with
  | none => .isFalse (by simp [BlockifElem.startsAt, h])
  | some r => decidable_of_iff ((reqs r).brOffset = off) (by simp [BlockifElem.startsAt, h])

/-- The queues without an element. -/
def Queues.unlink (q : Queues ρ) (be : ElemId) : Queues ρ :=
  if (q.bcReqs be).beStatus = .done ∨ (q.bcReqs be).beStatus = .busy then
    { q with bcBusyq := q.bcBusyq.erase be }
  else { q with bcPendq := q.bcPendq.erase be }

/-- The loop of `blockif_complete`: whoever starts at `off` need not wait any more. -/
def Queues.release (reqs : ρ → BlockifReq) (q : Queues ρ) (off : Int64) : Queues ρ :=
  { q with
    bcReqs := fun t =>
      if t ∈ q.bcPendq ∧ (q.bcReqs t).startsAt reqs off then
        { q.bcReqs t with beStatus := .pend }
      else q.bcReqs t }

def blockifComplete (reqs : ρ → BlockifReq) (q : Queues ρ) (be : ElemId) : Except Stop (Queues ρ) :=
  let u := q.unlink be
  if u.bcPendq.all fun t => (q.bcReqs t).beReq.isSome then
    let v := u.release reqs (q.bcReqs be).beBlock
    .ok { v with
      bcReqs := update v.bcReqs be
        { v.bcReqs be with beStatus := .free, beReq := none }
      bcFreeq := v.bcFreeq ++ [be] }
  else .error .assertion

end Functions

/-- Where the worker stands in `blockif_thr`. -/
inductive Worker
  | loop
  | proc (be : ElemId)
  /-- `BST_DONE` is set, the callback has yet to be called -/
  | callback (be : ElemId) (err : Option Errno)
  | complete (be : ElemId)
  /-- in `pthread_cond_wait` -/
  | parked (signaled : Bool)
  | exited
  deriving DecidableEq, Repr

/-- `pthread_cond_signal`: lost unless the worker waits. -/
def Worker.signal : Worker → Worker
  | .parked _ => .parked true
  | w => w

/-- What happens to accepted requests, which are numbered in the order of acceptance. -/
inductive Event
  | executed (t : ℕ)
  | called (t : ℕ)
  | cancelled (t : ℕ)
  deriving DecidableEq, Repr

/-- A context and its worker over the requests of a device. The last three fields only record:
the number of the request on each element, how many were accepted, and what became of them. -/
structure World (ρ : Type) where
  q : Queues ρ
  reqs : ρ → BlockifReq
  worker : Worker
  errno : Option Errno
  ticket : ElemId → ℕ
  accepted : ℕ
  history : List Event

section World

variable {ρ : Type} [DecidableEq ρ]

/-- The requests on the pending queue. -/
def World.Pending (s : World ρ) (r : ρ) : Prop :=
  ∃ be ∈ s.q.bcPendq, (s.q.bcReqs be).beReq = some r

instance (s : World ρ) (r : ρ) : Decidable (s.Pending r) :=
  inferInstanceAs (Decidable (∃ be ∈ s.q.bcPendq, (s.q.bcReqs be).beReq = some r))

/-- The device prepares a request. -/
def World.fill (s : World ρ) (r : ρ) (br : BlockifReq) : World ρ :=
  { s with reqs := update s.reqs r br }

/-- The return value is `none` for 0. -/
def blockifRequest (s : World ρ) (r : ρ) (op : Blockop) : Except Stop (World ρ × Option Errno) :=
  if s.q.bcFreeq.isEmpty then .ok (s, some .e2big)
  else do
    let (q, be, runnable) ← blockifEnqueue s.reqs s.q r op
    .ok ({ s with
      q := q
      worker := if runnable then s.worker.signal else s.worker
      ticket := update s.ticket be s.accepted
      accepted := s.accepted + 1 }, none)

/-- Waits while the element is being processed. -/
def blockifCancel (s : World ρ) (r : ρ) : Except Stop (World ρ × Option Errno) :=
  match s.q.bcPendq.find? fun be => (s.q.bcReqs be).beReq = some r with
  | some be => do
    let q ← blockifComplete s.reqs s.q be
    .ok ({ s with q := q, history := s.history ++ [.cancelled (s.ticket be)] }, none)
  | none =>
    match s.q.bcBusyq.find? fun be => (s.q.bcReqs be).beReq = some r with
    | none => .ok (s, some .einval)
    | some be =>
      if (s.q.bcReqs be).beStatus = .busy then .error .blocked
      else .ok (s, some .ebusy)

/-- The worker with the mutex, at the head of its loops. -/
def workerLoop (s : World ρ) : Except Stop (World ρ) := do
  match ← blockifDequeue s.q with
  | (q, some be) => .ok { s with q := q, worker := .proc be }
  | (q, none) =>
    if q.bcClosing then .ok { s with q := q, worker := .exited }
    else .ok { s with q := q, worker := .parked false }

/-- `blockif_proc` up to its callback. -/
def workerProc (b : Build) (bc : BlockifCtxt) (h : Host) (s : World ρ) (be : ElemId) :
    Except Stop (World ρ) :=
  match (s.q.bcReqs be).beReq with
  | none => .error .assertion
  | some r =>
    match blockifProc b bc h (s.q.bcReqs be).beOp (s.reqs r) ⟨[], s.errno⟩ with
    | .error f => .error (.fault f)
    | .ok ((err, br), st) =>
      .ok { s with
        q := s.q.setStatus be .done
        reqs := update s.reqs r br
        worker := .callback be err
        errno := st.errno
        history := s.history ++ [.executed (s.ticket be)] }

/-- The call of `br_callback`; what the device does in it are actions of its own. -/
def workerCallback (s : World ρ) (be : ElemId) : World ρ :=
  { s with worker := .complete be, history := s.history ++ [.called (s.ticket be)] }

def workerComplete (s : World ρ) (be : ElemId) : Except Stop (World ρ) := do
  let q ← blockifComplete s.reqs s.q be
  .ok { s with q := q, worker := .loop }

/-- One step of `blockif_thr`. A worker that waits unsignaled stays where it is. -/
def blockifThr (b : Build) (bc : BlockifCtxt) (h : Host) (s : World ρ) : Except Stop (World ρ) :=
  match s.worker with
  | .loop => workerLoop s
  | .proc be => workerProc b bc h s be
  | .callback be _ => .ok (workerCallback s be)
  | .complete be => workerComplete s be
  | .parked true => .ok { s with worker := .loop }
  | .parked false => .ok s
  | .exited => .ok s

/-- What the device's threads and the worker do. -/
inductive Action (ρ : Type)
  | fill (r : ρ) (br : BlockifReq)
  | request (r : ρ) (op : Blockop)
  | cancel (r : ρ)
  | close
  /-- a wake-up without a signal, or the broadcast of `blockif_close` -/
  | wake
  | worker (h : Host)

/-- A request is not touched while it is pending. -/
def step (b : Build) (bc : BlockifCtxt) (s : World ρ) : Action ρ → Except Stop (World ρ)
  | .fill r br => if s.Pending r then .error .blocked else .ok (s.fill r br)
  | .request r op => do
    let (s, _) ← blockifRequest s r op
    .ok s
  | .cancel r => do
    let (s, _) ← blockifCancel s r
    .ok s
  | .close => .ok { s with q := { s.q with bcClosing := true } }
  | .wake => .ok { s with worker := s.worker.signal }
  | .worker h => blockifThr b bc h s

/-- A context as `blockif_open` leaves it, with its elements on the free queue from the last. -/
def World.start (reqs : ρ → BlockifReq) : World ρ where
  q :=
    { bcReqs := fun _ => ⟨none, .read, .free, 0⟩
      bcFreeq := (List.finRange blockifMaxreq).reverse
      bcPendq := []
      bcBusyq := []
      bcClosing := false }
  reqs := reqs
  worker := .loop
  errno := none
  ticket := fun _ => 0
  accepted := 0
  history := []

end World

end HyperCog.Blockif
