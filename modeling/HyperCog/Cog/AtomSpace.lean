import HyperCog.Lib.Run
import HyperCog.Lib.Text

/-!
The AtomSpace and the operations that keep it in step with the virtual machines. An atom's place
in the store is its age, and handles are counted without the wrap of 64 bits.
-/
namespace HyperCog.Cog

open Text List

def atomspaceMaxNodes : ℕ := 1024
def atomspaceMaxLinks : ℕ := 2048
def atomspaceNameMax : ℕ := 256
def enomem : ℕ := 12

inductive AtomType
  | node
  | link
  | concept
  | predicate
  | variableAtom
  | evaluation
  | inheritance
  | similarity
  deriving DecidableEq, Repr

/-- Two single-precision numbers, by their bits. -/
structure TruthValue where
  strength : UInt32
  confidence : UInt32
  deriving DecidableEq, Repr

structure AttentionValue where
  sti : Int16
  lti : Int16
  vlti : Int16
  deriving DecidableEq, Repr

def zeroF : UInt32 := 0
def oneF : UInt32 := 0x3f800000

/-- The values of a new atom. -/
def defaultTv : TruthValue := ⟨oneF, oneF⟩
def defaultAv : AttentionValue := ⟨0, 0, 0⟩

/-- The truth value of a virtual machine that is gone. -/
def destroyedTv : TruthValue := ⟨zeroF, oneF⟩

structure Atom where
  handle : ℕ
  type : AtomType
  name : CString
  tv : TruthValue
  av : AttentionValue
  outgoing : List ℕ
  timestamp : UInt64
  distributed : Bool
  name_fits : name.length < atomspaceNameMax
  deriving DecidableEq

/-- The store, oldest atom first. -/
structure Atomspace where
  atoms : List Atom
  atomCapacity : ℕ
  nextHandle : ℕ
  distributedMode : Bool
  count_le : atoms.length ≤ atomCapacity
  next_pos : 0 < nextHandle
  handle_pos : ∀ a ∈ atoms, 0 < a.handle
  handle_lt : ∀ a ∈ atoms, a.handle < nextHandle
  ordered : atoms.Pairwise fun a b => a.handle < b.handle
  uniform : ∀ a ∈ atoms, a.distributed = distributedMode
  deriving DecidableEq

def atomspaceInit (distributed : Bool) : Atomspace where
  atoms := []
  atomCapacity := atomspaceMaxNodes + atomspaceMaxLinks
  nextHandle := 1
  distributedMode := distributed
  count_le := Nat.zero_le _
  next_pos := Nat.one_pos
  handle_pos := forall_mem_nil _
  handle_lt := forall_mem_nil _
  ordered := .nil
  uniform := forall_mem_nil _

namespace Atomspace

/-- The atom takes the next slot and the next handle. -/
def push (as : Atomspace) (a : Atom) (hroom : as.atoms.length < as.atomCapacity)
    (hhandle : a.handle = as.nextHandle) (hmode : a.distributed = as.distributedMode) :
    Atomspace where
  atoms := as.atoms ++ [a]
  atomCapacity := as.atomCapacity
  nextHandle := as.nextHandle + 1
  distributedMode := as.distributedMode
  count_le := by simpa using hroom
  next_pos := Nat.succ_pos _
  handle_pos := List.forall_mem_append.mpr
    ⟨as.handle_pos, List.forall_mem_singleton.mpr (hhandle ▸ as.next_pos)⟩
  handle_lt := List.forall_mem_append.mpr
    ⟨fun b hb => Nat.lt_succ_of_lt (as.handle_lt b hb),
      List.forall_mem_singleton.mpr (hhandle ▸ Nat.lt_succ_self _)⟩
  ordered := List.pairwise_append.mpr ⟨as.ordered, pairwise_singleton _ _, fun b hb c hc => by
    rw [List.mem_singleton.mp hc, hhandle]
    exact as.handle_lt b hb⟩
  uniform := List.forall_mem_append.mpr ⟨as.uniform, List.forall_mem_singleton.mpr hmode⟩

/-- A handle is used up and no atom has it. -/
def skipHandle (as : Atomspace) : Atomspace where
  atoms := as.atoms
  atomCapacity := as.atomCapacity
  nextHandle := as.nextHandle + 1
  distributedMode := as.distributedMode
  count_le := as.count_le
  next_pos := Nat.succ_pos _
  handle_pos := as.handle_pos
  handle_lt := fun a ha => Nat.lt_succ_of_lt (as.handle_lt a ha)
  ordered := as.ordered
  uniform := as.uniform

/-- Atoms not yet stored before the space is full. -/
def room (as : Atomspace) : ℕ := as.atomCapacity - as.atoms.length

variable {f : Atom → Atom} {l : List Atom} {i : ℕ}

/-- A change of one atom shows in no projection that the change keeps. -/
theorem map_modify {β : Type} {g : Atom → β} (hf : ∀ a, g (f a) = g a) (l : List Atom) (i : ℕ) :
    (l.modify i f).map g = l.map g := by
  apply ext_getElem?
  intro j
  rw [List.getElem?_map, List.getElem?_map, List.getElem?_modify]
  cases l[j]? with
  | none => rfl
  | some a =>
    split
    · exact congrArg some (hf a)
    · rfl

theorem pairwise_modify (hf : ∀ a, (f a).handle = a.handle)
    (h : l.Pairwise fun a b => a.handle < b.handle) :
    (l.modify i f).Pairwise fun a b => a.handle < b.handle := by
  have hmap : ((l.modify i f).map Atom.handle).Pairwise (· < ·) := by
    rw [map_modify hf]
    exact pairwise_map.mpr h
  exact pairwise_map.mp hmap

theorem forall_mem_modify {p : Atom → Prop} (hf : ∀ a, p a → p (f a)) (h : ∀ a ∈ l, p a) :
    ∀ a ∈ l.modify i f, p a := by
  intro a ha
  obtain ⟨j, hj⟩ := mem_iff_getElem?.mp ha
  rw [List.getElem?_modify] at hj
  obtain ⟨b, hb, rfl⟩ := Option.map_eq_some_iff.mp hj
  split
  · exact hf b (h b (mem_of_getElem? hb))
  · exact h b (mem_of_getElem? hb)

/-- Other values for the atom at place `i`. -/
def modifyAt (as : Atomspace) (i : ℕ) (f : Atom → Atom) (hhandle : ∀ a, (f a).handle = a.handle)
    (hmode : ∀ a, a.distributed = as.distributedMode → (f a).distributed = as.distributedMode) :
    Atomspace where
  atoms := as.atoms.modify i f
  atomCapacity := as.atomCapacity
  nextHandle := as.nextHandle
  distributedMode := as.distributedMode
  count_le := by simpa using as.count_le
  next_pos := as.next_pos
  handle_pos := forall_mem_modify (fun a ha => (hhandle a).symm ▸ ha) as.handle_pos
  handle_lt := forall_mem_modify (fun a ha => (hhandle a).symm ▸ ha) as.handle_lt
  ordered := pairwise_modify hhandle as.ordered
  uniform := forall_mem_modify hmode as.uniform

end Atomspace

section Functions

variable (as : Atomspace)

def atomspaceGetAtom (handle : ℕ) : Option Atom :=
  if handle = 0 then none else as.atoms.find? fun a => a.handle = handle

/-- The atom that `atomspace_add_node` fills in. -/
def newNode (now : UInt64) (type : AtomType) (name : CString) : Atom where
  handle := as.nextHandle
  type := type
  name := name.truncate (atomspaceNameMax - 1)
  tv := defaultTv
  av := defaultAv
  outgoing := []
  timestamp := now
  distributed := as.distributedMode
  name_fits := Nat.lt_succ_of_le (CString.length_truncate_le _ _)

/-- The name of a link, from its handle. -/
def linkName (handle : ℕ) : CString :=
  snprintf atomspaceNameMax (⟨lit "Link-", by decide⟩ ++ CString.ofNat handle)

def newLink (now : UInt64) (type : AtomType) (outgoing : List ℕ) : Atom where
  handle := as.nextHandle
  type := type
  name := linkName as.nextHandle
  tv := defaultTv
  av := defaultAv
  outgoing := outgoing
  timestamp := now
  distributed := as.distributedMode
  name_fits := Nat.lt_succ_of_le (CString.length_truncate_le _ _)

/-- `atomspace_add_node`; 0 stands for failure. -/
def atomspaceAddNode (now : UInt64) (type : AtomType) (name : CString) : ℕ × Atomspace :=
  if hroom : as.atoms.length < as.atomCapacity then
    (as.nextHandle, as.push (newNode as now type name) hroom rfl rfl)
  else (0, as)

/-- `atomspace_add_link`. The handle is taken before the outgoing list is allocated. -/
def atomspaceAddLink (now : UInt64) (calloc : Bool) (type : AtomType) (outgoing : List ℕ) :
    ℕ × Atomspace :=
  if outgoing = [] then (0, as)
  else if hroom : as.atoms.length < as.atomCapacity then
    if calloc then (as.nextHandle, as.push (newLink as now type outgoing) hroom rfl rfl)
    else (0, as.skipHandle)
  else (0, as)

/-- The assignment of `atomspace_set_tv`, and the mark of the broadcast in distributed mode. -/
def withTv (tv : TruthValue) (a : Atom) : Atom :=
  { a with tv, distributed := a.distributed || as.distributedMode }

/-- The truth value of the first atom with the handle. -/
def atomspaceSetTv (handle : ℕ) (tv : TruthValue) : Atomspace :=
  match atomspaceGetAtom as handle with
  | none => as
  | some _ =>
    as.modifyAt (as.atoms.findIdx fun a => a.handle = handle) (withTv as tv) (fun _ => rfl)
      fun a ha => by simp [withTv, ha]

/-- The atoms whose name the pattern occurs in, oldest first. -/
def matching (pattern : CString) : List Atom := as.atoms.filter fun a => strstr a.name pattern

/-- Which of its three allocations `atomspace_query` is granted. -/
structure QueryHost where
  result : Bool
  temp : Bool
  handles : Bool
  deriving DecidableEq, Repr

/-- `none` is a null pointer. Without an array for the handles the count stays 0. -/
def atomspaceQuery (q : QueryHost) (pattern : CString) : Option (List ℕ) :=
  if !(q.result && q.temp) then none
  else some (if q.handles then (matching as pattern).map Atom.handle else [])

end Functions

def QueryHost.grants (q : QueryHost) : Bool := q.result && q.temp && q.handles

theorem atomspaceQuery_of_grants {as : Atomspace} {q : QueryHost} {pattern : CString}
    (h : q.grants = true) :
    atomspaceQuery as q pattern = some ((matching as pattern).map Atom.handle) := by
  simp_all [QueryHost.grants, atomspaceQuery]

theorem head?_atomspaceQuery (as : Atomspace) (q : QueryHost) (pattern : CString) :
    (atomspaceQuery as q pattern).bind head? =
      if q.grants then (matching as pattern).head?.map Atom.handle else none := by
  rw [atomspaceQuery, QueryHost.grants]
  cases q.result <;> cases q.temp <;> cases q.handles <;> simp

structure HypercogCtx where
  enabled : Bool
  atomspace : Atomspace
  deriving DecidableEq

def hypercogInit (distributed : Bool) : HypercogCtx := ⟨true, atomspaceInit distributed⟩

/-- Results of the host calls of one operation: the time that `hypercog_vm_created` reads, the
times of the three insertions, and whether the outgoing list could be allocated. -/
structure Host where
  now : Int64
  firstTime : UInt64
  secondTime : UInt64
  linkTime : UInt64
  calloc : Bool
  deriving DecidableEq, Repr

/-- Both operations that store something add two nodes and a link between them, and look at
the last handle alone. -/
def addEvaluation (h : Host) (as : Atomspace) (type₁ : AtomType) (name₁ : CString)
    (type₂ : AtomType) (name₂ : CString) : ℕ × Atomspace :=
  let first := atomspaceAddNode as h.firstTime type₁ name₁
  let second := atomspaceAddNode first.2 h.secondTime type₂ name₂
  atomspaceAddLink second.2 h.linkTime h.calloc .evaluation [first.1, second.1]

def vmName (vcpu : Int32) : CString :=
  snprintf 256 (⟨lit "VM-VCPU-", by decide⟩ ++ CString.ofInt vcpu.toInt)

def timestampText (now : Int64) : CString := snprintf 64 (CString.ofInt now.toInt)

/-- What `VM-%d:%s` stands for. -/
def vmKeyText (vcpu : Int32) (key : CString) : CString :=
  ⟨lit "VM-", by decide⟩ ++ CString.ofInt vcpu.toInt ++ ⟨lit ":", by decide⟩ ++ key

def vmKey (vcpu : Int32) (key : CString) : CString := snprintf 512 (vmKeyText vcpu key)

section Operations

variable (h : Host) (c : HypercogCtx) (q : QueryHost)

def hypercogVmCreated (vcpu : Int32) : ℕ × HypercogCtx :=
  if !c.enabled then (0, c)
  else
    let link := addEvaluation h c.atomspace .concept (vmName vcpu) .node (timestampText h.now)
    (if link.1 ≠ 0 then 0 else enomem, { c with atomspace := link.2 })

def hypercogVmDestroyed (vcpu : Int32) : HypercogCtx :=
  if !c.enabled then c
  else match (atomspaceQuery c.atomspace q (vmName vcpu)).bind head? with
    | none => c
    | some handle => { c with atomspace := atomspaceSetTv c.atomspace handle destroyedTv }

/-- `none` is a null pointer. -/
def hypercogAddVmKnowledge (vcpu : Int32) : Option CString → Option CString → ℕ × HypercogCtx
  | some key, some value =>
    if !c.enabled then (0, c)
    else
      let link := addEvaluation h c.atomspace .predicate (vmKey vcpu key) .concept value
      (link.1, { c with atomspace := link.2 })
  | _, _ => (0, c)

def hypercogQueryVmKnowledge (vcpu : Int32) : Option CString → ℕ
  | none => 0
  | some query =>
    if !c.enabled then 0
    else ((atomspaceQuery c.atomspace q (vmKey vcpu query)).bind head?).getD 0

end Operations

/-- A call of one of the four operations. -/
inductive HypercogCall
  | created (h : Host) (vcpu : Int32)
  | destroyed (q : QueryHost) (vcpu : Int32)
  | addKnowledge (h : Host) (vcpu : Int32) (key value : Option CString)
  | queryKnowledge (q : QueryHost) (vcpu : Int32) (query : Option CString)

/-- What the call leaves. No call can stop the process. -/
def hypercogStep (c : HypercogCtx) : HypercogCall → Except Empty HypercogCtx
  | .created h vcpu => .ok (hypercogVmCreated h c vcpu).2
  | .destroyed q vcpu => .ok (hypercogVmDestroyed c q vcpu)
  | .addKnowledge h vcpu key value => .ok (hypercogAddVmKnowledge h c vcpu key value).2
  | .queryKnowledge _ _ _ => .ok c

/-- A destroyed machine shows in no projection that leaves out the truth value and the mark. -/
theorem map_destroyed {β : Type} {g : Atom → β} (c : HypercogCtx) (q : QueryHost) (vcpu : Int32)
    (hg : ∀ a tv distributed, g { a with tv, distributed } = g a) :
    (hypercogVmDestroyed c q vcpu).atomspace.atoms.map g = c.atomspace.atoms.map g := by
  rw [hypercogVmDestroyed]
  split
  · rfl
  · split
    · rfl
    · rw [atomspaceSetTv]
      split
      · rfl
      · exact Atomspace.map_modify (fun a => hg a _ _) _ _

section Insertion

/-- The three atoms of an operation, with the handles that they get where all are stored. -/
def evaluationAtoms (h : Host) (as : Atomspace) (type₁ : AtomType) (name₁ : CString)
    (type₂ : AtomType) (name₂ : CString) : List Atom :=
  [newNode as h.firstTime type₁ name₁, newNode as.skipHandle h.secondTime type₂ name₂,
    newLink as.skipHandle.skipHandle h.linkTime .evaluation [as.nextHandle, as.nextHandle + 1]]

/-- How many of the three atoms are stored: a failed allocation costs the link. -/
def storedCount (h : Host) (as : Atomspace) : ℕ := min as.room (if h.calloc then 3 else 2)

theorem storedCount_le (h : Host) (as : Atomspace) : storedCount h as ≤ 3 := by
  rw [storedCount]
  split <;> omega

theorem room_eq_zero {as : Atomspace} : as.room = 0 ↔ ¬ as.atoms.length < as.atomCapacity := by
  rw [Atomspace.room]
  omega

variable (h : Host) (as : Atomspace) (type₁ : AtomType) (name₁ : CString) (type₂ : AtomType)
  (name₂ : CString)

section

attribute [local simp] addEvaluation atomspaceAddNode atomspaceAddLink Atomspace.push Atomspace.skipHandle storedCount
  evaluationAtoms newNode newLink

/-- What the three insertions do to the store, by the room that is left. -/
theorem addEvaluation_spec :
    let r := addEvaluation h as type₁ name₁ type₂ name₂
    r.1 = (if 3 ≤ as.room ∧ h.calloc then as.nextHandle + 2 else 0) ∧
      r.2.atoms = as.atoms ++ (evaluationAtoms h as type₁ name₁ type₂ name₂).take
        (storedCount h as) ∧
      r.2.nextHandle = as.nextHandle + min as.room 3 := by
  by_cases h₁ : as.atoms.length < as.atomCapacity
  · by_cases h₂ : as.atoms.length + 1 < as.atomCapacity
    · by_cases h₃ : as.atoms.length + 1 + 1 < as.atomCapacity
      · have hroom : 3 ≤ as.room := by rw [Atomspace.room]; omega
        cases hc : h.calloc with
        | true => simp [h₁, h₂, h₃, hc, hroom]
        | false =>
          have htwo : 2 ≤ as.room := by omega
          simp [h₁, h₂, h₃, hc, hroom, htwo]
      · have hroom : as.room = 2 := by rw [Atomspace.room]; omega
        cases hc : h.calloc <;> simp [h₁, h₂, h₃, hc, hroom]
    · have hroom : as.room = 1 := by rw [Atomspace.room]; omega
      cases hc : h.calloc <;> simp [h₁, h₂, hc, hroom]
  · have hroom : as.room = 0 := room_eq_zero.mpr h₁
    simp [h₁, hroom]

/-- The insertions change nothing in a space that is full. -/
theorem addEvaluation_full (hfull : as.room = 0) :
    addEvaluation h as type₁ name₁ type₂ name₂ = (0, as) := by
  have hroom := room_eq_zero.mp hfull
  simp [hroom]

end

/-- An operation that stores nothing leaves the whole space, and no other does. -/
theorem addEvaluation_snd_eq_iff :
    (addEvaluation h as type₁ name₁ type₂ name₂).2 = as ↔ as.room = 0 := by
  constructor
  · intro he
    by_contra hroom
    obtain ⟨-, -, hnext⟩ := addEvaluation_spec h as type₁ name₁ type₂ name₂
    rw [he] at hnext
    omega
  · intro hfull
    rw [addEvaluation_full h as type₁ name₁ type₂ name₂ hfull]

theorem addEvaluation_fst_ne_zero_iff :
    (addEvaluation h as type₁ name₁ type₂ name₂).1 ≠ 0 ↔ 3 ≤ as.room ∧ h.calloc := by
  rw [(addEvaluation_spec h as type₁ name₁ type₂ name₂).1]
  split
  · rename_i hok
    exact ⟨fun _ => hok, fun _ => Nat.succ_ne_zero _⟩
  · rename_i hno
    exact ⟨fun hne => absurd rfl hne, fun hok => absurd hok hno⟩

/-- A failed operation leaves the space as it was if and only if the space was full before,
or has room for all three atoms and the link can be allocated: then it does not fail. -/
theorem addEvaluation_atomic_iff : ((addEvaluation h as type₁ name₁ type₂ name₂).1 = 0 →
      (addEvaluation h as type₁ name₁ type₂ name₂).2 = as) ↔
      as.room = 0 ∨ (3 ≤ as.room ∧ h.calloc) := by
  rw [addEvaluation_snd_eq_iff, ← addEvaluation_fst_ne_zero_iff h as type₁ name₁ type₂ name₂]
  tauto

end Insertion

section Atomicity

variable (h : Host) (c : HypercogCtx) (vcpu : Int32)

/-- Which calls are all-or-nothing: those that do nothing at all, those on a full space, and
those that succeed. -/
theorem operations_atomic_iff (key value : Option CString) : (((hypercogVmCreated h c vcpu).1 ≠ 0 →
        (hypercogVmCreated h c vcpu).2.atomspace = c.atomspace) ↔
      c.enabled = false ∨ c.atomspace.room = 0 ∨ (3 ≤ c.atomspace.room ∧ h.calloc)) ∧
    (((hypercogAddVmKnowledge h c vcpu key value).1 = 0 →
        (hypercogAddVmKnowledge h c vcpu key value).2.atomspace = c.atomspace) ↔
      c.enabled = false ∨ key = none ∨ value = none ∨ c.atomspace.room = 0 ∨
        (3 ≤ c.atomspace.room ∧ h.calloc)) := by
  constructor
  · rw [hypercogVmCreated]
    cases hen : c.enabled with
    | false => simp
    | true =>
      rw [← addEvaluation_atomic_iff h c.atomspace .concept (vmName vcpu) .node
        (timestampText h.now)]
      simp [enomem]
  · cases key with
    | none => simp [hypercogAddVmKnowledge]
    | some key =>
      cases value with
      | none => simp [hypercogAddVmKnowledge]
      | some value =>
        rw [hypercogAddVmKnowledge]
        cases hen : c.enabled with
        | false => simp
        | true =>
          rw [← addEvaluation_atomic_iff h c.atomspace .predicate (vmKey vcpu key) .concept value]
          simp

/-- A space with `n` nodes of the same name. -/
def filled : ℕ → Atomspace
  | 0 => atomspaceInit false
  | n + 1 => (atomspaceAddNode (filled n) 0 .concept ⟨lit "x", by decide⟩).2

theorem filled_size (n : ℕ) :
    (filled n).atomCapacity = 3072 ∧ (filled n).atoms.length = min n 3072 := by
  induction n with
  | zero => exact ⟨rfl, rfl⟩
  | succ n ih =>
    rw [filled, atomspaceAddNode]
    split
    · simp only [Atomspace.push, length_append, length_singleton]
      omega
    · dsimp only
      omega

/-- With room for one atom the node of the virtual machine stays behind and the call fails. -/
theorem vm_created_of_room_one (hen : c.enabled = true) (hroom : c.atomspace.room = 1) :
    (hypercogVmCreated h c vcpu).1 = enomem ∧
      (hypercogVmCreated h c vcpu).2.atomspace ≠ c.atomspace := by
  have hpart := mt (addEvaluation_atomic_iff h c.atomspace .concept (vmName vcpu) .node
    (timestampText h.now)).mp (by omega)
  obtain ⟨hzero, hne⟩ := Classical.not_imp.mp hpart
  simp [hypercogVmCreated, hen, hzero, hne]

/-- One atom short of capacity: the call reports ENOMEM and has stored the node. -/
theorem vm_created_leaves_node :
    ∃ c : HypercogCtx, c.atomspace.atomCapacity = 3072 ∧ c.atomspace.atoms.length = 3071 ∧
      (hypercogVmCreated ⟨0, 0, 0, 0, true⟩ c 0).1 = enomem ∧
      (hypercogVmCreated ⟨0, 0, 0, 0, true⟩ c 0).2.atomspace ≠ c.atomspace := by
  obtain ⟨hcap, hlen⟩ := filled_size 3071
  generalize filled 3071 = as at hcap hlen
  have hroom : as.room = 1 := by
    rw [Atomspace.room]
    omega
  exact ⟨⟨true, as⟩, hcap, hlen, vm_created_of_room_one _ ⟨true, as⟩ 0 rfl hroom⟩

end Atomicity

/-- Every target of every link is the handle of an atom that is older than the link. -/
def LinksResolve (as : Atomspace) : Prop :=
  ∀ i link, as.atoms[i]? = some link → ∀ handle ∈ link.outgoing,
    handle ≠ 0 ∧ ∃ a, atomspaceGetAtom as handle = some a ∧ a ∈ as.atoms.take i

/-- What matters of an atom to the links between atoms. -/
def ends (a : Atom) : ℕ × List ℕ := (a.handle, a.outgoing)

/-- Each entry only names handles of entries before it. -/
def Backward (l : List (ℕ × List ℕ)) : Prop :=
  ∀ i e, l[i]? = some e → ∀ handle ∈ e.2, handle ∈ (l.take i).map Prod.fst

variable {as : Atomspace} {l : List (ℕ × List ℕ)} {c d : HypercogCtx}

theorem Backward.snoc {e : ℕ × List ℕ} (hl : Backward l) (he : ∀ x ∈ e.2, x ∈ l.map Prod.fst) :
    Backward (l ++ [e]) := by
  intro i e' hi x hx
  obtain ⟨hlt, -⟩ := List.getElem?_eq_some_iff.mp hi
  rw [length_append, length_singleton] at hlt
  by_cases hold : i < l.length
  · rw [List.getElem?_append_left hold] at hi
    rw [take_append_of_le_length (Nat.le_of_lt hold)]
    exact hl i e' hi x hx
  · have hlast : i = l.length := by omega
    subst hlast
    rw [List.getElem?_append_right (Nat.le_refl _), Nat.sub_self] at hi
    cases hi
    rw [take_left]
    exact he x hx

/-- Handles are unique, so a handle that some atom has finds this atom. -/
theorem getAtom_of_mem {a : Atom} (ha : a ∈ as.atoms) : atomspaceGetAtom as a.handle = some a := by
  have hpos := as.handle_pos a ha
  rw [atomspaceGetAtom, if_neg (by omega)]
  obtain ⟨l₁, l₂, hsplit⟩ := append_of_mem ha
  have hord := as.ordered
  rw [hsplit, pairwise_append] at hord
  have hbefore : ∀ b ∈ l₁, ¬ decide (b.handle = a.handle) = true := by
    intro b hb he
    have hlt := hord.2.2 b hb a mem_cons_self
    simp only [decide_eq_true_eq] at he
    omega
  rw [hsplit, List.find?_append, List.find?_eq_none.mpr hbefore]
  simp

theorem linksResolve_of_backward (h : Backward (as.atoms.map ends)) : LinksResolve as := by
  intro i link hi handle hmem
  have hback := h i (ends link) (by rw [List.getElem?_map, hi]; rfl) handle hmem
  rw [← map_take, map_map] at hback
  obtain ⟨a, ha, rfl⟩ := mem_map.mp hback
  have hatoms := mem_of_mem_take ha
  exact ⟨Nat.ne_of_gt (as.handle_pos a hatoms), a, getAtom_of_mem hatoms, ha⟩

/-- The link of an operation names the two nodes that were stored before it. -/
theorem backward_addEvaluation {h : Host} {type₁ type₂ : AtomType} {name₁ name₂ : CString}
    (hb : Backward (as.atoms.map ends)) :
    Backward ((addEvaluation h as type₁ name₁ type₂ name₂).2.atoms.map ends) := by
  obtain ⟨-, hatoms, -⟩ := addEvaluation_spec h as type₁ name₁ type₂ name₂
  have hone := hb.snoc (e := (as.nextHandle, [])) (forall_mem_nil _)
  have htwo := hone.snoc (e := (as.nextHandle + 1, [])) (forall_mem_nil _)
  have hthree := htwo.snoc (e := (as.nextHandle + 2, [as.nextHandle, as.nextHandle + 1]))
    (by simp)
  rw [hatoms]
  -- a link is only reached when both of its nodes have found room
  match hk : storedCount h as, storedCount_le h as with
  | 0, _ => simpa using hb
  | 1, _ => simpa [evaluationAtoms, ends, newNode] using hone
  | 2, _ => simpa [evaluationAtoms, ends, newNode, Atomspace.skipHandle] using htwo
  | 3, _ => simpa [evaluationAtoms, ends, newNode, newLink, Atomspace.skipHandle] using hthree

theorem backward_step {call : HypercogCall} (hstep : hypercogStep c call = .ok d)
    (hb : Backward (c.atomspace.atoms.map ends)) : Backward (d.atomspace.atoms.map ends) := by
  cases call with
  | created h vcpu =>
    cases hstep
    rw [hypercogVmCreated]
    split
    · exact hb
    · exact backward_addEvaluation hb
  | destroyed q vcpu =>
    cases hstep
    exact (map_destroyed (g := ends) c q vcpu fun _ _ _ => rfl).symm ▸ hb
  | addKnowledge h vcpu key value =>
    cases hstep
    rw [hypercogAddVmKnowledge.eq_def]
    split
    · split
      · exact hb
      · exact backward_addEvaluation hb
    · exact hb
  | queryKnowledge q vcpu query =>
    cases hstep
    exact hb

/-- No run of the operations leaves a link that names a missing or a younger atom. -/
theorem links_resolve {distributed : Bool} {calls : List HypercogCall}
    (hrun : Machine.Run hypercogStep Machine.Any (hypercogInit distributed) calls c) :
    LinksResolve c.atomspace :=
  linksResolve_of_backward (hrun.invariant (I := fun c => Backward (c.atomspace.atoms.map ends))
    (fun _ _ _ _ hstep hb => backward_step hstep hb) nofun)

/-- A machine is created, given a fact whose link cannot be allocated, and destroyed. -/
def someCalls : List HypercogCall :=
  [.created ⟨7, 7, 7, 7, true⟩ 0,
    .addKnowledge ⟨0, 8, 8, 8, false⟩ 0 (some ⟨lit "name", by decide⟩) (some ⟨lit "a", by decide⟩),
    .addKnowledge ⟨0, 9, 9, 9, true⟩ 0 (some ⟨lit "name", by decide⟩) (some ⟨lit "a", by decide⟩),
    .queryKnowledge ⟨true, true, true⟩ 0 (some ⟨lit "name", by decide⟩),
    .destroyed ⟨true, true, true⟩ 0]

theorem links_resolve_some_calls :
    ∃ c, Machine.Run hypercogStep Machine.Any (hypercogInit false) someCalls c ∧
      c.atomspace.atoms.map ends =
        [(1, []), (2, []), (3, [1, 2]), (4, []), (5, []), (7, []), (8, []), (9, [7, 8])] ∧
      LinksResolve c.atomspace := by
  have hok : (Machine.exec hypercogStep (hypercogInit false) someCalls).isOk = true := by
    decide +kernel
  have hrun := Machine.run_of_isOk (d := hypercogInit false) hok
  exact ⟨_, hrun, by decide +kernel, links_resolve hrun⟩

end HyperCog.Cog
