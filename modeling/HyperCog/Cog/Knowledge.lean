import HyperCog.Cog.AtomSpace

/-! Lookups by name in runs of the operations: where each stored name comes from, and which one a search meets first. -/
namespace HyperCog.Cog

open Text Machine List Option

/-- What an atom was stored for. -/
inductive Origin
  | vm (vcpu : Int32)
  | stamp (now : Int64)
  | vmLink (handle : ℕ)
  | key (vcpu : Int32) (key : CString)
  | value (vcpu : Int32) (key value : CString)
  | factLink (vcpu : Int32) (key : CString) (handle : ℕ)
  deriving DecidableEq

namespace Origin

/-- The name that such an atom has in the store. -/
def text : Origin → CString
  | vm vcpu => (vmName vcpu).truncate (atomspaceNameMax - 1)
  | stamp now => (timestampText now).truncate (atomspaceNameMax - 1)
  | vmLink handle => linkName handle
  | key vcpu k => (vmKey vcpu k).truncate (atomspaceNameMax - 1)
  | value _ _ v => v.truncate (atomspaceNameMax - 1)
  | factLink _ _ handle => linkName handle

/-- The id and the key of the call of `hypercog_add_vm_knowledge` that stored the atom. -/
def fact : Origin → Option (Int32 × CString)
  | key vcpu k => some (vcpu, k)
  | value vcpu k _ => some (vcpu, k)
  | factLink vcpu k _ => some (vcpu, k)
  | _ => none

end Origin

/-- The context with what its atoms were stored for, and the facts that were added with success. -/
structure World where
  ctx : HypercogCtx
  origins : List Origin
  known : List (Int32 × CString)

def World.atoms (w : World) : List Atom := w.ctx.atomspace.atoms

/-- The atoms that a call asks for, in the order of its insertions. -/
def asked (c : HypercogCtx) : HypercogCall → List Origin
  | .created h vcpu => [.vm vcpu, .stamp h.now, .vmLink (c.atomspace.nextHandle + 2)]
  | .addKnowledge _ vcpu (some k) (some v) =>
    [.key vcpu k, .value vcpu k v, .factLink vcpu k (c.atomspace.nextHandle + 2)]
  | _ => []

/-- The fact that a call adds: it returned a handle. -/
def learned (c : HypercogCtx) : HypercogCall → List (Int32 × CString)
  | .addKnowledge h vcpu (some k) v =>
    if (hypercogAddVmKnowledge h c vcpu (some k) v).1 ≠ 0 then [(vcpu, k)] else []
  | _ => []

def worldInit (distributed : Bool) : World := ⟨hypercogInit distributed, [], []⟩

/-- As many origins as atoms were stored. -/
def worldStep (w : World) (call : HypercogCall) : Except Empty World :=
  (hypercogStep w.ctx call).map fun c =>
    { ctx := c
      origins := w.origins ++ (asked w.ctx call).take (c.atomspace.atoms.length - w.atoms.length)
      known := w.known ++ learned w.ctx call }

/-- The composed name of a key fits the name field of an atom. -/
def NameFits (vcpu : Int32) (key : CString) : Prop := (vmKeyText vcpu key).length < atomspaceNameMax

instance (vcpu : Int32) (key : CString) : Decidable (NameFits vcpu key) :=
  inferInstanceAs (Decidable (_ < _))

def Origin.Fits : Origin → Prop
  | .key vcpu k => NameFits vcpu k
  | _ => True

instance : DecidablePred Origin.Fits := fun o =>
  match o with
  | .key vcpu k => inferInstanceAs (Decidable (NameFits vcpu k))
  | .vm _ | .stamp _ | .vmLink _ | .value _ _ _ | .factLink _ _ _ => .isTrue trivial

/-- The keys that the call is to store fit the name field. -/
def KeyFits (w : World) (call : HypercogCall) : Prop := ∀ o ∈ asked w.ctx call, o.Fits

instance (w : World) : DecidablePred (KeyFits w) := fun call =>
  inferInstanceAs (Decidable (∀ o ∈ asked w.ctx call, o.Fits))

/-- Every atom has the name of its origin, and every fact has a key among the origins. -/
structure Labelled (w : World) : Prop where
  enabled : w.ctx.enabled = true
  names : w.atoms.map Atom.name = w.origins.map Origin.text
  keys : ∀ f ∈ w.known, Origin.key f.1 f.2 ∈ w.origins

variable {w u : World} {as : Atomspace} {vcpu v : Int32} {k key : CString} {i j : ℕ} {call : HypercogCall}
  {a b : Atom}
  {q : QueryHost}

theorem labelled_init (distributed : Bool) : Labelled (worldInit distributed) :=
  ⟨rfl, rfl, forall_mem_nil _⟩

/-- Three atoms of the given names are asked for, and the first of them are stored. -/
theorem names_addEvaluation (h : Host) (type₁ : AtomType) (name₁ : CString)
    (type₂ : AtomType) (name₂ : CString) {os os' : List Origin}
    (hnames : as.atoms.map Atom.name = os.map Origin.text)
    (hnew : (evaluationAtoms h as type₁ name₁ type₂ name₂).map Atom.name = os'.map Origin.text) :
    (addEvaluation h as type₁ name₁ type₂ name₂).2.atoms.map Atom.name =
      (os ++ os'.take ((addEvaluation h as type₁ name₁ type₂ name₂).2.atoms.length -
        as.atoms.length)).map Origin.text := by
  obtain ⟨-, hatoms, -⟩ := addEvaluation_spec h as type₁ name₁ type₂ name₂
  have hle := storedCount_le h as
  have hlen : (addEvaluation h as type₁ name₁ type₂ name₂).2.atoms.length - as.atoms.length =
      storedCount h as := by
    rw [hatoms, length_append, length_take]
    simp only [evaluationAtoms, length_cons, length_nil]
    omega
  rw [hlen, hatoms, map_append, map_append, map_take, map_take, hnames, hnew]

theorem enabled_destroyed (c : HypercogCtx) (q : QueryHost) (vcpu : Int32) :
    (hypercogVmDestroyed c q vcpu).enabled = c.enabled := by
  rw [hypercogVmDestroyed]
  split
  · rfl
  · split <;> rfl

/-- A fact is only learned when its key is among the atoms stored. -/
theorem key_mem_of_addKnowledge {h : Host} {c : HypercogCtx} {v : CString}
    (hen : c.enabled = true) (hok : (hypercogAddVmKnowledge h c vcpu (some k) (some v)).1 ≠ 0) :
    0 < (hypercogAddVmKnowledge h c vcpu (some k) (some v)).2.atomspace.atoms.length -
      c.atomspace.atoms.length := by
  have hne : (addEvaluation h c.atomspace .predicate (vmKey vcpu k) .concept v).1 ≠ 0 := by
    simpa [hypercogAddVmKnowledge, hen] using hok
  obtain ⟨hroom, hcalloc⟩ := (addEvaluation_fst_ne_zero_iff _ _ _ _ _ _).mp hne
  obtain ⟨-, hatoms, -⟩ := addEvaluation_spec h c.atomspace .predicate (vmKey vcpu k) .concept v
  have hthree : storedCount h c.atomspace = 3 := by
    rw [storedCount, if_pos hcalloc]
    omega
  rw [hthree] at hatoms
  simp [hypercogAddVmKnowledge, hen, hatoms, evaluationAtoms]

theorem Labelled.of_kept (hw : Labelled w) (hen : u.ctx.enabled = true)
    (hnames : u.atoms.map Atom.name = w.atoms.map Atom.name) (horigins : u.origins = w.origins)
    (hknown : u.known = w.known) : Labelled u := by
  refine ⟨hen, ?_, ?_⟩
  · rw [hnames, horigins, hw.names]
  · rw [hknown, horigins]
    exact hw.keys

theorem labelled_step (hstep : worldStep w call = .ok u) (hw : Labelled w) : Labelled u := by
  cases call with
  | created h vcpu =>
    cases hstep
    refine ⟨?_, ?_, ?_⟩
    · simp [hypercogVmCreated, hw.enabled]
    · have hnames := names_addEvaluation h .concept (vmName vcpu) .node (timestampText h.now)
        hw.names (show _ = (asked w.ctx (.created h vcpu)).map Origin.text from rfl)
      simpa [World.atoms, hypercogVmCreated, hw.enabled] using hnames
    · intro f hf
      have hold : f ∈ w.known := by simpa [learned] using hf
      exact mem_append_left _ (hw.keys f hold)
  | destroyed q vcpu =>
    cases hstep
    exact hw.of_kept ((enabled_destroyed w.ctx q vcpu).trans hw.enabled)
      (map_destroyed w.ctx q vcpu fun _ _ _ => rfl)
      (by simp [asked]) (by simp [learned])
  | addKnowledge h vcpu key value =>
    cases key with
    | none =>
      cases hstep
      exact hw.of_kept hw.enabled rfl (by simp [asked]) (by simp [learned])
    | some k =>
      cases value with
      | none =>
        cases hstep
        exact hw.of_kept hw.enabled rfl (by simp [asked]) (by simp [learned, hypercogAddVmKnowledge])
      | some v =>
        cases hstep
        refine ⟨?_, ?_, ?_⟩
        · simp [hypercogAddVmKnowledge, hw.enabled]
        · have hnames := names_addEvaluation h .predicate (vmKey vcpu k) .concept v hw.names
            (show _ = (asked w.ctx (.addKnowledge h vcpu (some k) (some v))).map Origin.text from rfl)
          simpa [World.atoms, hypercogAddVmKnowledge, hw.enabled] using hnames
        · intro f hf
          rcases mem_append.mp hf with hold | hnew
          · exact mem_append_left _ (hw.keys f hold)
          · rw [learned] at hnew
            split at hnew
            · rename_i hok
              cases mem_singleton.mp hnew
              have hpos := key_mem_of_addKnowledge hw.enabled hok
              obtain ⟨n, hn⟩ := Nat.exists_eq_succ_of_ne_zero (Nat.ne_of_gt hpos)
              refine mem_append_right _ ?_
              rw [World.atoms, hn]
              exact mem_cons_self
            · cases hnew
  | queryKnowledge q vcpu query =>
    cases hstep
    exact hw.of_kept hw.enabled rfl (by simp [asked]) (by simp [learned])

theorem keysFit_step (hfits : KeyFits w call) (hstep : worldStep w call = .ok u)
    (hw : ∀ o ∈ w.origins, o.Fits) : ∀ o ∈ u.origins, o.Fits := by
  obtain ⟨c, hc⟩ : ∃ c, hypercogStep w.ctx call = .ok c := by
    cases call <;> exact ⟨_, rfl⟩
  rw [worldStep, hc] at hstep
  cases hstep
  exact forall_mem_append.mpr ⟨hw, fun o ho => hfits o (mem_of_mem_take ho)⟩

theorem vmKeyText_bytes (vcpu : Int32) (key : CString) : (vmKeyText vcpu key).bytes =
    86 :: 77 :: 45 :: (intText vcpu.toInt ++ 58 :: key.bytes) := by
  have hvm : lit "VM-" = [86, 77, 45] := by decide
  have hcolon : lit ":" = [58] := by decide
  simp [vmKeyText, hvm, hcolon]

theorem length_int32Text_le (v : Int32) : (intText v.toInt).length ≤ 11 := by
  have hlo := v.le_toInt
  have hhi := v.toInt_lt
  exact length_intText_le (by decide) (by omega)

theorem vmName_eq (vcpu : Int32) :
    vmName vcpu = ⟨lit "VM-VCPU-", by decide⟩ ++ CString.ofInt vcpu.toInt := by
  refine CString.truncate_of_length_le ?_
  have hlen := length_int32Text_le vcpu
  have hlit : (lit "VM-VCPU-").length = 8 := rfl
  simp only [CString.length, CString.append_bytes, length_append, CString.ofInt_bytes, hlit]
  omega

theorem vmName_bytes (vcpu : Int32) : (vmName vcpu).bytes =
    86 :: 77 :: 45 :: 86 :: 67 :: 80 :: 85 :: 45 :: intText vcpu.toInt := by
  rw [vmName_eq]
  rfl

theorem length_vmName_le (vcpu : Int32) : (vmName vcpu).length ≤ atomspaceNameMax - 1 :=
  CString.length_truncate_le _ _

/-- The composed key with nothing cut off. -/
theorem vmKey_of_fits (h : NameFits vcpu key) : vmKey vcpu key = vmKeyText vcpu key :=
  CString.truncate_of_length_le (Nat.le_of_lt (Nat.lt_trans h (by decide)))

theorem text_key_of_fits (h : NameFits vcpu key) :
    (Origin.key vcpu key).text = vmKeyText vcpu key := by
  rw [Origin.text, vmKey_of_fits h]
  exact CString.truncate_of_length_le (Nat.le_pred_of_lt h)

/-- The name holds no text of a caller: it is made of a number. -/
def Origin.numbered : Origin → Bool
  | .stamp _ | .vmLink _ | .factLink _ _ _ => true
  | .vm _ | .key _ _ | .value _ _ _ => false

/-- A byte that is no sign and no digit, and not in "Link-", is in no such name. -/
theorem not_mem_numbered {b : UInt8} {o : Origin} (ho : o.numbered = true) (hlit : b ∉ lit "Link-")
    (hminus : b ≠ 45) (hdigit : ¬ IsDigit b) : b ∉ o.text.bytes := by
  have hlink : ∀ handle, b ∉ (linkName handle).bytes := by
    intro handle h
    rcases mem_append.mp (mem_of_mem_take h) with h | h
    · exact hlit h
    · exact hdigit (isDigit_of_mem_natText h)
  cases o with
  | stamp now =>
    exact fun h => not_mem_intText hminus hdigit (mem_of_mem_take (mem_of_mem_take h))
  | vmLink handle | factLink _ _ handle => exact hlink handle
  | vm | key | value => cases ho

/-- Where the composed name of a key occurs: at the head of a key of the same id that extends it,
or inside a key or a value. -/
def KeyOccurs (vcpu : Int32) (key : CString) : Origin → Prop
  | .key v k => (v = vcpu ∧ key.bytes <+: k.bytes) ∨ (vmKeyText vcpu key).bytes <:+: k.bytes
  | .value _ _ x => (vmKeyText vcpu key).bytes <:+: x.bytes.take (atomspaceNameMax - 1)
  | _ => False

/-- Where the name of a machine's node occurs: in that of every id whose decimal text starts with
the same digits, or inside a key or a value. -/
def VmOccurs (vcpu : Int32) : Origin → Prop
  | .vm v => intText vcpu.toInt <+: intText v.toInt
  | .key v k => (vmName vcpu).bytes <:+: (Origin.key v k).text.bytes
  | .value v k x => (vmName vcpu).bytes <:+: (Origin.value v k x).text.bytes
  | _ => False

instance (vcpu : Int32) (key : CString) : DecidablePred (KeyOccurs vcpu key) := fun o =>
  match o with
  | .key _ _ => inferInstanceAs (Decidable (_ ∨ _))
  | .value _ _ _ => inferInstanceAs (Decidable (_ <:+: _))
  | .vm _ | .stamp _ | .vmLink _ | .factLink _ _ _ => .isFalse id

instance (vcpu : Int32) : DecidablePred (VmOccurs vcpu) := fun o =>
  match o with
  | .vm _ => inferInstanceAs (Decidable (_ <+: _))
  | .key _ _ | .value _ _ _ => inferInstanceAs (Decidable (_ <:+: _))
  | .stamp _ | .vmLink _ | .factLink _ _ _ => .isFalse id

/-- An occurrence in a key starts at the head, where the ids are compared up to the colon, or
after the colon: only there can the letter V stand again. -/
theorem infix_vmKeyText_iff : (vmKeyText vcpu key).bytes <:+: (vmKeyText v k).bytes ↔
    KeyOccurs vcpu key (.key v k) := by
  have hcolon : ∀ w : Int32, 58 ∉ intText w.toInt := fun w =>
    not_mem_intText (by decide) (by decide)
  have hV : 86 ∉ 77 :: 45 :: (intText v.toInt ++ [58]) := by
    have hint : 86 ∉ intText v.toInt := not_mem_intText (by decide) (by decide)
    simp [hint]
  have hhead : (vmKeyText vcpu key).bytes <+: (vmKeyText v k).bytes ↔
      v = vcpu ∧ key.bytes <+: k.bytes := by
    rw [vmKeyText_bytes, vmKeyText_bytes, cons_prefix_cons, cons_prefix_cons,
      cons_prefix_cons, append_cons_prefix_iff (hcolon vcpu) (hcolon v),
      intText_injective.eq_iff, Int32.toInt_inj]
    simp [eq_comm]
  have hrest : (vmKeyText vcpu key).bytes <:+: 77 :: 45 :: (intText v.toInt ++ 58 :: k.bytes) ↔
      (vmKeyText vcpu key).bytes <:+: k.bytes := by
    have hsplit : 77 :: 45 :: (intText v.toInt ++ 58 :: k.bytes) =
        (77 :: 45 :: (intText v.toInt ++ [58])) ++ k.bytes := by simp
    rw [hsplit, vmKeyText_bytes vcpu key, infix_append_of_not_mem hV]
  rw [KeyOccurs, ← hhead, ← hrest, vmKeyText_bytes v k]
  exact infix_cons_iff

theorem strstr_text_iff_key (hfit : NameFits vcpu key) (o : Origin) (ho : o.Fits) :
    strstr o.text (vmKey vcpu key) = true ↔ KeyOccurs vcpu key o := by
  have hcolon : 58 ∈ (vmKeyText vcpu key).bytes := by simp [vmKeyText_bytes]
  rw [strstr, decide_eq_true_eq, vmKey_of_fits hfit]
  cases o with
  | vm v =>
    refine iff_of_false (not_infix_of_not_mem hcolon fun h => ?_) id
    have hmem := mem_of_mem_take h
    rw [vmName_bytes] at hmem
    have hint : 58 ∉ intText v.toInt := not_mem_intText (by decide) (by decide)
    simp [hint] at hmem
  | stamp | vmLink | factLink =>
    exact iff_of_false (not_infix_of_not_mem hcolon
      (not_mem_numbered rfl (by decide) (by decide) (by decide))) id
  | key v k =>
    rw [text_key_of_fits ho]
    exact infix_vmKeyText_iff
  | value v k x => exact Iff.rfl

/-- An occurrence among the names of machines starts at the head. -/
theorem infix_vmName_iff : (vmName vcpu).bytes <:+: (vmName v).bytes ↔
    intText vcpu.toInt <+: intText v.toInt := by
  have hint : 86 ∉ intText v.toInt := not_mem_intText (by decide) (by decide)
  have hrest : ¬ (vmName vcpu).bytes <:+:
      [77, 45] ++ (86 :: 67 :: 80 :: 85 :: 45 :: intText v.toInt) := by
    rw [vmName_bytes, infix_append_of_not_mem (by decide), infix_cons_iff]
    rintro (h | h)
    · simp at h
    · exact not_infix_of_not_mem mem_cons_self (by simp [hint]) h
  rw [vmName_bytes v, infix_cons_iff]
  constructor
  · rintro (h | h)
    · rw [vmName_bytes] at h
      simpa using h
    · exact absurd h hrest
  · intro h
    rw [vmName_bytes]
    exact .inl (by simpa using h)

theorem strstr_text_iff_vm (vcpu : Int32) (o : Origin) :
    strstr o.text (vmName vcpu) = true ↔ VmOccurs vcpu o := by
  have hV : 86 ∈ (vmName vcpu).bytes := by simp [vmName_bytes]
  rw [strstr, decide_eq_true_eq]
  cases o with
  | vm v =>
    rw [Origin.text, CString.truncate_of_length_le (length_vmName_le v)]
    exact infix_vmName_iff
  | stamp | vmLink | factLink =>
    exact iff_of_false (not_infix_of_not_mem hV
      (not_mem_numbered rfl (by decide) (by decide) (by decide))) id
  | key | value => exact Iff.rfl

theorem findIdx?_congr {α : Type} {p q : α → Bool} {l : List α} (h : ∀ a ∈ l, p a = q a) :
    l.findIdx? p = l.findIdx? q := by
  induction l with
  | nil => rfl
  | cons x l ih =>
    rw [findIdx?_cons, findIdx?_cons, h x mem_cons_self, ih fun a ha => h a (mem_cons_of_mem x ha)]

theorem place_unique (hi : as.atoms[i]? = some a) (hj : as.atoms[j]? = some b)
    (hab : a.handle = b.handle) : i = j := by
  have hnodup : (as.atoms.map Atom.handle).Nodup :=
    pairwise_map.mpr (as.ordered.imp Nat.ne_of_lt)
  obtain ⟨hlt, -⟩ := List.getElem?_eq_some_iff.mp hi
  refine (List.getElem?_inj (by simpa using hlt) hnodup).mp ?_
  rw [List.getElem?_map, List.getElem?_map, hi, hj, map_some, map_some, hab]

theorem findIdx_handle (hi : as.atoms[i]? = some a) :
    as.atoms.findIdx (fun b => b.handle = a.handle) = i := by
  obtain ⟨hil, rfl⟩ := List.getElem?_eq_some_iff.mp hi
  rw [findIdx_eq hil]
  refine ⟨by simp, fun j hj => ?_⟩
  have hlt := pairwise_iff_getElem.mp as.ordered j i (by omega) hil hj
  simp only [decide_eq_false_iff_not]
  omega

/-- Setting a truth value touches the one atom with the handle. -/
theorem getElem?_setTv (tv : TruthValue) (hi : as.atoms[i]? = some a) (j : ℕ) :
    (atomspaceSetTv as a.handle tv).atoms[j]? =
      as.atoms[j]?.map fun b => if i = j then { b with tv } else b := by
  have hmem := mem_of_getElem? hi
  have hmode : ∀ b ∈ as.atoms, withTv as tv b = { b with tv } := by
    intro b hb
    simp [withTv, as.uniform b hb]
  rw [atomspaceSetTv, getAtom_of_mem hmem]
  dsimp only [Atomspace.modifyAt]
  rw [findIdx_handle hi, List.getElem?_modify]
  cases hj : as.atoms[j]? with
  | none => simp
  | some b =>
    have hb := hmode b (mem_of_getElem? hj)
    simp [hb]

/-- A query lists the oldest atom with the pattern first, which is the oldest origin with it. -/
theorem head?_matching {pattern : CString} {p : Origin → Prop} [DecidablePred p]
    (hw : Labelled w) (hp : ∀ o ∈ w.origins, strstr o.text pattern = true ↔ p o) :
    (matching w.ctx.atomspace pattern).head? = (w.origins.findIdx? (p ·)).bind (w.atoms[·]?) := by
  have hplace := congrArg (findIdx? fun t => strstr t pattern) hw.names
  rw [findIdx?_map, findIdx?_map,
    findIdx?_congr (q := fun o => p o) fun o ho => by simp [← hp o ho]] at hplace
  rw [← hplace, matching, head?_filter, List.find?_eq_bind_findIdx?_getElem?]
  rfl

/-- Every place of an origin is that of an atom. -/
theorem exists_atom {p : Origin → Bool} (hw : Labelled w) (hi : w.origins.findIdx? p = some i) :
    ∃ a, w.atoms[i]? = some a := by
  obtain ⟨hlt, -⟩ := findIdx?_eq_some_iff_getElem.mp hi
  have hlen : w.atoms.length = w.origins.length := by simpa using congrArg length hw.names
  exact ⟨_, List.getElem?_eq_getElem (hlen ▸ hlt)⟩

/-- A query finds nothing exactly when nothing with the id and the key was added, and else an
atom that a call with this id and key has stored. -/
def LookupExact (w : World) (q : QueryHost) (vcpu : Int32) (key : CString) : Prop :=
  (hypercogQueryVmKnowledge w.ctx q vcpu (some key) = 0 ↔ (vcpu, key) ∉ w.known) ∧
    ((vcpu, key) ∈ w.known → ∃ (i : ℕ) (a : Atom) (o : Origin), w.atoms[i]? = some a ∧
      a.handle = hypercogQueryVmKnowledge w.ctx q vcpu (some key) ∧
      w.origins[i]? = some o ∧ o.fact = some (vcpu, key))

theorem query_eq (hw : Labelled w) (hkeys : ∀ o ∈ w.origins, o.Fits) (hfit : NameFits vcpu key) :
    hypercogQueryVmKnowledge w.ctx q vcpu (some key) = if q.grants then
      (((w.origins.findIdx? (KeyOccurs vcpu key ·)).bind (w.atoms[·]?)).map Atom.handle).getD 0
      else 0 := by
  rw [← head?_matching hw fun o ho => strstr_text_iff_key hfit o (hkeys o ho)]
  cases hq : q.grants <;> simp [hypercogQueryVmKnowledge, hw.enabled, head?_atomspaceQuery, hq]

/-- A lookup whose memory is granted is exact if and only if the oldest stored key or value in
which the composed name occurs is of a call with exactly this id and key, and one of these calls
succeeded. Without the memory it is exact for what was never added. -/
theorem lookup_exact_iff {distributed : Bool} {calls : List HypercogCall}
    (hrun : Run worldStep KeyFits (worldInit distributed) calls w)
    (hfit : NameFits vcpu key) :
    LookupExact w q vcpu key ↔ if q.grants then
      ∀ i ∈ w.origins.findIdx? (KeyOccurs vcpu key ·),
        ∃ o ∈ w.origins[i]?, o.fact = some (vcpu, key) ∧ (vcpu, key) ∈ w.known
      else (vcpu, key) ∉ w.known := by
  have hw : Labelled w := hrun.invariant (fun _ _ _ _ hstep h => labelled_step hstep h)
    (labelled_init distributed)
  have hkeys := hrun.invariant
    (fun _ _ _ hc hstep h => keysFit_step hc hstep h) (forall_mem_nil _)
  have hres := query_eq (q := q) hw hkeys hfit
  by_cases hq : q.grants = true
  case neg =>
    rw [if_neg hq] at hres ⊢
    exact ⟨fun h => h.1.mp hres, fun hno => ⟨iff_of_true hres hno, fun hk => absurd hk hno⟩⟩
  rw [if_pos hq] at hres ⊢
  cases hi : w.origins.findIdx? (KeyOccurs vcpu key ·) with
  | none =>
    have hnot : (vcpu, key) ∉ w.known := by
      intro hknown
      have hno := findIdx?_eq_none_iff.mp hi _ (hw.keys _ hknown)
      simp [KeyOccurs] at hno
    rw [hi] at hres
    exact iff_of_true ⟨iff_of_true hres hnot, fun hknown => absurd hknown hnot⟩ nofun
  | some i =>
    obtain ⟨a, ha⟩ := exists_atom hw hi
    have hpos := w.ctx.atomspace.handle_pos a (mem_of_getElem? ha)
    replace hres : hypercogQueryVmKnowledge w.ctx q vcpu (some key) = a.handle := by
      simpa [hi, ha] using hres
    constructor
    · rintro ⟨hzero, hfound⟩ _ ⟨⟩
      have hknown : (vcpu, key) ∈ w.known := by
        by_contra hno
        have := hzero.mpr hno
        omega
      obtain ⟨j, b, o, hb, hhandle, ho, hfact⟩ := hfound hknown
      cases place_unique hb ha (hhandle.trans hres)
      exact ⟨o, ho, hfact, hknown⟩
    · intro hcond
      obtain ⟨o, ho, hfact, hknown⟩ := hcond i rfl
      exact ⟨iff_of_false (by omega) fun hno => hno hknown, fun _ => ⟨i, a, o, ha, hres.symm, ho, hfact⟩⟩

/-- A host whose clock stands still and whose allocations succeed. -/
def calmHost : Host := ⟨0, 0, 0, 0, true⟩

def calmQuery : QueryHost := ⟨true, true, true⟩

/-- The fact `os = linux` about machine 1. -/
def addOs : HypercogCall :=
  .addKnowledge calmHost 1 (some ⟨lit "os", by decide⟩) (some ⟨lit "linux", by decide⟩)

theorem lookup_exact_os : ∃ w, Run worldStep KeyFits (worldInit false) [.created calmHost 1, addOs] w ∧
      LookupExact w calmQuery 1 ⟨lit "os", by decide⟩ ∧ (1, ⟨lit "os", by decide⟩) ∈ w.known := by
  have hok : checked worldStep KeyFits (worldInit false) [.created calmHost 1, addOs] = true := by
    decide +kernel
  have hrun := run_of_checked (d := worldInit false) hok
  exact ⟨_, hrun, (lookup_exact_iff hrun (by decide +kernel)).mpr (by decide +kernel),
    by decide +kernel⟩

/-- After one fact about `os`, a query for `o` of the same machine returns its key. -/
theorem lookup_finds_longer_key : ∃ w, Run worldStep KeyFits (worldInit false) [addOs] w ∧
      hypercogQueryVmKnowledge w.ctx calmQuery 1 (some ⟨lit "o", by decide⟩) = 1 ∧
      ¬ LookupExact w calmQuery 1 ⟨lit "o", by decide⟩ := by
  have hok : checked worldStep KeyFits (worldInit false) [addOs] = true := rfl
  refine ⟨_, run_of_checked (d := worldInit false) hok, by decide +kernel, ?_⟩
  rintro ⟨hzero, -⟩
  exact absurd (hzero.mpr (by decide +kernel)) (by decide +kernel)

/-- The youngest node of the machine. -/
def IsLatest (w : World) (vcpu : Int32) (i : ℕ) : Prop :=
  w.origins[i]? = some (.vm vcpu) ∧ .vm vcpu ∉ w.origins.drop (i + 1)

instance (w : World) (vcpu : Int32) (i : ℕ) : Decidable (IsLatest w vcpu i) :=
  inferInstanceAs (Decidable (_ ∧ _))

/-- Destroying the machine marks its youngest node and touches nothing else. -/
def LeavesOthers (w : World) (q : QueryHost) (vcpu : Int32) : Prop :=
  ∀ i, (hypercogVmDestroyed w.ctx q vcpu).atomspace.atoms[i]? =
    w.atoms[i]?.map fun a => if IsLatest w vcpu i then { a with tv := destroyedTv } else a

/-- The atom that is marked, given the memory for the query, is the oldest one that the machine's
name occurs in. -/
theorem getElem?_destroyed (hw : Labelled w) (q : QueryHost) (vcpu : Int32) (i : ℕ) :
    (hypercogVmDestroyed w.ctx q vcpu).atomspace.atoms[i]? = w.atoms[i]?.map fun a =>
      if q.grants = true ∧ w.origins.findIdx? (VmOccurs vcpu ·) = some i then
        { a with tv := destroyedTv } else a := by
  have hhead := head?_atomspaceQuery w.ctx.atomspace q (vmName vcpu)
  rw [head?_matching hw fun o _ => strstr_text_iff_vm vcpu o] at hhead
  by_cases hq : q.grants = true
  case neg =>
    rw [if_neg hq] at hhead
    simp [hypercogVmDestroyed, hw.enabled, hhead, hq, World.atoms]
  rw [if_pos hq] at hhead
  cases hj : w.origins.findIdx? (VmOccurs vcpu ·) with
  | none =>
    rw [hj, bind_none, map_none] at hhead
    simp [hypercogVmDestroyed, hw.enabled, hhead, World.atoms]
  | some j =>
    obtain ⟨b, hb⟩ := exists_atom hw hj
    rw [hj, bind_some, hb, map_some] at hhead
    have hget := getElem?_setTv destroyedTv hb i
    simpa [hypercogVmDestroyed, hw.enabled, hhead, hq, World.atoms] using hget

/-- Destroying a machine leaves the others alone if and only if, among the atoms not yet marked,
the machine's youngest node is the oldest atom that its name occurs in and the memory for the
query is granted. -/
theorem destroyed_leaves_others_iff {distributed : Bool} {calls : List HypercogCall}
    (hrun : Run worldStep Any (worldInit distributed) calls w) (q : QueryHost) (vcpu : Int32) :
    LeavesOthers w q vcpu ↔ ∀ i a, w.atoms[i]? = some a → a.tv ≠ destroyedTv →
      (q.grants = true ∧ w.origins.findIdx? (VmOccurs vcpu ·) = some i ↔ IsLatest w vcpu i) := by
  have hw : Labelled w := hrun.invariant (fun _ _ _ _ hstep h => labelled_step hstep h)
    (labelled_init distributed)
  refine forall_congr' fun i => ?_
  rw [getElem?_destroyed hw]
  cases w.atoms[i]? with
  | none => simp
  | some a =>
    have hmark : { a with tv := destroyedTv } = a ↔ a.tv = destroyedTv := by
      constructor
      · exact fun he => (congrArg Atom.tv he).symm
      · intro he
        rw [← he]
    by_cases hfirst : q.grants = true ∧ w.origins.findIdx? (VmOccurs vcpu ·) = some i <;>
      by_cases hlatest : IsLatest w vcpu i <;> simp [hfirst, hlatest, hmark, eq_comm (a := a)]

/-- Machine 12 is created before machine 1. -/
def twelveThenOne : List HypercogCall := [.created calmHost 12, .created calmHost 1]

theorem destroyed_leaves_others_twelve : ∃ w, Run worldStep Any (worldInit false) twelveThenOne w ∧
      LeavesOthers w calmQuery 12 := by
  have hok : (exec worldStep (worldInit false) twelveThenOne).isOk = true := by
    decide +kernel
  have hrun := run_of_isOk (d := worldInit false) hok
  refine ⟨_, hrun, (destroyed_leaves_others_iff hrun calmQuery 12).mpr ?_⟩
  generalize hw : (exec worldStep (worldInit false) twelveThenOne).toOption.getD
    (worldInit false) = w
  have horigins : w.origins = [.vm 12, .stamp 0, .vmLink 3, .vm 1, .stamp 0, .vmLink 6] := by
    rw [← hw]
    decide +kernel
  have hzero : w.origins.findIdx? (VmOccurs 12 ·) = some 0 := by
    rw [horigins]
    decide +kernel
  have hlatest : IsLatest w 12 0 := by
    rw [IsLatest, horigins]
    decide +kernel
  intro i a _ _
  rw [hzero]
  constructor
  · rintro ⟨-, ⟨⟩⟩
    exact hlatest
  · rintro ⟨hi, -⟩
    rw [horigins] at hi
    cases i with
    | zero => exact ⟨rfl, rfl⟩
    | succ i =>
      rw [List.getElem?_cons_succ] at hi
      exact absurd (mem_of_getElem? hi) (by decide +kernel)

/-- Destroying machine 1 marks the older node of machine 12 as gone. -/
theorem destroyed_marks_other : ∃ w, Run worldStep Any (worldInit false) twelveThenOne w ∧
      w.origins[0]? = some (.vm 12) ∧
      (w.atoms.map Atom.tv)[0]? = some defaultTv ∧
      ((hypercogVmDestroyed w.ctx calmQuery 1).atomspace.atoms.map Atom.tv)[0]? = some destroyedTv ∧
      ¬ LeavesOthers w calmQuery 1 := by
  have hok : (exec worldStep (worldInit false) twelveThenOne).isOk = true := by
    decide +kernel
  refine ⟨_, run_of_isOk (d := worldInit false) hok, by decide +kernel, by decide +kernel,
    by decide +kernel, fun hleaves => ?_⟩
  have hzero := congrArg (Option.map Atom.tv) (hleaves 0)
  exact absurd hzero (by decide +kernel)

end HyperCog.Cog
