import HyperCog.Cog.AtomSpace
import HyperCog.Virtio.Memory

/-! The answer to a pattern query: JSON texts of atoms, written one after the other into a buffer of fixed size. -/
namespace HyperCog.Cog

open Text Virtio List

def jsonSize : ℕ := 4096

def AtomType.code : AtomType → ℕ
  | node => 0
  | link => 1
  | concept => 2
  | predicate => 3
  | variableAtom => 4
  | evaluation => 5
  | inheritance => 6
  | similarity => 7

/-- What the format of `hgql_resolve_atom` stands for. -/
def atomJson (a : Atom) : CString :=
  CString.concat
    [⟨lit "\x7b\"handle\": ", by decide⟩, CString.ofNat (a.handle % 2 ^ 64),
      ⟨lit ",\"type\": ", by decide⟩, CString.ofNat a.type.code,
      ⟨lit ",\"name\": \"", by decide⟩, a.name,
      ⟨lit "\",\"truthValue\": \x7b\"strength\": ", by decide⟩, CString.ofSingle a.tv.strength,
      ⟨lit ", \"confidence\": ", by decide⟩, CString.ofSingle a.tv.confidence,
      ⟨lit "\x7d,\"attentionValue\": \x7b\"sti\": ", by decide⟩, CString.ofInt a.av.sti.toInt,
      ⟨lit ", \"lti\": ", by decide⟩, CString.ofInt a.av.lti.toInt,
      ⟨lit ", \"vlti\": ", by decide⟩, CString.ofInt a.av.vlti.toInt,
      ⟨lit "\x7d,\"timestamp\": ", by decide⟩, CString.ofNat a.timestamp.toNat,
      ⟨lit "\x7d", by decide⟩]

def hgqlResolveAtom (malloc : Bool) (as : Atomspace) (handle : ℕ) : Option CString :=
  match atomspaceGetAtom as handle with
  | none => none
  | some a => if !malloc then none else some (snprintf 2048 (atomJson a))

/-- What a pattern query is granted: the memory of the search, the buffer, and one text a match. -/
structure ResponseHost where
  query : QueryHost
  json : Bool
  atom : ℕ → Bool

def ResponseHost.Grants (h : ResponseHost) : Prop :=
  h.query.grants = true ∧ h.json = true ∧ ∀ i, h.atom i = true

/-- What `snprintf` stores of a text when it is given this size. -/
def stored (size : ℕ) (t : List UInt8) : List UInt8 :=
  if size = 0 then [] else t.take (size - 1) ++ [0]

/-- The response under construction: memory from the start of the buffer on, the running offset,
and where each `snprintf` started and how many bytes it stored. -/
structure Response where
  bytes : ℕ → UInt8
  offset : ℕ
  writes : List (ℕ × ℕ)

namespace Response

/-- The unsigned difference that is passed as the remaining size. -/
def remaining (r : Response) : ℕ := (2 ^ 64 + jsonSize - r.offset) % 2 ^ 64

/-- `snprintf(json + offset, json_size - offset, …)`. -/
def print (r : Response) (t : CString) : Response :=
  { r with
    bytes := storeBytes r.bytes r.offset (stored r.remaining t.bytes)
    writes := r.writes ++ [(r.offset, (stored r.remaining t.bytes).length)] }

/-- The offset moves on by the length of the whole text. -/
def append (r : Response) (t : CString) : Response :=
  { r.print t with offset := r.offset + t.length }

end Response

def comma : CString := ⟨lit ",", by decide⟩
def openBracket : CString := ⟨lit "[", by decide⟩
def closeBracket : CString := ⟨lit "]", by decide⟩

/-- One turn of the loop over the matches. -/
def appendAtom (malloc : Bool) (as : Atomspace) (i handle : ℕ) (r : Response) : Response :=
  match hgqlResolveAtom malloc as handle with
  | none => r
  | some atomText => if 0 < i then (r.append comma).append atomText else r.append atomText

/-- The loop over the matches from number `i` on. -/
def appendAtoms (malloc : ℕ → Bool) (as : Atomspace) : ℕ → List ℕ → Response → Response
  | _, [], r => r
  | i, handle :: rest, r =>
    if r.offset < jsonSize - 100 then
      appendAtoms malloc as (i + 1) rest (appendAtom (malloc i) as i handle r)
    else r

/-- `hgql_resolve_query_pattern` into a fresh buffer, with whatever it held before. -/
def hgqlResolveQueryPattern (h : ResponseHost) (as : Atomspace) (pattern : CString)
    (fresh : ℕ → UInt8) : Option Response :=
  match atomspaceQuery as h.query pattern with
  | none => none
  | some handles =>
    if !h.json then none
    else
      let r := Response.append ⟨fresh, 0, []⟩ openBracket
      some ((appendAtoms h.atom as 0 handles r).print closeBracket)

/-- What a reader of the buffer sees. -/
def Response.text (r : Response) : List UInt8 := (bytesAt r.bytes 0 jsonSize).takeWhile (· ≠ 0)

/-- The list of the first `k` matches without the closing bracket. -/
def openList (as : Atomspace) (pattern : CString) (k : ℕ) : List UInt8 :=
  lit "[" ++ intercalate (lit ",") (((matching as pattern).take k).map fun a => (atomJson a).bytes)

/-- Nothing is written outside the buffer, the offset stays within its size, and the result is
the list of the whole texts of the first matches. -/
structure Contained (as : Atomspace) (pattern : CString) (r : Response) : Prop where
  inside : ∀ w ∈ r.writes, w.1 + w.2 ≤ jsonSize
  whole : ∃ k ≤ (matching as pattern).length, r.text = openList as pattern k ++ lit "]"

variable {as : Atomspace} {pattern t : CString} {a : Atom} {i n k : ℕ} {r : Response} {T : List UInt8}
  {m fresh : ℕ → UInt8}
  {h : ResponseHost}

/-- The buffer for the text of one atom is large enough. -/
theorem length_atomJson_lt (a : Atom) : (atomJson a).length < 2048 := by
  have hnat : ∀ n, n < 2 ^ 64 → (natText n).length ≤ 20 := fun n hn =>
    length_natText_le (by decide) (Nat.lt_trans hn (by decide))
  have hint : ∀ v : Int16, (intText v.toInt).length ≤ 6 := by
    intro v
    have hlo := v.le_toInt
    have hhi := v.toInt_lt
    exact length_intText_le (by decide) (by omega)
  have hcode : a.type.code < 2 ^ 64 := by cases a.type <;> decide
  have hhandle := hnat _ (Nat.mod_lt a.handle (by decide))
  have htype := hnat _ hcode
  have hname : a.name.length < 256 := a.name_fits
  have hstrength := length_fixedTwo_le a.tv.strength
  have hconfidence := length_fixedTwo_le a.tv.confidence
  have hsti := hint a.av.sti
  have hlti := hint a.av.lti
  have hvlti := hint a.av.vlti
  have htime := hnat _ a.timestamp.toNat_lt
  have hfixed : (lit "\x7b\"handle\": ").length + (lit ",\"type\": ").length +
      (lit ",\"name\": \"").length + (lit "\",\"truthValue\": \x7b\"strength\": ").length +
      (lit ", \"confidence\": ").length + (lit "\x7d,\"attentionValue\": \x7b\"sti\": ").length +
      (lit ", \"lti\": ").length + (lit ", \"vlti\": ").length +
      (lit "\x7d,\"timestamp\": ").length + (lit "\x7d").length = 138 := rfl
  rw [atomJson, CString.length_concat]
  simp only [map_cons, map_nil, sum_cons, sum_nil, CString.length,
    CString.ofNat, CString.ofInt, CString.ofSingle] at hname ⊢
  linarith

/-- The text of an atom ends in a digit of its time and a brace. -/
theorem atomJson_ends (a : Atom) : ∃ front d, (atomJson a).bytes = front ++ [d, 125] ∧ IsDigit d := by
  have hne := natText_ne_nil a.timestamp.toNat
  have hsplit : ∃ front, (atomJson a).bytes = front ++ natText a.timestamp.toNat ++ lit "\x7d" := by
    simp only [atomJson, CString.concat, flatMap_cons, flatMap_nil, append_nil,
      ← append_assoc, CString.ofNat]
    exact ⟨_, rfl⟩
  obtain ⟨front, hfront⟩ := hsplit
  refine ⟨front ++ (natText a.timestamp.toNat).dropLast, _, ?_,
    isDigit_of_mem_natText (getLast_mem hne)⟩
  rw [hfront]
  conv_lhs => rw [← dropLast_append_getLast hne, ← append_assoc, append_assoc _ [_]]
  rfl

theorem hgqlResolveAtom_of_mem (ha : a ∈ as.atoms) :
    hgqlResolveAtom true as a.handle = some (atomJson a) := by
  have hfits : (atomJson a).length ≤ 2048 - 1 := Nat.le_pred_of_lt (length_atomJson_lt a)
  rw [hgqlResolveAtom, getAtom_of_mem ha]
  dsimp only
  rw [if_neg (by decide), snprintf, CString.truncate_of_length_le hfits]

theorem intercalate_snoc (sep x : List UInt8) (xs : List (List UInt8)) :
    sep.intercalate (xs ++ [x]) = sep.intercalate xs ++ (if xs = [] then [] else sep) ++ x := by
  induction xs with
  | nil => simp
  | cons y ys ih =>
    cases ys with
    | nil => simp [intercalate]
    | cons z zs => simpa [intercalate] using ih

theorem openList_zero : openList as pattern 0 = lit "[" := by
  rw [openList, take_zero, map_nil, intercalate_nil, append_nil]

theorem openList_succ (ha : (matching as pattern)[i]? = some a) : openList as pattern (i + 1) =
      openList as pattern i ++ (if 0 < i then lit "," else []) ++ (atomJson a).bytes := by
  obtain ⟨hlt, rfl⟩ := List.getElem?_eq_some_iff.mp ha
  have hnil : ((matching as pattern).take i).map (fun a => (atomJson a).bytes) = [] ↔ ¬ 0 < i := by
    rw [map_eq_nil_iff, take_eq_nil_iff, ← length_eq_zero_iff]
    omega
  rw [openList, openList, ← take_concat_get' _ _ hlt, map_append, map_singleton, intercalate_snoc]
  by_cases hi : 0 < i
  · rw [if_neg (fun h => hnil.mp h hi), if_pos hi, append_assoc, append_assoc, append_assoc]
  · rw [if_pos (hnil.mpr hi), if_neg hi, append_assoc, append_assoc, append_assoc]

theorem length_openList_mono (as : Atomspace) (pattern : CString) :
    Monotone fun k => (openList as pattern k).length := by
  refine monotone_nat_of_le_succ fun k => ?_
  cases ha : (matching as pattern)[k]? with
  | none =>
    have hlen := List.getElem?_eq_none_iff.mp ha
    rw [openList, openList, take_of_length_le hlen, take_of_length_le (by omega)]
  | some a =>
    rw [openList_succ ha, length_append, length_append]
    omega

theorem zero_not_mem_openList (as : Atomspace) (pattern : CString) (k : ℕ) :
    0 ∉ openList as pattern k := by
  have hcons : ∀ xs : List CString, 0 ∉ (lit ",").intercalate (xs.map CString.bytes) := by
    intro xs
    induction xs with
    | nil => simp
    | cons x xs ih =>
      cases xs with
      | nil => simpa [intercalate] using x.noNul
      | cons y ys =>
        have hcomma : 0 ∉ lit "," := by decide
        simpa [x.noNul, hcomma] using ih
  have hlist := hcons (((matching as pattern).take k).map atomJson)
  rw [map_map] at hlist
  exact fun h => (mem_append.mp h).elim (by decide) hlist

/-- The buffer holds as much of the text as fits, with a terminator. -/
def Shows (m : ℕ → UInt8) (T : List UInt8) : Prop :=
  bytesAt m 0 (stored jsonSize T).length = stored jsonSize T

theorem length_stored_le (size : ℕ) (T : List UInt8) : (stored size T).length ≤ size := by
  rw [stored]
  split
  · exact Nat.zero_le _
  · rw [length_append, length_take, length_singleton]
    omega

theorem stored_of_length_lt (h : T.length < n) : stored n T = T ++ [0] := by
  rw [stored, if_neg (by omega), take_of_length_le (by omega)]

/-- Storing one text after another is storing both, as long as the first leaves room. -/
theorem stored_append (h : T.length < n) (u : List UInt8) :
    stored n (T ++ u) = T ++ stored (n - T.length) u := by
  rw [stored, stored, if_neg (by omega), if_neg (by omega), take_append,
    take_of_length_le (by omega), append_assoc]
  congr 3
  omega

theorem remaining_of_le (h : r.offset ≤ jsonSize) : r.remaining = jsonSize - r.offset := by
  have hsize : jsonSize = 4096 := rfl
  rw [Response.remaining]
  omega

/-- The response holds the text, its offset is at the end of it, and nothing was written outside
the buffer. -/
structure Holds (r : Response) (T : List UInt8) : Prop where
  visible : Shows r.bytes T
  offset : r.offset = T.length
  inside : ∀ w ∈ r.writes, w.1 + w.2 ≤ jsonSize

theorem Holds.shows_print (h : Holds r T) (hle : T.length ≤ jsonSize) :
    Shows (r.print t).bytes (T ++ t.bytes) := by
  have hrem := remaining_of_le (h.offset ▸ hle)
  rw [Shows, Response.print, hrem, h.offset]
  by_cases hfull : T.length = jsonSize
  · -- no room for a byte: the text was cut off before
    have hsame : stored jsonSize (T ++ t.bytes) = stored jsonSize T := by
      rw [stored, stored, take_append_of_le_length (by omega)]
    rw [hsame, hfull, Nat.sub_self, stored, if_pos rfl, storeBytes_nil]
    exact h.visible
  · have hlt : T.length < jsonSize := by omega
    have hbytes := h.visible
    rw [Shows, stored_of_length_lt hlt, length_append, bytesAt_add] at hbytes
    rw [stored_append hlt, length_append, bytesAt_add, Nat.zero_add,
      bytesAt_storeBytes_self, bytesAt_storeBytes_before _ _ (by omega),
      (append_inj hbytes (length_bytesAt _ _ _)).1]

theorem Holds.inside_print (h : Holds r T) (hle : T.length ≤ jsonSize) :
    ∀ w ∈ (r.print t).writes, w.1 + w.2 ≤ jsonSize := by
  have hrem := remaining_of_le (h.offset ▸ hle)
  have hlen := length_stored_le r.remaining t.bytes
  have hoff := h.offset
  exact forall_mem_append.mpr ⟨h.inside, forall_mem_singleton.mpr (by dsimp only; omega)⟩

theorem Holds.append (h : Holds r T) (hle : T.length ≤ jsonSize) :
    Holds (r.append t) (T ++ t.bytes) := by
  refine ⟨h.shows_print hle, ?_, h.inside_print hle⟩
  rw [length_append, ← h.offset]
  rfl

/-- A reader sees the text up to the size of the buffer. -/
theorem Shows.text (h : Shows r.bytes T) (hnul : 0 ∉ T) : r.text = T.take (jsonSize - 1) := by
  have hlen := length_stored_le jsonSize T
  have hall := bytesAt_add r.bytes 0 (stored jsonSize T).length
    (jsonSize - (stored jsonSize T).length)
  rw [Nat.add_sub_cancel' hlen, h, stored, if_neg (by decide), append_assoc] at hall
  rw [Response.text, hall, takeWhile_append_of_pos]
  · rw [singleton_append, takeWhile_cons_of_neg (by decide), append_nil]
  · intro b hb
    refine decide_eq_true fun hz => ?_
    exact hnul (hz ▸ mem_of_mem_take hb)

theorem Holds.appendAtom (h : Holds r (openList as pattern i))
    (ha : (matching as pattern)[i]? = some a)
    (hlt : (openList as pattern i).length < jsonSize - 100) :
    Holds (appendAtom true as i a.handle r) (openList as pattern (i + 1)) := by
  have hmem : a ∈ as.atoms := mem_of_mem_filter (mem_of_getElem? ha)
  rw [Cog.appendAtom, hgqlResolveAtom_of_mem hmem, openList_succ ha]
  dsimp only
  by_cases hi : 0 < i
  · rw [if_pos hi, if_pos hi]
    have hcomma := h.append (t := comma) (by omega)
    refine hcomma.append ?_
    have hone : comma.bytes.length = 1 := rfl
    rw [length_append]
    omega
  · rw [if_neg hi, if_neg hi, append_nil]
    exact h.append (by omega)

/-- The loop takes every match that starts before the last hundred bytes of the buffer. -/
theorem appendAtoms_spec {malloc : ℕ → Bool} (hmalloc : ∀ i, malloc i = true)
    (hi : i ≤ (matching as pattern).length) (hr : Holds r (openList as pattern i))
    (hprev : ∀ j, i = j + 1 → (openList as pattern j).length < jsonSize - 100) :
    ∃ k ≤ (matching as pattern).length,
      Holds (appendAtoms malloc as i (((matching as pattern).drop i).map Atom.handle) r)
        (openList as pattern k) ∧
      (∀ j, k = j + 1 → (openList as pattern j).length < jsonSize - 100) ∧
      (k = (matching as pattern).length ∨ jsonSize - 100 ≤ (openList as pattern k).length) := by
  generalize hrest : (matching as pattern).drop i = rest
  induction rest generalizing i r with
  | nil =>
    have hlen := drop_eq_nil_iff.mp hrest
    exact ⟨i, hi, hr, hprev, .inl (by omega)⟩
  | cons a rest ih =>
    have ha : (matching as pattern)[i]? = some a := by
      rw [← head?_drop, hrest, head?_cons]
    obtain ⟨hlt, -⟩ := List.getElem?_eq_some_iff.mp ha
    have hnext : (matching as pattern).drop (i + 1) = rest := by
      rw [← tail_drop, hrest, tail_cons]
    rw [map_cons, appendAtoms, hr.offset, hmalloc i]
    split_ifs with hoff
    · refine ih hlt (hr.appendAtom ha hoff) ?_ hnext
      rintro j ⟨⟩
      exact hoff
    · exact ⟨i, hi, hr, hprev, .inr (by omega)⟩

/-- No match that starts before the last hundred bytes ends so late that the bracket and the
terminator find no room. -/
def EndsInTime (as : Atomspace) (pattern : CString) : Prop :=
  ∀ k < (matching as pattern).length, (openList as pattern k).length < jsonSize - 100 →
    (openList as pattern (k + 1)).length + 2 ≤ jsonSize

theorem endsInTime_iff (hkn : k ≤ (matching as pattern).length)
    (hprev : ∀ j, k = j + 1 → (openList as pattern j).length < jsonSize - 100)
    (hlast : k = (matching as pattern).length ∨ jsonSize - 100 ≤ (openList as pattern k).length) :
    EndsInTime as pattern ↔ (openList as pattern k).length + 2 ≤ jsonSize := by
  constructor
  · intro h
    cases k with
    | zero =>
      rw [openList_zero]
      decide
    | succ j => exact h j hkn (hprev j rfl)
  · intro hk j hj hlt
    have hjk : j < k := by
      by_contra hge
      have hmono := length_openList_mono as pattern (Nat.le_of_not_lt hge)
      dsimp only at hmono
      omega
    have hmono := length_openList_mono as pattern (show j + 1 ≤ k from hjk)
    dsimp only at hmono
    omega

/-- A list that stops at the end of the buffer, or one byte before it, shows no bracket there. -/
theorem cut_off_no_bracket (hk : k ≤ (matching as pattern).length)
    (hlo : jsonSize ≤ (openList as pattern k).length + 1)
    (hhi : (openList as pattern k).length ≤ jsonSize) (l : List UInt8) :
    (openList as pattern k ++ lit "]").take (jsonSize - 1) ≠ l ++ lit "]" := by
  have hbracket : lit "]" = [93] := by decide
  cases k with
  | zero =>
    rw [openList_zero] at hlo
    exact absurd hlo (by decide)
  | succ j =>
    have ha := List.getElem?_eq_getElem (Nat.lt_of_succ_le hk)
    obtain ⟨front, d, hends, hd⟩ := atomJson_ends (matching as pattern)[j]
    have hopen := openList_succ ha
    rw [hends, ← append_assoc] at hopen
    generalize openList as pattern j ++ (if 0 < j then lit "," else []) ++ front = before at hopen
    rw [hopen, length_append, length_cons, length_singleton] at hlo hhi
    rw [hopen, hbracket, append_assoc, take_append]
    intro he
    -- what is seen ends in the brace, or in the digit before it
    have hlast := congrArg getLast? he
    obtain hfull | hfull : jsonSize - 1 - before.length = 1 ∨ jsonSize - 1 - before.length = 2 := by
      omega
    · rw [hfull] at hlast
      have hdigit : d = 93 := by simpa using hlast
      exact absurd (hdigit ▸ hd) (by decide)
    · rw [hfull] at hlast
      simp at hlast

/-- What the loop leaves, with the number of matches that it has taken. -/
theorem loop_holds (hmem : h.Grants) (as : Atomspace) (pattern : CString) (fresh : ℕ → UInt8) :
    ∃ k r, hgqlResolveQueryPattern h as pattern fresh = some (r.print closeBracket) ∧
      Holds r (openList as pattern k) ∧ k ≤ (matching as pattern).length ∧
      (EndsInTime as pattern ↔ (openList as pattern k).length + 2 ≤ jsonSize) := by
  have hstart : Holds (Response.append ⟨fresh, 0, []⟩ openBracket) (openList as pattern 0) := by
    have hlen := length_stored_le jsonSize openBracket.bytes
    rw [Response.append, Response.print, remaining_of_le (Nat.zero_le _)]
    exact ⟨bytesAt_storeBytes_self fresh 0 _, rfl,
      forall_mem_singleton.mpr (Nat.add_le_of_le_sub' (Nat.zero_le _) hlen)⟩
  obtain ⟨hquery, hjson, hatom⟩ := hmem
  obtain ⟨k, hkn, hk, hprev, hlast⟩ := appendAtoms_spec hatom (Nat.zero_le _) hstart nofun
  refine ⟨k, _, ?_, hk, hkn, endsInTime_iff hkn hprev hlast⟩
  rw [hgqlResolveQueryPattern, atomspaceQuery_of_grants hquery]
  dsimp only
  rw [hjson]
  rfl

/-- What a reader sees, unless the offset has left the buffer. -/
theorem Holds.text_print (hk : Holds r (openList as pattern k))
    (hle : (openList as pattern k).length ≤ jsonSize) : (r.print closeBracket).text =
      (openList as pattern k ++ lit "]").take (jsonSize - 1) := by
  refine (hk.shows_print hle).text fun h => ?_
  exact (mem_append.mp h).elim (zero_not_mem_openList as pattern k) (by decide)

theorem contained_of_endsInTime (hmem : h.Grants) (fresh : ℕ → UInt8) (hend : EndsInTime as pattern) :
    ∃ r ∈ hgqlResolveQueryPattern h as pattern fresh, Contained as pattern r := by
  obtain ⟨k, r, he, hk, hkn, hiff⟩ := loop_holds hmem as pattern fresh
  have hshort := hiff.mp hend
  refine ⟨_, he, hk.inside_print (by omega), k, hkn, ?_⟩
  rw [hk.text_print (by omega)]
  refine take_of_length_le ?_
  have hone : (lit "]").length = 1 := by decide
  rw [length_append]
  omega

theorem endsInTime_of_contained (hmem : h.Grants)
    (hc : ∃ r ∈ hgqlResolveQueryPattern h as pattern fresh, Contained as pattern r) :
    EndsInTime as pattern := by
  obtain ⟨k, r, he, hk, hkn, hiff⟩ := loop_holds hmem as pattern fresh
  obtain ⟨_, hr, hc⟩ := hc
  cases he.symm.trans hr
  rw [hiff]
  by_contra hlong
  -- the closing bracket is printed where the offset stands
  have hle := hc.inside _ (mem_append_right _ (mem_singleton_self _))
  replace hle := hk.offset ▸ Nat.le_of_add_right_le hle
  obtain ⟨n, -, hwhole⟩ := hc.whole
  rw [hk.text_print hle] at hwhole
  exact cut_off_no_bracket hkn (by omega) hle _ hwhole

/-- A space with `n` nodes of a name of 200 bytes. -/
def wide : ℕ → Atomspace
  | 0 => atomspaceInit false
  | n + 1 => (atomspaceAddNode (wide n) 0 .concept ⟨replicate 200 120, by decide⟩).2

def richHost : ResponseHost := ⟨⟨true, true, true⟩, true, fun _ => true⟩

end HyperCog.Cog
