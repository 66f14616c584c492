import HyperCog.Vsock.Basic

/-! Copying between flat buffers and scatter/gather lists. -/
namespace HyperCog.Vsock

open Virtio List

/-- `memcpy` out of a segment; a null base is only touched by a non-empty copy. -/
def copyFrom (m : HostMem) (v : Iovec) (c : ℕ) : Except Fault (List UInt8) :=
  if c = 0 then .ok []
  else match v.iovBase with
    | none => .error .segfault
    | some b => .ok (bytesAt m b c)

def copyTo (m : HostMem) (v : Iovec) (bs : List UInt8) : Except Fault HostMem :=
  if bs = [] then .ok m
  else match v.iovBase with
    | none => .error .segfault
    | some b => .ok (storeBytes m b bs)

/-- The segment with its first `c` bytes consumed. -/
def advance (v : Iovec) (c : ℕ) : Iovec := ⟨v.iovBase.map (· + c), v.iovLen - c⟩

/-- `iovec_clip` of an array with `iovLen` entries announced, of which the list holds those that
were filled in: the entries that are kept. -/
def iovecClip : (iovLen : ℕ) → List Iovec → (bytes : ℕ) → Except Fault (List Iovec)
  | 0, _, _ => .ok []
  | iovLen + 1, iov, bytes =>
    if bytes = 0 then .ok []
    else match iov with
      | [] => .error .iovOverrun
      | v :: vs =>
        if bytes < v.iovLen then .ok [{ v with iovLen := bytes }]
        else do
          let kept ← iovecClip iovLen vs (bytes - v.iovLen)
          return v :: kept

structure Pulled where
  res : ℕ
  data : List UInt8
  iov : List Iovec

/-- `iovec_pull`; `copy` is false for a null destination, which discards the bytes. -/
def iovecPull (m : HostMem) (copy : Bool) : List Iovec → ℕ → Except Fault Pulled
  | [], _ => .ok ⟨0, [], []⟩
  | v :: vs, bytes =>
    if bytes = 0 then .ok ⟨0, [], v :: vs⟩
    else
      let c := if bytes < v.iovLen then bytes else v.iovLen
      match if copy then copyFrom m v c else .ok [] with
      | .error e => .error e
      | .ok d =>
        if v.iovLen - c = 0 then
          match iovecPull m copy vs (bytes - c) with
          | .error e => .error e
          | .ok p => .ok ⟨c + p.res, d ++ p.data, p.iov⟩
        else .ok ⟨c, d, advance v c :: vs⟩

/-- What a push leaves: the count and the entries from the cursor on. -/
structure Pushed where
  res : ℕ
  mem : HostMem
  iovLen : ℕ
  iov : List Iovec

/-- `iovec_push`, with an array as for `iovecClip`. -/
def iovecPush (m : HostMem) : (iovLen : ℕ) → List Iovec → List UInt8 → Except Fault Pushed
  | 0, iov, _ => .ok ⟨0, m, 0, iov⟩
  | iovLen + 1, iov, buf =>
    if buf = [] then .ok ⟨0, m, iovLen + 1, iov⟩
    else match iov with
      | [] => .error .iovOverrun
      | v :: vs =>
        let c := if buf.length < v.iovLen then buf.length else v.iovLen
        match copyTo m v (buf.take c) with
        | .error e => .error e
        | .ok m' =>
          if v.iovLen - c = 0 then
            match iovecPush m' iovLen vs (buf.drop c) with
            | .error e => .error e
            | .ok p => .ok { p with res := c + p.res }
          else .ok ⟨c, m', iovLen + 1, advance v c :: vs⟩

/-- Total length of a scatter/gather list. -/
def iovTotal (iov : List Iovec) : ℕ := (iov.map Iovec.iovLen).sum

/-- Every non-empty segment lies in guest RAM. -/
def Mapped (iov : List Iovec) : Prop := ∀ v ∈ iov, v.iovLen = 0 ∨ v.iovBase.isSome

def segBytes (m : HostMem) (v : Iovec) : List UInt8 :=
  match v.iovBase with
  | none => []
  | some b => bytesAt m b v.iovLen

/-- The bytes a mapped list designates, in order. -/
def iovBytes (m : HostMem) (iov : List Iovec) : List UInt8 := iov.flatMap (segBytes m)

/-- Every byte from offset `k` on lies in guest RAM. -/
def MappedFrom : List Iovec → ℕ → Prop
  | [], _ => True
  | v :: vs, k => (v.iovLen ≤ k ∨ v.iovBase.isSome) ∧ MappedFrom vs (k - v.iovLen)

/-- The list ends in an empty segment. -/
def TrailingEmpty (iov : List Iovec) : Prop := ∃ v, iov.getLast? = some v ∧ v.iovLen = 0

variable {m : HostMem} {v : Iovec} {iov vs : List Iovec} {n : ℕ} {p : Pulled}

@[simp] theorem iovTotal_nil : iovTotal [] = 0 := rfl

@[simp] theorem iovTotal_cons : iovTotal (v :: vs) = v.iovLen + iovTotal vs := by
  simp [iovTotal]

@[simp] theorem iovBytes_nil : iovBytes m [] = [] := rfl

@[simp] theorem iovBytes_cons : iovBytes m (v :: vs) = segBytes m v ++ iovBytes m vs := by
  simp [iovBytes]

/-- A clip keeps at most the bytes it is given, and fails only past the entries of the array. -/
theorem iovecClip_cases (iovLen : ℕ) (iov : List Iovec) (n : ℕ) :
    (iov.length < iovLen ∧ iovTotal iov < n ∧ iovecClip iovLen iov n = .error .iovOverrun) ∨
      (¬ (iov.length < iovLen ∧ iovTotal iov < n) ∧
        ∃ kept, iovecClip iovLen iov n = .ok kept ∧ iovTotal kept ≤ n) := by
  induction iov generalizing iovLen n with
  | nil =>
    cases iovLen with
    | zero => exact .inr ⟨by simp, [], rfl, Nat.zero_le _⟩
    | succ k =>
      by_cases h0 : n = 0
      · exact .inr ⟨by simp [h0], [], by simp [iovecClip, h0], Nat.zero_le _⟩
      · exact .inl ⟨Nat.succ_pos k, Nat.pos_of_ne_zero h0, by simp [iovecClip, h0]⟩
  | cons v vs ih =>
    cases iovLen with
    | zero => exact .inr ⟨by simp, [], rfl, Nat.zero_le _⟩
    | succ k =>
      rw [iovecClip, iovTotal_cons, length_cons]
      by_cases h0 : n = 0
      · exact .inr ⟨by omega, [], by rw [if_pos h0], Nat.zero_le _⟩
      by_cases hv : n < v.iovLen
      · exact .inr ⟨by omega, _, by rw [if_neg h0, if_pos hv], by simp⟩
      rw [if_neg h0, if_neg hv]
      obtain ⟨hmore, hfew, hrest⟩ | ⟨hno, kept, hrest, hkept⟩ := ih k (n - v.iovLen)
      · exact .inl ⟨by omega, by omega, by rw [hrest]; rfl⟩
      · refine .inr ⟨by omega, v :: kept, by rw [hrest]; rfl, ?_⟩
        rw [iovTotal_cons]
        omega

theorem mapped_cons : Mapped (v :: vs) ↔ (v.iovLen = 0 ∨ v.iovBase.isSome) ∧ Mapped vs := by
  simp [Mapped]

theorem length_segBytes (hv : v.iovLen = 0 ∨ v.iovBase.isSome) : (segBytes m v).length = v.iovLen := by
  cases hb : v.iovBase with
  | none => simpa [segBytes, hb, eq_comm] using hv
  | some b => simp [segBytes, hb]

theorem length_iovBytes (hm : Mapped iov) : (iovBytes m iov).length = iovTotal iov := by
  induction iov with
  | nil => rfl
  | cons v vs ih =>
    obtain ⟨hv, hvs⟩ := mapped_cons.mp hm
    simp [length_segBytes hv, ih hvs]

theorem copyFrom_all (hv : v.iovLen = 0 ∨ v.iovBase.isSome) :
    copyFrom m v v.iovLen = .ok (segBytes m v) := by
  by_cases h0 : v.iovLen = 0
  · have hs : segBytes m v = [] := eq_nil_of_length_eq_zero (by rw [length_segBytes hv, h0])
    simp [copyFrom, h0, hs]
  · obtain ⟨b, hb⟩ := Option.isSome_iff_exists.mp (hv.resolve_left h0)
    simp [copyFrom, h0, hb, segBytes]

theorem copyFrom_part (hv : v.iovLen = 0 ∨ v.iovBase.isSome) (hn : n < v.iovLen) :
    copyFrom m v n = .ok ((segBytes m v).take n) ∧
      segBytes m (advance v n) = (segBytes m v).drop n := by
  obtain ⟨b, hb⟩ := Option.isSome_iff_exists.mp (hv.resolve_left (by omega))
  have hs : segBytes m v = bytesAt m b n ++ bytesAt m (b + n) (v.iovLen - n) := by
    rw [← bytesAt_add, Nat.add_sub_cancel' (Nat.le_of_lt hn)]
    simp [segBytes, hb]
  constructor
  · by_cases h0 : n = 0
    · simp [copyFrom, h0]
    · rw [hs]
      simp [copyFrom, h0, hb]
  · rw [hs]
    simp [segBytes, advance, hb]

/-- Pulling from a mapped list yields its first bytes and leaves the others. -/
theorem iovecPull_spec (copy : Bool) (hm : Mapped iov) (n : ℕ) :
    ∃ p, iovecPull m copy iov n = .ok p ∧ p.res = min n (iovTotal iov) ∧
      p.data = (if copy then (iovBytes m iov).take n else []) ∧
      iovBytes m p.iov = (iovBytes m iov).drop n ∧ Mapped p.iov := by
  induction iov generalizing n with
  | nil => exact ⟨⟨0, [], []⟩, rfl, by simp, by simp, by simp, hm⟩
  | cons v vs ih =>
    obtain ⟨hv, hvs⟩ := mapped_cons.mp hm
    by_cases h0 : n = 0
    · subst h0
      exact ⟨⟨0, [], v :: vs⟩, by simp [iovecPull], by simp, by simp, by simp, hm⟩
    · by_cases hlt : n < v.iovLen
      · obtain ⟨hcopy, hrest⟩ := copyFrom_part (m := m) hv hlt
        have hne : v.iovLen - n ≠ 0 := by omega
        have hlen : n ≤ (segBytes m v).length := by rw [length_segBytes hv]; omega
        refine ⟨⟨n, if copy then (segBytes m v).take n else [], advance v n :: vs⟩, ?_, ?_, ?_, ?_, ?_⟩
        · cases copy <;> simp [iovecPull, h0, hlt, hne, hcopy]
        · simp only [iovTotal_cons]; omega
        · simp [take_append_of_le_length hlen]
        · simp [hrest, drop_append_of_le_length hlen]
        · refine mapped_cons.mpr ⟨.inr ?_, hvs⟩
          simpa [advance] using hv.resolve_left (by omega)
      · obtain ⟨q, hq, hres, hdata, hbytes, hmap⟩ := ih hvs (n - v.iovLen)
        have hseg := length_segBytes (m := m) hv
        have htake : (segBytes m v).take n = segBytes m v := take_of_length_le (by omega)
        have hdrop : (segBytes m v).drop n = [] := drop_of_length_le (by omega)
        refine ⟨⟨v.iovLen + q.res, (if copy then segBytes m v else []) ++ q.data, q.iov⟩, ?_, ?_,
          ?_, ?_, hmap⟩
        · cases copy <;> simp [iovecPull, h0, hlt, copyFrom_all hv, hq]
        · simp only [iovTotal_cons, hres]; omega
        · cases copy
          · simpa using hdata
          · simp [hdata, take_append, hseg, htake]
        · simp [hbytes, drop_append, hseg, hdrop]

theorem not_trailingEmpty_nil : ¬ TrailingEmpty [] := by
  simp [TrailingEmpty]

theorem trailingEmpty_singleton : TrailingEmpty [v] ↔ v.iovLen = 0 := by
  simp [TrailingEmpty]

theorem trailingEmpty_cons (h : vs ≠ []) : TrailingEmpty (v :: vs) ↔ TrailingEmpty vs := by
  obtain ⟨w, ws, rfl⟩ := exists_cons_of_ne_nil h
  simp [TrailingEmpty]

/-- A list without bytes is empty exactly when it does not end in an empty segment. -/
theorem eq_nil_iff_of_total_zero (h : iovTotal iov = 0) : iov = [] ↔ ¬ TrailingEmpty iov := by
  induction iov with
  | nil => simp [not_trailingEmpty_nil]
  | cons v vs ih =>
    simp only [iovTotal_cons, Nat.add_eq_zero_iff] at h
    by_cases hvs : vs = []
    · subst hvs
      simp [trailingEmpty_singleton, h.1]
    · rw [trailingEmpty_cons hvs]
      simpa [hvs] using ih h.2

variable {copy : Bool} {f : Fault}

/-- What a pull returns does not depend on where the bytes go. -/
theorem iovecPull_cases (h : iovecPull m copy (v :: vs) n = .ok p) (h0 : n ≠ 0) :
    (n < v.iovLen ∧ p.res = n ∧ p.iov = advance v n :: vs) ∨
    (v.iovLen ≤ n ∧ ∃ q, iovecPull m copy vs (n - v.iovLen) = .ok q ∧
      p.res = v.iovLen + q.res ∧ p.iov = q.iov) := by
  simp only [iovecPull, h0, if_false] at h
  by_cases hlt : n < v.iovLen
  · simp only [hlt, if_true] at h
    have hne : v.iovLen - n ≠ 0 := by omega
    split at h
    · cases h
    · rw [if_neg hne] at h
      cases h
      exact .inl ⟨hlt, rfl, rfl⟩
  · simp only [hlt, if_false, Nat.sub_self, if_true] at h
    split at h
    · cases h
    · split at h
      · cases h
      · rename_i q hq
        cases h
        exact .inr ⟨by omega, q, hq, rfl, rfl⟩

theorem copyFrom_error (h : copyFrom m v n = .error f) : f = .segfault := by
  unfold copyFrom at h
  split at h
  · cases h
  · split at h
    · cases h
      rfl
    · cases h

theorem copyTo_error {bs : List UInt8} (h : copyTo m v bs = .error f) : f = .segfault := by
  unfold copyTo at h
  split at h
  · cases h
  · split at h
    · cases h
      rfl
    · cases h

/-- The only way a pull fails is a segment outside guest RAM. -/
theorem iovecPull_error (h : iovecPull m copy iov n = .error f) : f = .segfault := by
  induction iov generalizing n with
  | nil => cases h
  | cons v vs ih =>
    unfold iovecPull at h
    split at h
    · cases h
    · dsimp only at h
      generalize (if n < v.iovLen then n else v.iovLen) = c at h
      split at h
      · rename_i e hcopy
        cases h
        cases copy with
        | false => cases hcopy
        | true => exact copyFrom_error hcopy
      · split at h
        · split at h
          · rename_i e hrest
            cases h
            exact ih hrest
          · cases h
        · cases h

theorem iovTotal_clip_le {iovLen : ℕ} {kept : List Iovec}
    (h : iovecClip iovLen iov n = .ok kept) : iovTotal kept ≤ n := by
  obtain ⟨-, -, he⟩ | ⟨-, kept, hok, hle⟩ := iovecClip_cases iovLen iov n
  · cases he.symm.trans h
  · cases hok.symm.trans h
    exact hle

theorem iovecClip_error {iovLen : ℕ} (h : iovecClip iovLen iov n = .error f) : f = .iovOverrun := by
  obtain ⟨-, -, he⟩ | ⟨-, kept, hok, -⟩ := iovecClip_cases iovLen iov n
  · exact (Except.error.inj (he.symm.trans h)).symm
  · cases hok.symm.trans h

/-- A push may also leave the array. -/
theorem iovecPush_error {iovLen : ℕ} {buf : List UInt8}
    (h : iovecPush m iovLen iov buf = .error f) : f = .segfault ∨ f = .iovOverrun := by
  induction iovLen generalizing m iov buf with
  | zero => cases h
  | succ k ih =>
    unfold iovecPush at h
    split at h
    · cases h
    split at h
    · cases h
      exact .inr rfl
    · rename_i v vs
      dsimp only at h
      generalize (if buf.length < v.iovLen then buf.length else v.iovLen) = c at h
      split at h
      · rename_i e hcopy
        cases h
        exact .inl (copyTo_error hcopy)
      · split at h
        · split at h
          · rename_i e hrest
            cases h
            exact ih hrest
          · cases h
        · cases h

theorem iovTotal_pull (h : iovecPull m copy iov n = .ok p) :
    p.res = min n (iovTotal iov) ∧ iovTotal p.iov = iovTotal iov - n := by
  induction iov generalizing n p with
  | nil => cases h; simp
  | cons v vs ih =>
    by_cases h0 : n = 0
    · subst h0
      cases h
      simp
    · rcases iovecPull_cases h h0 with ⟨hlt, hres, hiov⟩ | ⟨hle, q, hq, hres, hiov⟩
      · simp only [hres, hiov, iovTotal_cons, advance]
        omega
      · obtain ⟨hqres, hqtot⟩ := ih hq
        simp only [hres, hiov, iovTotal_cons, hqres, hqtot]
        omega

/-- A pull within the list keeps or loses a trailing empty segment with the list itself. -/
theorem trailingEmpty_pull (h : iovecPull m copy iov n = .ok p) (hn : n ≤ iovTotal iov) :
    TrailingEmpty p.iov ↔ TrailingEmpty iov := by
  induction iov generalizing n p with
  | nil => cases h; rfl
  | cons v vs ih =>
    by_cases h0 : n = 0
    · subst h0
      cases h
      rfl
    · rcases iovecPull_cases h h0 with ⟨hlt, -, hiov⟩ | ⟨hle, q, hq, -, hiov⟩
      · rw [hiov]
        by_cases hvs : vs = []
        · subst hvs
          simp only [trailingEmpty_singleton, advance]
          omega
        · rw [trailingEmpty_cons hvs, trailingEmpty_cons hvs]
      · rw [hiov, ih hq (by simp only [iovTotal_cons] at hn; omega)]
        by_cases hvs : vs = []
        · subst hvs
          simp only [iovTotal_cons, iovTotal_nil] at hn
          simp only [trailingEmpty_singleton, not_trailingEmpty_nil, false_iff]
          omega
        · rw [trailingEmpty_cons hvs]

/-- Discarding bytes touches no memory, so it never fails. -/
theorem iovecPull_discard (m : HostMem) (iov : List Iovec) (n : ℕ) :
    ∃ p, iovecPull m false iov n = .ok p := by
  induction iov generalizing n with
  | nil => exact ⟨_, rfl⟩
  | cons v vs ih =>
    unfold iovecPull
    split
    · exact ⟨_, rfl⟩
    · generalize (if n < v.iovLen then n else v.iovLen) = c
      obtain ⟨p, hp⟩ := ih (n - c)
      by_cases hc : v.iovLen - c = 0
      · exact ⟨_, by simp [hc, hp]; rfl⟩
      · exact ⟨_, by simp [hc]; rfl⟩

theorem mappedFrom_zero : MappedFrom iov 0 ↔ Mapped iov := by
  induction iov with
  | nil => simp [MappedFrom, Mapped]
  | cons v vs ih => simp [MappedFrom, mapped_cons, ih]

/-- What a pull leaves is mapped when the list is mapped from there on. -/
theorem mapped_pull (h : iovecPull m copy iov n = .ok p) : Mapped p.iov ↔ MappedFrom iov n := by
  induction iov generalizing n p with
  | nil =>
    cases h
    simp [Mapped, MappedFrom]
  | cons v vs ih =>
    by_cases h0 : n = 0
    · subst h0
      cases h
      exact mappedFrom_zero.symm
    · rcases iovecPull_cases h h0 with ⟨hlt, -, hiov⟩ | ⟨hle, q, hq, -, hiov⟩
      · have hrest : n - v.iovLen = 0 := by omega
        rw [hiov, mapped_cons, MappedFrom, hrest, mappedFrom_zero]
        simp only [advance, Option.isSome_map]
        constructor
        all_goals
          rintro ⟨hv, hvs⟩
          exact ⟨.inr (hv.resolve_left (by omega)), hvs⟩
      · rw [hiov, ih hq, MappedFrom]
        simp [hle]

/-- A list can be copied out whole exactly when it is mapped. -/
theorem iovecPull_total_ok_iff : (∃ p, iovecPull m true iov (iovTotal iov) = .ok p) ↔ Mapped iov := by
  constructor
  · intro hp
    induction iov with
    | nil => simp [Mapped]
    | cons v vs ih =>
      obtain ⟨p, hp⟩ := hp
      rw [mapped_cons]
      by_cases h0 : iovTotal (v :: vs) = 0
      · rw [iovTotal_cons] at h0
        refine ⟨.inl (by omega), ih ?_⟩
        rw [show iovTotal vs = 0 by omega]
        exact ⟨⟨0, [], vs⟩, by cases vs <;> simp [iovecPull]⟩
      · rcases iovecPull_cases hp h0 with ⟨hlt, -⟩ | ⟨-, q, hq, -⟩
        · rw [iovTotal_cons] at hlt
          omega
        · rw [iovTotal_cons, Nat.add_sub_cancel_left] at hq
          refine ⟨?_, ih ⟨q, hq⟩⟩
          by_contra hv
          rw [not_or, Option.isSome_iff_ne_none, not_not] at hv
          have hlt : ¬ iovTotal (v :: vs) < v.iovLen := by
            rw [iovTotal_cons]
            omega
          simp only [iovecPull, if_neg h0, if_neg hlt, if_true, copyFrom, if_neg hv.1, hv.2] at hp
          cases hp
  · intro hm
    obtain ⟨p, hp, -⟩ := iovecPull_spec true hm (iovTotal iov)
    exact ⟨p, hp⟩

end HyperCog.Vsock
