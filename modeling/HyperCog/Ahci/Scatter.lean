import HyperCog.Ahci.Command

/-! Which bytes of the guest the segments of a request stand for. -/
namespace HyperCog.Ahci

open Virtio Blockif List

/-- The `n` guest addresses from `a` on. -/
def span (a : UInt64) (n : ℕ) : List UInt64 := (List.range n).map fun j => a + .ofNat j

/-- The guest addresses that a scatter list describes, in order. -/
def scatterBytes (es : List PrdtEntry) : List UInt64 := es.flatMap fun e => span e.dba e.size

/-- The bytes that each entry of a scatter list has beyond the first `skip` of them all. -/
def remaining : List PrdtEntry → (skip : ℕ) → List ℕ
  | [], _ => []
  | e :: es, skip =>
    if e.size ≤ skip then remaining es (skip - e.size) else (e.size - skip) :: remaining es 0

section Covers

variable (ram : GuestRam)

/-- A segment for guest bytes: the address is that of a guest range which holds them from its
beginning on. -/
def Shows (v : Iovec) (l : List UInt64) : Prop :=
  ∃ a n, v.iovLen ≤ n ∧ v.iovBase = paddrGuest2host ram a n ∧ l = span a v.iovLen

/-- Segments for guest bytes, in order. -/
inductive Covers : List Iovec → List UInt64 → Prop
  | nil : Covers [] []
  | cons {v : Iovec} {vs : List Iovec} {l ls : List UInt64} (hv : Shows ram v l)
      (hvs : Covers vs ls) : Covers (v :: vs) (l ++ ls)

end Covers

variable {k n extra sectsz : ℕ} {es : List PrdtEntry} {ram : GuestRam} {a : UInt64} {v : Iovec} {vs ws : List Iovec}
  {l l' : List UInt64} {len done : UInt32} {p : Part}

@[simp] theorem length_span : (span a n).length = n := by simp [span]

theorem take_span (h : k ≤ n) : (span a n).take k = span a k := by
  rw [span, ← map_take, take_range, Nat.min_eq_left h]
  rfl

theorem drop_span : (span a n).drop k = span (a + .ofNat k) (n - k) := by
  apply ext_getElem
  · simp
  · intro j hj hj'
    simp only [span, getElem_drop, getElem_map, getElem_range]
    rw [UInt64.ofNat_add, UInt64.add_assoc]

theorem scatterBytes_cons {e : PrdtEntry} :
    scatterBytes (e :: es) = span e.dba e.size ++ scatterBytes es := flatMap_cons

theorem Shows.length (h : Shows ram v l) : l.length = v.iovLen := by
  obtain ⟨a, n, -, -, rfl⟩ := h
  exact length_span

theorem Covers.length (h : Covers ram vs l) : l.length = iovecLen vs := by
  induction h with
  | nil => rfl
  | cons hv _ ih => rw [length_append, hv.length, ih, iovecLen_cons]

theorem Covers.append (h : Covers ram vs l) (h' : Covers ram ws l') :
    Covers ram (vs ++ ws) (l ++ l') := by
  induction h with
  | nil => exact h'
  | cons hv _ ih =>
    rw [append_assoc]
    exact .cons hv ih

/-- The last segment has the last bytes. -/
theorem Covers.snoc (h : Covers ram (vs ++ [v]) l) :
    ∃ l₁ l₂, l = l₁ ++ l₂ ∧ Covers ram vs l₁ ∧ Shows ram v l₂ := by
  induction vs generalizing l with
  | nil =>
    cases h with
    | @cons _ _ l₁ _ hv hvs =>
      cases hvs
      exact ⟨[], l₁, by simp, .nil, hv⟩
  | cons w vs ih =>
    cases h with
    | @cons _ _ l₀ _ hw hvs =>
      obtain ⟨l₁, l₂, rfl, h₁, h₂⟩ := ih hvs
      exact ⟨l₀ ++ l₁, l₂, by simp, .cons hw h₁, h₂⟩

theorem Shows.shorten (h : Shows ram v l) :
    Shows ram { v with iovLen := v.iovLen - extra } (l.take (v.iovLen - extra)) := by
  obtain ⟨a, n, hle, hbase, rfl⟩ := h
  exact ⟨a, n, by dsimp only; omega, hbase, take_span (by omega)⟩

/-- Bytes are taken off the end. -/
theorem Covers.chopBack (h : Covers ram vs.reverse l) (extra : ℕ) :
    Covers ram (chopBack vs extra).reverse (l.take (iovecLen vs - extra)) := by
  induction vs generalizing l extra with
  | nil =>
    cases h
    simpa [Ahci.chopBack] using Covers.nil
  | cons v vs ih =>
    rw [reverse_cons] at h
    obtain ⟨l₁, l₂, rfl, h₁, h₂⟩ := h.snoc
    have hl₁ := h₁.length
    have hl₂ := h₂.length
    have hrev : iovecLen vs.reverse = iovecLen vs := by simp [iovecLen]
    unfold Ahci.chopBack
    split_ifs
    · rw [reverse_cons, take_of_length_le (by
        rw [length_append, iovecLen_cons]
        omega)]
      exact h₁.append (by simpa using Covers.cons h₂ .nil)
    · rw [reverse_cons, iovecLen_cons, take_append, take_of_length_le (by omega),
        show v.iovLen + iovecLen vs - extra - l₁.length = v.iovLen - extra by omega]
      exact h₁.append (by simpa using Covers.cons h₂.shorten .nil)
    · rw [iovecLen_cons, take_append_of_le_length (by omega),
        show v.iovLen + iovecLen vs - extra = iovecLen vs - (extra - v.iovLen) by omega]
      exact ih h₁ _

theorem Covers.chop (h : Covers ram vs l) (extra : ℕ) :
    Covers ram (Ahci.chopBack vs.reverse extra).reverse (l.take (iovecLen vs - extra)) := by
  have hrev : iovecLen vs.reverse = iovecLen vs := by simp [iovecLen]
  rw [← vs.reverse_reverse] at h
  rw [← hrev]
  exact h.chopBack extra

section Walk

variable (ram : GuestRam) (es : List PrdtEntry) (skip left room : ℕ)

theorem walkPrdt_length : (walkPrdt ram es skip left room).1.length ≤ room := by
  fun_induction walkPrdt ram es skip left room with
  | case1 | case2 => exact Nat.zero_le _
  | case3 e es skip left room hgo hskip ih => exact ih
  | case4 e es skip left room hgo hskip n r ih =>
    have hr : r.1.length ≤ room - 1 := ih
    rw [length_cons]
    omega

theorem walkPrdt_sum : iovecLen (walkPrdt ram es skip left room).1 =
    min left ((remaining es skip).take room).sum := by
  fun_induction walkPrdt ram es skip left room with
  | case1 skip left room => simp [remaining, iovecLen]
  | case2 e es skip left room hstop =>
    rcases hstop with rfl | rfl <;> simp [iovecLen]
  | case3 e es skip left room hgo hskip ih => rw [ih, remaining, if_pos hskip]
  | case4 e es skip left room hgo hskip n r ih =>
    obtain ⟨room, rfl⟩ := Nat.exists_eq_succ_of_ne_zero fun h => hgo (.inl h)
    have hr : iovecLen r.1 = min (left - n) ((remaining es 0).take room).sum := ih
    rw [remaining, if_neg hskip, iovecLen_cons, take_succ_cons, sum_cons]
    dsimp only
    omega

theorem walkPrdt_le : iovecLen (walkPrdt ram es skip left room).1 ≤ left := by
  rw [walkPrdt_sum]
  exact Nat.min_le_left ..

/-- Unless it ran out of segments, the walk takes all there is. -/
theorem walkPrdt_total (h : (walkPrdt ram es skip left room).1.length < room ∨
      (walkPrdt ram es skip left room).2 = []) :
    iovecLen (walkPrdt ram es skip left room).1 = min left ((scatterBytes es).length - skip) := by
  fun_induction walkPrdt ram es skip left room with
  | case1 skip left room => simp [scatterBytes]
  | case2 e es skip left room hstop =>
    rcases h with h | h
    · have hleft : left = 0 := by
        rcases hstop with hroom | hleft
        · simp [hroom] at h
        · exact hleft
      simp [hleft]
    · cases h
  | case3 e es skip left room hgo hskip ih =>
    rw [ih h, scatterBytes_cons, length_append, length_span]
    congr 1
    omega
  | case4 e es skip left room hgo hskip n r ih =>
    have hrest : r.1.length < room - 1 ∨ r.2 = [] := by
      rcases h with h | h
      · rw [length_cons] at h
        exact .inl (by omega)
      · exact .inr h
    rw [iovecLen_cons, ih hrest, scatterBytes_cons, length_append, length_span]
    dsimp only
    omega

/-- It leaves entries behind only when it ran out of segments or of length. -/
theorem walkPrdt_left (h : (walkPrdt ram es skip left room).2 ≠ []) :
    (walkPrdt ram es skip left room).1.length = room ∨
      iovecLen (walkPrdt ram es skip left room).1 = left := by
  fun_induction walkPrdt ram es skip left room with
  | case1 skip left room => exact absurd rfl h
  | case2 e es skip left room hstop =>
    rcases hstop with hroom | hleft
    · exact .inl hroom.symm
    · exact .inr hleft.symm
  | case3 e es skip left room hgo hskip ih => exact ih h
  | case4 e es skip left room hgo hskip n r ih =>
    have hr : r.1.length = room - 1 ∨ iovecLen r.1 = left - n := ih h
    rw [length_cons, iovecLen_cons]
    dsimp only
    omega

/-- The segments of the walk are the next bytes of the scatter list. -/
theorem walkPrdt_covers : Covers ram (walkPrdt ram es skip left room).1
    (((scatterBytes es).drop skip).take (iovecLen (walkPrdt ram es skip left room).1)) := by
  fun_induction walkPrdt ram es skip left room with
  | case1 | case2 => simpa using Covers.nil
  | case3 e es skip left room hgo hskip ih =>
    rw [scatterBytes_cons, drop_append, drop_eq_nil_of_le (by simpa using hskip), length_span]
    exact ih
  | case4 e es skip left room hgo hskip n r ih =>
    have hshow : Shows ram ⟨paddrGuest2host ram (e.dba + .ofNat skip) n, n⟩
        (span (e.dba + .ofNat skip) n) := ⟨_, n, le_rfl, rfl, rfl⟩
    have hn : n ≤ e.size - skip := Nat.min_le_left ..
    have hdrop : (scatterBytes (e :: es)).drop skip =
        span (e.dba + .ofNat skip) (e.size - skip) ++ scatterBytes es := by
      rw [scatterBytes_cons, drop_append_of_le_length (by rw [length_span]; omega), drop_span]
    have htake : ((scatterBytes (e :: es)).drop skip).take (n + iovecLen r.1) =
        span (e.dba + .ofNat skip) n ++ ((scatterBytes es).drop 0).take (iovecLen r.1) := by
      rw [hdrop, drop_zero, take_append, length_span]
      rcases Nat.lt_or_ge left (e.size - skip) with hlt | hge
      · -- the length ends in this entry, and nothing follows
        have hle : iovecLen r.1 ≤ left - n := walkPrdt_le ..
        have hzero : iovecLen r.1 = 0 := by omega
        rw [hzero, Nat.add_zero, take_span hn, Nat.sub_eq_zero_of_le hn]
      · have hall : n = e.size - skip := Nat.min_eq_left hge
        rw [← hall, take_of_length_le (by simp), Nat.add_sub_cancel_left]
    rw [iovecLen_cons, htake]
    exact .cons hshow ih

end Walk

/-- What is left of a transfer: the rest of its length, if the scatter list goes that far. -/
def restOf (es : List PrdtEntry) (len done : ℕ) : ℕ := min (len - done) ((scatterBytes es).length - done)

/-- What is left of the transfer takes all the segments of a request. -/
def Limited (ram : GuestRam) (es : List PrdtEntry) (len done : UInt32) : Prop :=
  (walkPrdt ram es done.toNat (leftOf len done) blockifIovMax).1.length = blockifIovMax

/-- A part of a transfer: the next bytes of the scatter list in order. Only a part that used all
segments is rounded down to whole sectors, and only such a part can be followed by another. -/
structure IsPart (ram : GuestRam) (sectsz : ℕ) (es : List PrdtEntry) (len done : UInt32)
    (p : Part) : Prop where
  covers : Covers ram p.iov (((scatterBytes es).drop done.toNat).take p.todo)
  todo : p.todo = iovecLen p.iov
  count : p.done.toNat = done.toNat + p.todo
  rest : p.todo ≤ restOf es len.toNat done.toNat
  more : p.more = true → 0 < p.todo ∧ p.todo % sectsz = 0
  last : p.more = false → p.todo = restOf es len.toNat done.toNat ∨ Limited ram es len done ∧
    p.todo = restOf es len.toNat done.toNat - restOf es len.toNat done.toNat % sectsz

/-- The length that is left, as an `int`. -/
theorem leftOf_eq (hlen : len.toNat < 2 ^ 31) (hdone : done.toNat < 2 ^ 31) :
    leftOf len done = len.toNat - done.toNat := by
  unfold leftOf
  rw [UInt32.toNat_sub]
  split <;> omega

/-- The walk as far as it goes, before any rounding. -/
theorem walkPrdt_le_rest (ram : GuestRam) (es : List PrdtEntry) (room : ℕ)
    (hlen : len.toNat < 2 ^ 31) (hdone : done.toNat < 2 ^ 31) :
    iovecLen (walkPrdt ram es done.toNat (leftOf len done) room).1 ≤
      restOf es len.toNat done.toNat := by
  have hcov := (walkPrdt_covers ram es done.toNat (leftOf len done) room).length
  have hle := walkPrdt_le ram es done.toNat (leftOf len done) room
  rw [length_take, length_drop] at hcov
  rw [leftOf_eq hlen hdone] at hle hcov ⊢
  unfold restOf
  omega

/-- The end of `ahci_build_iov`, whether it rounded or not. -/
theorem isPart_of {iov : List Iovec} {rest : List PrdtEntry} (hlen : len.toNat < 2 ^ 31)
    (hdone : done.toNat < 2 ^ 31)
    (hcov : Covers ram iov (((scatterBytes es).drop done.toNat).take k))
    (hk : k ≤ restOf es len.toNat done.toNat)
    (hmore : done.toNat + k < len.toNat → rest ≠ [] → 0 < k ∧ k % sectsz = 0)
    (hlast : len.toNat ≤ done.toNat + k ∨ rest = [] → k = restOf es len.toNat done.toNat ∨
      Limited ram es len done ∧
        k = restOf es len.toNat done.toNat - restOf es len.toNat done.toNat % sectsz) :
    IsPart ram sectsz es len done (.of len done rest iov k) := by
  have hbound : done.toNat + k < 2 ^ 31 := by
    unfold restOf at hk
    omega
  have hcount : (done + .ofNat k).toNat = done.toNat + k := by
    rw [UInt32.toNat_add, UInt32.toNat_ofNat']
    omega
  have hiff : (Part.of len done rest iov k).more = true ↔ done.toNat + k < len.toNat ∧ rest ≠ [] := by
    rw [← hcount, ← UInt32.lt_iff_toNat_lt]
    simp [Part.of]
  refine ⟨hcov, ?_, hcount, hk, fun h => ?_, fun h => hlast ?_⟩
  · have htook := hcov.length
    rw [length_take, length_drop] at htook
    change k = iovecLen iov
    unfold restOf at hk
    omega
  · obtain ⟨hlt, hne⟩ := hiff.mp h
    exact hmore hlt hne
  · by_contra hnot
    rw [not_or, not_le] at hnot
    rw [hiff.mpr hnot] at h
    cases h

theorem buildIov_isPart (hlen : len.toNat < 2 ^ 31) (hdone : done.toNat < 2 ^ 31)
    (h : ahciBuildIov ram sectsz es len done = .ok p) : IsPart ram sectsz es len done p := by
  have hcov := walkPrdt_covers ram es done.toNat (leftOf len done) blockifIovMax
  have hrest := walkPrdt_le_rest ram es blockifIovMax hlen hdone
  have htotal := walkPrdt_total ram es done.toNat (leftOf len done) blockifIovMax
  have hleft := walkPrdt_left ram es done.toNat (leftOf len done) blockifIovMax
  have hroom := walkPrdt_length ram es done.toNat (leftOf len done) blockifIovMax
  unfold ahciBuildIov at h
  dsimp only at h
  have hlimit : (walkPrdt ram es done.toNat (leftOf len done) blockifIovMax).1.length =
      blockifIovMax → Limited ram es len done := id
  generalize walkPrdt ram es done.toNat (leftOf len done) blockifIovMax = r at *
  rw [leftOf_eq hlen hdone] at htotal hleft
  change _ → iovecLen r.1 = restOf es len.toNat done.toNat at htotal
  have hbound : restOf es len.toNat done.toNat ≤ len.toNat - done.toNat := Nat.min_le_left ..
  split_ifs at h with hfull hpos
  · cases h
    have hle : iovecLen r.1 - iovecLen r.1 % sectsz ≤ iovecLen r.1 := Nat.sub_le ..
    have hchop := hcov.chop (iovecLen r.1 % sectsz)
    rw [take_take, Nat.min_eq_left hle] at hchop
    refine isPart_of hlen hdone hchop (le_trans hle hrest) (fun _ _ => ⟨hpos, ?_⟩) ?_
    · exact Nat.sub_mod_eq_zero_of_mod_eq (by simp)
    · rintro (hend | hnil)
      · left
        omega
      · exact .inr ⟨hlimit hfull, by rw [htotal (.inr hnil)]⟩
  · cases h
    have hlt : r.1.length < blockifIovMax := lt_of_le_of_ne hroom hfull
    refine isPart_of hlen hdone hcov hrest (fun hlt' hne => ?_) fun _ => .inl (htotal (.inl hlt))
    -- what is left behind without rounding lies beyond the length
    have hall := (hleft hne).resolve_left hfull
    omega

end HyperCog.Ahci
