import HyperCog.Ahci.Scatter

/-! When a request runs out of segments: what `ahci_build_iov` leaves for the next one. -/
namespace HyperCog.Ahci

open Virtio Blockif List

/-- The part is as long as its segments, which fit into the request, and what it leaves starts
further on and at a sector. -/
def Advances (sectsz : ℕ) (done : UInt32) (p : Part) : Prop :=
  iovecLen p.iov = p.todo ∧ p.iov.length ≤ blockifIovMax ∧
    (p.more = true → done < p.done ∧ p.done.toNat % sectsz = 0)

/-- The request runs out of segments before it has the length. -/
def RunsOut (l : List ℕ) (left : ℕ) : Prop :=
  blockifIovMax ≤ l.length ∧ (l.take (blockifIovMax - 1)).sum < left

/-- The length is less than 2 GiB, and a request that runs out of segments has a sector in them; if it
leaves bytes and entries behind, it started at a sector. -/
def Divisible (sectsz : ℕ) (es : List PrdtEntry) (len done : ℕ) : Prop :=
  (len - done < 2 ^ 31 ∨ es = []) ∧ (RunsOut (remaining es done) (len - done) →
      let taken := min (len - done) ((remaining es done).take blockifIovMax).sum
      sectsz ≤ taken ∧ (blockifIovMax < (remaining es done).length →
        taken < len - done ∨ taken % sectsz ≠ 0 → done % sectsz = 0))

section Walk

variable (ram : GuestRam) (es : List PrdtEntry) (skip left room : ℕ)

theorem walkPrdt_full (hroom : 0 < room) : (walkPrdt ram es skip left room).1.length = room ↔
    room ≤ (remaining es skip).length ∧ ((remaining es skip).take (room - 1)).sum < left := by
  fun_induction walkPrdt ram es skip left room with
  | case1 skip left room => simp [remaining, hroom.ne, hroom.ne']
  | case2 e es skip left room hstop => simp [hstop.resolve_left hroom.ne', hroom.ne]
  | case3 e es skip left room hgo hskip ih => rw [ih hroom, remaining, if_pos hskip]
  | case4 e es skip left room hgo hskip n r ih =>
    rw [remaining, if_neg hskip, length_cons, length_cons]
    obtain rfl | ⟨room, rfl⟩ : room = 1 ∨ ∃ k, room = k + 2 :=
      (Nat.eq_or_lt_of_le hroom).imp Eq.symm fun h => ⟨room - 2, by omega⟩
    · have hr : r.1.length = 0 := Nat.le_zero.mp (walkPrdt_length ..)
      simp [hr]
      omega
    · have hr : r.1.length = room + 1 ↔
          room + 1 ≤ (remaining es 0).length ∧ ((remaining es 0).take room).sum < left - n :=
        ih (Nat.succ_pos _)
      rw [show room + 2 - 1 = room + 1 from rfl, take_succ_cons, sum_cons]
      omega

/-- With all segments in use, entries are left behind if there are more of them. -/
theorem walkPrdt_rest (hsize : ∀ e ∈ es, 0 < e.size) (hskip : room = 0 → skip = 0)
    (hfull : (walkPrdt ram es skip left room).1.length = room) :
    (walkPrdt ram es skip left room).2 = [] ↔ (remaining es skip).length = room := by
  fun_induction walkPrdt ram es skip left room with
  | case1 skip left room => simpa [remaining] using hfull
  | case2 e es skip left room hstop =>
    obtain rfl : room = 0 := hfull.symm
    have he := hsize e mem_cons_self
    rw [remaining, if_neg (by omega)]
    simp
  | case3 e es skip left room hgo hle ih =>
    rw [remaining, if_pos hle]
    exact ih (fun e he => hsize e (mem_cons_of_mem _ he)) (fun h => absurd (.inl h) hgo) hfull
  | case4 e es skip left room hgo hle n r ih =>
    rw [remaining, if_neg hle, length_cons]
    have hr : r.2 = [] ↔ (remaining es 0).length = room - 1 :=
      ih (fun e he => hsize e (mem_cons_of_mem _ he)) (fun _ => rfl)
        (Nat.eq_sub_of_add_eq hfull)
    rw [hr]
    omega

end Walk

theorem length_chopBack (vs : List Iovec) (extra : ℕ) : (chopBack vs extra).length ≤ vs.length := by
  fun_induction chopBack vs extra with
  | case1 | case2 => exact le_rfl
  | case3 => simp
  | case4 v vs extra _ _ ih => exact le_trans ih (Nat.le_succ _)

variable {ram : GuestRam} {sectsz : ℕ} {es : List PrdtEntry} {len done : UInt32}

theorem advances_of_iff {iov : List Iovec} {k : ℕ} (hk : done.toNat + k ≤ len.toNat) :
    Advances sectsz done (.of len done es iov k) ↔ iovecLen iov = k ∧ iov.length ≤ blockifIovMax ∧
      (done.toNat + k < len.toNat → es ≠ [] → 0 < k ∧ (done.toNat + k) % sectsz = 0) := by
  have hlt := len.toNat_lt
  have hcount : (done + .ofNat k).toNat = done.toNat + k := by
    rw [UInt32.toNat_add, UInt32.toNat_ofNat']
    omega
  simp [Advances, Part.of, UInt32.lt_iff_toNat_lt, hcount]

/-- A request that has all its segments in use. -/
theorem advances_rounded_iff {r : List Iovec × List PrdtEntry} {l : List UInt64}
    (hcov : Covers ram r.1 l) (hsect : 0 < sectsz)
    (hle : done.toNat + iovecLen r.1 ≤ len.toNat) (hcount : r.1.length = blockifIovMax)
    (hsec : sectsz ≤ iovecLen r.1) :
    Advances sectsz done (.of len done r.2
        (chopBack r.1.reverse (iovecLen r.1 % sectsz)).reverse
        (iovecLen r.1 - iovecLen r.1 % sectsz)) ↔
      (r.2 ≠ [] → done.toNat + iovecLen r.1 < len.toNat ∨ iovecLen r.1 % sectsz ≠ 0 →
        done.toNat % sectsz = 0) := by
  have hmod := Nat.mod_lt (iovecLen r.1) hsect
  have hchop := (hcov.chop (iovecLen r.1 % sectsz)).length
  have hlen := length_chopBack r.1.reverse (iovecLen r.1 % sectsz)
  have hstart : (done.toNat + (iovecLen r.1 - iovecLen r.1 % sectsz)) % sectsz =
      done.toNat % sectsz := by
    rw [Nat.add_mod, Nat.sub_mod_eq_zero_of_mod_eq (Nat.mod_mod _ _).symm, Nat.add_zero, Nat.mod_mod]
  rw [length_take, hcov.length, Nat.min_eq_left (Nat.sub_le ..)] at hchop
  rw [length_reverse, hcount] at hlen
  rw [advances_of_iff (by omega), ← hchop, length_reverse, hstart, and_iff_right rfl,
    and_iff_right hlen]
  constructor
  · exact fun h hne hleave => (h (by omega) hne).2
  · exact fun h hlt hne => ⟨by omega, h hne (by omega)⟩

theorem build_iov_advances_iff (ram : GuestRam) (sectsz : ℕ) (es : List PrdtEntry)
    (len done : UInt32) (hdone : done < len) (hsect : 0 < sectsz) (hsize : ∀ e ∈ es, 0 < e.size) :
    (∃ p, ahciBuildIov ram sectsz es len done = .ok p ∧ Advances sectsz done p) ↔
      Divisible sectsz es len.toNat done.toNat := by
  rw [UInt32.lt_iff_toNat_lt] at hdone
  have hleft : (len - done).toNat = len.toNat - done.toNat :=
    UInt32.toNat_sub_of_le _ _ (UInt32.le_iff_toNat_le.mpr hdone.le)
  have hex (q : Part) : (∃ p, (.ok q : Except Fault Part) = .ok p ∧ Advances sectsz done p) ↔
      Advances sectsz done q := by simp
  unfold ahciBuildIov Divisible leftOf
  rw [hleft]
  split_ifs with hshort
  · rw [and_iff_right (.inl hshort), ← walkPrdt_sum ram]
    have hle := walkPrdt_le ram es done.toNat (len.toNat - done.toNat) blockifIovMax
    have hfull : _ ↔ RunsOut _ _ :=
      walkPrdt_full ram es done.toNat (len.toNat - done.toNat) blockifIovMax (by decide)
    have hrest := walkPrdt_rest ram es done.toNat (len.toNat - done.toNat) blockifIovMax hsize nofun
    have hall := walkPrdt_left ram es done.toNat (len.toNat - done.toNat) blockifIovMax
    have hroom := walkPrdt_length ram es done.toNat (len.toNat - done.toNat) blockifIovMax
    have hcov := walkPrdt_covers ram es done.toNat (len.toNat - done.toNat) blockifIovMax
    generalize walkPrdt ram es done.toNat (len.toNat - done.toNat) blockifIovMax = r at *
    dsimp only
    rw [← hfull]
    by_cases hrun : r.1.length = blockifIovMax
    · have hmore : blockifIovMax < (remaining es done.toNat).length ↔ r.2 ≠ [] := by
        rw [Ne, hrest hrun, Nat.lt_iff_le_and_ne, and_iff_right (hfull.mp hrun).1, ne_comm]
      rw [if_pos hrun, forall_prop_of_true hrun, hmore]
      by_cases hsec : sectsz ≤ iovecLen r.1
      · have hmod := Nat.mod_lt (iovecLen r.1) hsect
        rw [if_pos (by omega), hex, advances_rounded_iff hcov hsect (by omega) hrun hsec,
          and_iff_right hsec, Nat.lt_sub_iff_add_lt']
      · rw [Nat.mod_eq_of_lt (by omega)]
        simp [hsec]
    · rw [if_neg hrun, hex, advances_of_iff (by omega)]
      simp only [hrun, false_imp_iff, iff_true, true_and]
      refine ⟨hroom, fun hlt hne => ?_⟩
      have hnone := (hall hne).resolve_left hrun
      omega
  · have hnil : walkPrdt ram es done.toNat 0 blockifIovMax = ([], es) := by
      cases es <;> simp [walkPrdt]
    rw [hnil]
    rw [if_neg (nofun), hex, advances_of_iff (by simpa [iovecLen] using hdone.le)]
    cases es with
    | nil => simp [remaining, RunsOut, iovecLen, blockifIovMax]
    | cons e es =>
      refine iff_of_false ?_ fun h => h.1.elim hshort (List.cons_ne_nil e es)
      rintro ⟨-, -, hmore⟩
      exact Nat.lt_irrefl 0 (hmore hdone (List.cons_ne_nil e es)).1

/-- One entry more than a request has segments: the first part takes all of its 126 segments. -/
theorem build_iov_advances_whole :
    (∃ p, ahciBuildIov ⟨0x1000, 0⟩ 512 (List.replicate 127 ⟨0, 512⟩) 65024 0 = .ok p ∧
      Advances 512 0 p) :=
  (build_iov_advances_iff ⟨0x1000, 0⟩ 512 (List.replicate 127 ⟨0, 512⟩) 65024 0 (by decide) (by decide)
    (by simp)).mpr ⟨by decide, fun _ => ⟨by decide +kernel, fun _ _ => rfl⟩⟩

/-- All the segments of a request together are shorter than a sector. -/
theorem build_iov_aborts : ahciBuildIov ⟨0x1000, 0⟩ 512 (List.replicate 126 ⟨0, 1⟩) 512 0 =
    .error .partialSector := by
  decide +kernel

end HyperCog.Ahci
