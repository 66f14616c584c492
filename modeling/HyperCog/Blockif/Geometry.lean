import HyperCog.Blockif.Basic

/-! The geometry that a disk is given. -/
namespace HyperCog.Blockif

/-- A division of the source; there is none by zero. -/
def quotient (a b : ℤ) : Option ℤ := if b = 0 then none else some (a.tdiv b)

/-- Sectors of a track, heads, and cylinders times heads. -/
structure Tracks where
  secpt : ℤ
  heads : ℤ
  hcyl : ℤ

/-- The tracks of a disk with so many sectors, after the VHD specification. -/
def vhdTracks (sectors : ℤ) : Tracks :=
  if sectors ≥ 65536 * 16 * 63 then ⟨255, 16, sectors.tdiv 255⟩
  else
    let hcyl := sectors.tdiv 17
    -- the cast to eight bits comes before the tests
    let heads := (hcyl + 1023).tdiv 1024 % 2 ^ 8
    let heads := if heads < 4 then 4 else heads
    let t : Tracks :=
      if hcyl ≥ heads * 1024 ∨ heads > 16 then ⟨31, 16, sectors.tdiv 31⟩ else ⟨17, heads, hcyl⟩
    if t.hcyl ≥ t.heads * 1024 then ⟨63, 16, sectors.tdiv 63⟩ else t

/-- Cylinders, heads and sectors of a track. -/
def blockifChs (bc : BlockifCtxt) : Option (ℤ × ℤ × ℤ) := do
  let sectors ← quotient bc.bcSize.toInt bc.bcSectsz
  let t := vhdTracks (if sectors > 65535 * 16 * 255 then 65535 * 16 * 255 else sectors)
  let c ← quotient t.hcyl t.heads
  return (c % 2 ^ 16, t.heads, t.secpt % 2 ^ 8)

theorem quotient_eq {a b : ℤ} (ha : 0 ≤ a) (hb : 0 < b) : quotient a b = some (a / b) := by
  rw [quotient, if_neg (Int.ne_of_gt hb), Int.tdiv_eq_ediv_of_nonneg ha]

/-- A head count that the cast has cut down is too small for the cylinders, so it is not used. -/
theorem vhdTracks_eq {n : ℤ} (h0 : 0 ≤ n) (hn : n ≤ 65535 * 16 * 255) :
    ∃ secpt heads, vhdTracks n = ⟨secpt, heads, n / secpt⟩ ∧ 4 ≤ heads ∧ heads ≤ 16 ∧
      secpt ∈ [17, 31, 63, 255] ∧ n / secpt / heads < 2 ^ 16 := by
  have hcast : (n / 17 + 1023).tdiv 1024 = (n / 17 + 1023) / 1024 := Int.tdiv_eq_ediv_of_nonneg (by omega)
  simp only [vhdTracks, Int.tdiv_eq_ediv_of_nonneg h0, hcast]
  generalize hheads : (if (n / 17 + 1023) / 1024 % 2 ^ 8 < 4 then 4 else (n / 17 + 1023) / 1024 % 2 ^ 8) = heads
  have hfour : 4 ≤ heads := by
    split_ifs at hheads <;> omega
  split_ifs with hbig hmore hfull hmid
  · exact ⟨255, 16, rfl, by decide, by decide, by decide, by omega⟩
  · exact ⟨63, 16, rfl, by decide, by decide, by decide, by omega⟩
  · dsimp only at hfull
    exact ⟨31, 16, rfl, by decide, by decide, by decide, by omega⟩
  · exact absurd (.inl hmid) hmore
  · have hlt : n / 17 / heads < 1024 := Int.ediv_lt_of_lt_mul (by omega) (by omega)
    exact ⟨17, heads, rfl, hfour, by omega, by decide, by omega⟩

/-- The cylinders are the whole ones, so no bit of them is lost. -/
theorem blockifChs_sound (bc : BlockifCtxt) (k : ℕ) (hsize : 0 ≤ bc.bcSize.toInt) (hsect : bc.bcSectsz = 2 ^ k) :
    ∃ c h s, blockifChs bc = some (c, h, s) ∧ 4 ≤ h ∧ h ≤ 16 ∧ s ∈ [17, 31, 63, 255] ∧ 0 ≤ c ∧
      c < 2 ^ 16 ∧
      c * h * s ≤ min (bc.bcSize.toInt / bc.bcSectsz) (65535 * 16 * 255) ∧
      min (bc.bcSize.toInt / bc.bcSectsz) (65535 * 16 * 255) < (c + 1) * h * s := by
  have hpos : (0 : ℤ) < bc.bcSectsz := by
    have hpow := Nat.two_pow_pos k
    omega
  have hclamp (q : ℤ) : (if q > 65535 * 16 * 255 then 65535 * 16 * 255 else q) = min q (65535 * 16 * 255) := by omega
  rw [blockifChs, quotient_eq hsize hpos, Option.bind_eq_bind, Option.bind_some, hclamp]
  have h0 : 0 ≤ bc.bcSize.toInt / bc.bcSectsz := Int.ediv_nonneg hsize (Int.le_of_lt hpos)
  generalize hn : min (bc.bcSize.toInt / (bc.bcSectsz : ℤ)) (65535 * 16 * 255) = n
  obtain ⟨s, h, heq, hfour, hmax, hs, hfit⟩ := vhdTracks_eq (n := n) (by omega) (by omega)
  have hbyte : 0 < s ∧ s < 2 ^ 8 := (show ∀ s ∈ [(17 : ℤ), 31, 63, 255], 0 < s ∧ s < 2 ^ 8 by decide) s hs
  have hheads : 0 < h := by omega
  have harea : 0 < h * s := Int.mul_pos hheads hbyte.1
  have hhcyl : 0 ≤ n / s := Int.ediv_nonneg (by omega) (by omega)
  have hwhole : 0 ≤ n / s / h := Int.ediv_nonneg hhcyl (by omega)
  have hnested : n / s / h = n / (h * s) := by
    rw [Int.ediv_ediv_of_nonneg (by omega), Int.mul_comm]
  refine ⟨n / s / h, h, s, ?_, hfour, hmax, hs, hwhole, hfit, ?_, ?_⟩
  · rw [heq]
    dsimp only
    rw [quotient_eq hhcyl hheads, Option.bind_some, Int.emod_eq_of_lt hwhole hfit, Int.emod_eq_of_lt (by omega) hbyte.2]
    rfl
  · rw [Int.mul_assoc, hnested]
    exact Int.ediv_mul_le n (Int.ne_of_gt harea)
  · rw [Int.mul_assoc, hnested]
    exact Int.lt_ediv_add_one_mul_self n harea

/-- A disk whose head count is 256 before the cast. -/
def castDisk : BlockifCtxt := ⟨3, -1, false, false, true, false, 2281701376, 512, 4096⟩

theorem blockifChs_sound_castDisk : ∃ c h s, blockifChs castDisk = some (c, h, s) ∧ 4 ≤ h ∧ h ≤ 16 := by
  obtain ⟨c, h, s, heq, hfour, hmax, -⟩ := blockifChs_sound castDisk 9 (by decide) rfl
  exact ⟨c, h, s, heq, hfour, hmax⟩

end HyperCog.Blockif
