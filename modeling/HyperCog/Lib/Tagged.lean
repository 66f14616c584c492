import HyperCog.Lib.Pool

/-! A pool whose elements carry a tag while they are in use, no two the same. -/
namespace Pool

open List

variable {ι τ : Type*} [DecidableEq ι] {hole : Option τ} {held due out out' free busy : List ι}
  {mark mark' : τ → Bool} {tag tag' : ι → τ} {a : ι} {t : τ}

/-- Elements are free, or in use and out with a server; each tag in use is marked. In between,
`held` were taken off the free list, `due` are in use and not out, and of the tag `hole` it is
only known that none but those due carry it. -/
structure Tagged (hole : Option τ) (held due out free busy : List ι) (mark : τ → Bool)
    (tag : ι → τ) : Prop where
  split : Split (held ++ free) busy
  flight : (due ++ out).Perm busy
  marked : ∀ t, hole ≠ some t → (mark t = true ↔ ∃ a ∈ busy, tag a = t)
  vacant : ∀ t, hole = some t → ∀ a ∈ busy, tag a = t → a ∈ due
  inj : ∀ a ∈ busy, ∀ b ∈ busy, tag a = tag b → a = b

/-- One element in use a tag. -/
theorem Tagged.length_busy [Fintype τ] (h : Tagged hole held due out free busy mark tag) :
    busy.length ≤ Fintype.card τ := by
  have hnodup : (busy.map tag).Nodup := List.Nodup.map_on h.inj (nodup_inuse h.split)
  simpa using hnodup.length_le_card

/-- With more elements than tags, one is free. -/
theorem Tagged.exists_free [Fintype ι] [Fintype τ]
    (h : Tagged hole [] due out free busy mark tag) (hcard : Fintype.card τ < Fintype.card ι) :
    free ≠ [] := by
  rintro rfl
  have hlen := length_split h.split
  have hbusy := h.length_busy
  simp only [append_nil, length_nil] at hlen
  omega

/-- What is in use and not out leaves room for itself. -/
theorem Tagged.length_out [Fintype τ] (h : Tagged hole held [a] out free busy mark tag) :
    out.length < Fintype.card τ := by
  have hlen := h.flight.length_eq
  have hbusy := h.length_busy
  simp only [singleton_append, length_cons] at hlen
  omega

/-- A tag without a mark is vacant. -/
theorem Tagged.vacate (h : Tagged none held [] out free busy mark tag) (ht : mark t = false) :
    Tagged (some t) held [] out free busy mark tag := by
  refine { h with marked := fun u _ => h.marked u (by simp), vacant := ?_ }
  intro u hu a ha htag
  cases hu
  rw [(h.marked t (by simp)).mpr ⟨a, ha, htag⟩] at ht
  cases ht

/-- The mark of a vacant tag may be changed. -/
theorem Tagged.remark (h : Tagged (some t) held due out free busy mark tag)
    (hm : ∀ u, u ≠ t → mark' u = mark u) : Tagged (some t) held due out free busy mark' tag := by
  refine { h with marked := fun u hu => ?_ }
  rw [hm u (fun heq => hu (by rw [heq]))]
  exact h.marked u hu

/-- Once its mark is off, a vacant tag is like the others. -/
theorem Tagged.close (h : Tagged (some t) held [] out free busy mark tag) (ht : mark t = false) :
    Tagged none held [] out free busy mark tag := by
  refine { h with marked := fun u _ => ?_, vacant := by simp }
  by_cases hu : u = t
  · subst hu
    constructor
    · intro hset
      rw [ht] at hset
      cases hset
    · rintro ⟨a, ha, htag⟩
      cases h.vacant u rfl a ha htag
  · exact h.marked u (by simpa using Ne.symm hu)

theorem Tagged.pull (h : Tagged hole [] due out (a :: free) busy mark tag) :
    Tagged hole [a] due out free busy mark tag := { h with split := h.split }

/-- An element that was taken goes into use under a vacant tag. -/
theorem Tagged.occupy (h : Tagged (some t) [a] [] out free busy mark tag) (ha : tag' a = t)
    (htag : ∀ b, b ≠ a → tag' b = tag b) (ht : mark' t = true)
    (hmark : ∀ u, u ≠ t → mark' u = mark u) :
    Tagged none [] [a] out free (a :: busy) mark' tag' := by
  have hnot : a ∉ busy := fun hb => (mem_inuse_iff h.split).mp hb (by simp)
  have hold : ∀ b ∈ busy, tag' b = tag b := fun b hb => htag b fun heq => hnot (heq ▸ hb)
  have hfree : ∀ b ∈ busy, tag b ≠ t := fun b hb heq => by cases h.vacant t rfl b hb heq
  refine ⟨split_take h.split, h.flight.cons a, ?_, by simp, ?_⟩
  · intro u _
    by_cases hu : u = t
    · subst hu
      simp only [ht, true_iff]
      exact ⟨a, mem_cons_self, ha⟩
    · rw [hmark u hu, h.marked u (by simpa using Ne.symm hu)]
      constructor
      · rintro ⟨b, hb, rfl⟩
        exact ⟨b, mem_cons_of_mem _ hb, hold b hb⟩
      · rintro ⟨b, hb, rfl⟩
        rcases mem_cons.mp hb with rfl | hb
        · exact absurd ha hu
        · exact ⟨b, hb, (hold b hb).symm⟩
  · intro b hb d hd heq
    rcases mem_cons.mp hb with hba | hb'
    · rcases mem_cons.mp hd with hda | hd'
      · rw [hba, hda]
      · rw [hba, ha, hold d hd'] at heq
        exact absurd heq.symm (hfree d hd')
    · rcases mem_cons.mp hd with hda | hd'
      · rw [hda, ha, hold b hb'] at heq
        exact absurd heq (hfree b hb')
      · rw [hold b hb', hold d hd'] at heq
        exact h.inj b hb' d hd' heq

/-- What was due goes out. -/
theorem Tagged.send (h : Tagged none held [a] out free busy mark tag) (ho : out'.Perm (a :: out)) :
    Tagged none held [] out' free busy mark tag :=
  { h with flight := ho.trans h.flight, vacant := by simp }

/-- What comes back is due, and its tag with it. -/
theorem Tagged.recall (h : Tagged none held [] out free busy mark tag)
    (ho : out.Perm (a :: out')) : Tagged (some (tag a)) held [a] out' free busy mark tag := by
  have ha : a ∈ busy := (ho.symm.trans h.flight).subset mem_cons_self
  refine { h with
    flight := ho.symm.trans h.flight
    marked := fun u _ => h.marked u (by simp)
    vacant := ?_ }
  intro u hu b hb heq
  cases hu
  exact mem_singleton.mpr (h.inj b hb a ha heq)

theorem Tagged.release (h : Tagged hole [] [a] out free busy mark tag) (ht : hole = some (tag a)) :
    Tagged hole [] [] out (free ++ [a]) (busy.erase a) mark tag := by
  have ha : a ∈ busy := h.flight.subset mem_cons_self
  have hmem : ∀ b, b ∈ busy.erase a ↔ b ≠ a ∧ b ∈ busy :=
    fun b => (nodup_inuse h.split).mem_erase_iff
  refine ⟨?_, ?_, ?_, ?_, ?_⟩
  · exact split_perm (split_give h.split ha) (perm_append_singleton a free).symm (.refl _)
  · exact (perm_cons a).mp (h.flight.trans (perm_cons_erase ha))
  · intro u hu
    rw [h.marked u hu]
    constructor
    · rintro ⟨b, hb, rfl⟩
      refine ⟨b, (hmem b).mpr ⟨?_, hb⟩, rfl⟩
      rintro rfl
      exact hu ht
    · rintro ⟨b, hb, htag⟩
      exact ⟨b, ((hmem b).mp hb).2, htag⟩
  · intro u hu b hb htag
    obtain ⟨hne, hb⟩ := (hmem b).mp hb
    exact absurd (mem_singleton.mp (h.vacant u hu b hb htag)) hne
  · intro b hb d hd heq
    exact h.inj b ((hmem b).mp hb).2 d ((hmem d).mp hd).2 heq

end Pool
