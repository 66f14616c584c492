import Mathlib.Data.List.Pairwise
import Mathlib.Tactic.Tauto

/-! Binary search trees of any shape, searched with a comparison against each node. -/

inductive SearchTree (β : Type*)
  | nil
  | node (l : SearchTree β) (x : β) (r : SearchTree β)

namespace SearchTree

open List

variable {β : Type*} {R : β → β → Prop} {cmp : β → Ordering} {x y : β}

/-- The nodes from left to right. What rebalances a tree keeps them. -/
def toList : SearchTree β → List β
  | .nil => []
  | .node l x r => l.toList ++ x :: r.toList

/-- Follows the comparison of what is searched with each node. -/
def find (cmp : β → Ordering) : SearchTree β → Option β
  | .nil => none
  | .node l x r =>
    match cmp x with
    | .lt => l.find cmp
    | .gt => r.find cmp
    | .eq => some x

/-- Adds a leaf where the search for it ends, unless it meets its equal. -/
def insert (cmp : β → Ordering) (x : β) : SearchTree β → Option (SearchTree β)
  | .nil => some (.node .nil x .nil)
  | .node l y r =>
    match cmp y with
    | .lt => (l.insert cmp x).map fun l => .node l y r
    | .gt => (r.insert cmp x).map fun r => .node l y r
    | .eq => none

/-- The nodes stand in the order `R`. -/
def Sorted (R : β → β → Prop) (t : SearchTree β) : Prop := t.toList.Pairwise R

/-- The comparison goes the same way for all nodes to one side. -/
structure Follows (R : β → β → Prop) (cmp : β → Ordering) : Prop where
  lt : ∀ x y, R x y → cmp x = .lt → cmp y = .lt
  gt : ∀ x y, R x y → cmp y = .gt → cmp x = .gt

variable {t t' : SearchTree β}

/-- Of two nodes one stands before the other. -/
theorem Sorted.before_or_after (hs : t.Sorted R) (hx : x ∈ t.toList) (hy : y ∈ t.toList)
    (hne : x ≠ y) : R x y ∨ R y x := by
  have : Std.Symm fun a b => R a b ∨ R b a := ⟨fun _ _ h => h.symm⟩
  have hpair : t.toList.Pairwise fun a b => R a b ∨ R b a := hs.imp fun h => .inl h
  exact hpair.forall hx hy hne

theorem find_some (h : t.find cmp = some x) : x ∈ t.toList ∧ cmp x = .eq := by
  induction t with
  | nil => cases h
  | node l y r ihl ihr =>
    rw [find] at h
    split at h
    · exact ⟨mem_append_left _ (ihl h).1, (ihl h).2⟩
    · exact ⟨mem_append_right _ (mem_cons_of_mem _ (ihr h).1), (ihr h).2⟩
    · cases h
      exact ⟨by simp [toList], ‹_›⟩

/-- A search that ends without a node has missed none. -/
theorem find_none (hf : Follows R cmp) (hs : t.Sorted R) (h : t.find cmp = none) :
    ∀ x ∈ t.toList, cmp x ≠ .eq := by
  induction t with
  | nil => simp [toList]
  | node l y r ihl ihr =>
    obtain ⟨hl, hyr, hcross⟩ := pairwise_append.mp hs
    obtain ⟨hy, hr⟩ := pairwise_cons.mp hyr
    intro x hx
    rw [find] at h
    rcases mem_append.mp hx with hxl | hxr
    · split at h
      · exact ihl hl h x hxl
      · have hgt : cmp x = .gt := hf.gt x y (hcross x hxl y mem_cons_self) ‹_›
        simp [hgt]
      · cases h
    · rcases mem_cons.mp hxr with rfl | hxr
      · intro heq
        simp [heq] at h
      · split at h
        · have hlt : cmp x = .lt := hf.lt y x (hy x hxr) ‹_›
          simp [hlt]
        · exact ihr hr h x hxr
        · cases h

/-- The search finds the one node that compares equal. -/
theorem find_eq_some (hf : Follows R cmp) (hs : t.Sorted R) (hx : x ∈ t.toList) (heq : cmp x = .eq)
    (hone : ∀ y ∈ t.toList, cmp y = .eq → y = x) : t.find cmp = some x := by
  cases hfind : t.find cmp with
  | none => exact absurd heq (find_none hf hs hfind x hx)
  | some y =>
    obtain ⟨hy, hyeq⟩ := find_some hfind
    rw [hone y hy hyeq]

theorem mem_insert (h : t.insert cmp x = some t') : y ∈ t'.toList ↔ y = x ∨ y ∈ t.toList := by
  induction t generalizing t' with
  | nil =>
    cases h
    simp [toList]
  | node l z r ihl ihr =>
    rw [insert] at h
    split at h
    · obtain ⟨l', hl', rfl⟩ := Option.map_eq_some_iff.mp h
      simp only [toList, mem_append, ihl hl', or_assoc]
    · obtain ⟨r', hr', rfl⟩ := Option.map_eq_some_iff.mp h
      simp only [toList, mem_append, mem_cons, ihr hr']
      tauto
    · cases h

/-- A leaf is not added only where the search meets its equal. -/
theorem insert_none (h : t.insert cmp x = none) : ∃ y ∈ t.toList, cmp y = .eq := by
  induction t with
  | nil => cases h
  | node l z r ihl ihr =>
    rw [insert] at h
    split at h
    · obtain ⟨y, hy, heq⟩ := ihl (Option.map_eq_none_iff.mp h)
      exact ⟨y, mem_append_left _ hy, heq⟩
    · obtain ⟨y, hy, heq⟩ := ihr (Option.map_eq_none_iff.mp h)
      exact ⟨y, mem_append_right _ (mem_cons_of_mem _ hy), heq⟩
    · exact ⟨z, mem_append_right _ mem_cons_self, ‹_›⟩

/-- The new node stands in order with all the others. -/
theorem sorted_insert (htrans : ∀ x y z, R x y → R y z → R x z) (hlt : ∀ y, cmp y = .lt → R x y)
    (hgt : ∀ y, cmp y = .gt → R y x) (hs : t.Sorted R) (h : t.insert cmp x = some t') :
    t'.Sorted R := by
  induction t generalizing t' with
  | nil =>
    cases h
    simp [Sorted, toList]
  | node l y r ihl ihr =>
    obtain ⟨hl, hyr, hcross⟩ := pairwise_append.mp hs
    obtain ⟨hy, hr⟩ := pairwise_cons.mp hyr
    rw [insert] at h
    split at h
    · obtain ⟨l', hl', rfl⟩ := Option.map_eq_some_iff.mp h
      refine pairwise_append.mpr ⟨ihl hl hl', hyr, fun a ha b hb => ?_⟩
      rcases (mem_insert hl').mp ha with rfl | ha
      · rcases mem_cons.mp hb with rfl | hb
        · exact hlt _ ‹_›
        · exact htrans _ _ _ (hlt y ‹_›) (hy b hb)
      · exact hcross a ha b hb
    · obtain ⟨r', hr', rfl⟩ := Option.map_eq_some_iff.mp h
      refine pairwise_append.mpr ⟨hl, pairwise_cons.mpr ⟨fun b hb => ?_, ihr hr hr'⟩,
        fun a ha b hb => ?_⟩
      · rcases (mem_insert hr').mp hb with rfl | hb
        · exact hgt y ‹_›
        · exact hy b hb
      · rcases mem_cons.mp hb with rfl | hb
        · exact hcross a ha b mem_cons_self
        · rcases (mem_insert hr').mp hb with rfl | hb
          · exact htrans _ _ _ (hcross a ha y mem_cons_self) (hgt y ‹_›)
          · exact hcross a ha b (mem_cons_of_mem _ hb)
    · cases h

end SearchTree
