import Mathlib

structure ParentForest where
  parent : Nat → Option Nat
  parent_lt : ∀ {child above : Nat}, parent child = some above → above < child

namespace ParentForest
open List Finset
variable {F : ParentForest} {i j a b c n : Nat}

/-- `F.Below j i`: the node `i` is `j` or one of its ancestors. -/
def Below (F : ParentForest) : Nat → Nat → Prop :=
  Relation.ReflTransGen fun child above => F.parent child = some above

theorem Below.refl (F : ParentForest) (i : Nat) : F.Below i i := Relation.ReflTransGen.refl

theorem Below.le (h : F.Below j i) : i ≤ j := by
  induction h with
  | refl => exact Nat.le_refl j
  | tail _ step ih =>
    have := F.parent_lt step
    omega

/-- No node is above itself: the forest has no cycle. -/
theorem not_below_of_parent (step : F.parent j = some i) : ¬F.Below i j := by
  intro back
  have := F.parent_lt step
  have := back.le
  omega

theorem Below.trans (first : F.Below c b) (second : F.Below b a) : F.Below c a :=
  Relation.ReflTransGen.trans first second

theorem Below.head (step : F.parent c = some b) (rest : F.Below b a) : F.Below c a :=
  Relation.ReflTransGen.head step rest

theorem below_iff_parent :
    F.Below j i ↔ j = i ∨ ∃ above, F.parent j = some above ∧ F.Below above i :=
  Relation.ReflTransGen.cases_head_iff

theorem below_iff_child : F.Below j i ↔ j = i ∨ ∃ child, F.parent child = some i ∧ F.Below j child := by
  unfold Below
  rw [Relation.ReflTransGen.cases_tail_iff]
  constructor
  · rintro (eq | ⟨child, below, step⟩)
    · exact .inl eq.symm
    · exact .inr ⟨child, step, below⟩
  rintro (eq | ⟨child, step, below⟩)
  · exact .inl eq.symm
  · exact .inr ⟨child, below, step⟩

/-- The ancestors of a node form a chain. -/
theorem Below.linear (left : F.Below j a) (right : F.Below j b) : F.Below a b ∨ F.Below b a := by
  induction left with
  | refl => exact .inl right
  | @tail x y below step ih =>
    rcases ih with up | down
    · rcases below_iff_parent.mp up with eq | ⟨above, parent, rest⟩
      · exact .inr (eq ▸ Below.head step (Below.refl F y))
      rw [step] at parent
      cases parent
      exact .inl rest
    · exact .inr (down.trans (Below.head step (Below.refl F y)))

/-- A node is below one child of another node at most. -/
theorem child_unique (first : F.parent a = some i) (second : F.parent b = some i)
    (left : F.Below j a) (right : F.Below j b) : a = b := by
  have apart : ∀ {x y}, F.parent x = some i → F.parent y = some i → F.Below x y → x = y := by
    intro x y px py h
    rcases below_iff_parent.mp h with eq | ⟨above, parent, rest⟩
    · exact eq
    rw [px] at parent
    cases parent
    exact absurd rest (not_below_of_parent py)
  rcases left.linear right with h | h
  · exact apart first second h
  · exact (apart second first h).symm

/-- Two forests that agree on a set of nodes closed under parents agree on what is above them. -/
theorem below_congr {F' : ParentForest} {P : Nat → Prop}
    (eq : ∀ k, P k → F'.parent k = F.parent k)
    (closed : ∀ k above, P k → F.parent k = some above → P above) (start : P j) :
    F'.Below j i ↔ F.Below j i := by
  have follow : ∀ {G H : ParentForest}, (∀ k, P k → G.parent k = H.parent k) →
      (∀ k above, P k → G.parent k = some above → P above) → ∀ {k}, P k → G.Below k i →
      H.Below k i := by
    intro G H agree stay k start below
    induction below using Relation.ReflTransGen.head_induction_on with
    | refl => exact Below.refl H i
    | head step _ ih =>
      exact Below.head ((agree _ start).symm.trans step) (ih (stay _ _ start step))
  constructor
  · apply follow eq _ start
    intro k above here step
    exact closed k above here ((eq k here).symm.trans step)
  · exact follow (fun k here => (eq k here).symm) closed start

section Totals
open scoped Classical

noncomputable def subtree (F : ParentForest) (n i : Nat) : Finset Nat :=
  (Finset.range n).filter fun j => F.Below j i

noncomputable def total (F : ParentForest) (n : Nat) (weight : Nat → Nat) (i : Nat) : Nat :=
  ∑ j ∈ F.subtree n i, weight j

variable {weight weight' : Nat → Nat} {children : List Nat}

theorem mem_subtree : j ∈ F.subtree n i ↔ j < n ∧ F.Below j i := by
  simp [subtree]

theorem total_outside (out : n ≤ i) : F.total n weight i = 0 := by
  apply Finset.sum_eq_zero
  intro k mem
  have inside := (mem_subtree.mp mem).1
  have := (mem_subtree.mp mem).2.le
  omega

theorem total_eq (lt : i < n) (once : children.Nodup)
    (members : ∀ c, c ∈ children ↔ c < n ∧ F.parent c = some i) :
    F.total n weight i = weight i + (children.map (F.total n weight)).sum := by
  have split : F.subtree n i = insert i (children.toFinset.biUnion (F.subtree n)) := by
    ext j
    simp only [mem_subtree, mem_insert, mem_biUnion, mem_toFinset]
    rw [below_iff_child]
    constructor
    · rintro ⟨bound, eq | ⟨child, step, below⟩⟩
      · exact .inl eq
      have small : child < n := lt_of_le_of_lt below.le bound
      exact .inr ⟨child, (members child).mpr ⟨small, step⟩, bound, below⟩
    rintro (rfl | ⟨child, mem, bound, below⟩)
    · exact ⟨lt, .inl rfl⟩
    · exact ⟨bound, .inr ⟨child, ((members child).mp mem).2, below⟩⟩
  have out : i ∉ children.toFinset.biUnion (F.subtree n) := by
    simp only [mem_biUnion, mem_toFinset, mem_subtree, not_exists, not_and]
    intro child mem _ below
    exact not_below_of_parent ((members child).mp mem).2 below
  have apart : Set.PairwiseDisjoint (children.toFinset : Set Nat) (F.subtree n) := by
    intro a first b second ne
    refine disjoint_left.mpr fun j left right => ne ?_
    have pa := ((members a).mp (mem_toFinset.mp first)).2
    have pb := ((members b).mp (mem_toFinset.mp second)).2
    exact child_unique pa pb (mem_subtree.mp left).2 (mem_subtree.mp right).2
  unfold total
  rw [split, sum_insert out, sum_biUnion apart, sum_toFinset _ once]

/-- A heavier node makes the subtrees above it heavier, and no others. -/
theorem total_raise (lt : j < n) {amount : Nat} (here : weight' j = weight j + amount)
    (others : ∀ k, k ≠ j → weight' k = weight k) :
    F.total n weight' i = F.total n weight i + if F.Below j i then amount else 0 := by
  unfold total
  by_cases below : F.Below j i
  · have mem : j ∈ F.subtree n i := mem_subtree.mpr ⟨lt, below⟩
    have pre := add_sum_erase _ weight mem
    have after := add_sum_erase _ weight' mem
    have rest : ∑ k ∈ (F.subtree n i).erase j, weight' k =
        ∑ k ∈ (F.subtree n i).erase j, weight k :=
      Finset.sum_congr rfl fun k erased => others k (ne_of_mem_erase erased)
    rw [if_pos below]
    omega
  rw [if_neg below, Nat.add_zero]
  refine Finset.sum_congr rfl fun k mem => others k ?_
  rintro rfl
  exact below (mem_subtree.mp mem).2

theorem total_congr {F' : ParentForest} {n' : Nat} {P : Nat → Prop}
    (eq : ∀ k, P k → F'.parent k = F.parent k)
    (closed : ∀ k above, P k → F.parent k = some above → P above)
    (bound : ∀ k, P k → (k < n' ↔ k < n)) (equal : ∀ k, P k → weight' k = weight k)
    (none : ∀ k, ¬P k → weight k = 0) (none' : ∀ k, ¬P k → weight' k = 0) :
    F'.total n' weight' i = F.total n weight i := by
  have only : ∀ {s : Finset Nat} {w : Nat → Nat}, (∀ k, ¬P k → w k = 0) →
      ∑ k ∈ s.filter P, w k = ∑ k ∈ s, w k := by
    intro s w zero
    refine sum_subset (filter_subset P s) fun k mem out => zero k ?_
    intro here
    exact out (Finset.mem_filter.mpr ⟨mem, here⟩)
  have nodes : (F'.subtree n' i).filter P = (F.subtree n i).filter P := by
    ext k
    simp only [Finset.mem_filter, mem_subtree]
    refine and_congr_left fun here => ?_
    rw [bound k here, below_congr eq closed here]
  unfold total
  rw [← only none', ← only none, nodes]
  exact Finset.sum_congr rfl fun k mem => equal k (Finset.mem_filter.mp mem).2

end Totals
end ParentForest
