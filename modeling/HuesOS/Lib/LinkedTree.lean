import HuesOS.Lib.BinTree

/-! Binary trees laid out in cells that name each other: a cell gives the parent and the two
children of its item. -/

structure Links (ι : Type) where
  parent : Option ι
  left : Option ι
  right : Option ι
  deriving DecidableEq

namespace BinTree
open List
variable {ι : Type}

def rootLink : BinTree ι → Option ι
  | leaf => none
  | node _ i _ => some i

def parentLink : List (Frame ι) → Option ι
  | [] => none
  | frame :: _ => some frame.item

section Linked
variable (cell : ι → Option (Links ι))

/-- The cells of the tree's items are linked as the tree is, and its root to `parent`. -/
def Linked : Option ι → BinTree ι → Prop
  | _, leaf => True
  | parent, node l i r =>
    cell i = some ⟨parent, l.rootLink, r.rootLink⟩ ∧ Linked (some i) l ∧ Linked (some i) r

/-- The cells above a focus whose root is `child` are linked as the frames are. -/
def LinkedAbove : Option ι → List (Frame ι) → Prop
  | _, [] => True
  | child, .left i r :: above =>
    cell i = some ⟨parentLink above, child, r.rootLink⟩ ∧ Linked cell (some i) r ∧
      LinkedAbove (some i) above
  | child, .right l i :: above =>
    cell i = some ⟨parentLink above, l.rootLink, child⟩ ∧ Linked cell (some i) l ∧
      LinkedAbove (some i) above

end Linked

variable {cell cell' : ι → Option (Links ι)}
variable {t : BinTree ι}

theorem linked_plug {above : List (Frame ι)} :
    Linked cell none (plug above t) ↔
      LinkedAbove cell t.rootLink above ∧ Linked cell (parentLink above) t := by
  induction above generalizing t with
  | nil => simp [plug, LinkedAbove, parentLink]
  | cons frame above ih =>
    cases frame with
    | left i r =>
      rw [plug, ih]
      simp only [rootLink, Linked, LinkedAbove, parentLink, Frame.item]
      tauto
    | right l i =>
      rw [plug, ih]
      simp only [rootLink, Linked, LinkedAbove, parentLink, Frame.item]
      tauto

theorem Linked.congr {parent : Option ι} (h : Linked cell parent t)
    (eq : ∀ i ∈ t.items, cell' i = cell i) : Linked cell' parent t := by
  induction t generalizing parent with
  | leaf => trivial
  | node l i r ihl ihr =>
    simp only [items_node, mem_append, mem_cons] at eq
    obtain ⟨here, left, right⟩ := h
    exact ⟨(eq i (.inr (.inl rfl))).trans here, ihl left fun j hj => eq j (.inl hj),
      ihr right fun j hj => eq j (.inr (.inr hj))⟩

def Frame.links (parent child : Option ι) : Frame ι → Links ι
  | .left _ r => ⟨parent, child, r.rootLink⟩
  | .right l _ => ⟨parent, l.rootLink, child⟩

variable {above : List (Frame ι)} {child : Option ι}

theorem linkedAbove_cons {frame : Frame ι} : LinkedAbove cell child (frame :: above) ↔
    cell frame.item = some (frame.links (parentLink above) child) ∧
      Linked cell (some frame.item) frame.sibling ∧ LinkedAbove cell (some frame.item) above := by
  cases frame <;> exact Iff.rfl

theorem LinkedAbove.congr (h : LinkedAbove cell child above)
    (eq : ∀ i ∈ around above, cell' i = cell i) : LinkedAbove cell' child above := by
  induction above generalizing child with
  | nil => trivial
  | cons frame above ih =>
    simp only [mem_around_cons] at eq
    obtain ⟨here, sibling, rest⟩ := linkedAbove_cons.mp h
    exact linkedAbove_cons.mpr ⟨(eq _ (.inl rfl)).trans here,
      sibling.congr fun j hj => eq j (.inr (.inl hj)), ih rest fun j hj => eq j (.inr (.inr hj))⟩

theorem Linked.cell_isSome {parent : Option ι} (h : Linked cell parent t) {i : ι}
    (mem : i ∈ t.items) : (cell i).isSome := by
  induction t generalizing parent with
  | leaf => cases mem
  | node l j r ihl ihr =>
    obtain ⟨here, left, right⟩ := h
    simp only [items_node, mem_append, mem_cons] at mem
    rcases mem with low | rfl | high
    · exact ihl left low
    · rw [here]
      rfl
    · exact ihr right high

theorem rootLink_mem {i : ι} (h : t.rootLink = some i) : i ∈ t.items := by
  cases t with
  | leaf => cases h
  | node l j r =>
    cases h
    simp

end BinTree
