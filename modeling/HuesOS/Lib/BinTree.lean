import Mathlib

/-! Binary trees with a focus, and the plain search tree over a linear order: insertion at the leaf
where a search ends, and removal by the successor. -/

inductive BinTree (α : Type)
  | leaf
  | node (left : BinTree α) (item : α) (right : BinTree α)
  deriving DecidableEq

namespace BinTree
open List
variable {α β : Type}

def items : BinTree α → List α
  | leaf => []
  | node l x r => l.items ++ x :: r.items

def height : BinTree α → Nat
  | leaf => 0
  | node l _ r => max l.height r.height + 1

def map (f : α → β) : BinTree α → BinTree β
  | leaf => leaf
  | node l x r => node (l.map f) (f x) (r.map f)

@[simp] theorem items_leaf : (leaf : BinTree α).items = [] := rfl

@[simp] theorem items_node (l r : BinTree α) (x : α) : (node l x r).items = l.items ++ x :: r.items := rfl

@[simp] theorem items_map (f : α → β) (t : BinTree α) : (t.map f).items = t.items.map f := by
  induction t with
  | leaf => rfl
  | node l x r ihl ihr => simp [map, ihl, ihr]

@[simp] theorem height_map (f : α → β) (t : BinTree α) : (t.map f).height = t.height := by
  induction t with
  | leaf => rfl
  | node l x r ihl ihr => simp [map, height, ihl, ihr]

theorem map_congr {f g : α → β} {t : BinTree α} (eq : ∀ x ∈ t.items, f x = g x) : t.map f = t.map g := by
  induction t with
  | leaf => rfl
  | node l x r ihl ihr =>
    simp only [items_node, mem_append, mem_cons] at eq
    rw [map, map, ihl fun y h => eq y (.inl h), eq x (.inr (.inl rfl)), ihr fun y h => eq y (.inr (.inr h))]

theorem height_le_length (t : BinTree α) : t.height ≤ t.items.length := by
  induction t with
  | leaf => exact le_rfl
  | node l x r ihl ihr =>
    simp only [height, items_node, length_append, length_cons]
    omega

inductive Frame (α : Type)
  | left (item : α) (right : BinTree α)
  | right (left : BinTree α) (item : α)

def Frame.item : Frame α → α
  | .left x _ => x
  | .right _ x => x

def Frame.sibling : Frame α → BinTree α
  | .left _ r => r
  | .right l _ => l

/-- The whole tree, from a focus and the frames above it, nearest first. -/
def plug : List (Frame α) → BinTree α → BinTree α
  | [], t => t
  | .left x r :: above, t => plug above (node t x r)
  | .right l x :: above, t => plug above (node l x t)

def before : List (Frame α) → List α
  | [] => []
  | .left _ _ :: above => before above
  | .right l x :: above => before above ++ (l.items ++ [x])

def after : List (Frame α) → List α
  | [] => []
  | .left x r :: above => x :: r.items ++ after above
  | .right _ _ :: above => after above

def Frame.map (f : α → β) : Frame α → Frame β
  | .left x r => .left (f x) (r.map f)
  | .right l x => .right (l.map f) (f x)

theorem map_plug (f : α → β) (above : List (Frame α)) (t : BinTree α) :
    (plug above t).map f = plug (above.map (Frame.map f)) (t.map f) := by
  induction above generalizing t with
  | nil => rfl
  | cons frame above ih => cases frame <;> exact ih _

variable {above : List (Frame α)}

theorem items_plug (above : List (Frame α)) (t : BinTree α) :
    (plug above t).items = before above ++ t.items ++ after above := by
  induction above generalizing t with
  | nil => simp [plug, before, after]
  | cons frame above ih => cases frame <;> simp [plug, before, after, ih]

def siblings : List (Frame α) → List α
  | [] => []
  | .left _ r :: above => r.items ++ siblings above
  | .right l _ :: above => l.items ++ siblings above

def around (above : List (Frame α)) : List α := above.map Frame.item ++ siblings above

theorem items_plug_perm (above : List (Frame α)) (t : BinTree α) :
    (plug above t).items.Perm (around above ++ t.items) := by
  rw [around, append_assoc]
  induction above generalizing t with
  | nil => exact .refl _
  | cons frame above ih =>
    cases frame with
    | left x r =>
      refine (ih (node t x r)).trans ?_
      have inner : (siblings above ++ (node t x r).items).Perm
          (x :: (r.items ++ siblings above ++ t.items)) := by
        rw [items_node]
        refine (perm_append_comm.trans ?_)
        rw [append_assoc]
        refine perm_middle.trans (List.Perm.cons x ?_)
        exact perm_append_comm.trans (by simp)
      exact (inner.append_left _).trans perm_middle
    | right l x =>
      refine (ih (node l x t)).trans ?_
      have inner : (siblings above ++ (node l x t).items).Perm
          (x :: (l.items ++ siblings above ++ t.items)) := by
        rw [items_node, ← append_assoc]
        refine perm_middle.trans (List.Perm.cons x ?_)
        exact perm_append_comm.append_right _
      exact (inner.append_left _).trans perm_middle

theorem mem_around {x : α} : x ∈ around above ↔ x ∈ before above ∨ x ∈ after above := by
  have eq := (items_plug_perm above leaf).mem_iff (a := x)
  rw [items_plug] at eq
  simpa using eq.symm

theorem mem_around_cons {frame : Frame α} {x : α} : x ∈ around (frame :: above) ↔
    x = frame.item ∨ x ∈ frame.sibling.items ∨ x ∈ around above := by
  cases frame <;> simp only [around, siblings, Frame.sibling, map_cons, cons_append,
    mem_cons, mem_append] <;> tauto

theorem map_frames_congr {f g : α → β} (eq : ∀ x ∈ around above, f x = g x) :
    above.map (Frame.map f) = above.map (Frame.map g) := by
  induction above with
  | nil => rfl
  | cons frame above ih =>
    simp only [mem_around_cons] at eq
    have item := eq _ (.inl rfl)
    have beside : frame.sibling.map f = frame.sibling.map g := map_congr fun x hx => eq x (.inr (.inl hx))
    rw [map_cons, map_cons, ih fun x hx => eq x (.inr (.inr hx))]
    cases frame <;> simp_all [Frame.map, Frame.item, Frame.sibling]

variable {t l r : BinTree α} {i : α}

theorem focus_distinct (nodup : (plug above (node l i r)).items.Nodup) :
    i ∉ around above ∧ i ∉ l.items ∧ i ∉ r.items := by
  have nodup := (items_plug_perm above (node l i r)).nodup_iff.mp nodup
  simp only [items_node, nodup_append, nodup_cons, mem_append, mem_cons] at nodup
  obtain ⟨-, ⟨-, ⟨right, -⟩, left⟩, apart⟩ := nodup
  exact ⟨fun h => apart i h i (.inr (.inl rfl)) rfl, fun h => left i h i (.inl rfl) rfl, right⟩

theorem frame_outside {frame : Frame α}
    (nodup : (plug above t).items.Nodup) (mem : frame ∈ above) :
    frame.item ∉ siblings above ∧ frame.item ∉ t.items := by
  have nodup := (items_plug_perm above t).nodup_iff.mp nodup
  rw [around, append_assoc] at nodup
  have apart := (nodup_append.mp nodup).2.2 _ (mem_map_of_mem mem)
  exact ⟨fun inside => apart _ (mem_append_left _ inside) rfl,
    fun inside => apart _ (mem_append_right _ inside) rfl⟩

theorem length_le_items_plug (above : List (Frame α)) (t : BinTree α) :
    above.length + t.items.length ≤ (plug above t).items.length := by
  rw [(items_plug_perm above t).length_eq, around]
  simp only [length_append, length_map]
  omega

def leftmost : BinTree α → α → BinTree α → List (Frame α) → α × BinTree α × List (Frame α)
  | leaf, x, r, above => (x, r, above)
  | node ll y lr, x, r, above => leftmost ll y lr (.left x r :: above)

theorem plug_leftmost (l : BinTree α) (x : α) (r : BinTree α) (above : List (Frame α)) :
    plug (leftmost l x r above).2.2 (node leaf (leftmost l x r above).1 (leftmost l x r above).2.1) =
      plug above (node l x r) := by
  induction l generalizing x r above with
  | leaf => rfl
  | node ll y lr ihl _ => exact ihl y lr (.left x r :: above)

def dropFirst : BinTree α → BinTree α
  | leaf => leaf
  | node leaf _ r => r
  | node (node ll y lr) x r => node (dropFirst (node ll y lr)) x r

theorem dropFirst_node (l : BinTree α) (x : α) (r : BinTree α) :
    dropFirst (node l x r) = match l with
      | leaf => r
      | node ll y lr => node (dropFirst (node ll y lr)) x r := by
  cases l <;> rfl

theorem leftmost_above (l : BinTree α) (x : α) (r : BinTree α) (above : List (Frame α)) :
    ∃ walked, (leftmost l x r above).2.2 = walked ++ above := by
  induction l generalizing x r above with
  | leaf => exact ⟨[], rfl⟩
  | node ll y lr ihl _ =>
    obtain ⟨walked, h⟩ := ihl y lr (.left x r :: above)
    exact ⟨walked ++ [.left x r], by rw [leftmost, h, append_assoc]; rfl⟩

theorem plug_leftmost_right (l : BinTree α) (x : α) (r : BinTree α) (above : List (Frame α)) :
    plug (leftmost l x r above).2.2 (leftmost l x r above).2.1 = plug above (dropFirst (node l x r)) := by
  induction l generalizing x r above with
  | leaf => rfl
  | node ll y lr ihl _ =>
    rw [leftmost, ihl, dropFirst_node (node ll y lr)]
    rfl

theorem items_node_leftmost (l : BinTree α) (x : α) (r : BinTree α) (above : List (Frame α)) :
    (node l x r).items = (leftmost l x r above).1 :: (dropFirst (node l x r)).items := by
  induction l generalizing x r above with
  | leaf => rfl
  | node ll y lr ihl _ =>
    rw [items_node, ihl y lr (.left x r :: above), dropFirst_node (node ll y lr)]
    rfl

/-- What takes the place of an item that is removed: its only subtree, or its successor with
what is left of the right subtree. -/
def joined : BinTree α → BinTree α → BinTree α
  | leaf, r => r
  | node ll y lr, leaf => node ll y lr
  | node ll y lr, node rl z rr =>
    node (node ll y lr) (leftmost rl z rr []).1 (dropFirst (node rl z rr))

theorem leftmost_item (l : BinTree α) (x : α) (r : BinTree α) (above above' : List (Frame α)) :
    (leftmost l x r above).1 = (leftmost l x r above').1 := by
  induction l generalizing x r above above' with
  | leaf => rfl
  | node ll y lr ihl _ => exact ihl y lr _ _

theorem items_joined (l r : BinTree α) : (joined l r).items = l.items ++ r.items := by
  cases l with
  | leaf => rfl
  | node ll y lr =>
    cases r with
    | leaf => simp [joined]
    | node rl z rr => rw [joined, items_node, items_node_leftmost rl z rr []]

theorem map_dropFirst (f : α → β) (l : BinTree α) (x : α) (r : BinTree α) :
    (dropFirst (node l x r)).map f = dropFirst ((node l x r).map f) := by
  induction l generalizing x r with
  | leaf => rfl
  | node ll y lr ihl _ =>
    rw [dropFirst_node, map, ihl]
    rfl

theorem map_leftmost (f : α → β) (l : BinTree α) (x : α) (r : BinTree α)
    (above : List (Frame α)) (above' : List (Frame β)) :
    f (leftmost l x r above).1 = (leftmost (l.map f) (f x) (r.map f) above').1 := by
  induction l generalizing x r above above' with
  | leaf => rfl
  | node ll y lr ihl _ => exact ihl y lr _ _

theorem map_joined (f : α → β) (l r : BinTree α) : (joined l r).map f = joined (l.map f) (r.map f) := by
  cases l with
  | leaf => rfl
  | node ll y lr =>
    cases r with
    | leaf => rfl
    | node rl z rr =>
      rw [joined, map, map_dropFirst, map_leftmost f rl z rr [] []]
      rfl

section Search
variable {κ : Type} [LinearOrder κ] (key : α → κ)

def SortedBy (t : BinTree α) : Prop := (t.items.map key).Pairwise (· < ·)

/-- Walk down towards `k`, to its item or to the leaf where it belongs. -/
def seek (k : κ) : BinTree α → List (Frame α) → BinTree α × List (Frame α)
  | leaf, above => (leaf, above)
  | node l x r, above =>
    if k = key x then (node l x r, above)
    else if k < key x then seek k l (.left x r :: above)
    else seek k r (.right l x :: above)

variable {key} {k : κ}

theorem plug_seek (t : BinTree α) (above : List (Frame α)) :
    plug (seek key k t above).2 (seek key k t above).1 = plug above t := by
  induction t generalizing above with
  | leaf => rfl
  | node l x r ihl ihr =>
    rw [seek]
    split
    · rfl
    split
    · exact ihl _
    · exact ihr _

variable {t l r : BinTree α} {above above' : List (Frame α)} {x y : α}

theorem seek_congr {key' : α → κ} (eq : ∀ x ∈ t.items, key' x = key x)
    (above : List (Frame α)) : seek key' k t above = seek key k t above := by
  induction t generalizing above with
  | leaf => rfl
  | node l x r ihl ihr =>
    simp only [items_node, mem_append, mem_cons] at eq
    rw [seek, seek, eq x (.inr (.inl rfl)), ihl fun y hy => eq y (.inl hy),
      ihr fun y hy => eq y (.inr (.inr hy))]

theorem SortedBy.congr {key' : α → κ} (sorted : SortedBy key t)
    (eq : ∀ x ∈ t.items, key' x = key x) : SortedBy key' t := by
  rw [SortedBy, map_congr_left eq]
  exact sorted

theorem seek_found (stops : seek key k t above = (node l x r, above')) : key x = k := by
  induction t generalizing above with
  | leaf => cases stops
  | node l' y r' ihl ihr =>
    rw [seek] at stops
    split at stops
    next eq =>
      cases stops
      exact eq.symm
    split at stops
    · exact ihl stops
    · exact ihr stops

structure Between (key : α → κ) (k : κ) (above : List (Frame α)) : Prop where
  low : ∀ x ∈ before above, key x < k
  high : ∀ x ∈ after above, k < key x

theorem SortedBy.focus (sorted : SortedBy key (plug above (node l x r))) :
    (∀ y ∈ l.items, key y < key x) ∧ ∀ y ∈ r.items, key x < key y := by
  rw [SortedBy, items_plug, items_node] at sorted
  simp only [map_append, map_cons, pairwise_append, pairwise_cons, mem_append, mem_map, mem_cons] at sorted
  obtain ⟨⟨-, ⟨-, ⟨right, -⟩, left⟩, -⟩, -, -⟩ := sorted
  exact ⟨fun y hy => left _ ⟨y, hy, rfl⟩ _ (.inl rfl), fun y hy => right _ ⟨y, hy, rfl⟩⟩

theorem seek_between (sorted : SortedBy key (plug above t)) (bounds : Between key k above) :
    Between key k (seek key k t above).2 := by
  induction t generalizing above with
  | leaf => exact bounds
  | node l x r ihl ihr =>
    obtain ⟨left, right⟩ := sorted.focus
    rw [seek]
    split
    · exact bounds
    next ne =>
    split
    next below =>
      refine ihl sorted ⟨bounds.low, fun y hy => ?_⟩
      simp only [after, cons_append, mem_cons, mem_append] at hy
      rcases hy with rfl | in_right | above_
      · exact below
      · exact below.trans (right y in_right)
      · exact bounds.high y above_
    next notBelow =>
    have less : key x < k := lt_of_le_of_ne (not_lt.mp notBelow) (Ne.symm ne)
    refine ihr sorted ⟨fun y hy => ?_, bounds.high⟩
    simp only [before, mem_append, mem_singleton] at hy
    rcases hy with low | in_left | rfl
    · exact bounds.low y low
    · exact (left y in_left).trans less
    · exact less

theorem seek_leaf (sorted : SortedBy key t)
    (ends : seek key k t [] = (leaf, above)) : plug above leaf = t ∧ Between key k above := by
  have eq : plug (seek key k t []).2 (seek key k t []).1 = t := plug_seek t []
  have start : Between key k ([] : List (Frame α)) := ⟨by simp [before], by simp [after]⟩
  have bounds : Between key k (seek key k t []).2 := seek_between sorted start
  rw [ends] at eq bounds
  exact ⟨eq, bounds⟩

theorem Between.sortedBy (bounds : Between key (key x) above)
    (sorted : SortedBy key (plug above leaf)) :
    SortedBy key (plug above (node leaf x leaf)) := by
  rw [SortedBy, items_plug] at sorted ⊢
  simp only [items_leaf, append_nil, items_node, nil_append, map_append,
    map_cons, map_nil, pairwise_append, mem_map] at sorted ⊢
  obtain ⟨first, second, across⟩ := sorted
  refine ⟨⟨first, pairwise_singleton _ _, ?_⟩, second, ?_⟩
  · rintro _ ⟨y, hy, rfl⟩ _ mem
    rw [mem_singleton.mp mem]
    exact bounds.low y hy
  rintro _ mem _ ⟨z, hz, rfl⟩
  rcases mem_append.mp mem with low | new
  · obtain ⟨y, hy, rfl⟩ := mem_map.mp low
    exact across _ ⟨y, hy, rfl⟩ _ ⟨z, hz, rfl⟩
  rw [mem_singleton.mp new]
  exact bounds.high z hz

theorem seek_map {f : β → α} (t : BinTree β) (above : List (Frame β)) :
    seek key k (t.map f) (above.map (Frame.map f)) =
      ((seek (key ∘ f) k t above).1.map f, (seek (key ∘ f) k t above).2.map (Frame.map f)) := by
  induction t generalizing above with
  | leaf => rfl
  | node l x r ihl ihr =>
    rw [map, seek, seek, Function.comp_apply]
    split
    · rfl
    split
    · exact ihl (.left x r :: above)
    · exact ihr (.right l x :: above)

variable (key) in
/-- Insertion at the leaf where the search for the key ends; a key that is there stays. -/
def insertBy (x : α) : BinTree α → BinTree α
  | leaf => node leaf x leaf
  | node l y r =>
    if key x = key y then node l y r
    else if key x < key y then node (insertBy x l) y r
    else node l y (insertBy x r)

variable (key) in
def removeBy (k : κ) : BinTree α → BinTree α
  | leaf => leaf
  | node l y r =>
    if k = key y then joined l r
    else if k < key y then node (removeBy k l) y r
    else node l y (removeBy k r)

theorem insertBy_of_seek (ends : seek key (key x) t above = (leaf, above')) :
    plug above' (node leaf x leaf) = plug above (insertBy key x t) := by
  induction t generalizing above with
  | leaf =>
    cases ends
    rfl
  | node l y r ihl ihr =>
    rw [seek] at ends
    rw [insertBy]
    split at ends
    · cases ends
    next ne =>
    rw [if_neg ne]
    split at ends
    next below =>
      rw [if_pos below]
      exact ihl ends
    next notBelow =>
    rw [if_neg notBelow]
    exact ihr ends

theorem removeBy_of_seek (stops : seek key k t above = (node l y r, above')) :
    plug above' (joined l r) = plug above (removeBy key k t) := by
  induction t generalizing above with
  | leaf => cases stops
  | node l' z r' ihl ihr =>
    rw [seek] at stops
    rw [removeBy]
    split at stops
    next eq =>
      cases stops
      rw [if_pos eq]
    next ne =>
    rw [if_neg ne]
    split at stops
    next below =>
      rw [if_pos below]
      exact ihl stops
    next notBelow =>
    rw [if_neg notBelow]
    exact ihr stops

theorem seek_mem (sorted : SortedBy key t)
    (ends : seek key k t [] = (leaf, above)) : k ∉ t.items.map key := by
  obtain ⟨eq, bounds⟩ := seek_leaf sorted ends
  rw [← eq, items_plug]
  simp only [items_leaf, append_nil, map_append, mem_append, mem_map, not_or]
  exact ⟨fun ⟨x, hx, equal⟩ => (bounds.low x hx).ne equal,
    fun ⟨x, hx, equal⟩ => (bounds.high x hx).ne equal.symm⟩

theorem mem_of_seek (stops : seek key k t [] = (node l y r, above)) : k ∈ t.items.map key := by
  have eq : plug (seek key k t []).2 (seek key k t []).1 = t := plug_seek t []
  rw [stops] at eq
  refine mem_map.mpr ⟨y, ?_, seek_found stops⟩
  rw [← eq, items_plug]
  simp

theorem items_insertBy (sorted : SortedBy key t) (ends : seek key (key x) t [] = (leaf, above)) :
    (insertBy key x t).items = t.items.filter (key · < key x) ++ x :: t.items.filter (key x < key ·) := by
  obtain ⟨eq, bounds⟩ := seek_leaf sorted ends
  have placed : plug above (node leaf x leaf) = insertBy key x t := insertBy_of_seek ends
  have items : t.items = before above ++ after above := by
    rw [← eq, items_plug, items_leaf, append_nil]
  have lowKept : (before above).filter (key · < key x) = before above :=
    filter_eq_self.mpr fun y hy => by simpa using bounds.low y hy
  have highDropped : (after above).filter (key · < key x) = [] :=
    filter_eq_nil_iff.mpr fun y hy => by simpa using (bounds.high y hy).le
  have lowDropped : (before above).filter (key x < key ·) = [] :=
    filter_eq_nil_iff.mpr fun y hy => by simpa using (bounds.low y hy).le
  have highKept : (after above).filter (key x < key ·) = after above :=
    filter_eq_self.mpr fun y hy => by simpa using bounds.high y hy
  rw [← placed, items_plug, items, filter_append, filter_append, lowKept, highDropped, lowDropped, highKept]
  simp

theorem items_removeBy (sorted : SortedBy key t) (stops : seek key k t [] = (node l y r, above)) :
    (removeBy key k t).items = t.items.filter (key · ≠ k) := by
  have removed : plug above (joined l r) = removeBy key k t := removeBy_of_seek stops
  have eq : plug (seek key k t []).2 (seek key k t []).1 = t := plug_seek t []
  rw [stops] at eq
  have found := seek_found stops
  have items : t.items = (before above ++ l.items) ++ y :: (r.items ++ after above) := by
    rw [← eq, items_plug, items_node]
    simp
  rw [SortedBy, items, map_append, map_cons, pairwise_append, pairwise_cons] at sorted
  obtain ⟨-, ⟨high, -⟩, across⟩ := sorted
  have lowKept : (before above ++ l.items).filter (key · ≠ k) = before above ++ l.items := by
    refine filter_eq_self.mpr fun z hz => ?_
    have less := across (key z) (mem_map_of_mem hz) (key y) mem_cons_self
    simpa [← found] using less.ne
  have highKept : (r.items ++ after above).filter (key · ≠ k) = r.items ++ after above := by
    refine filter_eq_self.mpr fun z hz => ?_
    have less := high (key z) (mem_map_of_mem hz)
    simpa [← found] using less.ne'
  rw [← removed, items_plug, items_joined, items, filter_append,
    filter_cons_of_neg (by simp [found]), lowKept, highKept]
  simp

end Search
end BinTree
