import HuesOS.Sched.EevdfLayout

namespace HuesOS.Sched
open Function

namespace EevdfTree
open BinTree
variable {N : Nat} {t t' : EevdfTree N} {tree : BinTree (Fin N)} {i slot : Fin N}
  {above : List (Frame (Fin N))} {key : EevdfKey} {finish : Nat}

structure Sound (t : EevdfTree N) (tree : BinTree (Fin N)) : Prop where
  layout : t.Layout tree
  augmented : t.Augmented tree
  sorted : SortedBy t.keyOf tree

theorem sound_new (N : Nat) : (new N).Sound leaf := ⟨layout_new N, trivial, .nil⟩

def entries (t : EevdfTree N) (tree : BinTree (Fin N)) : List (EevdfKey × Nat) :=
  tree.items.map t.entryOf

def vacancy : BinTree (Fin N) × List (Frame (Fin N)) → Option (Option (Fin N))
  | (leaf, above) => some (parentLink above)
  | (node _ _ _, _) => none

variable {focus : BinTree (Fin N)} {frame : Frame (Fin N)} {child : Option (Fin N)} {n : Node N}
  {u : EevdfTree N}

theorem insertionPoint_run {fuel : Nat} (enough : focus.height ≤ fuel)
    (linked : Linked t.cell (parentLink above) focus) :
    insertionPoint key fuel (parentLink above) focus.rootLink t =
      (.ok (vacancy (seek t.keyOf key focus above)), t) := by
  induction focus generalizing above fuel with
  | leaf => cases fuel <;> rfl
  | node l i r ihl ihr =>
    rw [height] at enough
    obtain _ | fuel := fuel
    · omega
    obtain ⟨here, left, right⟩ := linked
    obtain ⟨n, found, -, hl, hr⟩ := cell_eq_some.mp here
    rw [rootLink, insertionPoint, Exec.bind_of_ok (nodeRef_of_node found), seek, keyOf_of_node found, hl, hr]
    by_cases eq : key = n.key
    · rw [if_pos eq, if_pos eq]
      rfl
    rw [if_neg eq, if_neg eq]
    by_cases lt : key < n.key
    · rw [if_pos lt, if_pos lt]
      exact @ihl (.left i r :: above) fuel (by omega) left
    rw [if_neg lt, if_neg lt]
    exact @ihr (.right l i :: above) fuel (by omega) right

theorem findFrom_run {fuel : Nat} {parent : Option (Fin N)}
    (enough : focus.height ≤ fuel) (linked : Linked t.cell parent focus) :
    findFrom key fuel focus.rootLink t = (.ok (seek t.keyOf key focus above).1.rootLink, t) := by
  induction focus generalizing above fuel parent with
  | leaf => cases fuel <;> rfl
  | node l i r ihl ihr =>
    rw [height] at enough
    obtain _ | fuel := fuel
    · omega
    obtain ⟨here, left, right⟩ := linked
    obtain ⟨n, found, -, hl, hr⟩ := cell_eq_some.mp here
    rw [rootLink, findFrom, Exec.gets_bind, found, seek, keyOf_of_node found]
    dsimp only
    by_cases eq : key = n.key
    · rw [if_pos eq, if_pos eq]
      rfl
    rw [if_neg eq, if_neg eq]
    by_cases lt : key < n.key
    · rw [if_pos lt, if_pos lt, hl]
      exact ihl (by omega) left
    rw [if_neg lt, if_neg lt, hr]
    exact ihr (by omega) right

theorem Layout.height_le (h : t.Layout tree) : tree.height ≤ turns N := by
  have := tree.height_le_length
  have := h.length_le
  rw [turns]
  omega

def setChild : Frame (Fin N) → Option (Fin N) → Node N → Node N
  | .left _ _, child, n => { n with left := child }
  | .right _ _, child, n => { n with right := child }

theorem cell_setNode_other {j : Fin N} (node : Option (Node N)) (ne : j ≠ i) :
    (t.setNode i node).cell j = t.cell j := by
  rw [cell, cell, setNode_other _ ne]

theorem setChild_links {parent child' : Option (Fin N)}
    (links : n.links = frame.links parent child) :
    (setChild frame child' n).links = frame.links parent child' := by
  cases frame <;> simp_all [setChild, Node.links, Frame.links]

theorem frame_distinct (nodup : (plug (frame :: above) focus).items.Nodup) :
    frame.item ∉ around above ∧ frame.item ∉ frame.sibling.items := by
  cases frame with
  | left j r =>
    obtain ⟨out, -, sibling⟩ := focus_distinct nodup
    exact ⟨out, sibling⟩
  | right l j =>
    obtain ⟨out, sibling, -⟩ := focus_distinct nodup
    exact ⟨out, sibling⟩

theorem linkedAbove_setChild {child' : Option (Fin N)}
    (nodup : (plug (frame :: above) focus).items.Nodup)
    (found : t.nodes frame.item = some n) (h : LinkedAbove t.cell child (frame :: above)) :
    LinkedAbove (t.setNode frame.item (some (setChild frame child' n))).cell child' (frame :: above) := by
  obtain ⟨out, sibling⟩ := frame_distinct nodup
  obtain ⟨here, linked, rest⟩ := linkedAbove_cons.mp h
  rw [cell, found] at here
  refine linkedAbove_cons.mpr ⟨?_, linked.congr fun j hj => ?_, rest.congr fun j hj => ?_⟩
  · rw [cell, setNode_self, Option.map_some, setChild_links (Option.some.inj here)]
  · exact cell_setNode_other _ (ne_of_mem_of_not_mem hj sibling)
  · exact cell_setNode_other _ (ne_of_mem_of_not_mem hj out)

theorem linkedAbove_node
    (h : LinkedAbove t.cell child (frame :: above)) : ∃ n, t.nodes frame.item = some n := by
  obtain ⟨n, found, -⟩ := cell_eq_some.mp (linkedAbove_cons.mp h).1
  exact ⟨n, found⟩

def Relinked (t u : EevdfTree N) : Prop :=
  ∀ j, ∃ links : Links (Fin N), u.nodes j = (t.nodes j).map fun n =>
    { n with parent := links.parent, left := links.left, right := links.right }

theorem Relinked.refl (t : EevdfTree N) : Relinked t t := by
  intro j
  cases found : t.nodes j with
  | none => exact ⟨⟨none, none, none⟩, rfl⟩
  | some n => exact ⟨n.links, rfl⟩

theorem Relinked.trans {v : EevdfTree N} (first : Relinked t u) (second : Relinked u v) : Relinked t v := by
  intro j
  obtain ⟨links, h⟩ := first j
  obtain ⟨links', h'⟩ := second j
  refine ⟨links', ?_⟩
  rw [h', h, Option.map_map]
  rfl

theorem relinked_setNode (found : t.nodes i = some n) (links : Links (Fin N)) :
    Relinked t (t.setNode i (some
      { n with parent := links.parent, left := links.left, right := links.right })) := by
  intro j
  by_cases eq : j = i
  · subst eq
    exact ⟨links, by rw [setNode_self, found]; rfl⟩
  rw [setNode_other _ eq]
  exact Relinked.refl t j

theorem Relinked.record (h : Relinked t u) (j : Fin N) : u.record j = t.record j := by
  obtain ⟨links, eq⟩ := h j
  rw [EevdfTree.record, EevdfTree.record, eq]
  cases t.nodes j <;> rfl

theorem Relinked.entryOf (h : Relinked t u) : u.entryOf = t.entryOf :=
  funext fun j => entryOf_of_record (h.record j)

theorem Relinked.unranked (h : Relinked t u) (unranked : ∀ j n, t.nodes j = some n → n.rank = 0) :
    ∀ j n, u.nodes j = some n → n.rank = 0 := by
  intro j n found
  obtain ⟨links, eq⟩ := h j
  rw [eq] at found
  obtain ⟨n', old, rfl⟩ := Option.map_eq_some_iff.mp found
  exact unranked j n' old

theorem setChild_relinked (found : t.nodes frame.item = some n) :
    Relinked t (t.setNode frame.item (some (setChild frame child n))) := by
  cases frame with
  | left j r => exact relinked_setNode found ⟨n.parent, child, n.right⟩
  | right l j => exact relinked_setNode found ⟨n.parent, n.left, child⟩

theorem rootLink_plug_cons (frame : Frame (Fin N)) (focus focus' : BinTree (Fin N)) :
    (plug (frame :: above) focus).rootLink = (plug (frame :: above) focus').rootLink := by
  induction above generalizing frame focus focus' with
  | nil => cases frame <;> rfl
  | cons outer above ih =>
    cases frame with
    | left j r => exact ih outer _ _
    | right l j => exact ih outer _ _

theorem linkBelow_run (nodup : (plug above (node leaf slot leaf)).items.Nodup)
    (root : t.root = (plug above (leaf : BinTree (Fin N))).rootLink)
    (mine : t.nodes slot = some (Node.new key finish))
    (linked : LinkedAbove t.cell none above) (bounds : Between t.keyOf key above) :
    ∃ u, linkBelow key slot (parentLink above) t = (.ok (), u) ∧ Relinked t u ∧
      u.free = t.free ∧ u.len = t.len ∧ u.root = (plug above (node leaf slot leaf)).rootLink ∧
      Linked u.cell none (plug above (node leaf slot leaf)) := by
  obtain ⟨out, -, -⟩ := focus_distinct nodup
  -- The new node names its parent.
  obtain ⟨v, hv⟩ : ∃ v, v = t.setNode slot (some { Node.new key finish with
    parent := parentLink above }) := ⟨_, rfl⟩
  have first : nodeMutRef slot (fun n => { n with parent := parentLink above }) t = (.ok (), v) := by
    rw [nodeMutRef_of_node mine, hv]
  have relinked : Relinked t v := hv ▸ relinked_setNode mine ⟨parentLink above, none, none⟩
  have others : ∀ j, j ≠ slot → v.cell j = t.cell j := by
    intro j ne
    rw [hv, cell_setNode_other _ ne]
  have leafCell : v.cell slot = some ⟨parentLink above, none, none⟩ := by
    rw [hv]
    exact cell_eq_some.mpr ⟨_, setNode_self _, rfl, rfl, rfl⟩
  have linked' : LinkedAbove v.cell none above :=
    linked.congr fun j hj => others j (ne_of_mem_of_not_mem hj out)
  have keys : v.keyOf = t.keyOf := by
    funext j
    rw [keyOf, keyOf, relinked.entryOf]
  unfold linkBelow
  rw [Exec.bind_of_ok first]
  cases above with
  | nil =>
    refine ⟨{ v with root := some slot }, rfl, relinked, ?_, ?_, rfl, leafCell, trivial, trivial⟩
    · rw [hv]
      rfl
    rw [hv]
    rfl
  | cons frame above =>
    obtain ⟨p, found⟩ := linkedAbove_node linked'
    have side : (if key < p.key then nodeMutRef frame.item (fun n => { n with left := some slot })
        else nodeMutRef frame.item (fun n => { n with right := some slot })) v =
        (.ok (), v.setNode frame.item (some (setChild frame (some slot) p))) := by
      have atParent : p.key = t.keyOf frame.item := by rw [← keys, keyOf_of_node found]
      cases frame with
      | left j r =>
        have lt : key < p.key := by
          rw [atParent]
          exact bounds.high j (by simp [after])
        rw [if_pos lt]
        exact nodeMutRef_of_node found _
      | right l j =>
        have notBelow : ¬key < p.key := by
          rw [atParent]
          exact not_lt_of_gt (bounds.low j (by simp [before]))
        rw [if_neg notBelow]
        exact nodeMutRef_of_node found _
    have away : slot ≠ frame.item := fun eq => out (mem_around_cons.mpr (.inl eq))
    refine ⟨v.setNode frame.item (some (setChild frame (some slot) p)), ?_,
      relinked.trans (setChild_relinked found), ?_, ?_, ?_, ?_⟩
    · dsimp only [parentLink]
      rw [Exec.bind_of_ok (nodeRef_of_node found)]
      exact side
    · rw [setNode_free, hv, setNode_free]
    · rw [setNode_len, hv, setNode_len]
    · rw [setNode_root, hv, setNode_root, root]
      exact rootLink_plug_cons frame _ _
    refine linked_plug.mpr ⟨linkedAbove_setChild nodup found linked', ?_, trivial, trivial⟩
    rw [cell_setNode_other _ away]
    exact leafCell

def reserved (slot : Fin N) (rest : List (Fin N)) (key : EevdfKey) (finish : Nat)
    (t : EevdfTree N) : EevdfTree N :=
  { t with
    nodes := update t.nodes slot (some (Node.new key finish))
    free := rest
    len := t.len + 1 }

section Reserved
variable {rest : List (Fin N)}
variable {j : Fin N}

theorem reserved_other (ne : j ≠ slot) :
    (reserved slot rest key finish t).nodes j = t.nodes j := update_of_ne ne ..

theorem reserved_cell (ne : j ≠ slot) : (reserved slot rest key finish t).cell j = t.cell j := by
  rw [cell, cell, reserved_other ne]

theorem reserved_entryOf (ne : j ≠ slot) : (reserved slot rest key finish t).entryOf j = t.entryOf j := by
  rw [entryOf, entryOf, reserved_other ne]

theorem releaseSlot_reserved (free : t.free = slot :: rest) (vacant : t.nodes slot = none) :
    releaseSlot slot (reserved slot rest key finish t) = t := by
  have nodes : update (update t.nodes slot (some (Node.new key finish))) slot none = t.nodes := by
    rw [update_idem, ← vacant, update_eq_self]
  rw [releaseSlot, reserved]
  cases t
  simp only at nodes free
  simp [nodes, free]

end Reserved

theorem insert_full (free : t.free = []) : insert key finish t = (.error (.error .full), t) := by
  rw [insert, Exec.gets_bind, free]
  rfl

section Insert
variable {rest : List (Fin N)} (h : t.Sound tree) (free : t.free = slot :: rest)
include h free

theorem Sound.slot_outside : slot ∉ tree.items := by
  have nodup := h.layout.nodup
  rw [free, List.nodup_append] at nodup
  exact fun inside => nodup.2.2 slot inside slot List.mem_cons_self rfl

theorem Sound.insertionPoint_reserved :
    insertionPoint key (turns N) none t.root (reserved slot rest key finish t) =
      (.ok (vacancy (seek t.keyOf key tree [])), reserved slot rest key finish t) := by
  have out := h.slot_outside free
  have away : ∀ j ∈ tree.items, j ≠ slot := fun j inside eq => out (eq ▸ inside)
  have linked : Linked (reserved slot rest key finish t).cell (parentLink []) tree :=
    h.layout.linked.congr fun j inside => reserved_cell (away j inside)
  have keys : ∀ j ∈ tree.items, (reserved slot rest key finish t).keyOf j = t.keyOf j := by
    intro j inside
    rw [keyOf, keyOf, reserved_entryOf (away j inside)]
  have run := @insertionPoint_run N _ [] key tree _ h.layout.height_le linked
  rw [seek_congr keys] at run
  rw [h.layout.root]
  exact run

theorem Sound.insert_duplicate {l r : BinTree (Fin N)} {j : Fin N}
    (found : seek t.keyOf key tree [] = (node l j r, above)) :
    insert key finish t = (.error (.error .notFound), t) := by
  have vacant : t.nodes slot = none := h.layout.vacant slot (by rw [free]; exact List.mem_cons_self)
  have search := @Sound.insertionPoint_reserved N t tree slot key finish rest h free
  rw [found] at search
  rw [insert, Exec.gets_bind, free]
  dsimp only
  rw [Exec.modify_bind, Exec.gets_bind]
  have taken : insertionPoint key (turns N) none (reserved slot rest key finish t).root
      (reserved slot rest key finish t) = (.ok none, reserved slot rest key finish t) := search
  refine (Exec.bind_of_ok taken).trans ?_
  dsimp only
  rw [Exec.modify_bind, releaseSlot_reserved free vacant]
  rfl

theorem Sound.insert_new (absent : seek t.keyOf key tree [] = (leaf, above)) :
    ∃ t', insert key finish t = (.ok (), t') ∧ t'.Sound (plug above (node leaf slot leaf)) ∧
      (∀ j ∈ tree.items, t'.entryOf j = t.entryOf j) ∧ t'.entryOf slot = (key, finish) := by
  obtain ⟨eq, bounds⟩ := seek_leaf h.sorted absent
  have out := h.slot_outside free
  have away : ∀ j ∈ tree.items, j ≠ slot := fun j inside eq => out (eq ▸ inside)
  have around : ∀ j ∈ around above, j ∈ tree.items := by
    intro j mem
    rw [← eq, (items_plug_perm above leaf).mem_iff]
    exact List.mem_append_left _ mem
  have items : (plug above (node leaf slot leaf)).items.Perm (slot :: tree.items) := by
    rw [← eq, items_plug, items_plug]
    simp only [items_node, items_leaf, List.nil_append, List.append_nil, List.append_assoc,
      List.singleton_append]
    exact List.perm_middle
  have treeNodup : tree.items.Nodup := (List.nodup_append.mp h.layout.nodup).1
  have nodup : (plug above (node leaf slot leaf)).items.Nodup :=
    items.nodup_iff.mpr (List.nodup_cons.mpr ⟨out, treeNodup⟩)
  obtain ⟨u₀, hu₀⟩ : ∃ u₀, u₀ = reserved slot rest key finish t := ⟨_, rfl⟩
  have entries₀ : ∀ j, j ≠ slot → u₀.entryOf j = t.entryOf j := fun j ne => by
    rw [hu₀, reserved_entryOf ne]
  have nodes₀ : ∀ j, j ≠ slot → u₀.nodes j = t.nodes j := fun j ne => by
    rw [hu₀, reserved_other ne]
  have mine : u₀.nodes slot = some (Node.new key finish) := by
    rw [hu₀]
    exact update_self ..
  have linked₀ : LinkedAbove u₀.cell none above := by
    have linked := h.layout.linked
    rw [← eq] at linked
    refine (linked_plug.mp linked).1.congr fun j hj => ?_
    rw [hu₀, reserved_cell (away j (around j hj))]
  have keys₀ : ∀ j, j ∈ before above ∨ j ∈ after above → u₀.keyOf j = t.keyOf j := fun j hj => by
    rw [keyOf, keyOf, entries₀ j (away j (around j (mem_around.mpr hj)))]
  have bounds₀ : Between u₀.keyOf key above :=
    ⟨fun j hj => (keys₀ j (.inl hj)).symm ▸ bounds.low j hj,
      fun j hj => (keys₀ j (.inr hj)).symm ▸ bounds.high j hj⟩
  have root₀ : u₀.root = (plug above (leaf : BinTree (Fin N))).rootLink := by
    rw [hu₀, eq]
    exact h.layout.root
  obtain ⟨u, link, relinked, free_u, len_u, root_u, linked_u⟩ :=
    linkBelow_run nodup root₀ mine linked₀ bounds₀
  have unranked₀ : ∀ j n, u₀.nodes j = some n → n.rank = 0 := by
    intro j n found
    by_cases here : j = slot
    · subst here
      cases mine.symm.trans found
      rfl
    · exact h.layout.unranked j n ((nodes₀ j here).symm.trans found)
  have unranked := relinked.unranked unranked₀
  have lt : above.length < turns N := by
    have bound := length_le_items_plug above (node leaf slot leaf)
    rw [items.length_eq, List.length_cons] at bound
    have := h.layout.length_le
    rw [free, List.length_cons] at this
    rw [turns]
    omega
  have beside : u.AugmentedBeside above := by
    have fresh := h.augmented
    rw [← eq] at fresh
    refine (augmented_plug fresh).1.congr fun j hj => (relinked.record j).trans ?_
    exact record_of_nodes (nodes₀ j (away j (around j (List.mem_append_right _ hj))))
  obtain ⟨t', refresh, refreshed, fresh⟩ := refreshAncestors_run lt linked_u nodup
    (show u.Augmented leaf from trivial) trivial beside
  have entries : t'.entryOf = u₀.entryOf := refreshed.entryOf.trans relinked.entryOf
  have layout : u.Layout (plug above (node leaf slot leaf)) := by
    refine ⟨root_u, linked_u, ?_, ?_, ?_, unranked⟩
    · rw [free_u, hu₀]
      have moved : (slot :: tree.items ++ rest).Perm (tree.items ++ slot :: rest) := (List.perm_middle).symm
      rw [← free] at moved
      exact ((items.append_right rest).trans moved).trans h.layout.slots
    · intro j hj
      rw [free_u, hu₀] at hj
      have ne : j ≠ slot := by
        have nodup := (List.nodup_append.mp h.layout.nodup).2.1
        rw [free, List.nodup_cons] at nodup
        exact fun eq => nodup.1 (eq ▸ hj)
      obtain ⟨links, hj'⟩ := relinked j
      rw [hj', nodes₀ j ne, h.layout.vacant j (by rw [free]; exact .tail _ hj)]
      rfl
    rw [len_u, hu₀, items.length_eq, List.length_cons, ← h.layout.len]
    rfl
  refine ⟨t', ?_, ⟨refreshed.layout layout, fresh, ?_⟩, ?_, ?_⟩
  · have search := @Sound.insertionPoint_reserved N t tree slot key finish rest h free
    rw [absent, ← hu₀] at search
    have taken : insertionPoint key (turns N) none u₀.root u₀ = (.ok (some (parentLink above)), u₀) := by
      rw [hu₀] at search ⊢
      exact search
    rw [insert, Exec.gets_bind, free]
    dsimp only
    rw [Exec.modify_bind, Exec.gets_bind]
    change (insertionPoint key (turns N) none (reserved slot rest key finish t).root >>= _)
      (reserved slot rest key finish t) = _
    rw [← hu₀]
    refine (Exec.bind_of_ok taken).trans ?_
    dsimp only
    rw [Exec.bind_of_ok link, Exec.bind_of_ok (rebalanceAfterInsert_run lt linked_u unranked)]
    exact refresh
  · have keyed : ∀ j ∈ (plug above (node leaf slot leaf)).items, t'.keyOf j = u₀.keyOf j := by
      intro j _
      rw [keyOf, keyOf, entries]
    have slotKey : u₀.keyOf slot = key := keyOf_of_node mine
    refine SortedBy.congr (Between.sortedBy (slotKey.symm ▸ bounds₀) ?_) keyed
    rw [eq]
    refine h.sorted.congr fun j inside => ?_
    rw [keyOf, keyOf, entries₀ j (away j inside)]
  · intro j inside
    rw [entries, entries₀ j (away j inside)]
  rw [entries, entryOf_of_node mine]
  rfl

end Insert
end EevdfTree
end HuesOS.Sched
