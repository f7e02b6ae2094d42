import HuesOS.Sched.EevdfUpdate

namespace HuesOS.Sched
open Function

namespace EevdfTree
open BinTree
variable {N : Nat} {t t' u : EevdfTree N} {tree l r : BinTree (Fin N)} {i slot : Fin N}
  {above : List (Frame (Fin N))} {key : EevdfKey}

def RelinkedBut (slot : Fin N) (t u : EevdfTree N) : Prop :=
  ∀ j, j ≠ slot → ∃ links : Links (Fin N), u.nodes j = (t.nodes j).map fun n =>
    { n with parent := links.parent, left := links.left, right := links.right }

theorem RelinkedBut.record (h : RelinkedBut slot t u) {j : Fin N} (ne : j ≠ slot) :
    u.record j = t.record j := by
  obtain ⟨links, eq⟩ := h j ne
  rw [EevdfTree.record, EevdfTree.record, eq]
  cases t.nodes j <;> rfl

theorem replaceChild_run {child : BinTree (Fin N)}
    (nodup : (plug above (node l i r)).items.Nodup)
    (root : t.root = (plug above (node l i r)).rootLink)
    (linked : LinkedAbove t.cell (some i) above) :
    ∃ u, replaceChild (parentLink above) i child.rootLink t = (.ok (), u) ∧ Relinked t u ∧
      u.free = t.free ∧ u.len = t.len ∧ u.root = (plug above child).rootLink ∧
      LinkedAbove u.cell child.rootLink above ∧
      (∀ j, j ∉ around above → u.nodes j = t.nodes j) := by
  cases above with
  | nil =>
    exact ⟨{ t with root := child.rootLink }, rfl, Relinked.refl t, rfl, rfl, rfl, trivial, fun _ _ => rfl⟩
  | cons frame above =>
    obtain ⟨p, found⟩ := linkedAbove_node linked
    refine ⟨t.setNode frame.item (some (setChild frame child.rootLink p)), ?_,
      setChild_relinked found, rfl, rfl, ?_, linkedAbove_setChild nodup found linked, ?_⟩
    · rw [parentLink, replaceChild, Exec.bind_of_ok (nodeRef_of_node found)]
      cases frame with
      | left j r' =>
        obtain ⟨n, found', -, hl, -⟩ := cell_eq_some.mp linked.1
        cases found.symm.trans found'
        rw [if_pos hl]
        exact nodeMutRef_of_node found _
      | right l' j =>
        obtain ⟨n, found', -, hl, -⟩ := cell_eq_some.mp linked.1
        cases found.symm.trans found'
        have other : ¬p.left = some i := by
          intro eq
          have inside : i ∈ l'.items := rootLink_mem (hl.symm.trans eq)
          exact (focus_distinct nodup).1 (mem_around_cons.mpr (.inr (.inl inside)))
        rw [if_neg other]
        exact nodeMutRef_of_node found _
    · rw [setNode_root, root]
      exact rootLink_plug_cons frame _ _
    exact fun j out => setNode_other _ fun eq => out (mem_around_cons.mpr (.inl eq))

theorem setParent_run {child : BinTree (Fin N)} {old parent : Option (Fin N)}
    (nodup : child.items.Nodup) (linked : Linked t.cell old child) :
    ∃ u, setParent child.rootLink parent t = (.ok (), u) ∧ Relinked t u ∧ u.free = t.free ∧
      u.len = t.len ∧ u.root = t.root ∧ Linked u.cell parent child ∧
      (∀ j, j ∉ child.items → u.nodes j = t.nodes j) := by
  cases child with
  | leaf =>
    exact ⟨t, rfl, Relinked.refl t, rfl, rfl, rfl, trivial, fun _ _ => rfl⟩
  | node cl c cr =>
    obtain ⟨here, left, right⟩ := linked
    obtain ⟨n, found, -, hl, hr⟩ := cell_eq_some.mp here
    obtain ⟨-, outside_left, outside_right⟩ := @focus_distinct _ [] cl cr c nodup
    refine ⟨t.setNode c (some { n with parent }), nodeMutRef_of_node found _,
      relinked_setNode found ⟨parent, n.left, n.right⟩, rfl, rfl, rfl,
      ⟨cell_eq_some.mpr ⟨_, setNode_self _, rfl, hl, hr⟩, ?_, ?_⟩, ?_⟩
    · exact left.congr fun j hj => cell_setNode_other _ (ne_of_mem_of_not_mem hj outside_left)
    · exact right.congr fun j hj => cell_setNode_other _ (ne_of_mem_of_not_mem hj outside_right)
    intro j out
    refine setNode_other _ ?_
    rintro rfl
    exact out (by simp)

/-- The only subtree of a node with at most one child. -/
theorem joined_of_single (single : l = leaf ∨ r = leaf) :
    (joined l r).rootLink = l.rootLink.or r.rootLink := by
  cases l with
  | leaf => rfl
  | node ll y lr =>
    rcases single with h | rfl
    · cases h
    · rfl

theorem joined_linked {parent : Option (Fin N)} (single : l = leaf ∨ r = leaf)
    (left : Linked t.cell parent l) (right : Linked t.cell parent r) :
    Linked t.cell parent (joined l r) := by
  cases l with
  | leaf => exact right
  | node ll y lr =>
    rcases single with h | rfl
    · cases h
    · exact left

theorem joined_augmented (single : l = leaf ∨ r = leaf) (left : t.Augmented l)
    (right : t.Augmented r) : t.Augmented (joined l r) := by
  cases l with
  | leaf => exact right
  | node ll y lr =>
    rcases single with h | rfl
    · cases h
    · exact left

theorem items_plug_joined (above : List (Frame (Fin N))) (l r : BinTree (Fin N)) (i : Fin N) :
    (plug above (node l i r)).items.Perm (i :: (plug above (joined l r)).items) := by
  rw [items_plug, items_plug, items_joined, items_node]
  simp only [List.append_assoc]
  exact (List.perm_middle.append_left _).trans List.perm_middle

theorem eraseSingle_run (layout : t.Layout (plug above (node l i r))) (single : l = leaf ∨ r = leaf) :
    ∃ u, eraseSingle i t = (.ok (), u) ∧ RelinkedBut i t u ∧ u.Layout (plug above (joined l r)) := by
  have removed := items_plug_joined above l r i
  have nodup : (plug above (node l i r)).items.Nodup := (List.nodup_append.mp layout.nodup).1
  have distinct' : (plug above (joined l r)).items.Nodup :=
    (List.nodup_cons.mp (removed.nodup_iff.mp nodup)).2
  have gone : i ∉ (plug above (joined l r)).items := (List.nodup_cons.mp (removed.nodup_iff.mp nodup)).1
  -- The subtree that moves up shares no slot with what is around it.
  obtain ⟨-, inner, apart⟩ :=
    List.nodup_append.mp ((items_plug_perm above (joined l r)).nodup_iff.mp distinct')
  have between : ∀ j ∈ (joined l r).items, j ∉ around above := fun j hj h => apart j h j hj rfl
  rw [(items_plug_perm above (joined l r)).mem_iff, List.mem_append, not_or] at gone
  obtain ⟨outer, here, left, right⟩ := linked_plug.mp layout.linked
  obtain ⟨n, found, parent, hl, hr⟩ := cell_eq_some.mp here
  have child : n.left.or n.right = (joined l r).rootLink := by
    rw [joined_of_single single, hl, hr]
  obtain ⟨u₁, run₁, relinked₁, free₁, len₁, root₁, above₁, nodes₁⟩ :=
    @replaceChild_run N t l r i above (joined l r) nodup layout.root outer
  have inner₁ : Linked u₁.cell (some i) (joined l r) :=
    (joined_linked single left right).congr fun j hj => by
      rw [cell, cell, nodes₁ j (between j hj)]
  obtain ⟨u₂, run₂, relinked₂, free₂, len₂, root₂, linked₂, nodes₂⟩ :=
    @setParent_run N u₁ (joined l r) (some i) (parentLink above) inner inner₁
  have above₂ : LinkedAbove u₂.cell (joined l r).rootLink above := above₁.congr fun j hj => by
    rw [cell, cell, nodes₂ j fun h => between j h hj]
  have others : ∀ j, j ≠ i → (releaseSlot i u₂).nodes j = u₂.nodes j := fun j ne =>
    update_of_ne ne ..
  refine ⟨releaseSlot i u₂, ?_, ?_, ?_, ?_, ?_, ?_, ?_, ?_⟩
  · rw [eraseSingle, Exec.bind_of_ok (nodeRef_of_node found), parent, child,
      Exec.bind_of_ok run₁, Exec.bind_of_ok run₂]
    rfl
  · intro j ne
    rw [others j ne]
    exact relinked₁.trans relinked₂ j
  · exact root₂.trans root₁
  · refine linked_plug.mpr ⟨above₂.congr fun j hj => ?_, linked₂.congr fun j hj => ?_⟩
    · rw [cell, cell, others j (ne_of_mem_of_not_mem hj gone.1)]
    · rw [cell, cell, others j (ne_of_mem_of_not_mem hj gone.2)]
  · have eq : (releaseSlot i u₂).free = i :: t.free := by
      rw [releaseSlot, free₂, free₁]
    rw [eq]
    exact List.perm_middle.trans ((removed.symm.append_right t.free).trans layout.slots)
  · intro j hj
    have listed : j ∈ i :: t.free := by
      rw [releaseSlot, free₂, free₁] at hj
      exact hj
    by_cases ne : j = i
    · subst ne
      exact update_self ..
    rw [others j ne]
    obtain ⟨links, eq⟩ := relinked₁.trans relinked₂ j
    rw [eq, layout.vacant j ((List.mem_cons.mp listed).resolve_left ne)]
    rfl
  · have count := removed.length_eq
    rw [List.length_cons, ← layout.len] at count
    rw [releaseSlot]
    dsimp only
    rw [len₂, len₁, count, Nat.add_sub_cancel]
  intro j m live
  by_cases ne : j = i
  · subst ne
    cases (update_self .. : (releaseSlot j u₂).nodes j = none).symm.trans live
  rw [others j ne] at live
  exact (relinked₁.trans relinked₂).unranked layout.unranked j m live

theorem leftEnd_run {fuel : Nat} {parent : Option (Fin N)} (enough : (node l i r).height ≤ fuel)
    (linked : Linked t.cell parent (node l i r)) :
    leftEnd fuel i t = (.ok (leftmost l i r above).1, t) := by
  induction l generalizing i r fuel parent above with
  | leaf =>
    obtain _ | fuel := fuel
    · cases enough
    obtain ⟨n, found, -, hl, -⟩ := cell_eq_some.mp linked.1
    rw [leftEnd, Exec.bind_of_ok (nodeRef_of_node found), hl]
    rfl
  | node ll j lr ihl _ =>
    rw [height] at enough
    obtain _ | fuel := fuel
    · omega
    obtain ⟨n, found, -, hl, -⟩ := cell_eq_some.mp linked.1
    rw [leftEnd, Exec.bind_of_ok (nodeRef_of_node found), hl]
    exact ihl (by omega) linked.2.1

theorem refresh_above {frame : Frame (Fin N)} {focus : BinTree (Fin N)}
    (layout : t.Layout (plug (frame :: above) focus)) (fresh : t.Augmented focus)
    (beside : t.AugmentedBeside (frame :: above)) :
    ∃ t', (do
        rebalanceAfterErase (turns N) frame.item
        refreshAncestors (turns N) (some frame.item) : TreeM N Unit) t = (.ok (), t') ∧
      Refreshed t t' ∧ t'.Augmented (plug (frame :: above) focus) := by
  have nodup := (List.nodup_append.mp layout.nodup).1
  have lt : above.length < turns N := by
    have bound := length_le_items_plug (frame :: above) focus
    have := layout.length_le
    rw [List.length_cons] at bound
    rw [turns]
    omega
  cases frame with
  | left j r =>
    obtain ⟨t', run, refreshed, done⟩ := refreshAncestors_run lt layout.linked nodup fresh beside.1 beside.2
    refine ⟨t', ?_, refreshed, done⟩
    exact (Exec.bind_of_ok (rebalanceAfterErase_run lt layout.linked layout.unranked)).trans run
  | right l j =>
    obtain ⟨t', run, refreshed, done⟩ := refreshAncestors_run lt layout.linked nodup beside.1 fresh beside.2
    refine ⟨t', ?_, refreshed, done⟩
    exact (Exec.bind_of_ok (rebalanceAfterErase_run lt layout.linked layout.unranked)).trans run

def Holds (t : EevdfTree N) (shape : BinTree (EevdfKey × Nat)) : Prop :=
  ∃ tree, t.Sound tree ∧ tree.map t.entryOf = shape

theorem sortedBy_map : SortedBy t.keyOf tree ↔ SortedBy Prod.fst (tree.map t.entryOf) := by
  rw [SortedBy, SortedBy, items_map, List.map_map]
  rfl

theorem SortedBy.removed {α κ : Type} [LinearOrder κ] {keyOf : α → κ} {outer : List (Frame α)}
    {left right : BinTree α} {x : α} (sorted : SortedBy keyOf (plug outer (node left x right))) :
    SortedBy keyOf (plug outer (joined left right)) := by
  refine List.Pairwise.sublist (List.Sublist.map keyOf ?_) sorted
  rw [items_plug, items_plug, items_joined, items_node]
  refine List.Sublist.append_right (List.Sublist.append_left ?_ _) _
  exact List.Sublist.append_left (List.sublist_cons_self _ _) _

theorem eraseNode_single (h : t.Sound (plug above (node l i r))) (single : l = leaf ∨ r = leaf) :
    ∃ t', eraseNode i t = (.ok (), t') ∧ t'.Holds ((plug above (joined l r)).map t.entryOf) := by
  have removed := items_plug_joined above l r i
  have nodup : (plug above (node l i r)).items.Nodup := (List.nodup_append.mp h.layout.nodup).1
  have gone := (List.nodup_cons.mp (removed.nodup_iff.mp nodup)).1
  obtain ⟨beside, -, left, right⟩ := augmented_plug h.augmented
  obtain ⟨out, inLeft, inRight⟩ := focus_distinct nodup
  obtain ⟨-, here, -, -⟩ := linked_plug.mp h.layout.linked
  obtain ⟨n, found, parent, hl, hr⟩ := cell_eq_some.mp here
  dsimp only at parent hl hr
  obtain ⟨u, run, relinked, layout⟩ := eraseSingle_run h.layout single
  have fresh : u.Augmented (joined l r) := joined_augmented single
    (left.congr fun j hj => relinked.record (ne_of_mem_of_not_mem hj inLeft))
    (right.congr fun j hj => relinked.record (ne_of_mem_of_not_mem hj inRight))
  have beside' : u.AugmentedBeside above := beside.congr fun j hj =>
    relinked.record (ne_of_mem_of_not_mem (List.mem_append_right _ hj) out)
  have entries : ∀ j ∈ (plug above (joined l r)).items, u.entryOf j = t.entryOf j :=
    fun j hj => entryOf_of_record (relinked.record (ne_of_mem_of_not_mem hj gone))
  have sorted : SortedBy t.keyOf (plug above (joined l r)) := SortedBy.removed h.sorted
  have starts : eraseNode i t = (do
      eraseSingle i
      (parentLink above).elim (pure ()) fun p => do
        rebalanceAfterErase (turns N) p
        refreshAncestors (turns N) (some p) : TreeM N Unit) t := by
    rw [eraseNode, Exec.bind_of_ok (nodeRef_of_node found), ← parent]
    rcases single with rfl | rfl
    · cases n.right <;> cases up : n.parent <;> simp only [hl, rootLink, Option.elim]
    · cases n.left <;> cases up : n.parent <;> simp only [hr, rootLink, Option.elim]
  rw [starts, Exec.bind_of_ok run]
  have finish : ∀ {v : EevdfTree N}, Refreshed u v → v.Augmented (plug above (joined l r)) →
      v.Holds ((plug above (joined l r)).map t.entryOf) := by
    intro v refreshed done
    have eq : ∀ j ∈ (plug above (joined l r)).items, v.entryOf j = t.entryOf j := by
      intro j hj
      rw [refreshed.entryOf, entries j hj]
    refine ⟨_, ⟨refreshed.layout layout, done, sorted.congr fun j hj => ?_⟩, map_congr eq⟩
    rw [keyOf, keyOf, eq j hj]
  cases above with
  | nil => exact ⟨u, rfl, finish (Refreshed.refl u) fresh⟩
  | cons frame above =>
    obtain ⟨t', rest, refreshed, done⟩ := refresh_above layout fresh beside'
    exact ⟨t', rest, finish refreshed done⟩

def moved (t : EevdfTree N) (i : Fin N) (n m : Node N) : EevdfTree N :=
  t.setNode i (some { n with key := m.key, finish := m.finish, minFinish := m.minFinish })

theorem moved_cell {n m : Node N} (found : t.nodes i = some n) : (t.moved i n m).cell = t.cell := by
  funext j
  by_cases eq : j = i
  · subst eq
    rw [moved, cell, cell, setNode_self, found]
    rfl
  · exact cell_setNode_other _ eq

theorem moved_layout {n m : Node N} (layout : t.Layout tree) (found : t.nodes i = some n) :
    (t.moved i n m).Layout tree where
  root := layout.root
  linked := (moved_cell found).symm ▸ layout.linked
  slots := layout.slots
  vacant := by
    intro j free
    rw [moved, setNode_other, layout.vacant j free]
    rintro rfl
    cases (layout.vacant j free).symm.trans found
  len := layout.len
  unranked := by
    intro j m' live
    by_cases eq : j = i
    · subst eq
      rw [moved, setNode_self] at live
      cases live
      exact layout.unranked j n found
    rw [moved, setNode_other _ eq] at live
    exact layout.unranked j m' live

/-- Giving a slot the entry of its successor and dropping the successor's slot is, for the
entries, the same as dropping the slot and moving its successor up. -/
theorem map_moved {rl rr : BinTree (Fin N)} {x s : Fin N} {f g : Fin N → EevdfKey × Nat}
    (paired : l ≠ leaf) (succ : (leftmost rl x rr []).1 = s)
    (nodup : (plug above (node l i (node rl x rr))).items.Nodup) (moved : f i = g s)
    (others : ∀ j, j ≠ s → j ≠ i → f j = g j) :
    (plug above (node l i (dropFirst (node rl x rr)))).map f =
      (plug above (joined l (node rl x rr))).map g := by
  have items := items_node_leftmost rl x rr []
  rw [succ] at items
  rw [(items_plug_perm above _).nodup_iff, items_node, items] at nodup
  simp only [List.nodup_append, List.nodup_cons, List.mem_cons] at nodup
  obtain ⟨-, ⟨-, ⟨iRest, sRest, -⟩, left⟩, outer⟩ := nodup
  have shape : joined l (node rl x rr) = node l s (dropFirst (node rl x rr)) := by
    cases l with
    | leaf => exact absurd rfl paired
    | node ll y lr => rw [joined, succ]
  rw [shape, map_plug, map_plug, map, map, moved]
  congr 1
  · refine map_frames_congr fun j hj => others j ?_ ?_
    · rintro rfl
      exact outer j hj j (by simp) rfl
    rintro rfl
    exact outer j hj j (by simp) rfl
  congr 1
  · refine map_congr fun j hj => others j ?_ ?_
    · rintro rfl
      exact left j hj j (.inr (.inl rfl)) rfl
    rintro rfl
    exact left j hj j (.inl rfl) rfl
  refine map_congr fun j hj => others j ?_ ?_
  · rintro rfl
    exact sRest hj
  rintro rfl
  exact iRest (.inr hj)

theorem eraseNode_two {rl rr : BinTree (Fin N)} {x : Fin N} (paired : l ≠ leaf)
    (h : t.Sound (plug above (node l i (node rl x rr)))) :
    ∃ t', eraseNode i t = (.ok (), t') ∧ t'.Holds ((plug above (joined l (node rl x rr))).map t.entryOf) := by
  -- The successor, what is to its right, and the path to it.
  obtain ⟨s, sr, path, walk⟩ : ∃ s sr path,
      leftmost rl x rr (.right l i :: above) = (s, sr, path) := ⟨_, _, _, rfl⟩
  have whole : plug path (node leaf s sr) = plug above (node l i (node rl x rr)) := by
    have eq := plug_leftmost rl x rr (.right l i :: above)
    rw [walk] at eq
    exact eq
  have after_ : plug path sr = plug above (node l i (dropFirst (node rl x rr))) := by
    have eq := plug_leftmost_right rl x rr (.right l i :: above)
    rw [walk] at eq
    exact eq
  have onPath : Frame.right l i ∈ path := by
    obtain ⟨walked, eq⟩ := leftmost_above rl x rr (.right l i :: above)
    rw [walk] at eq
    simp only at eq
    rw [eq]
    exact List.mem_append_right _ List.mem_cons_self
  have succItem : (leftmost rl x rr []).1 = s := by
    rw [leftmost_item rl x rr [] (.right l i :: above), walk]
  obtain ⟨frame, rest, rfl⟩ : ∃ frame rest, path = frame :: rest :=
    List.exists_cons_of_ne_nil (List.ne_nil_of_mem onPath)
  have h' := h
  rw [← whole] at h'
  have nodup : (plug (frame :: rest) (node leaf s sr)).items.Nodup := (List.nodup_append.mp h'.layout.nodup).1
  obtain ⟨out, -, inRight⟩ := focus_distinct nodup
  have iAround : i ∈ around (frame :: rest) := List.mem_append_left _ (List.mem_map_of_mem onPath)
  have ne : s ≠ i := (ne_of_mem_of_not_mem iAround out).symm
  obtain ⟨-, here, leftLinked, rightLinked⟩ := linked_plug.mp h.layout.linked
  obtain ⟨n, found, parent, hl, hr⟩ := cell_eq_some.mp here
  dsimp only at parent hl hr
  obtain ⟨-, hereS, -, -⟩ := linked_plug.mp h'.layout.linked
  obtain ⟨m, foundS, parentS, -, -⟩ := cell_eq_some.mp hereS
  dsimp only [parentLink] at parentS
  -- First the successor's entry is copied, then its slot is unlinked.
  obtain ⟨t₁, ht₁⟩ : ∃ t₁, t₁ = t.moved i n m := ⟨_, rfl⟩
  have others₁ : ∀ j, j ≠ i → t₁.nodes j = t.nodes j := by
    intro j away
    rw [ht₁, moved, setNode_other _ away]
  have layout₁ : t₁.Layout (plug (frame :: rest) (node leaf s sr)) := ht₁ ▸ moved_layout h'.layout found
  obtain ⟨u, run, relinked, layout⟩ := eraseSingle_run layout₁ (.inl rfl)
  obtain ⟨beside, -, -, freshRight⟩ := augmented_plug h'.augmented
  obtain ⟨iSibling, iFocus⟩ := frame_outside nodup onPath
  have fresh : u.Augmented sr := by
    refine freshRight.congr fun j hj => ?_
    rw [relinked.record (ne_of_mem_of_not_mem hj inRight)]
    refine record_of_nodes (others₁ j ?_)
    rintro rfl
    exact iFocus (by simp [Frame.item, hj])
  have beside' : u.AugmentedBeside (frame :: rest) := by
    refine beside.congr fun j hj => ?_
    rw [relinked.record (ne_of_mem_of_not_mem (List.mem_append_right _ hj) out)]
    exact record_of_nodes (others₁ j (ne_of_mem_of_not_mem hj iSibling))
  obtain ⟨t', last, refreshed, done⟩ := refresh_above layout fresh beside'
  have entries : ∀ j, j ≠ s → j ≠ i → t'.entryOf j = t.entryOf j := by
    intro j notS notI
    rw [refreshed.entryOf, entryOf_of_record (relinked.record notS), entryOf, entryOf, others₁ j notI]
  have entryI : t'.entryOf i = t.entryOf s := by
    have mine : t₁.nodes i = some { n with
        key := m.key, finish := m.finish, minFinish := m.minFinish } := by
      rw [ht₁, moved, setNode_self]
    rw [refreshed.entryOf, entryOf_of_record (relinked.record (Ne.symm ne)),
      entryOf_of_node foundS, entryOf_of_node mine]
  refine ⟨t', ?_, ?_⟩
  · have reach : leftEnd (turns N) x t = (.ok s, t) := by
      have enough : (node rl x rr).height ≤ turns N := by
        have bound := (node rl x rr).height_le_length
        have total := h.layout.length_le
        rw [items_plug, items_node] at total
        simp only [List.length_append, List.length_cons] at total
        rw [turns]
        omega
      have reached : leftEnd (turns N) x t = (.ok (leftmost rl x rr (.right l i :: above)).1, t) :=
        leftEnd_run enough rightLinked
      rw [walk] at reached
      exact reached
    obtain ⟨c, someLeft⟩ : ∃ c, n.left = some c := by
      cases l with
      | leaf => exact absurd rfl paired
      | node ll y lr => exact ⟨y, hl⟩
    rw [eraseNode, Exec.bind_of_ok (nodeRef_of_node found), someLeft, hr, rootLink]
    dsimp only
    rw [Exec.bind_of_ok reach, Exec.bind_of_ok (nodeRef_of_node foundS),
      Exec.bind_of_ok (nodeMutRef_of_node found _)]
    change (eraseSingle s >>= _) (t.moved i n m) = _
    rw [← ht₁, Exec.bind_of_ok run, parentS]
    exact last
  have eq : (plug (frame :: rest) sr).map t'.entryOf =
      (plug above (joined l (node rl x rr))).map t.entryOf := by
    rw [after_]
    exact map_moved paired succItem (List.nodup_append.mp h.layout.nodup).1 entryI entries
  refine ⟨_, ⟨refreshed.layout layout, done, ?_⟩, eq⟩
  rw [sortedBy_map]
  change SortedBy Prod.fst ((plug (frame :: rest) sr).map t'.entryOf)
  rw [eq, ← sortedBy_map]
  exact SortedBy.removed h.sorted

theorem eraseNode_run (h : t.Sound (plug above (node l i r))) :
    ∃ t', eraseNode i t = (.ok (), t') ∧ t'.Holds ((plug above (joined l r)).map t.entryOf) := by
  cases l with
  | leaf => exact eraseNode_single h (.inl rfl)
  | node ll y lr =>
    cases r with
    | leaf => exact eraseNode_single h (.inr rfl)
    | node rl x rr => exact eraseNode_two (fun eq => by cases eq) h

end EevdfTree
end HuesOS.Sched
