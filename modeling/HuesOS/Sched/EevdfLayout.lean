import HuesOS.Lib.LinkedTree
import HuesOS.Sched.Eevdf

namespace HuesOS.Sched
open List Option

def Node.links {N : Nat} (n : Node N) : Links (Fin N) := ⟨n.parent, n.left, n.right⟩

namespace EevdfTree
open BinTree
variable {N : Nat} {t t' : EevdfTree N} {tree : BinTree (Fin N)} {i : Fin N}

def cell (t : EevdfTree N) (i : Fin N) : Option (Links (Fin N)) := (t.nodes i).map Node.links

def entryOf (t : EevdfTree N) (i : Fin N) : EevdfKey × Nat :=
  match t.nodes i with
  | some n => (n.key, n.finish)
  | none => (⟨0, 0⟩, 0)

def keyOf (t : EevdfTree N) (i : Fin N) : EevdfKey := (t.entryOf i).1

theorem cell_eq_some {links : Links (Fin N)} :
    t.cell i = some links ↔ ∃ n, t.nodes i = some n ∧ n.parent = links.parent ∧
      n.left = links.left ∧ n.right = links.right := by
  rw [cell, map_eq_some_iff]
  constructor
  · rintro ⟨n, found, rfl⟩
    exact ⟨n, found, rfl, rfl, rfl⟩
  rintro ⟨n, found, hp, hl, hr⟩
  exact ⟨n, found, by rw [Node.links, hp, hl, hr]⟩

variable {n : Node N} {m fuel : Nat} {above : List (Frame (Fin N))} {l r : BinTree (Fin N)}

theorem entryOf_of_node (found : t.nodes i = some n) : t.entryOf i = (n.key, n.finish) := by
  rw [entryOf, found]

def record (t : EevdfTree N) (i : Fin N) : Option (EevdfKey × Nat × Nat) :=
  (t.nodes i).map fun n => (n.key, n.finish, n.minFinish)

theorem record_of_nodes (eq : t'.nodes i = t.nodes i) : t'.record i = t.record i := by
  rw [record, record, eq]

theorem entryOf_of_record (eq : t'.record i = t.record i) : t'.entryOf i = t.entryOf i := by
  have read : ∀ u : EevdfTree N, u.entryOf i = match u.record i with
      | some (key, finish, _) => (key, finish)
      | none => (⟨0, 0⟩, 0) := fun u => by
    rw [entryOf, record]
    cases u.nodes i <;> rfl
  rw [read, read, eq]

theorem keyOf_of_node (found : t.nodes i = some n) : t.keyOf i = n.key := by
  rw [keyOf, entryOf_of_node found]

theorem nodeRef_of_node (found : t.nodes i = some n) : nodeRef i t = (.ok n, t) := by
  rw [nodeRef, found]

theorem nodeMutRef_of_node (found : t.nodes i = some n) (f : Node N → Node N) :
    nodeMutRef i f t = (.ok (), t.setNode i (some (f n))) := by
  rw [nodeMutRef, found]

section
variable (node : Option (Node N))
include node

@[simp] theorem setNode_root : (t.setNode i node).root = t.root := rfl

@[simp] theorem setNode_free : (t.setNode i node).free = t.free := rfl

@[simp] theorem setNode_len : (t.setNode i node).len = t.len := rfl

@[simp] theorem setNode_self : (t.setNode i node).nodes i = node := Function.update_self ..

theorem setNode_other {j : Fin N} (ne : j ≠ i) :
    (t.setNode i node).nodes j = t.nodes j := Function.update_of_ne ne ..

end

/-- The arena spells out `tree`: the links, the slots that are free, the count, and ranks that
have never left zero. -/
structure Layout (t : EevdfTree N) (tree : BinTree (Fin N)) : Prop where
  root : t.root = tree.rootLink
  linked : Linked t.cell none tree
  slots : (tree.items ++ t.free).Perm (List.finRange N)
  vacant : ∀ i ∈ t.free, t.nodes i = none
  len : t.len = tree.items.length
  unranked : ∀ i n, t.nodes i = some n → n.rank = 0

theorem Layout.nodup (h : t.Layout tree) : (tree.items ++ t.free).Nodup :=
  h.slots.nodup_iff.mpr (nodup_finRange N)

theorem Layout.live_iff (h : t.Layout tree) : (t.nodes i).isSome ↔ i ∈ tree.items := by
  constructor
  · intro live
    have listed : i ∈ tree.items ++ t.free := h.slots.mem_iff.mpr (mem_finRange i)
    rcases mem_append.mp listed with inside | free
    · exact inside
    rw [h.vacant i free] at live
    cases live
  intro inside
  have found := h.linked.cell_isSome inside
  rw [cell, isSome_map] at found
  exact found

theorem Layout.length_le (h : t.Layout tree) : tree.items.length + t.free.length = N := by
  have := h.slots.length_eq
  rwa [length_append, length_finRange] at this

theorem layout_new (N : Nat) : (new N).Layout leaf where
  root := rfl
  linked := trivial
  slots := (reverse_perm _)
  vacant := fun _ _ => rfl
  len := rfl
  unranked := by
    intro i n found
    cases found

def lower (m : Nat) : Option Nat → Nat
  | none => m
  | some x => if x < m then x else m

def leastFinish (finish : Fin N → Nat) : BinTree (Fin N) → Option Nat
  | leaf => none
  | node l i r => some (lower (lower (finish i) (leastFinish finish l)) (leastFinish finish r))

def Records (t : EevdfTree N) (i : Fin N) (subtree : BinTree (Fin N)) : Prop :=
  ∃ n, t.nodes i = some n ∧ some n.minFinish = leastFinish (fun j => (t.entryOf j).2) subtree

def Augmented (t : EevdfTree N) : BinTree (Fin N) → Prop
  | leaf => True
  | node l i r => t.Records i (node l i r) ∧ Augmented t l ∧ Augmented t r

/-- The subtrees beside the path above a focus are augmented; the path itself need not be. -/
def AugmentedBeside (t : EevdfTree N) : List (Frame (Fin N)) → Prop
  | [] => True
  | .left _ r :: above => t.Augmented r ∧ AugmentedBeside t above
  | .right l _ :: above => t.Augmented l ∧ AugmentedBeside t above

theorem lower_le (m : Nat) (o : Option Nat) : lower m o ≤ m := by
  cases o with
  | none => exact Nat.le_refl m
  | some x =>
    rw [lower]
    split <;> omega

theorem lower_le_some {x : Nat} : lower m (some x) ≤ x := by
  rw [lower]
  split <;> omega

theorem lower_cases (m : Nat) (o : Option Nat) : lower m o = m ∨ o = some (lower m o) := by
  cases o with
  | none => exact .inl rfl
  | some x =>
    rw [lower]
    split
    · exact .inr rfl
    · exact .inl rfl

theorem leastFinish_spec {finish : Fin N → Nat} (h : leastFinish finish tree = some m) :
    (∀ i ∈ tree.items, m ≤ finish i) ∧ ∃ i ∈ tree.items, finish i = m := by
  induction tree generalizing m with
  | leaf => cases h
  | node l i r ihl ihr =>
    rw [leastFinish, Option.some.injEq] at h
    have viaLeft := lower_le (lower (finish i) (leastFinish finish l)) (leastFinish finish r)
    have viaItem := lower_le (finish i) (leastFinish finish l)
    constructor
    · intro j mem
      simp only [items_node, mem_append, mem_cons] at mem
      rcases mem with low | rfl | high
      · cases found : leastFinish finish l with
        | none =>
          cases l with
          | leaf => cases low
          | node => cases found
        | some ml =>
          have bound := (ihl found).1 j low
          have := lower_le_some (m := finish i) (x := ml)
          rw [found] at viaLeft h
          omega
      · omega
      cases found : leastFinish finish r with
      | none =>
        cases r with
        | leaf => cases high
        | node => cases found
      | some mr =>
        have bound := (ihr found).1 j high
        have := lower_le_some (m := lower (finish i) (leastFinish finish l)) (x := mr)
        rw [found] at h
        omega
    rcases lower_cases (lower (finish i) (leastFinish finish l)) (leastFinish finish r) with
      eq | found
    · rcases lower_cases (finish i) (leastFinish finish l) with same' | found
      · exact ⟨i, by simp, by omega⟩
      obtain ⟨j, inside, least⟩ := (ihl found).2
      exact ⟨j, by simp [inside], by omega⟩
    obtain ⟨j, inside, least⟩ := (ihr found).2
    exact ⟨j, by simp [inside], by omega⟩

structure Refreshed (t t' : EevdfTree N) : Prop where
  root : t'.root = t.root
  free : t'.free = t.free
  len : t'.len = t.len
  nodes : ∀ i, ∃ m, t'.nodes i = (t.nodes i).map fun n => { n with minFinish := m }

theorem Refreshed.refl (t : EevdfTree N) : Refreshed t t := by
  refine ⟨rfl, rfl, rfl, fun i => ?_⟩
  cases found : t.nodes i with
  | none => exact ⟨0, rfl⟩
  | some n => exact ⟨n.minFinish, rfl⟩

theorem Refreshed.trans {t'' : EevdfTree N} (first : Refreshed t t') (second : Refreshed t' t'') :
    Refreshed t t'' := by
  refine ⟨second.root.trans first.root, second.free.trans first.free, second.len.trans first.len, fun i => ?_⟩
  obtain ⟨m, hm⟩ := first.nodes i
  obtain ⟨m', hm'⟩ := second.nodes i
  refine ⟨m', ?_⟩
  rw [hm', hm, Option.map_map]
  rfl

theorem Refreshed.cell (h : Refreshed t t') : t'.cell = t.cell := by
  funext i
  obtain ⟨m, hm⟩ := h.nodes i
  rw [EevdfTree.cell, EevdfTree.cell, hm, Option.map_map]
  rfl

theorem Refreshed.entryOf (h : Refreshed t t') : t'.entryOf = t.entryOf := by
  funext i
  obtain ⟨m, hm⟩ := h.nodes i
  rw [EevdfTree.entryOf, EevdfTree.entryOf, hm]
  cases t.nodes i <;> rfl

theorem Refreshed.layout (h : Refreshed t t') (layout : t.Layout tree) : t'.Layout tree where
  root := h.root.trans layout.root
  linked := h.cell ▸ layout.linked
  slots := h.free ▸ layout.slots
  vacant := by
    intro i free
    rw [h.free] at free
    obtain ⟨m, hm⟩ := h.nodes i
    rw [hm, layout.vacant i free]
    rfl
  len := h.len.trans layout.len
  unranked := by
    intro i n found
    obtain ⟨m, hm⟩ := h.nodes i
    rw [hm] at found
    obtain ⟨n', old, rfl⟩ := map_eq_some_iff.mp found
    exact layout.unranked i n' old

theorem leastFinish_congr {f g : Fin N → Nat} (eq : ∀ i ∈ tree.items, f i = g i) :
    leastFinish f tree = leastFinish g tree := by
  induction tree with
  | leaf => rfl
  | node l i r ihl ihr =>
    simp only [items_node, mem_append, mem_cons] at eq
    rw [leastFinish, leastFinish, eq i (.inr (.inl rfl)), ihl fun j hj => eq j (.inl hj),
      ihr fun j hj => eq j (.inr (.inr hj))]

theorem Augmented.congr (h : t.Augmented tree) (eq : ∀ i ∈ tree.items, t'.record i = t.record i) :
    t'.Augmented tree := by
  induction tree with
  | leaf => trivial
  | node l i r ihl ihr =>
    obtain ⟨⟨n, found, least⟩, left, right⟩ := h
    refine ⟨?_, ihl left fun j hj => eq j (by simp [hj]), ihr right fun j hj =>
      eq j (by simp [hj])⟩
    have mine := eq i (by simp)
    rw [record, record, found, map_some, map_eq_some_iff] at mine
    obtain ⟨n', found', equal⟩ := mine
    refine ⟨n', found', ?_⟩
    have equal : n'.minFinish = n.minFinish := congrArg (fun e => e.2.2) equal
    rw [equal, least]
    refine leastFinish_congr fun j hj => ?_
    rw [entryOf_of_record (eq j hj)]

theorem augmentedBeside_cons {frame : Frame (Fin N)} : t.AugmentedBeside (frame :: above) ↔
    t.Augmented frame.sibling ∧ t.AugmentedBeside above := by
  cases frame <;> exact Iff.rfl

theorem AugmentedBeside.congr (h : t.AugmentedBeside above)
    (eq : ∀ i ∈ siblings above, t'.record i = t.record i) : t'.AugmentedBeside above := by
  induction above with
  | nil => trivial
  | cons frame above ih =>
    obtain ⟨here, rest⟩ := augmentedBeside_cons.mp h
    refine augmentedBeside_cons.mpr ⟨here.congr fun j hj => eq j ?_, ih rest fun j hj => eq j ?_⟩
    all_goals cases frame <;> simp_all [siblings, Frame.sibling]

/-- A whole tree that is augmented is so beside any path. -/
theorem augmented_plug (h : t.Augmented (plug above tree)) : t.AugmentedBeside above ∧ t.Augmented tree := by
  induction above generalizing tree with
  | nil => exact ⟨trivial, h⟩
  | cons frame above ih =>
    cases frame with
    | left i r =>
      obtain ⟨beside, -, left, right⟩ := ih h
      exact ⟨⟨right, beside⟩, left⟩
    | right l i =>
      obtain ⟨beside, -, left, right⟩ := ih h
      exact ⟨⟨left, beside⟩, right⟩

theorem minFinishOf_run (h : t.Augmented tree) :
    minFinishOf tree.rootLink t = (.ok (leastFinish (fun j => (t.entryOf j).2) tree), t) := by
  cases tree with
  | leaf => rfl
  | node l i r =>
    obtain ⟨⟨n, found, least⟩, -, -⟩ := h
    rw [rootLink, minFinishOf, Exec.bind_of_ok (nodeRef_of_node found), ← least]
    rfl

theorem refreshNode_run (found : t.nodes i = some n) (left : n.left = l.rootLink)
    (right : n.right = r.rootLink) (fresh_left : t.Augmented l) (fresh_right : t.Augmented r) :
    ∃ m, leastFinish (fun j => (t.entryOf j).2) (node l i r) = some m ∧
      refreshNode i t = (.ok (), t.setNode i (some { n with minFinish := m })) := by
  refine ⟨lower (lower n.finish (leastFinish (fun j => (t.entryOf j).2) l))
    (leastFinish (fun j => (t.entryOf j).2) r), ?_, ?_⟩
  · rw [leastFinish, entryOf_of_node found]
  have readLeft : minFinishOf n.left t = (.ok (leastFinish (fun j => (t.entryOf j).2) l), t) := by
    rw [left, minFinishOf_run fresh_left]
  have readRight : minFinishOf n.right t = (.ok (leastFinish (fun j => (t.entryOf j).2) r), t) := by
    rw [right, minFinishOf_run fresh_right]
  rw [refreshNode, Exec.bind_of_ok (nodeRef_of_node found), Exec.bind_of_ok readLeft,
    Exec.bind_of_ok readRight, nodeMutRef_of_node found]
  cases leastFinish (fun j => (t.entryOf j).2) l <;> cases leastFinish (fun j => (t.entryOf j).2) r <;> rfl

theorem setNode_refreshed (found : t.nodes i = some n) :
    Refreshed t (t.setNode i (some { n with minFinish := m })) := by
  refine ⟨rfl, rfl, rfl, fun j => ?_⟩
  by_cases eq : j = i
  · subst eq
    exact ⟨m, by rw [setNode_self, found]; rfl⟩
  rw [setNode_other _ eq]
  exact (Refreshed.refl t).nodes j

/-- One turn of the refresh: the slot's own subtree is augmented, and the loop goes on with its
parent. -/
theorem refreshAncestors_step (fuel : Nat) (linked : Linked t.cell none (plug above (node l i r)))
    (nodup : (plug above (node l i r)).items.Nodup) (left : t.Augmented l)
    (right : t.Augmented r) (beside : t.AugmentedBeside above) :
    ∃ u, refreshAncestors (fuel + 1) (some i) t = refreshAncestors fuel (parentLink above) u ∧
      Refreshed t u ∧ u.Augmented (node l i r) ∧ u.AugmentedBeside above := by
  obtain ⟨out, outside_left, outside_right⟩ := focus_distinct nodup
  obtain ⟨-, here, -, -⟩ := linked_plug.mp linked
  obtain ⟨n, found, parent, hl, hr⟩ := cell_eq_some.mp here
  obtain ⟨m, least, run⟩ := refreshNode_run found hl hr left right
  obtain ⟨u, hu⟩ : ∃ u, u = t.setNode i (some { n with minFinish := m }) := ⟨_, rfl⟩
  have step : Refreshed t u := hu ▸ setNode_refreshed found
  have others : ∀ j, j ≠ i → u.record j = t.record j := by
    intro j ne
    exact record_of_nodes (by rw [hu, setNode_other _ ne])
  have mine : u.nodes i = some { n with minFinish := m } := by rw [hu, setNode_self]
  refine ⟨u, ?_, step, ⟨⟨_, mine, ?_⟩, ?_, ?_⟩, ?_⟩
  · rw [refreshAncestors, Exec.bind_of_ok run, ← hu, Exec.bind_of_ok (nodeRef_of_node mine)]
    exact congrArg (fun p => refreshAncestors fuel p u) parent
  · rw [step.entryOf]
    exact least.symm
  · exact left.congr fun j hj => others j (ne_of_mem_of_not_mem hj outside_left)
  · exact right.congr fun j hj => others j (ne_of_mem_of_not_mem hj outside_right)
  exact beside.congr fun j hj =>
    others j (ne_of_mem_of_not_mem (mem_append_right _ hj) out)

/-- Refreshing from a slot to the root leaves the whole tree augmented, if it was so beside
the path. -/
theorem refreshAncestors_run
    (lt : above.length < fuel) (linked : Linked t.cell none (plug above (node l i r)))
    (nodup : (plug above (node l i r)).items.Nodup) (left : t.Augmented l)
    (right : t.Augmented r) (beside : t.AugmentedBeside above) :
    ∃ t', refreshAncestors fuel (some i) t = (.ok (), t') ∧ Refreshed t t' ∧
      t'.Augmented (plug above (node l i r)) := by
  induction above generalizing l r i t fuel with
  | nil =>
    obtain _ | fuel := fuel
    · omega
    obtain ⟨u, goes, step, whole, -⟩ := refreshAncestors_step fuel linked nodup left right beside
    refine ⟨u, goes.trans ?_, step, whole⟩
    rw [parentLink]
    cases fuel <;> rfl
  | cons frame above ih =>
    obtain _ | fuel := fuel
    · omega
    obtain ⟨u, goes, step, whole, beside'⟩ := refreshAncestors_step fuel linked nodup left right beside
    have linked' := step.cell.symm ▸ linked
    have enough' : above.length < fuel := Nat.lt_of_succ_lt_succ lt
    cases frame with
    | left j r' =>
      obtain ⟨t', rest, later, done⟩ := ih enough' linked' nodup whole beside'.1 beside'.2
      exact ⟨t', goes.trans rest, step.trans later, done⟩
    | right l' j =>
      obtain ⟨t', rest, later, done⟩ := ih enough' linked' nodup beside'.1 whole beside'.2
      exact ⟨t', goes.trans rest, step.trans later, done⟩

/-- With every rank zero no parent outranks its child by two: the loop climbs to the root. -/
theorem rebalanceAfterInsert_run (lt : above.length < fuel)
    (linked : Linked t.cell none (plug above (node l i r)))
    (unranked : ∀ j n, t.nodes j = some n → n.rank = 0) :
    rebalanceAfterInsert fuel i t = (.ok (), t) := by
  induction above generalizing l r i fuel with
  | nil =>
    obtain _ | fuel := fuel
    · omega
    obtain ⟨-, here, -, -⟩ := linked_plug.mp linked
    obtain ⟨n, found, parent, -, -⟩ := cell_eq_some.mp here
    rw [rebalanceAfterInsert, Exec.bind_of_ok (nodeRef_of_node found), parent]
    rfl
  | cons frame above ih =>
    obtain _ | fuel := fuel
    · omega
    have enough' : above.length < fuel := Nat.lt_of_succ_lt_succ lt
    obtain ⟨up, here, -, -⟩ := linked_plug.mp linked
    obtain ⟨n, found, parent, -, -⟩ := cell_eq_some.mp here
    obtain ⟨p, hp, -⟩ := cell_eq_some.mp (linkedAbove_cons.mp up).1
    have rest : rebalanceAfterInsert fuel frame.item t = (.ok (), t) := by
      cases frame <;> exact ih enough' linked
    have flat : ¬p.rank > n.rank + 1 := by
      rw [unranked _ p hp, unranked _ n found]
      decide
    rw [rebalanceAfterInsert, Exec.bind_of_ok (nodeRef_of_node found), parent]
    dsimp only [parentLink]
    rw [Exec.bind_of_ok (nodeRef_of_node hp), if_neg flat]
    exact rest

theorem rankOf_run (unranked : ∀ j n, t.nodes j = some n → n.rank = 0)
    (live : ∀ j ∈ tree.rootLink, ∃ n, t.nodes j = some n) :
    rankOf tree.rootLink t = (.ok 0, t) := by
  cases tree with
  | leaf => rfl
  | node l j r =>
    obtain ⟨n, found⟩ := live j rfl
    rw [rootLink, rankOf, Exec.bind_of_ok (nodeRef_of_node found), unranked j n found]
    rfl

theorem rebalanceAfterErase_step (linked : Linked t.cell none (plug above (node l i r)))
    (unranked : ∀ j n, t.nodes j = some n → n.rank = 0) :
    rebalanceAfterErase (fuel + 1) i t = match parentLink above with
      | none => (.ok (), t)
      | some p => rebalanceAfterErase fuel p t := by
  have live : ∀ (s : BinTree (Fin N)) p, Linked t.cell p s → ∀ j ∈ s.rootLink, ∃ n, t.nodes j = some n := by
    intro s p hs j hj
    have found := hs.cell_isSome (rootLink_mem hj)
    rw [cell, isSome_map] at found
    exact isSome_iff_exists.mp found
  obtain ⟨-, here, hleft, hright⟩ := linked_plug.mp linked
  obtain ⟨n, found, parent, hl, hr⟩ := cell_eq_some.mp here
  rw [rebalanceAfterErase, Exec.bind_of_ok (nodeRef_of_node found), hl,
    Exec.bind_of_ok (rankOf_run unranked (live l _ hleft)), hr,
    Exec.bind_of_ok (rankOf_run unranked (live r _ hright)), if_neg (by decide), parent]
  cases parentLink above <;> rfl

theorem rebalanceAfterErase_run (lt : above.length < fuel)
    (linked : Linked t.cell none (plug above (node l i r)))
    (unranked : ∀ j n, t.nodes j = some n → n.rank = 0) :
    rebalanceAfterErase fuel i t = (.ok (), t) := by
  induction above generalizing l r i fuel with
  | nil =>
    obtain _ | fuel := fuel
    · omega
    · exact rebalanceAfterErase_step linked unranked
  | cons frame above ih =>
    obtain _ | fuel := fuel
    · omega
    rw [rebalanceAfterErase_step linked unranked]
    cases frame <;> exact ih (Nat.lt_of_succ_lt_succ lt) linked

end EevdfTree
end HuesOS.Sched
