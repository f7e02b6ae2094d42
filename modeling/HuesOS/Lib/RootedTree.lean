import Mathlib.Data.List.Perm.Basic
import Mathlib.Data.List.Nodup
import Mathlib.Logic.Relation

/-! Rooted trees given by a list of nodes and a list of parent to child edges, under the three
changes a namespace makes: a new leaf, a removed leaf, and a subtree moved to another parent. -/

namespace IsRootedTree
open List
variable {α : Type}

def Edge (edges : List (α × α)) (parent child : α) : Prop := (parent, child) ∈ edges

/-- `n` is `m` or a descendant of it. -/
def Reaches (edges : List (α × α)) : α → α → Prop := Relation.ReflTransGen (Edge edges)

end IsRootedTree

/-- Every edge joins two nodes, no node has two parents, the root has none, and every node is
reached from the root. -/
structure IsRootedTree {α : Type} (root : α) (nodes : List α) (edges : List (α × α)) : Prop where
  root_mem : root ∈ nodes
  ends : ∀ e ∈ edges, e.1 ∈ nodes ∧ e.2 ∈ nodes
  root_top : ∀ e ∈ edges, e.2 ≠ root
  single : (edges.map Prod.snd).Nodup
  reach : ∀ n ∈ nodes, IsRootedTree.Reaches edges root n

namespace IsRootedTree
open List
variable {α : Type} {root : α} {nodes nodes' : List α} {edges edges' : List (α × α)}
variable {n : α}

theorem Reaches.mono (sub : ∀ e ∈ edges, e ∈ edges') {m : α} (h : Reaches edges m n) :
    Reaches edges' m n := by
  induction h with
  | refl => exact Relation.ReflTransGen.refl
  | tail _ step ih => exact ih.tail (sub _ step)

section
variable (tree : IsRootedTree root nodes edges)
include tree

theorem congr (sameNodes : ∀ n, n ∈ nodes' ↔ n ∈ nodes)
    (sameEdges : edges'.Perm edges) : IsRootedTree root nodes' edges' where
  root_mem := (sameNodes root).mpr tree.root_mem
  ends := by
    intro e he
    have h := tree.ends e (sameEdges.mem_iff.mp he)
    exact ⟨(sameNodes _).mpr h.1, (sameNodes _).mpr h.2⟩
  root_top := fun e he => tree.root_top e (sameEdges.mem_iff.mp he)
  single := (sameEdges.map Prod.snd).nodup_iff.mpr tree.single
  reach := fun n hn =>
    (tree.reach n ((sameNodes n).mp hn)).mono fun _ he => sameEdges.mem_iff.mpr he

theorem parent_unique {p q : α} (hp : (p, n) ∈ edges)
    (hq : (q, n) ∈ edges) : p = q :=
  congrArg Prod.fst (inj_on_of_nodup_map tree.single hp hq rfl)

theorem mem_children (hn : n ∈ nodes) (other : n ≠ root) : n ∈ edges.map Prod.snd := by
  rcases Relation.ReflTransGen.cases_tail (tree.reach n hn) with eq | ⟨parent, -, last⟩
  · exact absurd eq other
  · exact mem_map.mpr ⟨(parent, n), last, rfl⟩

theorem count_eq_one [DecidableEq α]
    (hn : n ∈ nodes) (other : n ≠ root) : (edges.map Prod.snd).count n = 1 :=
  count_eq_one_of_mem tree.single (tree.mem_children hn other)

theorem add_leaf {parent : α} (hparent : parent ∈ nodes)
    (fresh : n ∉ nodes) : IsRootedTree root (n :: nodes) ((parent, n) :: edges) where
  root_mem := mem_cons_of_mem _ tree.root_mem
  ends := by
    intro e he
    rcases mem_cons.mp he with rfl | he
    · exact ⟨mem_cons_of_mem _ hparent, mem_cons_self⟩
    have h := tree.ends e he
    exact ⟨mem_cons_of_mem _ h.1, mem_cons_of_mem _ h.2⟩
  root_top := by
    intro e he
    rcases mem_cons.mp he with rfl | he
    · rintro rfl
      exact fresh tree.root_mem
    · exact tree.root_top e he
  single := by
    rw [map_cons, nodup_cons]
    refine ⟨fun hn => ?_, tree.single⟩
    obtain ⟨e, he, rfl⟩ := mem_map.mp hn
    exact fresh (tree.ends e he).2
  reach := by
    intro m hm
    have keep : ∀ e ∈ edges, e ∈ (parent, n) :: edges := fun e he => mem_cons_of_mem _ he
    rcases mem_cons.mp hm with rfl | hm
    · exact ((tree.reach parent hparent).mono keep).tail mem_cons_self
    · exact (tree.reach m hm).mono keep

end

section Erase
variable [DecidableEq α]
variable {parent n : α}

theorem mem_erase_of_ne {e : α × α}
    (he : e ∈ edges) (other : e.2 ≠ n) : e ∈ edges.erase (parent, n) :=
  (List.mem_erase_of_ne fun eq => other (congrArg Prod.snd eq)).mpr he

/-- Removing the edge into `n` removes every edge into it. -/
theorem ne_of_mem_erase (tree : IsRootedTree root nodes edges)
    (edge : (parent, n) ∈ edges) {e : α × α} (he : e ∈ edges.erase (parent, n)) : e.2 ≠ n := by
  intro same
  have nodup : edges.Nodup := List.Nodup.of_map _ tree.single
  have eq : e = (parent, n) := inj_on_of_nodup_map tree.single (mem_of_mem_erase he) edge same
  exact (List.Nodup.not_mem_erase nodup) (eq ▸ he)

theorem single_erase (tree : IsRootedTree root nodes edges) (e : α × α) :
    ((edges.erase e).map Prod.snd).Nodup :=
  tree.single.sublist (erase_sublist.map _)

/-- What `n` does not reach is reached from the root without the edge into `n`. -/
theorem reach_avoiding {m : α} (h : Reaches edges root m) (out : ¬Reaches edges n m) :
    Reaches (edges.erase (parent, n)) root m := by
  induction h with
  | refl => exact Relation.ReflTransGen.refl
  | @tail a b _ step ih =>
    have later : ¬Reaches edges n a := fun h => out (h.tail step)
    have other : b ≠ n := fun eq => out (eq ▸ Relation.ReflTransGen.refl)
    exact (ih later).tail (mem_erase_of_ne step other)

section
variable (tree : IsRootedTree root nodes edges)
include tree

theorem remove_leaf
    (edge : (parent, n) ∈ edges) (leaf : ∀ e ∈ edges, e.1 ≠ n)
    (rest : ∀ m, m ∈ nodes' ↔ m ∈ nodes ∧ m ≠ n) :
    IsRootedTree root nodes' (edges.erase (parent, n)) where
  root_mem := (rest root).mpr ⟨tree.root_mem, (tree.root_top _ edge).symm⟩
  ends := by
    intro e he
    have old := tree.ends e (mem_of_mem_erase he)
    exact ⟨(rest _).mpr ⟨old.1, leaf e (mem_of_mem_erase he)⟩,
      (rest _).mpr ⟨old.2, tree.ne_of_mem_erase edge he⟩⟩
  root_top := fun e he => tree.root_top e (mem_of_mem_erase he)
  single := tree.single_erase _
  reach := by
    intro m hm
    obtain ⟨old, other⟩ := (rest m).mp hm
    refine reach_avoiding (tree.reach m old) fun h => ?_
    rcases Relation.ReflTransGen.cases_head h with eq | ⟨child, step, -⟩
    · exact other eq.symm
    · exact leaf _ step rfl

/-- Moving a subtree below a node outside it keeps the tree. -/
theorem move {target : α}
    (edge : (parent, n) ∈ edges) (htarget : target ∈ nodes) (out : ¬Reaches edges n target) :
    IsRootedTree root nodes ((target, n) :: edges.erase (parent, n)) where
  root_mem := tree.root_mem
  ends := by
    intro e he
    rcases mem_cons.mp he with rfl | he
    · exact ⟨htarget, (tree.ends _ edge).2⟩
    · exact tree.ends e (mem_of_mem_erase he)
  root_top := by
    intro e he
    rcases mem_cons.mp he with rfl | he
    · exact tree.root_top (parent, n) edge
    · exact tree.root_top e (mem_of_mem_erase he)
  single := by
    rw [map_cons, nodup_cons]
    refine ⟨fun hn => ?_, tree.single_erase _⟩
    obtain ⟨e, he, eq⟩ := mem_map.mp hn
    exact tree.ne_of_mem_erase edge he eq
  reach := by
    have keep : ∀ e ∈ edges.erase (parent, n), e ∈ (target, n) :: edges.erase (parent, n) :=
      fun e he => mem_cons_of_mem _ he
    have moved : Reaches ((target, n) :: edges.erase (parent, n)) root n :=
      ((reach_avoiding (tree.reach target htarget) out).mono keep).tail mem_cons_self
    intro m hm
    -- A path that enters the moved subtree continues from `n`, all other edges are kept.
    induction tree.reach m hm with
    | refl => exact Relation.ReflTransGen.refl
    | @tail a b _ step ih =>
      by_cases eq : b = n
      · exact eq ▸ moved
      · exact (ih (tree.ends _ step).1).tail (keep _ (mem_erase_of_ne step eq))

/-- Moving a subtree into itself cuts it off from the root. -/
theorem move_into_itself {target : α}
    (edge : (parent, n) ∈ edges) (inside : Reaches edges n target) :
    ¬Reaches ((target, n) :: edges.erase (parent, n)) root n := by
  have root_outside : ¬Reaches edges n root := by
    intro h
    rcases Relation.ReflTransGen.cases_tail h with eq | ⟨p, -, last⟩
    · exact tree.root_top _ edge eq.symm
    · exact tree.root_top _ last rfl
  -- The subtree of `n` is closed under predecessors once `n` hangs below `target`.
  have closed : ∀ {a b : α}, Edge ((target, n) :: edges.erase (parent, n)) a b →
      Reaches edges n b → Reaches edges n a := by
    intro a b step below
    rcases mem_cons.mp step with eq | kept
    · cases eq
      exact inside
    rcases Relation.ReflTransGen.cases_tail below with eq | ⟨p, above, last⟩
    · exact absurd eq (tree.ne_of_mem_erase edge kept)
    have : p = a := tree.parent_unique last (mem_of_mem_erase kept)
    exact this ▸ above
  have back : ∀ {m : α}, Reaches ((target, n) :: edges.erase (parent, n)) root m →
      Reaches edges n m → Reaches edges n root := by
    intro m h
    induction h with
    | refl => exact id
    | tail _ step ih => exact fun below => ih (closed step below)
  exact fun h => root_outside (back h Relation.ReflTransGen.refl)

end
end Erase
end IsRootedTree
