import HuesOS.Hxfs.Calls
import HuesOS.Lib.RootedTree

namespace HuesOS.Hxfs
open List Exec Slots Writer

namespace Writer

def kinds (w : Writer) : List (Nat × Nat) :=
  (live w.objects).map fun o => (o.objectId, o.objectType)

def ids (w : Writer) : List Nat := w.kinds.map Prod.fst

def edges (w : Writer) : List (Nat × Nat) :=
  (live w.dirEntries).map fun e => (e.parentObjectId, e.objectId)

def Contains (w : Writer) (objectId target : Nat) : Prop :=
  IsRootedTree.Reaches w.edges objectId target

/-- The namespace is a tree rooted at the root directory, its inner nodes are directories, and
no id is in use twice or about to be handed out again. -/
structure NamespaceTree (w : Writer) : Prop where
  tree : IsRootedTree w.systemVolume.rootObjectId w.ids w.edges
  root_directory : (w.systemVolume.rootObjectId, objectTypeDirectory) ∈ w.kinds
  parents : ∀ e ∈ w.edges, (e.1, objectTypeDirectory) ∈ w.kinds
  nodup : w.ids.Nodup
  unused : ∀ id ∈ w.ids, id < w.nextObjectId ∨ u64Max ≤ w.nextObjectId

variable {w w' : Writer}

theorem ids_eq (w : Writer) : w.ids = (live w.objects).map (·.objectId) := by
  rw [ids, kinds, map_map]
  rfl

variable {objectId parent : Nat} {name : List UInt8} {entry : FixedDirEntry}

theorem mem_kinds_of_object {o : ObjectDescriptor}
    (h : w.object objectId = .ok o) : (objectId, o.objectType) ∈ w.kinds := by
  obtain ⟨mem, rfl⟩ := mem_of_object_ok h
  exact mem_map.mpr ⟨o, mem, rfl⟩

theorem mem_edges_of_dirEntry
    (h : w.dirEntry parent name = .ok entry) : (parent, entry.objectId) ∈ w.edges := by
  obtain ⟨mem, rfl, -⟩ := dirEntry_spec h
  exact mem_map.mpr ⟨entry, mem, rfl⟩

theorem live_recounted_kinds (objectId count : Nat) (objects : Slots ObjectDescriptor) :
    (live (recounted objectId count objects)).map (fun o => (o.objectId, o.objectType)) =
      (live objects).map fun o => (o.objectId, o.objectType) := by
  apply map_live_modifyFirst
  intro d _
  rfl

@[simp] theorem entered_kinds (parent : Nat) (entries : Slots FixedDirEntry) (w : Writer) :
    (entered parent entries w).kinds = w.kinds :=
  live_recounted_kinds parent _ w.objects

theorem edges_sortDirectory {table entries : Slots FixedDirEntry}
    (placed : put ⟨parent, objectId, name⟩ table = some entries)
    (sorted : w.dirEntries = sortDirectory parent entries) :
    w.edges.Perm ((parent, objectId) :: (live table).map fun e => (e.parentObjectId, e.objectId)) := by
  rw [edges, sorted]
  exact ((live_perm (ExchangeSort.sort_perm _)).trans (live_put placed)).map _

theorem dropDirEntry_edges (found : w.dirEntry parent name = .ok entry) :
    (dropDirEntry parent name w).edges.Perm (w.edges.erase (parent, entry.objectId)) := by
  obtain ⟨-, rfl, -⟩ := dirEntry_spec found
  have split := (live_perm_dropFirst _ (dirEntry_eq_ok.mp found).2).map
    fun e => (e.parentObjectId, e.objectId)
  have erased := split.erase (entry.parentObjectId, entry.objectId)
  rw [map_cons, erase_cons_head] at erased
  exact erased.symm

theorem mem_ids_removeObject {m : Nat} {o : ObjectDescriptor} (nodup : w.ids.Nodup)
    (found : w.object objectId = .ok o) :
    m ∈ (removeObject objectId w).ids ↔ m ∈ w.ids ∧ m ≠ objectId := by
  have split := (live_perm_dropFirst _ (object_eq_ok.mp found)).map (·.objectId)
  rw [map_cons, (mem_of_object_ok found).2, ← ids_eq] at split
  have rest : (removeObject objectId w).ids =
      (live (dropFirst (·.objectId == objectId) w.objects)).map (·.objectId) :=
    ids_eq _
  rw [← rest] at split
  have nodup := split.nodup_iff.mp nodup
  rw [split.mem_iff, mem_cons]
  constructor
  · intro mem
    exact ⟨.inr mem, fun eq => (nodup_cons.mp nodup).1 (eq ▸ mem)⟩
  rintro ⟨rfl | mem, other⟩
  · exact absurd rfl other
  · exact mem

theorem removeObject_kinds_sublist (objectId : Nat) (w : Writer) :
    (removeObject objectId w).kinds.Sublist w.kinds := by
  rw [kinds, kinds, removeObject, live_dropFirst]
  exact (eraseP_sublist).map _

theorem mem_kinds_removeObject {id kind : Nat} (other : id ≠ objectId)
    (mem : (id, kind) ∈ w.kinds) : (id, kind) ∈ (removeObject objectId w).kinds := by
  obtain ⟨o, ho, eq⟩ := mem_map.mp mem
  cases eq
  refine mem_map.mpr ⟨o, ?_, rfl⟩
  rw [removeObject, live_dropFirst]
  exact (mem_eraseP_of_neg (by simpa using other)).mpr ho

theorem unlinked_tables (parent : Nat) (name : List UInt8) (objectId : Nat) (w : Writer) :
    (unlinked parent name objectId w).objects = (removeObject objectId w).objects ∧
      (unlinked parent name objectId w).dirEntries = (dropDirEntry parent name w).dirEntries ∧
      (unlinked parent name objectId w).systemVolume = w.systemVolume ∧
      (unlinked parent name objectId w).nextObjectId = w.nextObjectId := by
  obtain ⟨pageCache, pendingFree, quotaTree, h⟩ :=
    releaseExtents_frame objectId (removeObject objectId (dropDirEntry parent name w))
  rw [unlinked, h]
  exact ⟨rfl, rfl, rfl, rfl⟩

section Changes
variable {parent id kind : Nat}

theorem NamespaceTree.add_leaf (pre : NamespaceTree w)
    (hparent : (parent, objectTypeDirectory) ∈ w.kinds) (fresh : id ∉ w.ids)
    (root : w'.systemVolume.rootObjectId = w.systemVolume.rootObjectId)
    (nodes : w'.kinds.Perm ((id, kind) :: w.kinds))
    (links : w'.edges.Perm ((parent, id) :: w.edges))
    (unused : ∀ n ∈ id :: w.ids, n < w'.nextObjectId ∨ u64Max ≤ w'.nextObjectId) :
    NamespaceTree w' := by
  have ids_perm : w'.ids.Perm (id :: w.ids) := nodes.map Prod.fst
  have keep : ∀ pair ∈ w.kinds, pair ∈ w'.kinds := fun pair h =>
    nodes.mem_iff.mpr (.tail _ h)
  refine ⟨?_, root ▸ keep _ pre.root_directory, ?_, ?_, ?_⟩
  · rw [root]
    exact (pre.tree.add_leaf (mem_map_of_mem hparent) fresh).congr (fun n => ids_perm.mem_iff) links
  · intro e he
    rcases mem_cons.mp (links.mem_iff.mp he) with rfl | old
    · exact keep _ hparent
    · exact keep _ (pre.parents e old)
  · exact ids_perm.nodup_iff.mpr (nodup_cons.mpr ⟨fresh, pre.nodup⟩)
  intro n hn
  exact unused n (ids_perm.mem_iff.mp hn)

theorem NamespaceTree.move (pre : NamespaceTree w) {target : Nat} (edge : (parent, id) ∈ w.edges)
    (htarget : (target, objectTypeDirectory) ∈ w.kinds) (out : ¬w.Contains id target)
    (root : w'.systemVolume.rootObjectId = w.systemVolume.rootObjectId) (nodes : w'.kinds = w.kinds)
    (links : w'.edges.Perm ((target, id) :: w.edges.erase (parent, id)))
    (next : w'.nextObjectId = w.nextObjectId) : NamespaceTree w' := by
  have same_ids : w'.ids = w.ids := by rw [ids, ids, nodes]
  refine ⟨?_, ?_, ?_, same_ids ▸ pre.nodup, ?_⟩
  · rw [root, same_ids]
    exact (pre.tree.move edge (mem_map_of_mem htarget) out).congr (fun n => Iff.rfl) links
  · rw [root, nodes]
    exact pre.root_directory
  · intro e he
    rw [nodes]
    rcases mem_cons.mp (links.mem_iff.mp he) with rfl | old
    · exact htarget
    · exact pre.parents e (mem_of_mem_erase old)
  rw [same_ids, next]
  exact pre.unused

theorem NamespaceTree.remove_leaf (pre : NamespaceTree w) (edge : (parent, id) ∈ w.edges)
    (leaf : ∀ e ∈ w.edges, e.1 ≠ id)
    (root : w'.systemVolume.rootObjectId = w.systemVolume.rootObjectId)
    (nodes : ∀ n, n ∈ w'.ids ↔ n ∈ w.ids ∧ n ≠ id)
    (others : ∀ n kind, n ≠ id → (n, kind) ∈ w.kinds → (n, kind) ∈ w'.kinds)
    (nodup : w'.ids.Nodup) (links : w'.edges.Perm (w.edges.erase (parent, id)))
    (next : w'.nextObjectId = w.nextObjectId) : NamespaceTree w' := by
  refine ⟨?_, ?_, ?_, nodup, ?_⟩
  · rw [root]
    exact (pre.tree.remove_leaf edge leaf nodes).congr (fun n => Iff.rfl) links
  · rw [root]
    exact others _ _ (pre.tree.root_top _ edge).symm pre.root_directory
  · intro e he
    have old : e ∈ w.edges := mem_of_mem_erase (links.mem_iff.mp he)
    exact others _ _ (leaf e old) (pre.parents e old)
  intro n hn
  rw [next]
  exact pre.unused n ((nodes n).mp hn).1

end Changes

theorem createChild_tree {objectType : Nat} (pre : NamespaceTree w)
    (done : createChild objectType parent name w = (.ok objectId, w')) : NamespaceTree w' := by
  cases outcome_of (createChild_outcome objectType parent name w) done with
  | @created objects entries tests placed valid entry =>
    obtain ⟨owner, howner, isDirectory⟩ := ensureDirectory_eq_ok.mp tests.directory
    have bound := tests.ids
    refine @NamespaceTree.add_leaf _ _ parent w.nextObjectId objectType pre
      (isDirectory ▸ mem_kinds_of_object howner) ?_ rfl ?_ (edges_sortDirectory entry rfl) ?_
    · intro mem
      have := pre.unused _ mem
      omega
    · have eq := entered_kinds parent entries (withObjects objects (withNextId w))
      exact (List.Perm.of_eq eq).trans ((live_put placed).map _)
    intro n hn
    left
    show n < w.nextObjectId + 1
    rcases mem_cons.mp hn with rfl | old
    · omega
    have := pre.unused n old
    omega

theorem renameChild_tree {oldParent newParent : Nat} {oldName newName : List UInt8}
    (pre : NamespaceTree w)
    (out : ∀ entry, w.dirEntry oldParent oldName = .ok entry → ¬w.Contains entry.objectId newParent)
    (done : renameChild oldParent oldName newParent newName w = (.ok (), w')) :
    NamespaceTree w' := by
  cases outcome_of (renameChild_outcome oldParent oldName newParent newName w) done with
  | @renamed entry entries tests valid placed =>
    obtain ⟨owner, howner, isDirectory⟩ := ensureDirectory_eq_ok.mp tests.target
    exact pre.move (mem_edges_of_dirEntry tests.found)
      (isDirectory ▸ mem_kinds_of_object howner) (out entry tests.found) rfl
      (entered_kinds newParent entries (dropDirEntry oldParent oldName w))
      ((edges_sortDirectory placed rfl).trans ((dropDirEntry_edges tests.found).cons _)) rfl

theorem unlinkChild_tree (pre : NamespaceTree w)
    (done : unlinkChild parent name w = (.ok (), w')) : NamespaceTree w' := by
  cases outcome_of (unlinkChild_outcome parent name w) done with
  | @removed entry o tests =>
    obtain ⟨objects, entries, volume, next⟩ := unlinked_tables parent name entry.objectId w
    have same_kinds : (unlinked parent name entry.objectId w).kinds =
        (removeObject entry.objectId w).kinds := by rw [kinds, kinds, objects]
    have same_ids : (unlinked parent name entry.objectId w).ids =
        (removeObject entry.objectId w).ids := by rw [ids, ids, same_kinds]
    have leaf : ∀ e ∈ w.edges, e.1 ≠ entry.objectId := by
      rintro e he eq
      have isDirectory : (entry.objectId, objectTypeDirectory) ∈ w.kinds := eq ▸ pre.parents e he
      have kind : o.objectType = objectTypeDirectory :=
        congrArg Prod.snd (inj_on_of_nodup_map pre.nodup (mem_kinds_of_object tests.target) isDirectory rfl)
      obtain ⟨child, hchild, rfl⟩ := mem_map.mp he
      have empty := tests.childless kind
      rw [directoryHasChildren, directoryEntryCount, bne_eq_false_iff_eq] at empty
      have positive : 0 < (live w.dirEntries).countP
          (·.parentObjectId == entry.objectId) :=
        countP_pos_iff.mpr ⟨child, hchild, by simpa using eq⟩
      rw [u32Max] at empty
      omega
    refine pre.remove_leaf (mem_edges_of_dirEntry tests.found) leaf (by rw [volume])
      (fun n => ?_) (fun n kind other mem => ?_) ?_ ?_ next
    · rw [same_ids]
      exact mem_ids_removeObject pre.nodup tests.target
    · rw [same_kinds]
      exact mem_kinds_removeObject other mem
    · rw [same_ids]
      exact pre.nodup.sublist ((removeObject_kinds_sublist _ _).map _)
    rw [edges, entries]
    exact dropDirEntry_edges tests.found

/-- A directory moved into its own subtree is no longer below the root. -/
theorem renameChild_into_itself {oldParent newParent : Nat} {oldName newName : List UInt8} (pre : NamespaceTree w)
    (found : w.dirEntry oldParent oldName = .ok entry)
    (inside : w.Contains entry.objectId newParent)
    (done : renameChild oldParent oldName newParent newName w = (.ok (), w')) :
    ¬w'.Contains w'.systemVolume.rootObjectId entry.objectId := by
  cases outcome_of (renameChild_outcome oldParent oldName newParent newName w) done with
  | @renamed moved entries tests valid placed =>
    cases found.symm.trans tests.found
    have links := (edges_sortDirectory (w := touched (entered newParent entries
      (dropDirEntry oldParent oldName w))) placed rfl).trans ((dropDirEntry_edges found).cons _)
    intro reached
    exact pre.tree.move_into_itself (mem_edges_of_dirEntry found) inside
      (reached.mono fun e he => links.mem_iff.mp he)

end Writer

namespace Call

def isNamespace : Call → Bool
  | mkdirChild .. | createFileChild .. | mkdirPath .. | createFilePath .. | renameChild ..
  | renamePath .. | unlinkChild .. | unlinkPath .. => true
  | _ => false

/-- A renaming does not move an object into itself or below itself. -/
def StaysOutside : Call → Writer → Prop
  | renameChild oldParent oldName newParent _, w => ∀ entry,
      w.dirEntry oldParent oldName = .ok entry → ¬w.Contains entry.objectId newParent
  | renamePath source target, w => ∀ oldParent oldName newParent newName entry,
      w.parentAndName source = .ok (oldParent, oldName) →
      w.parentAndName target = .ok (newParent, newName) →
      w.dirEntry oldParent oldName = .ok entry → ¬w.Contains entry.objectId newParent
  | _, _ => True

end Call

open Writer in
theorem Call.namespace_step {E : Engines} {c : Call} {w w' : Writer} (pre : NamespaceTree w)
    (permitted : c.isNamespace = true ∧ c.StaysOutside w) (done : c.Succeeds E w w') :
    NamespaceTree w' := by
  obtain ⟨kind, out⟩ := permitted
  cases c with
  | mkdirChild parent name | createFileChild parent name =>
    obtain ⟨objectId, done⟩ := HxM.void_eq_ok.mp done
    exact createChild_tree pre done
  | mkdirPath path =>
    obtain ⟨objectId, done⟩ := HxM.void_eq_ok.mp done
    rcases mkdirPath_cases path w with ⟨e, h⟩ | ⟨parent, name, -, h⟩
    · cases h.symm.trans done
    · exact createChild_tree pre (h.symm.trans done)
  | createFilePath path =>
    obtain ⟨objectId, done⟩ := HxM.void_eq_ok.mp done
    rcases createFilePath_cases path w with ⟨e, h⟩ | ⟨parent, name, -, h⟩
    · cases h.symm.trans done
    · exact createChild_tree pre (h.symm.trans done)
  | renameChild oldParent oldName newParent newName => exact renameChild_tree pre out done
  | renamePath source target =>
    rcases renamePath_cases source target w with
      ⟨e, h⟩ | ⟨oldParent, oldName, newParent, newName, hsource, htarget, h⟩
    · cases h.symm.trans done
    exact renameChild_tree pre (fun entry => out _ _ _ _ entry hsource htarget) (h.symm.trans done)
  | unlinkChild parent name => exact unlinkChild_tree pre done
  | unlinkPath path =>
    rcases unlinkPath_cases path w with ⟨e, h⟩ | ⟨parent, name, -, h⟩
    · cases h.symm.trans done
    · exact unlinkChild_tree pre (h.symm.trans done)
  | _ => cases kind

/-- The namespace stays a tree along every run of creations, removals and renamings that never
move a directory into its own subtree. -/
theorem namespace_stays_tree (E : Engines) {w w' : Writer} (start : w.NamespaceTree)
    (run : Runs (Call.Succeeds E) (fun c u => c.isNamespace = true ∧ c.StaysOutside u) w w') :
    w'.NamespaceTree ∧ ∀ o ∈ live w'.objects, o.objectId ≠ w'.systemVolume.rootObjectId →
      (live w'.dirEntries).countP (·.objectId == o.objectId) = 1 ∧
        w'.Contains w'.systemVolume.rootObjectId o.objectId := by
  have final : w'.NamespaceTree := run.invariant start Call.namespace_step
  refine ⟨final, fun o mem other => ⟨?_, ?_⟩⟩
  · have node : o.objectId ∈ w'.ids := by
      rw [Writer.ids_eq]
      exact mem_map_of_mem mem
    have once := final.tree.count_eq_one node other
    rw [Writer.edges, map_map, List.count, countP_map] at once
    exact once
  apply final.tree.reach
  rw [Writer.ids_eq]
  exact mem_map_of_mem mem

theorem blank_namespaceTree (caps : Capacities) (size : Nat) : (blank caps size).NamespaceTree := by
  have nodes : (blank caps size).kinds = [(1, objectTypeDirectory)] := by
    simp [Writer.kinds, blank, rootDirectory, freshDescriptor]
  have names : (blank caps size).ids = [1] := by rw [Writer.ids, nodes]; rfl
  have links : (blank caps size).edges = [] := by
    simp [Writer.edges, blank]
  refine ⟨?_, by rw [nodes]; exact mem_singleton.mpr rfl, by simp [links], by simp [names], ?_⟩
  · rw [names, links]
    refine ⟨mem_singleton.mpr rfl, by simp, by simp, by simp, fun n hn => ?_⟩
    rw [mem_singleton.mp hn]
    exact Relation.ReflTransGen.refl
  intro id hid
  rw [names, mem_singleton] at hid
  rw [hid]
  exact .inl Nat.one_lt_two

/-- The blank volume after `mkdir /d` and `mkdir /e`. -/
def twoDirectories : Writer :=
  (Writer.mkdirChild 1 [0x65] (Writer.mkdirChild 1 [0x64] (blank ⟨8, 8, 8⟩ 64)).2).2

theorem twoDirectories_edges : twoDirectories.edges = [(1, 2), (1, 3)] := by decide +kernel

theorem twoDirectories_namespaceTree : twoDirectories.NamespaceTree := by
  have first : (Writer.mkdirChild 1 [0x64] (blank ⟨8, 8, 8⟩ 64)).2.NamespaceTree :=
    @Writer.createChild_tree _ _ 2 _ _ _ (blank_namespaceTree _ _) (Prod.ext rfl rfl)
  exact @Writer.createChild_tree _ _ 3 _ _ _ first (Prod.ext rfl rfl)

/-- Moving `/d` to `/e/d` is such a run. -/
theorem namespace_stays_tree_move :
    (Writer.renameChild 1 [0x64] 3 [0x64] twoDirectories).1 = .ok () ∧
      (Writer.renameChild 1 [0x64] 3 [0x64] twoDirectories).2.NamespaceTree := by
  refine ⟨rfl, (namespace_stays_tree clearEngines twoDirectories_namespaceTree
    (Runs.one (k := .renameChild 1 [0x64] 3 [0x64]) ⟨rfl, ?_⟩ (Prod.ext rfl rfl))).1⟩
  intro entry found reached
  have moved : entry.objectId = 2 := by
    cases found
    rfl
  rw [Writer.Contains, moved, twoDirectories_edges] at reached
  rcases Relation.ReflTransGen.cases_head reached with eq | ⟨child, step, -⟩
  · exact absurd eq (by decide)
  · simp [IsRootedTree.Edge] at step

/-- Moving `/d` to `/d/x` succeeds and leaves the directory outside the tree. -/
theorem rename_into_itself_leaves_tree :
    twoDirectories.NamespaceTree ∧
      (Writer.renameChild 1 [0x64] 2 [0x78] twoDirectories).1 = .ok () ∧
      2 ∈ (Writer.renameChild 1 [0x64] 2 [0x78] twoDirectories).2.ids ∧
      ¬(Writer.renameChild 1 [0x64] 2 [0x78] twoDirectories).2.Contains 1 2 := by
  refine ⟨twoDirectories_namespaceTree, rfl, by decide +kernel, ?_⟩
  exact @Writer.renameChild_into_itself _ _ ⟨1, 2, [0x64]⟩ 1 2 [0x64] [0x78]
    twoDirectories_namespaceTree rfl Relation.ReflTransGen.refl (Prod.ext rfl rfl)

end HuesOS.Hxfs
