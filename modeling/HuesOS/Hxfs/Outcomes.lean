import HuesOS.Hxfs.Operations

/-! What each mutating call can do. -/

namespace HuesOS.Hxfs
open List Exec Slots HxM

namespace Writer
variable {w w' : Writer}
variable {objectId parent : Nat} {o : ObjectDescriptor} {name : List UInt8}

theorem object_eq_ok :
    w.object objectId = .ok o ↔ (live w.objects).find? (·.objectId == objectId) = some o := by
  unfold object
  cases (live w.objects).find? (·.objectId == objectId) <;> simp

theorem mem_of_object_ok (h : w.object objectId = .ok o) : o ∈ live w.objects ∧ o.objectId = objectId := by
  have found := object_eq_ok.mp h
  exact ⟨mem_of_find?_eq_some found, by simpa using find?_some found⟩

theorem object_ok_or_notFound (w : Writer) (objectId : Nat) :
    (∃ o, w.object objectId = .ok o) ∨ w.object objectId = .error .notFound := by
  unfold object
  split
  · exact .inl ⟨_, rfl⟩
  · exact .inr rfl

theorem object_isOk_of_mem (h : o ∈ live w.objects) : ∃ found, w.object o.objectId = .ok found := by
  rcases w.object_ok_or_notFound o.objectId with found | missing
  · exact found
  unfold object at missing
  split at missing
  · cases missing
  next none_found =>
  have := find?_eq_none.mp none_found o h
  simp at this

theorem ensureDirectory_eq_ok :
    w.ensureDirectory objectId = .ok () ↔
      ∃ o, w.object objectId = .ok o ∧ o.objectType = objectTypeDirectory := by
  unfold ensureDirectory
  cases w.object objectId with
  | error e => simp [bind, Except.bind]
  | ok o =>
    by_cases h : o.objectType = objectTypeDirectory <;>
      simp [bind, Except.bind, h, pure, Except.pure, throw, throwThe, MonadExceptOf.throw]

theorem dirEntry_eq_ok {entry : FixedDirEntry} :
    w.dirEntry parent name = .ok entry ↔
      validName name = true ∧ (live w.dirEntries).find? (isEntry parent name) = some entry := by
  unfold dirEntry
  cases hv : validName name with
  | false => simp
  | true =>
    simp only [Bool.not_true, Bool.false_eq_true, if_false, true_and]
    cases (live w.dirEntries).find? (isEntry parent name) <;> simp

theorem dirEntry_spec {entry : FixedDirEntry} (h : w.dirEntry parent name = .ok entry) :
    entry ∈ live w.dirEntries ∧ entry.parentObjectId = parent ∧ entry.name = name := by
  have found := (dirEntry_eq_ok.mp h).2
  have matched := find?_some found
  simp only [isEntry, Bool.and_eq_true, beq_iff_eq] at matched
  exact ⟨mem_of_find?_eq_some found, matched.1, matched.2⟩

theorem no_entry_of_lookup (directory : w.ensureDirectory parent = .ok ())
    (valid : validName name = true) (missing : (w.lookupChild parent name).isOk = false) :
    (live w.dirEntries).any (isEntry parent name) = false := by
  unfold lookupChild at missing
  rw [directory] at missing
  rw [any_eq_false]
  intro entry mem matched
  obtain ⟨found, hfound⟩ : ∃ found, w.dirEntry parent name = .ok found := by
    cases hf : (live w.dirEntries).find? (isEntry parent name) with
    | some found => exact ⟨found, dirEntry_eq_ok.mpr ⟨valid, hf⟩⟩
    | none => exact absurd matched (by simpa using find?_eq_none.mp hf entry mem)
  simp [bind, Except.bind, hfound, pure, Except.pure, Except.isOk, Except.toBool] at missing

theorem ensureMutableV6_bind_ok {α : Type} {g : Unit → HxM α} (h : w.legacyReadOnly = false) :
    (ensureMutableV6 >>= g) w = g () w := by
  rw [bind_run, ensureMutableV6, h]
  rfl

theorem ensureMutableV6_bind_error {α : Type} {g : Unit → HxM α} (h : w.legacyReadOnly = true) :
    (ensureMutableV6 >>= g) w = (.error (.error .legacyReadOnly), w) := by
  rw [bind_run, ensureMutableV6, h]
  rfl

theorem after_ensureMutableV6 {α : Type} {P : Except Stop α → Writer → Prop} {g : Unit → HxM α}
    (refused : ∀ e, w.legacyReadOnly = true → P (.error (.error e)) w)
    (next : w.legacyReadOnly = false → P (g () w).1 (g () w).2) :
    P ((ensureMutableV6 >>= g) w).1 ((ensureMutableV6 >>= g) w).2 := by
  cases writable : w.legacyReadOnly with
  | true =>
    rw [ensureMutableV6_bind_error writable]
    exact refused _ writable
  | false =>
    rw [ensureMutableV6_bind_ok writable]
    exact next writable

theorem updateObject_run {f : ObjectDescriptor → ObjectDescriptor} (h : w.object objectId = .ok o) :
    updateObject objectId f w = (.ok (),
      { w with objects := modifyFirst (·.objectId == objectId) f w.objects }) := by
  rw [updateObject, h]

def recounted (objectId count : Nat) (objects : Slots ObjectDescriptor) : Slots ObjectDescriptor :=
  modifyFirst (·.objectId == objectId) (fun d => { d with recordCount := count }) objects

def touched (w : Writer) : Writer := { w with dirty := true }

def withNextId (w : Writer) : Writer := { w with nextObjectId := w.nextObjectId + 1 }

def withObjects (objects : Slots ObjectDescriptor) (w : Writer) : Writer := { w with objects }

def entered (parent : Nat) (entries : Slots FixedDirEntry) (w : Writer) : Writer :=
  let w := { w with dirEntries := sortDirectory parent entries }
  { w with objects := recounted parent (w.directoryEntryCount parent) w.objects }

theorem entered_frame (parent : Nat) (entries : Slots FixedDirEntry) (w : Writer) :
    ∃ objects dirEntries, entered parent entries w = { w with objects, dirEntries } :=
  ⟨_, _, rfl⟩

theorem updateFileRecordCount_run (h : w.object objectId = .ok o) :
    updateFileRecordCount objectId w = (.ok (),
      { w with objects := recounted objectId (w.extentCount objectId) w.objects }) :=
  updateObject_run h

theorem insertDirEntry_badName (invalid : validName name = false) :
    insertDirEntry parent objectId name w = (.error (.error .badName), w) := by
  rw [insertDirEntry, require_bind_false invalid]

theorem insertDirEntry_full (valid : validName name = true)
    (fresh : (live w.dirEntries).any (isEntry parent name) = false)
    (full : put ⟨parent, objectId, name⟩ w.dirEntries = none) :
    insertDirEntry parent objectId name w = (.error (.error .noSpace), w) := by
  rw [insertDirEntry, require_bind_true valid, gets_bind, require_bind_true (by simp [fresh]), full]
  rfl

theorem insertDirEntry_run {entries : Slots FixedDirEntry} (valid : validName name = true)
    (fresh : (live w.dirEntries).any (isEntry parent name) = false)
    (placed : put ⟨parent, objectId, name⟩ w.dirEntries = some entries)
    (owner : w.object parent = .ok o) :
    insertDirEntry parent objectId name w = (.ok (), entered parent entries w) := by
  rw [insertDirEntry, require_bind_true valid, gets_bind, require_bind_true (by simp [fresh]), placed]
  exact updateObject_run (w := { w with dirEntries := sortDirectory parent entries }) owner

structure CreateAdmitted (parent : Nat) (name : List UInt8) (w : Writer) : Prop where
  writable : w.legacyReadOnly = false
  directory : w.ensureDirectory parent = .ok ()
  quota : w.quotaAdmits 0 1 = .ok ()
  missing : (w.lookupChild parent name).isOk = false
  ids : w.nextObjectId + 1 ≤ u64Max

inductive CreateOutcome (objectType parent : Nat) (name : List UInt8) (w : Writer) :
    Except Stop Nat → Writer → Prop
  | refused (e : HxfsError) (tests : ¬CreateAdmitted parent name w) :
      CreateOutcome objectType parent name w (.error (.error e)) w
  | noSlot (tests : CreateAdmitted parent name w)
      (full : put (freshDescriptor w.nextObjectId objectType) w.objects = none) :
      CreateOutcome objectType parent name w (.error (.error .noSpace)) (withNextId w)
  | orphaned {objects : Slots ObjectDescriptor} (e : HxfsError)
      (tests : CreateAdmitted parent name w)
      (placed : put (freshDescriptor w.nextObjectId objectType) w.objects = some objects)
      (failed : validName name = false ∨ validName name = true ∧
        put ⟨parent, w.nextObjectId, name⟩ w.dirEntries = none) :
      CreateOutcome objectType parent name w (.error (.error e)) (withObjects objects (withNextId w))
  | created {objects : Slots ObjectDescriptor} {entries : Slots FixedDirEntry}
      (tests : CreateAdmitted parent name w)
      (placed : put (freshDescriptor w.nextObjectId objectType) w.objects = some objects)
      (valid : validName name = true)
      (entry : put ⟨parent, w.nextObjectId, name⟩ w.dirEntries = some entries) :
      CreateOutcome objectType parent name w (.ok w.nextObjectId)
        (touched (entered parent entries (withObjects objects (withNextId w))))

theorem createChild_outcome (objectType parent : Nat) (name : List UInt8) (w : Writer) :
    CreateOutcome objectType parent name w (createChild objectType parent name w).1
      (createChild objectType parent name w).2 := by
  rw [createChild]
  refine after_ensureMutableV6 (fun _ fails => .refused _ fun tests => ?_) fun writable => ?_
  · simp [tests.writable] at fails
  refine after_view (fun _ fails => .refused _ fun tests => ?_) fun _ directory => ?_
  · simp [tests.directory] at fails
  refine after_view (fun _ fails => .refused _ fun tests => ?_) fun _ quota => ?_
  · simp [tests.quota] at fails
  rw [gets_bind]
  refine after_require (fun fails => .refused _ fun tests => ?_) fun missing => ?_
  · simp [tests.missing] at fails
  rw [Bool.not_eq_true'] at missing
  rw [bind_run, allocObjectId]
  by_cases ids : w.nextObjectId + 1 ≤ u64Max
  · rw [if_pos ids]
    have tests : CreateAdmitted parent name w := ⟨writable, directory, quota, missing, ids⟩
    simp only [bind_run, insertObject]
    cases placed : put (freshDescriptor w.nextObjectId objectType) w.objects with
    | none => exact .noSlot tests placed
    | some objects =>
      simp only []
      cases valid : validName name with
      | false =>
        rw [insertDirEntry_badName valid]
        exact .orphaned _ tests placed (.inl valid)
      | true =>
        have fresh := no_entry_of_lookup directory valid missing
        cases entry : put ⟨parent, w.nextObjectId, name⟩ w.dirEntries with
        | none =>
          have res := insertDirEntry_full (w := withObjects objects (withNextId w)) valid fresh entry
          rw [withObjects, withNextId] at res
          rw [res]
          exact .orphaned _ tests placed (.inr ⟨valid, entry⟩)
        | some entries =>
          obtain ⟨o, ho, -⟩ := ensureDirectory_eq_ok.mp directory
          obtain ⟨mem, eq⟩ := mem_of_object_ok ho
          obtain ⟨owner, hfound⟩ := object_isOk_of_mem
            (w := withObjects objects (withNextId w))
            ((mem_live_put placed).mpr (.inr mem))
          have res := insertDirEntry_run
            (w := withObjects objects (withNextId w)) valid fresh entry (eq ▸ hfound)
          rw [withObjects, withNextId] at res
          rw [res]
          exact .created tests placed valid entry
  rw [if_neg ids]
  exact .refused _ fun tests => ids tests.ids

theorem createChild_frame (objectType parent : Nat) (name : List UInt8) (w : Writer) :
    ∃ objects dirEntries nextObjectId dirty, (createChild objectType parent name w).2 =
      { w with objects, dirEntries, nextObjectId, dirty } := by
  have res := createChild_outcome objectType parent name w
  generalize (createChild objectType parent name w).1 = r,
    (createChild objectType parent name w).2 = w' at res ⊢
  cases res with
  | @created objects entries =>
    obtain ⟨objects, dirEntries, frame⟩ := entered_frame parent entries (withObjects objects (withNextId w))
    rw [frame]
    exact ⟨objects, dirEntries, w.nextObjectId + 1, true, rfl⟩
  | refused => exact ⟨_, _, _, _, rfl⟩
  | noSlot => exact ⟨_, _, w.nextObjectId + 1, _, rfl⟩
  | @orphaned objects => exact ⟨objects, _, w.nextObjectId + 1, _, rfl⟩

structure RenameAdmitted (oldParent : Nat) (oldName : List UInt8) (newParent : Nat)
    (newName : List UInt8) (entry : FixedDirEntry) (w : Writer) : Prop where
  writable : w.legacyReadOnly = false
  source : w.ensureDirectory oldParent = .ok ()
  target : w.ensureDirectory newParent = .ok ()
  missing : (w.lookupChild newParent newName).isOk = false
  found : w.dirEntry oldParent oldName = .ok entry

inductive RenameOutcome (oldParent : Nat) (oldName : List UInt8) (newParent : Nat)
    (newName : List UInt8) (w : Writer) : Except Stop Unit → Writer → Prop
  | refused (e : HxfsError)
      (tests : ∀ entry, ¬RenameAdmitted oldParent oldName newParent newName entry w) :
      RenameOutcome oldParent oldName newParent newName w (.error (.error e)) w
  | lost {entry : FixedDirEntry}
      (tests : RenameAdmitted oldParent oldName newParent newName entry w)
      (invalid : validName newName = false) :
      RenameOutcome oldParent oldName newParent newName w (.error (.error .badName))
        (dropDirEntry oldParent oldName w)
  | renamed {entry : FixedDirEntry} {entries : Slots FixedDirEntry}
      (tests : RenameAdmitted oldParent oldName newParent newName entry w)
      (valid : validName newName = true)
      (placed : put ⟨newParent, entry.objectId, newName⟩
        (dropFirst (isEntry oldParent oldName) w.dirEntries) = some entries) :
      RenameOutcome oldParent oldName newParent newName w (.ok ())
        (touched (entered newParent entries (dropDirEntry oldParent oldName w)))

theorem renameChild_outcome (oldParent : Nat) (oldName : List UInt8) (newParent : Nat)
    (newName : List UInt8) (w : Writer) :
    RenameOutcome oldParent oldName newParent newName w
      (renameChild oldParent oldName newParent newName w).1
      (renameChild oldParent oldName newParent newName w).2 := by
  rw [renameChild]
  refine after_ensureMutableV6 (fun _ fails => .refused _ fun _ tests => ?_) fun writable => ?_
  · simp [tests.writable] at fails
  refine after_view (fun _ fails => .refused _ fun _ tests => ?_) fun _ source => ?_
  · simp [tests.source] at fails
  refine after_view (fun _ fails => .refused _ fun _ tests => ?_) fun _ target => ?_
  · simp [tests.target] at fails
  rw [gets_bind]
  refine after_require (fun fails => .refused _ fun _ tests => ?_) fun missing => ?_
  · simp [tests.missing] at fails
  rw [Bool.not_eq_true'] at missing
  refine after_view (fun _ fails => .refused _ fun _ tests => ?_) fun entry found => ?_
  · simp [tests.found] at fails
  have tests : RenameAdmitted oldParent oldName newParent newName entry w :=
    ⟨writable, source, target, missing, found⟩
  rw [modify_bind, bind_run]
  cases valid : validName newName with
  | false =>
    rw [insertDirEntry_badName valid]
    exact .lost tests valid
  | true =>
    obtain ⟨owner, howner, -⟩ := ensureDirectory_eq_ok.mp target
    have fresh : (live (dropDirEntry oldParent oldName w).dirEntries).any
        (isEntry newParent newName) = false := by
      have pre := no_entry_of_lookup target valid missing
      rw [any_eq_false] at pre ⊢
      intro e he
      rw [dropDirEntry, live_dropFirst] at he
      exact pre e (mem_of_mem_eraseP he)
    -- The slot of the old entry is free by now, so the table cannot be full.
    have room : none ∈ dropFirst (isEntry oldParent oldName) w.dirEntries :=
      none_mem_dropFirst _ (dirEntry_spec found).1 (find?_some (dirEntry_eq_ok.mp found).2)
    cases placed : put ⟨newParent, entry.objectId, newName⟩
        (dropFirst (isEntry oldParent oldName) w.dirEntries) with
    | none => exact absurd room (put_eq_none.mp placed)
    | some entries =>
      rw [insertDirEntry_run (w := dropDirEntry oldParent oldName w) valid fresh placed howner]
      exact .renamed tests valid placed

theorem freeExtentRange_frame (startBlock blockCount : Nat) (w : Writer) :
    freeExtentRange startBlock blockCount w =
      { w with pageCache := (freeExtentRange startBlock blockCount w).pageCache
               pendingFree := (freeExtentRange startBlock blockCount w).pendingFree } := by
  unfold freeExtentRange
  split
  · rfl
  dsimp only
  split <;> rfl

theorem foldl_freeExtentRange_frame (ranges : List FixedExtent) (w : Writer) :
    ∃ pageCache pendingFree,
      ranges.foldl (fun w e => freeExtentRange e.extent.physicalBlock e.logicalBlocks w) w =
        { w with pageCache, pendingFree } := by
  induction ranges generalizing w with
  | nil => exact ⟨_, _, rfl⟩
  | cons entry rest ih =>
    rw [foldl_cons, freeExtentRange_frame]
    obtain ⟨pageCache, pendingFree, h⟩ := ih _
    exact ⟨pageCache, pendingFree, h⟩

theorem clearExtents_frame (objectId : Nat) (w : Writer) :
    ∃ pageCache pendingFree, (clearExtents objectId w).2 =
      { w with pageCache, pendingFree
               extents := dropAll (·.objectId == objectId) w.extents } := by
  obtain ⟨pageCache, pendingFree, h⟩ := foldl_freeExtentRange_frame
    ((live w.extents).filter fun e => e.objectId == objectId && !e.isHole) w
  refine ⟨pageCache, pendingFree, ?_⟩
  rw [clearExtents]
  dsimp only
  rw [h]

theorem releaseJobBytes_frame (bytes : Nat) (w : Writer) :
    releaseJobBytes bytes w = { w with quotaTree := (releaseJobBytes bytes w).quotaTree } := by
  unfold releaseJobBytes
  split
  · rfl
  split
  · rfl
  split
  · rfl
  split <;> rfl

theorem releaseExtents_frame (objectId : Nat) (w : Writer) :
    ∃ pageCache pendingFree quotaTree, releaseExtents objectId w =
      { w with pageCache, pendingFree, quotaTree
               extents := dropAll (·.objectId == objectId) w.extents } := by
  obtain ⟨pageCache, pendingFree, h⟩ := clearExtents_frame objectId w
  rw [releaseExtents]
  dsimp only
  rw [releaseJobBytes_frame, h]
  exact ⟨_, _, _, rfl⟩

structure UnlinkAdmitted (parent : Nat) (name : List UInt8) (entry : FixedDirEntry)
    (o : ObjectDescriptor) (w : Writer) : Prop where
  writable : w.legacyReadOnly = false
  directory : w.ensureDirectory parent = .ok ()
  found : w.dirEntry parent name = .ok entry
  target : w.object entry.objectId = .ok o
  childless : o.objectType = objectTypeDirectory → w.directoryHasChildren entry.objectId = false

def unlinked (parent : Nat) (name : List UInt8) (objectId : Nat) (w : Writer) : Writer :=
  touched (releaseExtents objectId (removeObject objectId (dropDirEntry parent name w)))

inductive UnlinkOutcome (parent : Nat) (name : List UInt8) (w : Writer) :
    Except Stop Unit → Writer → Prop
  | refused (e : HxfsError) : UnlinkOutcome parent name w (.error (.error e)) w
  | removed {entry : FixedDirEntry} {o : ObjectDescriptor}
      (tests : UnlinkAdmitted parent name entry o w) :
      UnlinkOutcome parent name w (.ok ()) (unlinked parent name entry.objectId w)

theorem unlinkChild_outcome (parent : Nat) (name : List UInt8) (w : Writer) :
    UnlinkOutcome parent name w (unlinkChild parent name w).1 (unlinkChild parent name w).2 := by
  rw [unlinkChild]
  refine after_ensureMutableV6 (fun e _ => .refused e) fun writable => ?_
  refine after_view (fun e _ => .refused e) fun _ directory => ?_
  refine after_view (fun e _ => .refused e) fun entry found => ?_
  refine after_view (fun e _ => .refused e) fun o target => ?_
  rw [gets_bind]
  refine after_require (fun _ => .refused _) fun childless => ?_
  refine .removed ⟨writable, directory, found, target, fun isDirectory => ?_⟩
  simpa [isDirectory] using childless

end Writer
end HuesOS.Hxfs
