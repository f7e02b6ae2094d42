import HuesOS.Hxfs.Outcomes

namespace HuesOS.Hxfs
open Exec HxM Slots Keeps

namespace HxM
open Exec (Keeps)
variable {α : Type} {F : Exec.Frame Writer}

theorem view_state (f : Writer → Parsed α) (w : Writer) : (view f w).2 = w := by
  rw [view_run]
  cases f w <;> rfl

instance (f : Writer → Parsed α) : Keeps F (view f) := ⟨respects_of_state_eq (view_state f)⟩

instance (a : Parsed α) : Keeps F (ofParsed a) := ⟨respects_of_state_eq (view_state fun _ => a)⟩

instance (e : HxfsError) (a : Option α) : Keeps F (ofOption e a) :=
  ⟨respects_of_state_eq fun _ => by cases a <;> rfl⟩

instance (a : Except Fault α) : Keeps F (ofFault a) :=
  ⟨respects_of_state_eq fun _ => by cases a <;> rfl⟩

instance (condition : Bool) (e : HxfsError) : Keeps F (require condition e) :=
  ⟨respects_of_state_eq fun _ => by cases condition <;> rfl⟩

instance (f : Writer → Built α) : Keeps F (built f) := ⟨respects_of_state_eq fun _ => rfl⟩

end HxM

namespace Writer
open Exec (Keeps)
variable {w w' : Writer}

theorem object_congr (eq : w'.objects = w.objects) (objectId : Nat) :
    w'.object objectId = w.object objectId := by
  rw [object, object, eq]

theorem object_modifyFirst {u : Writer} (objectId : Nat) (f : ObjectDescriptor → ObjectDescriptor)
    (keeps : ∀ d, (f d).objectId = d.objectId)
    (changed : u.objects = modifyFirst (·.objectId == objectId) f w.objects) :
    (∀ o, w.object objectId = .ok o → u.object objectId = .ok (f o)) ∧
      ∀ other, other ≠ objectId → u.object other = w.object other := by
  constructor
  · intro o found
    rw [object_eq_ok] at found ⊢
    rw [changed, Slots.find?_live_modifyFirst, found]
    · rfl
    intro d hd
    simpa [keeps] using hd
  intro other ne
  rw [object, object, changed, Slots.find?_live_modifyFirst_other]
  · intro d hd
    have : d.objectId = objectId := by simpa using hd
    simpa [this] using ne.symm
  intro d hd
  have : d.objectId = objectId := by simpa using hd
  simpa [keeps, this] using ne.symm

/-- Handing out and writing blocks: everything but the device, the free space and the cache
stays. -/
def storing : Exec.Frame Writer where
  rel w w' := ∃ store freeSpace nextLba issued pageCache,
    w' = { w with store, freeSpace, nextLba, issued, pageCache }
  refl w := ⟨_, _, _, _, _, rfl⟩
  trans := by
    rintro w _ _ ⟨_, _, _, _, _, rfl⟩ ⟨_, _, _, _, _, rfl⟩
    exact ⟨_, _, _, _, _, rfl⟩

instance (count : Nat) : Keeps storing (reserveDataBlocks count) := by
  refine ⟨fun w => ?_⟩
  rw [reserveDataBlocks]
  split
  · exact storing.refl w
  split
  · exact ⟨_, _, _, _, _, rfl⟩
  split
  · exact ⟨_, _, _, _, _, rfl⟩
  · exact storing.refl w

instance (lba : Nat) (block : Block) : Keeps storing (writeStore lba block) := by
  refine ⟨fun w => ?_⟩
  rw [writeStore]
  split
  · exact ⟨_, _, _, _, _, rfl⟩
  · exact storing.refl w

instance (start stop : Nat) :
    Keeps storing (Exec.modify (invalidateCachedRange start stop) : HxM Unit) :=
  ⟨respects_modify fun _ => ⟨_, _, _, _, _, rfl⟩⟩

instance (E : Engines) (key data : List UInt8) (start generation : Nat) :
    Keeps storing (storeTwoSlots E key data start generation) := by
  unfold storeTwoSlots
  infer_instance

instance (E : Engines) (extentKey : Option (List UInt8)) (blockBytes : List UInt8)
    (start generation : Nat) :
    Keeps storing (storeOneSlot E extentKey blockBytes start generation) := by
  unfold storeOneSlot
  infer_instance

theorem writeDataBlocks_frame {E : Engines} {data : List UInt8} {object : ObjectDescriptor}
    {r : Except Stop (Nat × Nat × ExtentWriteKind)}
    (stored : writeDataBlocks E data object w = (r, w')) : storing.rel w w' := by
  have keeps : (writeDataBlocks E data object).Respects storing := by
    refine respects_bind respects fun (blockBytes, compression) => ?_
    refine respects_bind respects fun extentKey => ?_
    refine respects_bind respects fun _ => ?_
    exact respects_bind respects fun (start, gen) => respects
  exact outcome_of (P := fun _ u => storing.rel w u) (keeps w) stored

def placed (objectId : Nat) (extents : Slots FixedExtent) (w : Writer) : Writer :=
  let w := { w with extents }
  { w with objects := recounted objectId (w.extentCount objectId) w.objects }

def withSize (objectId size : Nat) (w : Writer) : Writer :=
  { w with objects := modifyFirst (·.objectId == objectId) ({ · with size }) w.objects }

def resized (objectId size : Nat) (w : Writer) : Writer :=
  let w := withSize objectId size w
  touched { w with objects := recounted objectId (w.extentCount objectId) w.objects }

variable {entry : FixedExtent} {o object : ObjectDescriptor} {objectId size offset : Nat}

theorem insertExtent_run {extents : Slots FixedExtent} (room : placeExtent entry w.extents = .ok extents)
    (owner : w.object entry.objectId = .ok o) :
    insertExtent entry w = (.ok (), placed entry.objectId extents w) := by
  rw [insertExtent, view_bind_ok room, modify_bind]
  exact updateFileRecordCount_run (w := { w with extents }) owner

theorem insertExtent_full {e : HxfsError} (full : placeExtent entry w.extents = .error e) :
    insertExtent entry w = (.error (.error e), w) := by
  rw [insertExtent, view_bind_error full]

theorem placed_object (objectId : Nat) (extents : Slots FixedExtent) {other : Nat} (found : w.object other = .ok o) : ∃ count,
    (placed objectId extents w).object other = .ok { o with recordCount := count } := by
  have change := object_modifyFirst (w := w) (u := placed objectId extents w) objectId
    ({ · with recordCount := { w with extents }.extentCount objectId }) (fun _ => rfl) rfl
  by_cases eq : other = objectId
  · subst eq
    exact ⟨_, change.1 o found⟩
  · exact ⟨o.recordCount, (change.2 other eq).trans found⟩

theorem withSize_object (found : w.object objectId = .ok o) :
    (withSize objectId size w).object objectId = .ok { o with size } :=
  (object_modifyFirst objectId ({ · with size }) (fun _ => rfl) rfl).1 o found

theorem resized_object
    (found : w.object objectId = .ok o) : (resized objectId size w).object objectId =
      .ok { o with size, recordCount := w.extentCount objectId } :=
  (object_modifyFirst (w := withSize objectId size w) objectId
    ({ · with recordCount := w.extentCount objectId }) (fun _ => rfl) rfl).1 _
    (withSize_object found)

theorem fileHandle_resized
    (found : w.object objectId = .ok o) (isFile : o.objectType = objectTypeFile) :
    (resized objectId size w).fileHandle objectId = .ok size := by
  rw [fileHandle, resized_object found]
  simp [bind, Except.bind, isFile, pure, Except.pure]

def sizeAfter (objectSize offset length : Nat) : Nat :=
  if offset = 0 then offset + length else max objectSize (offset + length)

theorem finishWrite_run {len : Nat} (le : offset + len ≤ u64Max)
    (found : w.object objectId = .ok o) (isFile : o.objectType = objectTypeFile) :
    finishWrite objectId offset len object w =
      (.ok (sizeAfter object.size offset len), resized objectId (sizeAfter object.size offset len) w) := by
  rw [finishWrite, checkedAdd, if_pos le]
  change (updateObject objectId ({ · with size := sizeAfter object.size offset len }) >>= _) w = _
  rw [bind_of_ok (updateObject_run found)]
  change (updateFileRecordCount objectId >>= _) (withSize objectId (sizeAfter object.size offset len) w) = _
  rw [bind_of_ok (updateFileRecordCount_run (withSize_object found)), modify_bind]
  change HxM.ofParsed ((resized objectId (sizeAfter object.size offset len) w).fileHandle
    objectId) (resized objectId (sizeAfter object.size offset len) w) = _
  rw [fileHandle_resized found isFile]
  rfl

theorem finishWrite_overflow {len : Nat} (excess : u64Max < offset + len) :
    finishWrite objectId offset len object w = (.error (.error .outOfRange), w) := by
  rw [finishWrite, checkedAdd, if_neg (by omega)]
  rfl

structure WriteAdmitted (objectId offset : Nat) (data : List UInt8) (object : ObjectDescriptor)
    (w : Writer) : Prop where
  writable : w.legacyReadOnly = false
  short : data.length ≤ blockSize
  target : w.object objectId = .ok object
  isFile : object.objectType = objectTypeFile
  position : offset = 0 ∨ offset = object.size ∧ offset % blockSize = 0

def prepared (objectId offset : Nat) (w : Writer) : Writer :=
  if offset = 0 then releaseExtents objectId w else w

inductive Stored (E : Engines) (objectId offset : Nat) (data : List UInt8)
    (object : ObjectDescriptor) (w : Writer) : Writer → Prop
  | nothing (empty : data = []) : Stored E objectId offset data object w w
  | block {start generation : Nat} {kind : ExtentWriteKind} {w' : Writer}
      {extents : Slots FixedExtent} (some_data : data ≠ [])
      (stored : writeDataBlocks E data object w = (.ok (start, generation, kind), w'))
      (room : placeExtent (dataExtent objectId offset start generation kind) w'.extents = .ok extents) :
      Stored E objectId offset data object w (placed objectId extents w')

inductive WriteOutcome (E : Engines) (objectId offset : Nat) (data : List UInt8) (w : Writer) :
    Except Stop Nat → Writer → Prop
  | refused (e : HxfsError) (tests : ∀ object, ¬WriteAdmitted objectId offset data object w) :
      WriteOutcome E objectId offset data w (.error (.error e)) w
  | overQuota {object : ObjectDescriptor} (e : HxfsError)
      (tests : WriteAdmitted objectId offset data object w)
      (excess : (prepared objectId offset w).checkVolumeQuota data.length 0 = .error e) :
      WriteOutcome E objectId offset data w (.error (.error e)) (prepared objectId offset w)
  | overJobQuota {object : ObjectDescriptor} {s : Stop} {charged : Writer}
      (tests : WriteAdmitted objectId offset data object w)
      (quota : (prepared objectId offset w).checkVolumeQuota data.length 0 = .ok ())
      (excess : checkJobQuota data.length 0 (prepared objectId offset w) = (.error s, charged)) :
      WriteOutcome E objectId offset data w (.error s) charged
  | unstored {object : ObjectDescriptor} {charged after : Writer} {s : Stop}
      (tests : WriteAdmitted objectId offset data object w)
      (quota : (prepared objectId offset w).checkVolumeQuota data.length 0 = .ok ())
      (charge : checkJobQuota data.length 0 (prepared objectId offset w) = (.ok (), charged))
      (some_data : data ≠ [])
      (failed : writeDataBlocks E data object charged = (.error s, after)) :
      WriteOutcome E objectId offset data w (.error s) after
  | unplaced {object : ObjectDescriptor} {charged after : Writer} {e : HxfsError}
      {start generation : Nat} {kind : ExtentWriteKind}
      (tests : WriteAdmitted objectId offset data object w)
      (quota : (prepared objectId offset w).checkVolumeQuota data.length 0 = .ok ())
      (charge : checkJobQuota data.length 0 (prepared objectId offset w) = (.ok (), charged))
      (some_data : data ≠ [])
      (stored : writeDataBlocks E data object charged = (.ok (start, generation, kind), after))
      (full : placeExtent (dataExtent objectId offset start generation kind) after.extents = .error e) :
      WriteOutcome E objectId offset data w (.error (.error e)) after
  | tooLong {object : ObjectDescriptor} {charged after : Writer}
      (tests : WriteAdmitted objectId offset data object w)
      (quota : (prepared objectId offset w).checkVolumeQuota data.length 0 = .ok ())
      (charge : checkJobQuota data.length 0 (prepared objectId offset w) = (.ok (), charged))
      (stored : Stored E objectId offset data object charged after)
      (excess : u64Max < offset + data.length) :
      WriteOutcome E objectId offset data w (.error (.error .outOfRange)) after
  | written {object : ObjectDescriptor} {charged after : Writer}
      (tests : WriteAdmitted objectId offset data object w)
      (quota : (prepared objectId offset w).checkVolumeQuota data.length 0 = .ok ())
      (charge : checkJobQuota data.length 0 (prepared objectId offset w) = (.ok (), charged))
      (stored : Stored E objectId offset data object charged after)
      (fits : offset + data.length ≤ u64Max) :
      WriteOutcome E objectId offset data w (.ok (sizeAfter object.size offset data.length))
        (resized objectId (sizeAfter object.size offset data.length) after)

theorem prepared_object (objectId offset : Nat) (w : Writer) (other : Nat) :
    (prepared objectId offset w).object other = w.object other := by
  rw [prepared]
  split
  · obtain ⟨_, _, _, h⟩ := releaseExtents_frame objectId w
    rw [h]
    rfl
  · rfl

theorem checkJobQuota_frame {deltaBytes deltaObjects : Nat} {r : Except Stop Unit}
    (h : checkJobQuota deltaBytes deltaObjects w = (r, w')) :
    ∃ quotaTree, w' = { w with quotaTree } := by
  unfold checkJobQuota at h
  split at h
  · cases h
    exact ⟨_, rfl⟩
  split at h
  · cases h
    exact ⟨_, rfl⟩
  dsimp only at h
  split at h
  · cases h
    exact ⟨_, rfl⟩
  split at h
  · cases h
    exact ⟨_, rfl⟩
  · split at h <;> cases h <;> exact ⟨_, rfl⟩

theorem Stored.object_kept {E : Engines} {data : List UInt8}
    (stored : Stored E objectId offset data object w w')
    (found : w.object objectId = .ok o) : ∃ o', w'.object objectId = .ok o' ∧
      o'.objectType = o.objectType ∧ o'.size = o.size := by
  cases stored with
  | nothing => exact ⟨o, found, rfl, rfl⟩
  | @block start gen kind after extents _ stored room =>
    obtain ⟨_, _, _, _, _, eq⟩ := writeDataBlocks_frame stored
    have kept : after.object objectId = .ok o := by rw [eq]; exact found
    obtain ⟨count, h⟩ := placed_object objectId extents kept
    exact ⟨_, h, rfl, rfl⟩

theorem storeAndFinish {E : Engines} {data : List UInt8} {charged : Writer}
    (tests : WriteAdmitted objectId offset data object w)
    (quota : (prepared objectId offset w).checkVolumeQuota data.length 0 = .ok ())
    (charge : checkJobQuota data.length 0 (prepared objectId offset w) = (.ok (), charged))
    (kept : charged.object objectId = .ok object) :
    let finish : HxM Nat := do
      if data.isEmpty then pure () else storeExtent E objectId offset data object
      finishWrite objectId offset data.length object
    WriteOutcome E objectId offset data w (finish charged).1 (finish charged).2 := by
  have last : ∀ {after : Writer}, Stored E objectId offset data object charged after →
      WriteOutcome E objectId offset data w
        (finishWrite objectId offset data.length object after).1
        (finishWrite objectId offset data.length object after).2 := by
    intro after stored
    obtain ⟨o, found, kind, -⟩ := stored.object_kept kept
    by_cases le : offset + data.length ≤ u64Max
    · rw [finishWrite_run le found (kind.trans tests.isFile)]
      exact .written tests quota charge stored le
    rw [finishWrite_overflow (by omega)]
    exact .tooLong tests quota charge stored (by omega)
  dsimp only
  by_cases empty : data = []
  · rw [if_pos (by simpa using empty)]
    exact last (.nothing empty)
  rw [if_neg (by simpa using empty), storeExtent]
  rcases stored : writeDataBlocks E data object charged with ⟨s | ⟨start, generation, kind⟩, after⟩
  · rw [bind_of_error (bind_of_error stored)]
    exact .unstored tests quota charge empty stored
  cases room : placeExtent (dataExtent objectId offset start generation kind) after.extents with
  | error e =>
    rw [bind_of_error ((bind_of_ok stored).trans (insertExtent_full room))]
    exact .unplaced tests quota charge empty stored room
  | ok extents =>
    have owner : after.object objectId = .ok object := by
      obtain ⟨_, _, _, _, _, eq⟩ := writeDataBlocks_frame stored
      rw [eq]
      exact kept
    have insert : insertExtent (dataExtent objectId offset start generation kind) after =
        (.ok (), placed objectId extents after) := insertExtent_run room owner
    rw [bind_of_ok ((bind_of_ok stored).trans insert)]
    exact last (.block empty stored room)

theorem writeFileAt_outcome (E : Engines) (objectId offset : Nat) (data : List UInt8) (w : Writer) :
    WriteOutcome E objectId offset data w (writeFileAt E objectId offset data w).1
      (writeFileAt E objectId offset data w).2 := by
  rw [writeFileAt]
  refine after_ensureMutableV6 (fun _ fails => .refused _ fun _ tests => ?_) fun writable => ?_
  · simp [tests.writable] at fails
  refine after_require (fun fails => .refused _ fun _ tests => ?_) fun short => ?_
  · simp [tests.short] at fails
  refine after_view (fun _ fails => .refused _ fun _ tests => ?_) fun object target => ?_
  · simp [tests.target] at fails
  refine after_require (fun fails => .refused _ fun o tests => ?_) fun isFile => ?_
  · cases tests.target.symm.trans target
    simp [tests.isFile] at fails
  rw [decide_eq_true_iff] at short
  rw [beq_iff_eq] at isFile
  by_cases position : offset = 0 ∨ offset = object.size ∧ offset % blockSize = 0
  · have tests : WriteAdmitted objectId offset data object w := ⟨writable, short, target, isFile, position⟩
    have prepare : prepareWrite objectId offset object w = (.ok (), prepared objectId offset w) := by
      rw [prepareWrite, prepared]
      by_cases zero : offset = 0
      · rw [if_pos zero, if_pos zero]
        rfl
      rw [if_neg zero, if_neg zero, require_run, if_pos]
      simpa using position.resolve_left zero
    rw [bind_of_ok prepare]
    refine after_view (fun e excess => .overQuota e tests excess) fun _ quota => ?_
    rcases charge : checkJobQuota data.length 0 (prepared objectId offset w) with
      ⟨s | _, charged⟩
    · rw [bind_of_error charge]
      exact .overJobQuota tests quota charge
    rw [bind_of_ok charge]
    have kept : charged.object objectId = .ok object := by
      obtain ⟨_, eq⟩ := checkJobQuota_frame charge
      rw [eq]
      exact (prepared_object objectId offset w objectId).trans target
    exact storeAndFinish tests quota charge kept
  have prepare : prepareWrite objectId offset object w = (.error (.error .unsupported), w) := by
    rw [prepareWrite, if_neg (fun zero => position (.inl zero)), require_run, if_neg]
    simpa using fun eq aligned => position (.inr ⟨eq, aligned⟩)
  rw [bind_of_error prepare]
  refine .refused _ fun o tests => position ?_
  cases tests.target.symm.trans target
  exact tests.position

def pastEnd (objectId newSize : Nat) (entry : FixedExtent) : Bool :=
  entry.objectId == objectId && entry.extent.logicalBlock * blockSize ≥ newSize &&
    entry.logicalBlocks > 0

def heldBlocks (extents : List FixedExtent) : Nat :=
  ((extents.filter (!·.isHole)).map (·.logicalBlocks)).sum

theorem heldBlocks_cons (entry : FixedExtent) (rest : List FixedExtent) :
    heldBlocks (entry :: rest) = (if entry.isHole then 0 else entry.logicalBlocks) + heldBlocks rest := by
  cases hole : entry.isHole <;> simp [heldBlocks, hole]

theorem droppedBy_ok {newSize : Nat} {dropped : Bool}
    (h : droppedBy objectId newSize entry = .ok dropped) :
    dropped = pastEnd objectId newSize entry := by
  unfold droppedBy mulU64 at h
  unfold pastEnd
  by_cases eq : entry.objectId = objectId
  · rw [if_neg (by simpa using eq)] at h
    split at h
    · cases h
      simp [eq]
    · cases h
  rw [if_pos eq] at h
  cases h
  simp [eq]

theorem dropTail_ok {newSize released : Nat} {table table' : Slots FixedExtent}
    (h : dropTail objectId newSize table = .ok (released, table')) :
    table' = dropAll (pastEnd objectId newSize) table ∧
      released = min (heldBlocks ((live table).filter (pastEnd objectId newSize))) u64Max := by
  induction table generalizing released table' with
  | nil =>
    cases h
    exact ⟨rfl, rfl⟩
  | cons slot rest ih =>
    cases slot with
    | none =>
      rw [dropTail] at h
      cases hr : dropTail objectId newSize rest with
      | error f => rw [hr] at h; cases h
      | ok pair =>
        rw [hr] at h
        cases h
        obtain ⟨table_eq, released_eq⟩ := ih hr
        exact ⟨by rw [table_eq]; rfl, released_eq⟩
    | some entry =>
      rw [dropTail] at h
      cases hd : droppedBy objectId newSize entry with
      | error f => rw [hd] at h; cases h
      | ok dropped =>
      rw [hd] at h
      cases hr : dropTail objectId newSize rest with
      | error f => rw [hr] at h; cases h
      | ok pair =>
      rw [hr] at h
      obtain ⟨table_eq, released_eq⟩ := ih hr
      have meaning : dropped = pastEnd objectId newSize entry := droppedBy_ok hd
      simp only [bind, Except.bind] at h
      rw [dropAll, Slots.live_some, ← meaning, ← table_eq]
      cases dropped with
      | false =>
        cases h
        rw [List.filter_cons_of_neg (by simp [← meaning])]
        exact ⟨rfl, released_eq⟩
      | true =>
        rw [List.filter_cons_of_pos (by simp [← meaning])]
        rw [heldBlocks_cons]
        rw [if_pos rfl] at h
        cases hole : entry.isHole with
        | true =>
          rw [hole, if_pos rfl] at h
          cases h
          exact ⟨rfl, by simpa using released_eq⟩
        | false =>
          rw [hole] at h
          cases h
          refine ⟨rfl, ?_⟩
          simp only [Bool.false_eq_true, if_false, satAdd, released_eq]
          omega

structure TruncateAdmitted (objectId : Nat) (object : ObjectDescriptor) (w : Writer) : Prop where
  writable : w.legacyReadOnly = false
  target : w.object objectId = .ok object
  isFile : object.objectType = objectTypeFile

/-- The file with its new size, the extents past its end gone and their blocks given back to
the active job. -/
def truncated (objectId newSize released : Nat) (extents : Slots FixedExtent) (w : Writer) :
    Writer :=
  let w := releaseJobBytes (min (released * blockSize) u64Max)
    { withSize objectId newSize w with extents }
  touched { w with objects := recounted objectId (w.extentCount objectId) w.objects }

theorem releaseJobBytes_object (bytes : Nat) (extents : Slots FixedExtent) {u : Writer}
    (found : u.object objectId = .ok o) :
    (releaseJobBytes bytes { u with extents }).object objectId = .ok o := by
  rw [releaseJobBytes_frame]
  exact found

theorem truncated_fileHandle {newSize released : Nat} (extents : Slots FixedExtent)
    (found : w.object objectId = .ok o) (isFile : o.objectType = objectTypeFile) :
    (truncated objectId newSize released extents w).fileHandle objectId = .ok newSize := by
  have last := (object_modifyFirst (u := truncated objectId newSize released extents w)
    objectId ({ · with recordCount := (releaseJobBytes (min (released * blockSize) u64Max)
      { withSize objectId newSize w with extents }).extentCount objectId })
    (fun _ => rfl) rfl).1 _ (releaseJobBytes_object _ extents (withSize_object found))
  rw [fileHandle, last]
  simp [bind, Except.bind, isFile, pure, Except.pure]

inductive TruncateOutcome (objectId newSize : Nat) (w : Writer) : Except Stop Nat → Writer → Prop
  | refused (e : HxfsError) (tests : ∀ object, ¬TruncateAdmitted objectId object w) :
      TruncateOutcome objectId newSize w (.error (.error e)) w
  | faulted {object : ObjectDescriptor} {f : Fault} (tests : TruncateAdmitted objectId object w)
      (excess : dropTail objectId newSize w.extents = .error f) :
      TruncateOutcome objectId newSize w (.error (.fault f)) (withSize objectId newSize w)
  | done {object : ObjectDescriptor} {released : Nat} {extents : Slots FixedExtent}
      (tests : TruncateAdmitted objectId object w)
      (dropped : dropTail objectId newSize w.extents = .ok (released, extents)) :
      TruncateOutcome objectId newSize w (.ok newSize) (truncated objectId newSize released extents w)

theorem truncateFile_outcome (objectId newSize : Nat) (w : Writer) :
    TruncateOutcome objectId newSize w (truncateFile objectId newSize w).1
      (truncateFile objectId newSize w).2 := by
  rw [truncateFile]
  refine after_ensureMutableV6 (fun _ fails => .refused _ fun _ tests => ?_) fun writable => ?_
  · simp [tests.writable] at fails
  refine after_view (fun _ fails => .refused _ fun _ tests => ?_) fun object target => ?_
  · simp [tests.target] at fails
  refine after_require (fun fails => .refused _ fun o tests => ?_) fun isFile => ?_
  · cases tests.target.symm.trans target
    simp [tests.isFile] at fails
  rw [beq_iff_eq] at isFile
  have tests : TruncateAdmitted objectId object w := ⟨writable, target, isFile⟩
  rw [bind_of_ok (updateObject_run target)]
  change TruncateOutcome objectId newSize w
    (Exec.andThen _ _ (withSize objectId newSize w)).1
    (Exec.andThen _ _ (withSize objectId newSize w)).2
  have found : (withSize objectId newSize w).object objectId = .ok { object with size := newSize } :=
    withSize_object target
  have same : (withSize objectId newSize w).extents = w.extents := rfl
  cases dropped : dropTail objectId newSize w.extents with
  | error f =>
    simp only [Exec.andThen, same, dropped]
    exact .faulted tests dropped
  | ok pair =>
    obtain ⟨released, extents⟩ := pair
    have step : HxM.ofFault (.ok (released, extents)) (withSize objectId newSize w) =
        (.ok (released, extents), withSize objectId newSize w) := rfl
    simp only [Exec.andThen, same, dropped, step, modify_bind]
    have kept := releaseJobBytes_object (min (released * blockSize) u64Max) extents found
    rw [bind_of_ok (updateFileRecordCount_run kept), modify_bind]
    have view : HxM.view (·.fileHandle objectId)
        (truncated objectId newSize released extents w) =
          (.ok newSize, truncated objectId newSize released extents w) := by
      rw [view_run, truncated_fileHandle extents target isFile, ofParsed_ok]
    exact view ▸ .done tests dropped

end Writer
end HuesOS.Hxfs
