import HuesOS.Hxfs.JobQuota
import HuesOS.Hxfs.Reading

namespace HuesOS.Hxfs
open List Exec Slots HxM Bytes QuotaBtree

namespace Writer
variable {w w' : Writer}

/-- The state with nothing cached, in which every read goes to the device. -/
def cold (w : Writer) : Writer := { w with pageCache := PageCache.empty }

def Unlinked (w : Writer) (objectId : Nat) : Prop :=
  ∀ e ∈ Slots.live w.dirEntries, e.objectId ≠ objectId

/-- A user of the interface sees the same filesystem in both states. -/
structure SameVisible (E : Engines) (w w' : Writer) : Prop where
  entries : (Slots.live w'.dirEntries).Perm (Slots.live w.dirEntries)
  paths : ∀ path, w'.resolvePath path = w.resolvePath path
  files : ∀ path, w'.openPath path = w.openPath path
  contents : ∀ path objectId size, w.openPath path = .ok (objectId, size) → ∀ room,
    (readFile E objectId room (cold w')).1 = (readFile E objectId room (cold w)).1
  limits : w'.systemVolume.quotaPhysicalBytes = w.systemVolume.quotaPhysicalBytes ∧
    w'.systemVolume.quotaObjects = w.systemVolume.quotaObjects
  usage : w'.committedPhysicalBytes = w.committedPhysicalBytes ∧
    w'.liveObjectCount = w.liveObjectCount
  jobs : ∀ job, get (jobUuid job) w'.quotaTree = get (jobUuid job) w.quotaTree
  blobs : ∀ hash, HxblobIndexTree.lookup hash w'.hxblobIndex =
    HxblobIndexTree.lookup hash w.hxblobIndex
  orphans : ∀ objectId ∈ w'.ids, w'.Unlinked objectId → objectId ∈ w.ids ∧ w.Unlinked objectId

section Lookups
variable (objects : w'.objects = w.objects) (dirEntries : w'.dirEntries = w.dirEntries)
include objects

theorem ensureDirectory_congr (objectId : Nat) :
    w'.ensureDirectory objectId = w.ensureDirectory objectId := by
  rw [ensureDirectory, ensureDirectory, object_congr objects]

include dirEntries

theorem lookupChild_congr (parent : Nat) (name : List UInt8) :
    w'.lookupChild parent name = w.lookupChild parent name := by
  rw [lookupChild, lookupChild, ensureDirectory_congr objects, dirEntry, dirEntry, dirEntries]

theorem resolveFrom_congr (fuel current : Nat) (rest : List UInt8) :
    w'.resolveFrom fuel current rest = w.resolveFrom fuel current rest := by
  induction fuel generalizing current rest with
  | zero => rfl
  | succ fuel ih =>
    simp only [resolveFrom, lookupChild_congr objects dirEntries, ensureDirectory_congr objects, ih]

variable (root : w'.systemVolume.rootObjectId = w.systemVolume.rootObjectId)
include root

theorem resolvePath_congr (path : List UInt8) : w'.resolvePath path = w.resolvePath path := by
  rw [resolvePath, resolvePath, root, resolveFrom_congr objects dirEntries]

theorem openPath_congr (path : List UInt8) : w'.openPath path = w.openPath path := by
  simp only [openPath, resolvePath_congr objects dirEntries root, fileHandle, object_congr objects]

end Lookups

variable {E : Engines} {α : Type} {objectId bytes offset objects : Nat} {after charged : Writer}
  {data : List UInt8} {object : ObjectDescriptor}

/-- A call that changed neither descriptors, entries, records nor blobs, nor what reads return. -/
theorem SameVisible.of_tables (objects : w'.objects = w.objects)
    (dirEntries : w'.dirEntries = w.dirEntries) (volume : w'.systemVolume = w.systemVolume)
    (jobs : ∀ job, get (jobUuid job) w'.quotaTree = get (jobUuid job) w.quotaTree)
    (blobs : w'.hxblobIndex = w.hxblobIndex)
    (usage : w'.committedPhysicalBytes = w.committedPhysicalBytes)
    (contents : ∀ objectId room,
      (readFile E objectId room (cold w')).1 = (readFile E objectId room (cold w)).1) :
    SameVisible E w w' where
  entries := List.Perm.of_eq (by rw [dirEntries])
  paths := resolvePath_congr objects dirEntries (by rw [volume])
  files := openPath_congr objects dirEntries (by rw [volume])
  contents := fun _ objectId _ _ room => contents objectId room
  limits := by rw [volume]; exact ⟨rfl, rfl⟩
  usage := ⟨usage, by rw [liveObjectCount, liveObjectCount, objects]⟩
  jobs := jobs
  blobs := fun hash => by rw [blobs]
  orphans := by
    intro objectId mem unlinked
    rw [ids_eq, objects, ← ids_eq] at mem
    rw [Unlinked, dirEntries] at unlinked
    exact ⟨mem, unlinked⟩

theorem SameVisible.refl (E : Engines) (w : Writer) : SameVisible E w w :=
  .of_tables rfl rfl rfl (fun _ => rfl) rfl rfl fun _ _ => rfl

theorem SameVisible.withNextId (E : Engines) (w : Writer) : SameVisible E w (withNextId w) := by
  refine .of_tables rfl rfl rfl (fun _ => rfl) rfl rfl fun objectId room => ?_
  have alike : ReadsAlike (fun _ => True) (cold w) (cold (Writer.withNextId w)) :=
    ⟨rfl, rfl, rfl, rfl, rfl, fun _ _ => rfl⟩
  exact readFile_congr E alike rfl rfl fun _ _ _ _ => trivial

/-- A creation that gets an object slot has a valid name and a directory slot. -/
def CreateClean (parent : Nat) (name : List UInt8) (w : Writer) : Prop :=
  CreateAdmitted parent name w → none ∈ w.objects → validName name = true ∧ none ∈ w.dirEntries

def withLimits (physicalBytes objects : Nat) (w : Writer) : Writer :=
  { w with systemVolume := { w.systemVolume with
      quotaPhysicalBytes := physicalBytes, quotaObjects := objects } }

/-- The new limits admit what is there, or they are the old ones. -/
def LimitsClean (physicalBytes objects : Nat) (w : Writer) : Prop :=
  w.legacyReadOnly = false → (withLimits physicalBytes objects w).quotaAdmits 0 0 = .ok () ∨
    physicalBytes = w.systemVolume.quotaPhysicalBytes ∧ objects = w.systemVolume.quotaObjects

/-- A hole whose byte range fits the address space; it reads as zeros. -/
structure PlainHole (entry : FixedExtent) : Prop where
  hole : entry.isHole = true
  fits : entry.extent.logicalBlock * blockSize + entry.extent.blockCount * blockSize ≤ u64Max

/-- The write keeps every stored byte: it appends, or the file holds nothing but holes. -/
def ReplacesNothing (objectId offset : Nat) (w : Writer) : Prop :=
  offset = 0 → ∀ e ∈ w.extentsOf objectId, PlainHole e

/-- The active job, if there is one, is known and may take the bytes. -/
def JobAdmits (bytes : Nat) (w : Writer) : Prop :=
  ∀ job, w.activeJob = some job → ∃ record, get (jobUuid job) w.quotaTree = .ok record ∧
    (record.physicalLimitBytes ≠ 0 → satAdd record.physicalUsedBytes bytes ≤ record.physicalLimitBytes) ∧
    (record.objectLimit ≠ 0 → satAdd record.objectCount 0 ≤ record.objectLimit)

def ExtentRoom (objectId offset : Nat) (w : Writer) : Prop :=
  ∃ table, placeExtent (dataExtent objectId offset 0 0 .plain) w.extents = .ok table

theorem placeExtent_isOk_iff {a b : FixedExtent} (owner : a.objectId = b.objectId)
    (position : a.extent.logicalBlock = b.extent.logicalBlock) (table : Slots FixedExtent) :
    (∃ after, placeExtent a table = .ok after) ↔ ∃ after, placeExtent b table = .ok after := by
  have later : isLaterExtent a = isLaterExtent b := by
    funext slot
    cases slot with
    | none => rfl
    | some e => simp only [isLaterExtent, owner, position]
  unfold placeExtent
  rw [later]
  cases table.findIdx? (isLaterExtent b) with
  | none =>
    have both : put a table = none ↔ put b table = none := by
      rw [put_eq_none, put_eq_none]
    cases ha : put a table with
    | none => simp [both.mp ha]
    | some after =>
      cases hb : put b table with
      | none => simp [both.mpr hb] at ha
      | some after' => simp
  | some pos =>
    dsimp only
    split <;> simp

/-- No failed attempt to store the data can hit a block that is in use. -/
def RunUnused (E : Engines) (data : List UInt8) (object : ObjectDescriptor) (w : Writer) : Prop :=
  ∀ lba, InRun E data object w lba → ∀ e ∈ Slots.live w.extents, ¬e.Occupies lba

structure WriteFits (E : Engines) (objectId offset : Nat) (data : List UInt8)
    (object : ObjectDescriptor) (w : Writer) : Prop where
  quota : w.checkVolumeQuota data.length 0 = .ok ()
  job : JobAdmits data.length w
  fits : offset + data.length ≤ u64Max
  stored : data ≠ [] → (∃ start blockBytes compression,
    Storable E data object start blockBytes compression w) ∧ ExtentRoom objectId offset w

/-- The write fails before it charges a job, or without an active job while it stores the data. -/
def FailsUncharged (E : Engines) (objectId offset : Nat) (data : List UInt8)
    (object : ObjectDescriptor) (w : Writer) : Prop :=
  w.checkVolumeQuota data.length 0 ≠ .ok () ∨ ¬JobAdmits data.length w ∨
    (data ≠ [] ∧ w.activeJob = none ∧ RunUnused E data object w ∧
      ¬((∃ start blockBytes compression, Storable E data object start blockBytes compression w) ∧
        ExtentRoom objectId offset w))

/-- Once its first tests pass, the write meets all others, or it replaces nothing and fails
before anything is charged. -/
def WriteClean (E : Engines) (objectId offset : Nat) (data : List UInt8) (w : Writer) : Prop :=
  ∀ object, WriteAdmitted objectId offset data object w →
    WriteFits E objectId offset data object (prepared objectId offset w) ∨
      ReplacesNothing objectId offset w ∧
        FailsUncharged E objectId offset data object (prepared objectId offset w)

/-- Storing leaves a state with the same tables as the one the write was prepared in, and with
the same contents of every block in use. -/
structure Quiet (p after : Writer) : Prop where
  objects : after.objects = p.objects
  dirEntries : after.dirEntries = p.dirEntries
  systemVolume : after.systemVolume = p.systemVolume
  quotaTree : after.quotaTree = p.quotaTree
  hxblobIndex : after.hxblobIndex = p.hxblobIndex
  extents : after.extents = p.extents
  reads : ReadsAlike (fun lba => ∃ e ∈ Slots.live p.extents, e.Occupies lba) (cold p) (cold after)

theorem Quiet.refl (p : Writer) : Quiet p p :=
  ⟨rfl, rfl, rfl, rfl, rfl, rfl, ⟨rfl, rfl, rfl, rfl, rfl, fun _ _ => rfl⟩⟩

theorem extentRoom_iff {start gen : Nat} {kind : ExtentWriteKind} :
    (∃ table, placeExtent (dataExtent objectId offset start gen kind) w.extents = .ok table) ↔
      ExtentRoom objectId offset w := by
  apply placeExtent_isOk_iff <;> rfl

theorem Stored.fits (short : data.length ≤ blockSize)
    (stored : Stored E objectId offset data object w after) (some_data : data ≠ []) :
    (∃ start blockBytes compression, Storable E data object start blockBytes compression w) ∧
      ExtentRoom objectId offset w := by
  cases stored with
  | nothing empty => exact absurd empty some_data
  | block _ stored room =>
    constructor
    · cases outcome_of (writeDataBlocks_outcome E object _ short) stored with
      | oneSlot storable => exact ⟨_, _, _, storable⟩
      | twoSlots storable => exact ⟨_, _, _, storable⟩
    obtain ⟨_, _, _, _, _, rfl⟩ := writeDataBlocks_frame stored
    exact extentRoom_iff.mp ⟨_, room⟩

/-- What tables of a running volume satisfy, and what makes a failed write visible: stored
extents count, counters stay below saturation, and the allocator hands out unused blocks. -/
structure Sane (w : Writer) : Prop where
  stored : ∀ e ∈ Slots.live w.extents, e.isHole = false → 0 < e.logicalBlocks
  holes : ∀ e ∈ Slots.live w.extents, e.isHole = true → PlainHole e
  small : (heldBlocks (Slots.live w.extents) + 1) * blockSize ≤ u64Max
  records : (keys w.quotaTree).Nodup
  usage : ∀ job record, get (jobUuid job) w.quotaTree = .ok record →
    record.physicalUsedBytes + blockSize ≤ u64Max
  free : ∀ count start lba, nextRun count w = some start → start ≤ lba → lba < start + count →
    ∀ e ∈ Slots.live w.extents, ¬e.Occupies lba

theorem Stored.usage (some_data : data ≠ [])
    (stored : Stored E objectId offset data object w after) :
    heldBlocks (Slots.live after.extents) = heldBlocks (Slots.live w.extents) + 1 := by
  cases stored with
  | nothing empty => exact absurd empty some_data
  | @block start gen kind u extents _ stored room =>
    have shape := dataExtent_shape objectId offset start gen kind
    have grown : heldBlocks (Slots.live extents) =
        heldBlocks (dataExtent objectId offset start gen kind :: Slots.live u.extents) := by
      exact (((placeExtent_perm room).filter _).map _).sum_eq
    rw [(placed_tables objectId extents u).2.1, grown, heldBlocks_cons, shape.1, shape.2]
    obtain ⟨_, _, _, _, _, rfl⟩ := writeDataBlocks_frame stored
    exact Nat.add_comm 1 _

end Writer
end HuesOS.Hxfs
