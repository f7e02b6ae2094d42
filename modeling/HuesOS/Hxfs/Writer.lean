import HuesOS.Hxfs.Store
import HuesOS.Hxfs.Trees
import HuesOS.Lib.Exec

namespace HuesOS.Hxfs
open Exec Slots

structure FixedDirEntry where
  parentObjectId : Nat
  objectId : Nat
  name : List UInt8
  deriving DecidableEq

structure FixedExtent where
  objectId : Nat
  extent : ExtentRecord
  compression : Option ExtentCompressionMeta
  deriving DecidableEq

structure FreeRange where
  startBlock : Nat
  blockCount : Nat
  deriving DecidableEq

def FreeRange.endBlock (range : FreeRange) : Nat := satAdd range.startBlock range.blockCount

def maxHxblobs : Nat := 128
def maxQuotaRecords : Nat := 16
def maxBadExtents : Nat := 16

structure Capacities where
  objects : Nat
  dirEntries : Nat
  extents : Nat
  deriving DecidableEq

/-- The mounted state. The table capacities are the lengths of the slot lists. The last two
fields are history: the runs handed out by the allocator since the published checkpoint was
written, and the sizes of the buffers requested from the heap. No function reads them. -/
structure Writer where
  store : Store
  superblock : Superblock
  checkpoint : Checkpoint
  systemVolume : VolumeDescriptor
  encryption : Option EncryptionPolicy
  encryptionPolicies : List EncryptionPolicy
  metadataKey : Option (List UInt8)
  extentKey : Option (List UInt8)
  volumeUuid : Uuid
  compressionPolicies : List CompressionPolicy
  badExtents : List Nat
  hxblobIndex : Slots HxblobIndexRecord
  quotaTree : Slots QuotaRecord
  activeJob : Option Nat
  objects : Slots ObjectDescriptor
  dirEntries : Slots FixedDirEntry
  extents : Slots FixedExtent
  nextObjectId : Nat
  nextLba : Nat
  cacheVolumeId : Nat
  pageCache : PageCache
  pendingFree : Slots FreeRange
  freeSpace : Slots FreeRange
  snapshotRefs : Slots RefcountRecord
  legacyReadOnly : Bool
  dirty : Bool
  issued : List FreeRange
  requested : List Nat

/-- An unchecked operation of the source that would overflow or leave an array. -/
inductive Fault
  | overflow | outOfBounds
  deriving DecidableEq

inductive Stop
  | error (e : HxfsError)
  | fault (f : Fault)
  deriving DecidableEq

abbrev Built (α : Type) := Except Stop α

namespace Built

def fail {α : Type} (e : HxfsError) : Built α := .error (.error e)

def ofParsed {α : Type} : Parsed α → Built α
  | .ok a => .ok a
  | .error e => fail e

def ofFault {α : Type} : Except Fault α → Built α
  | .ok a => .ok a
  | .error f => .error (.fault f)

end Built

abbrev HxM := Exec Writer Stop

namespace HxM

def fail {α : Type} (e : HxfsError) : HxM α := stop (.error e)

def ofParsed {α : Type} : Parsed α → HxM α
  | .ok a => ret a
  | .error e => fail e

def ofOption {α : Type} (e : HxfsError) : Option α → HxM α
  | some a => ret a
  | none => fail e

def require (condition : Bool) (e : HxfsError) : HxM Unit := if condition then ret () else fail e

def view {α : Type} (f : Writer → Parsed α) : HxM α := fun w => ofParsed (f w) w

def built {α : Type} (f : Writer → Built α) : HxM α := fun w => (f w, w)

section Run
variable {α : Type} (w : Writer)

@[simp] theorem fail_run (e : HxfsError) : (fail e : HxM α) w = (.error (.error e), w) := rfl

@[simp] theorem ofParsed_ok (a : α) : ofParsed (.ok a) w = (.ok a, w) := rfl

@[simp] theorem ofParsed_error (e : HxfsError) :
    (ofParsed (.error e) : HxM α) w = (.error (.error e), w) := rfl

@[simp] theorem ofOption_some (e : HxfsError) (a : α) : ofOption e (some a) w = (.ok a, w) := rfl

@[simp] theorem ofOption_none (e : HxfsError) : (ofOption e none : HxM α) w = (.error (.error e), w) := rfl

theorem view_run (f : Writer → Parsed α) : view f w = ofParsed (f w) w := rfl

theorem require_run (condition : Bool) (e : HxfsError) :
    require condition e w = if condition then (.ok (), w) else (.error (.error e), w) := by
  cases condition <;> rfl

variable {β : Type} {w}

/-! One rule for each way a program goes on after a first step that leaves the state alone. -/

theorem view_bind_ok {f : Writer → Parsed α} {g : α → HxM β} {a : α} (h : f w = .ok a) :
    (view f >>= g) w = g a w := by
  rw [bind_run, view_run, h, ofParsed_ok]

theorem view_bind_error {f : Writer → Parsed α} {g : α → HxM β} {e : HxfsError}
    (h : f w = .error e) : (view f >>= g) w = (.error (.error e), w) := by
  rw [bind_run, view_run, h, ofParsed_error]

theorem require_bind_true {condition : Bool} {e : HxfsError} {g : Unit → HxM β}
    (h : condition = true) : (require condition e >>= g) w = g () w := by
  rw [bind_run, require_run, h, if_pos rfl]

theorem require_bind_false {condition : Bool} {e : HxfsError} {g : Unit → HxM β}
    (h : condition = false) : (require condition e >>= g) w = (.error (.error e), w) := by
  rw [bind_run, require_run, h, if_neg Bool.false_ne_true]

variable {P : Except Stop β → Writer → Prop}

theorem after_view {f : Writer → Parsed α} {g : α → HxM β}
    (refused : ∀ e, f w = .error e → P (.error (.error e)) w)
    (next : ∀ a, f w = .ok a → P (g a w).1 (g a w).2) :
    P ((view f >>= g) w).1 ((view f >>= g) w).2 := by
  cases h : f w with
  | error e =>
    rw [view_bind_error h]
    exact refused e h
  | ok a =>
    rw [view_bind_ok h]
    exact next a h

theorem after_require {condition : Bool} {e : HxfsError} {g : Unit → HxM β}
    (refused : condition = false → P (.error (.error e)) w)
    (next : condition = true → P (g () w).1 (g () w).2) :
    P ((require condition e >>= g) w).1 ((require condition e >>= g) w).2 := by
  cases h : condition with
  | false =>
    rw [require_bind_false rfl]
    exact refused h
  | true =>
    rw [require_bind_true rfl]
    exact next h

end Run
end HxM

def mulU64 (a b : Nat) : Except Fault Nat := if a * b ≤ u64Max then .ok (a * b) else .error .overflow

def addU64 (a b : Nat) : Except Fault Nat := if a + b ≤ u64Max then .ok (a + b) else .error .overflow

def HxM.ofFault {α : Type} : Except Fault α → HxM α
  | .ok a => ret a
  | .error f => stop (.fault f)

def validName (name : List UInt8) : Bool :=
  !name.isEmpty && name.length ≤ maxNameBytes && isUtf8 name

def slash : UInt8 := 0x2f

def splitComponent (rest : List UInt8) : List UInt8 × List UInt8 :=
  (rest.takeWhile (· != slash), (rest.dropWhile (· != slash)).drop 1)

namespace Writer
variable (w : Writer)

def object (objectId : Nat) : Parsed ObjectDescriptor :=
  match (live w.objects).find? (·.objectId == objectId) with
  | some found => .ok found
  | none => .error .notFound

def ensureDirectory (objectId : Nat) : Parsed Unit := do
  let found ← w.object objectId
  if found.objectType == objectTypeDirectory then return ()
  else throw .wrongType

def isEntry (parent : Nat) (name : List UInt8) (entry : FixedDirEntry) : Bool :=
  entry.parentObjectId == parent && entry.name == name

def dirEntry (parent : Nat) (name : List UInt8) : Parsed FixedDirEntry :=
  if !validName name then .error .badName
  else match (live w.dirEntries).find? (isEntry parent name) with
    | some entry => .ok entry
    | none => .error .notFound

def lookupChild (parent : Nat) (name : List UInt8) : Parsed Nat := do
  w.ensureDirectory parent
  let entry ← w.dirEntry parent name
  return entry.objectId

/-- Follow the components of `rest` from `current`. Every turn of the source's loop drops at
least one byte, so `fuel` is the number of bytes left. -/
def resolveFrom : Nat → Nat → List UInt8 → Parsed Nat
  | 0, _, _ => .error .badName
  | fuel + 1, current, rest => do
      let (component, tail) := splitComponent rest
      if !validName component then throw .badName
      let next ← w.lookupChild current component
      if tail.isEmpty then return next
      w.ensureDirectory next
      resolveFrom fuel next tail

def resolvePath (path : List UInt8) : Parsed Nat :=
  if path.head? != some slash then .error .badName
  else if path == [slash] then .ok w.systemVolume.rootObjectId
  else w.resolveFrom path.length w.systemVolume.rootObjectId path.tail

def lastSlash (path : List UInt8) : Nat :=
  path.length - 1 - (path.reverse.takeWhile (· != slash)).length

def parentAndName (path : List UInt8) : Parsed (Nat × List UInt8) := do
  if path == [slash] || path.head? != some slash then throw .badName
  let pos := lastSlash path
  let name := path.drop (pos + 1)
  if !validName name then throw .badName
  let parentPath := if pos == 0 then [slash] else path.take pos
  let parent ← w.resolvePath parentPath
  w.ensureDirectory parent
  return (parent, name)

def directoryEntryCount (objectId : Nat) : Nat :=
  min ((live w.dirEntries).countP (·.parentObjectId == objectId)) u32Max

def directoryHasChildren (objectId : Nat) : Bool := w.directoryEntryCount objectId != 0

def extentCount (objectId : Nat) : Nat :=
  min ((live w.extents).countP (·.objectId == objectId)) u32Max

def recordCountForObject (objectId : Nat) : Nat :=
  match w.object objectId with
  | .ok found =>
    if found.objectType == objectTypeDirectory then w.directoryEntryCount objectId
    else w.extentCount objectId
  | .error _ => 0

def liveObjectCount : Nat := (live w.objects).length

end Writer

def FixedExtent.logicalBlocks (entry : FixedExtent) : Nat :=
  if hasFlag entry.extent.flags extentFlagMultiSlot then 1 else entry.extent.blockCount

def FixedExtent.isHole (entry : FixedExtent) : Bool := hasFlag entry.extent.flags extentFlagHole

namespace Writer

def committedPhysicalBytes (w : Writer) : Nat :=
  let blocks := ((live w.extents).filter (!·.isHole)).foldl
    (fun total entry => satAdd total entry.logicalBlocks) 0
  min (blocks * blockSize) u64Max

def updateObject (objectId : Nat) (f : ObjectDescriptor → ObjectDescriptor) : HxM Unit := fun w =>
  match w.object objectId with
  | .ok _ =>
    (.ok (), { w with objects := modifyFirst (·.objectId == objectId) f w.objects })
  | .error e => (.error (.error e), w)

def updateDirectoryRecordCount (objectId : Nat) : HxM Unit := fun w =>
  let count := w.directoryEntryCount objectId
  updateObject objectId (fun d => { d with recordCount := count }) w

def updateFileRecordCount (objectId : Nat) : HxM Unit := fun w =>
  let count := w.extentCount objectId
  updateObject objectId (fun d => { d with recordCount := count }) w

def insertObject (descriptor : ObjectDescriptor) : HxM Unit := fun w =>
  match put descriptor w.objects with
  | some objects => (.ok (), { w with objects })
  | none => (.error (.error .noSpace), w)

def removeObject (objectId : Nat) (w : Writer) : Writer :=
  { w with objects := dropFirst (·.objectId == objectId) w.objects }

def shouldSwapDir (parent : Nat) : Option FixedDirEntry → Option FixedDirEntry → Bool
  | some left, some right =>
    left.parentObjectId == parent && right.parentObjectId == parent && Bytes.lt right.name left.name
  | none, some right => right.parentObjectId == parent
  | _, none => false

def sortDirectory (parent : Nat) (entries : Slots FixedDirEntry) : Slots FixedDirEntry :=
  ExchangeSort.sort (shouldSwapDir parent) entries

def insertDirEntry (parent objectId : Nat) (name : List UInt8) : HxM Unit := do
  HxM.require (validName name) .badName
  let entries ← gets (·.dirEntries)
  HxM.require (!(live entries).any (isEntry parent name)) .alreadyExists
  let entries ← HxM.ofOption .noSpace
    (put { parentObjectId := parent, objectId, name } entries)
  modify fun w => { w with dirEntries := sortDirectory parent entries }
  updateDirectoryRecordCount parent

def isLaterExtent (entry : FixedExtent) : Option FixedExtent → Bool
  | some e => e.objectId == entry.objectId && e.extent.logicalBlock > entry.extent.logicalBlock
  | none => false

/-- The extent table with `entry` added. An entry that comes last in its file takes the first
empty slot of the whole table; any other shifts the slots from its successor to the last
occupied one. -/
def placeExtent (entry : FixedExtent) (table : Slots FixedExtent) :
    Parsed (Slots FixedExtent) :=
  match table.findIdx? (isLaterExtent entry) with
  | none => match put entry table with
      | some placed => .ok placed
      | none => .error .noSpace
  | some pos =>
    -- One past the last occupied slot.
    let used := table.length - (table.reverse.takeWhile Option.isNone).length
    if used ≥ table.length then .error .noSpace
    else .ok (table.take pos ++ some entry :: (table.take used).drop pos ++ table.drop (used + 1))

def insertExtent (entry : FixedExtent) : HxM Unit := do
  let table ← HxM.view fun w => placeExtent entry w.extents
  modify fun w => { w with extents := table }
  updateFileRecordCount entry.objectId

def allocObjectId : HxM Nat := fun w =>
  if w.nextObjectId + 1 ≤ u64Max then
    (.ok w.nextObjectId, { w with nextObjectId := w.nextObjectId + 1 })
  else (.error (.error .noSpace), w)

def ensureMutableV6 : HxM Unit := fun w =>
  if w.legacyReadOnly then (.error (.error .legacyReadOnly), w) else (.ok (), w)

end Writer
end HuesOS.Hxfs
