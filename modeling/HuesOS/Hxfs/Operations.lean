import HuesOS.Hxfs.Data

/-! The mutating calls of the writer and the blob store built on them. -/

namespace HuesOS.Hxfs
open Exec HxblobIndexTree HxM

namespace Writer

def freshDescriptor (objectId objectType : Nat) : ObjectDescriptor where
  objectId := objectId
  objectType := objectType
  typeVersion := 1
  size := 0
  modifiedUnixNs := 0
  encryptionPolicyId := 0
  compressionPolicyId := 0
  treeLba := 0
  recordCount := 0
  flags := 0

def createChild (objectType parent : Nat) (name : List UInt8) : HxM Nat := do
  ensureMutableV6
  view (·.ensureDirectory parent)
  view (·.quotaAdmits 0 1)
  let exists_ ← gets fun w => (w.lookupChild parent name).isOk
  require (!exists_) .alreadyExists
  let objectId ← allocObjectId
  insertObject (freshDescriptor objectId objectType)
  insertDirEntry parent objectId name
  modify fun w => { w with dirty := true }
  return objectId

def mkdirChild : Nat → List UInt8 → HxM Nat := createChild objectTypeDirectory

def createFileChild : Nat → List UInt8 → HxM Nat := createChild objectTypeFile

def mkdirPath (path : List UInt8) : HxM Nat := do
  ensureMutableV6
  let (parent, name) ← view (·.parentAndName path)
  mkdirChild parent name

def createFilePath (path : List UInt8) : HxM Nat := do
  ensureMutableV6
  let (parent, name) ← view (·.parentAndName path)
  createFileChild parent name

def fileHandle (w : Writer) (objectId : Nat) : Parsed Nat := do
  let object ← w.object objectId
  if object.objectType ≠ objectTypeFile then throw .wrongType
  return object.size

def openPath (w : Writer) (path : List UInt8) : Parsed (Nat × Nat) := do
  let objectId ← w.resolvePath path
  let size ← w.fileHandle objectId
  return (objectId, size)

def openChildDir (w : Writer) (directory : Nat) (name : List UInt8) : Parsed Nat := do
  let objectId ← w.lookupChild directory name
  w.ensureDirectory objectId
  return objectId

def releaseExtents (objectId : Nat) (w : Writer) : Writer :=
  let (released, w) := clearExtents objectId w
  releaseJobBytes released w

/-- A write at offset zero drops what the file held; any other write has to be an append of
whole blocks. -/
def prepareWrite (objectId offset : Nat) (object : ObjectDescriptor) : HxM Unit :=
  if offset = 0 then modify (releaseExtents objectId)
  else require (offset == object.size && offset % blockSize == 0) .unsupported

def dataExtent (objectId offset start generation : Nat) (kind : ExtentWriteKind) : FixedExtent :=
  let (flags, blockCount, compression) := kind.shape
  { objectId
    extent := { logicalBlock := offset / blockSize, physicalBlock := start, blockCount, flags
                generation }
    compression }

def storeExtent (E : Engines) (objectId offset : Nat) (data : List UInt8)
    (object : ObjectDescriptor) : HxM Unit := do
  let (start, generation, kind) ← writeDataBlocks E data object
  insertExtent (dataExtent objectId offset start generation kind)

def finishWrite (objectId offset length : Nat) (object : ObjectDescriptor) : HxM Nat := do
  let stop ← ofOption .outOfRange (checkedAdd offset length)
  let newSize := if offset = 0 then stop else max object.size stop
  updateObject objectId fun d => { d with size := newSize }
  updateFileRecordCount objectId
  modify fun w => { w with dirty := true }
  view (·.fileHandle objectId)

def writeFileAt (E : Engines) (objectId offset : Nat) (data : List UInt8) : HxM Nat := do
  ensureMutableV6
  require (data.length ≤ blockSize) .unsupported
  let object ← view (·.object objectId)
  require (object.objectType == objectTypeFile) .wrongType
  prepareWrite objectId offset object
  view (·.checkVolumeQuota data.length 0)
  checkJobQuota data.length 0
  if data.isEmpty then pure () else storeExtent E objectId offset data object
  finishWrite objectId offset data.length object

/-- Whether a truncation to `newSize` drops the extent: one that starts inside the file stays
whole. The byte offset of the extent is an unchecked product. -/
def droppedBy (objectId newSize : Nat) (entry : FixedExtent) : Except Fault Bool :=
  if entry.objectId ≠ objectId then .ok false
  else do
    let extentStart ← mulU64 entry.extent.logicalBlock blockSize
    return extentStart ≥ newSize && entry.logicalBlocks > 0

def dropTail (objectId newSize : Nat) : Slots FixedExtent → Except Fault (Nat × Slots FixedExtent)
  | [] => .ok (0, [])
  | none :: rest => do
      let (released, rest) ← dropTail objectId newSize rest
      return (released, none :: rest)
  | some entry :: rest => do
      let dropped ← droppedBy objectId newSize entry
      let (released, rest) ← dropTail objectId newSize rest
      if dropped then
        return (if entry.isHole then released else satAdd released entry.logicalBlocks, none :: rest)
      else return (released, some entry :: rest)

def truncateFile (objectId newSize : Nat) : HxM Nat := do
  ensureMutableV6
  let object ← view (·.object objectId)
  require (object.objectType == objectTypeFile) .wrongType
  updateObject objectId fun d => { d with size := newSize }
  let (released, extents) ← fun w => ofFault (dropTail objectId newSize w.extents) w
  modify fun w => { w with extents }
  modify (releaseJobBytes (min (released * blockSize) u64Max))
  updateFileRecordCount objectId
  modify fun w => { w with dirty := true }
  view (·.fileHandle objectId)

def dropDirEntry (parent : Nat) (name : List UInt8) (w : Writer) : Writer :=
  { w with dirEntries := Slots.dropFirst (isEntry parent name) w.dirEntries }

def renameChild (oldParent : Nat) (oldName : List UInt8) (newParent : Nat)
    (newName : List UInt8) : HxM Unit := do
  ensureMutableV6
  view (·.ensureDirectory oldParent)
  view (·.ensureDirectory newParent)
  let exists_ ← gets fun w => (w.lookupChild newParent newName).isOk
  require (!exists_) .alreadyExists
  let entry ← view (·.dirEntry oldParent oldName)
  modify (dropDirEntry oldParent oldName)
  insertDirEntry newParent entry.objectId newName
  modify fun w => { w with dirty := true }

def renamePath (source target : List UInt8) : HxM Unit := do
  ensureMutableV6
  let (oldParent, oldName) ← view (·.parentAndName source)
  let (newParent, newName) ← view (·.parentAndName target)
  renameChild oldParent oldName newParent newName

def unlinkChild (parent : Nat) (name : List UInt8) : HxM Unit := do
  ensureMutableV6
  view (·.ensureDirectory parent)
  let entry ← view (·.dirEntry parent name)
  let object ← view (·.object entry.objectId)
  let children ← gets (·.directoryHasChildren entry.objectId)
  require (!(object.objectType == objectTypeDirectory && children)) .directoryNotEmpty
  modify (dropDirEntry parent name)
  modify (removeObject entry.objectId)
  modify (releaseExtents entry.objectId)
  modify fun w => { w with dirty := true }

def unlinkPath (path : List UInt8) : HxM Unit := do
  ensureMutableV6
  let (parent, name) ← view (·.parentAndName path)
  unlinkChild parent name

def setQuotaLimits (physicalBytes objects : Nat) : HxM Unit := do
  ensureMutableV6
  modify fun w => { w with
    systemVolume := { w.systemVolume with
      quotaPhysicalBytes := physicalBytes, quotaObjects := objects } }
  view (·.quotaAdmits 0 0)
  modify fun w => { w with dirty := true }

def setJobQuota (jobId physicalBytes objects : Nat) : HxM Unit := do
  ensureMutableV6
  let current ← gets fun w => QuotaBtree.get (jobUuid jobId) w.quotaTree
  let record : QuotaRecord := {
    volumeUuid := jobUuid jobId
    physicalLimitBytes := physicalBytes
    physicalUsedBytes := match current with | .ok r => r.physicalUsedBytes | .error _ => 0
    objectLimit := objects
    objectCount := match current with | .ok r => r.objectCount | .error _ => 0 }
  fun w => match QuotaBtree.upsert record w.quotaTree with
    | .ok quotaTree => (.ok (), { w with quotaTree })
    | .error _ => (.error (.error .noSpace), w)

def setActiveJob (job : Option Nat) : HxM Unit := modify fun w => { w with activeJob := job }

def jobQuotaUsage (w : Writer) (jobId : Nat) : Nat × Nat :=
  match QuotaBtree.get (jobUuid jobId) w.quotaTree with
  | .ok r => (r.physicalUsedBytes, r.objectCount)
  | .error _ => (0, 0)

def hexDigit (n : Nat) : UInt8 := if n < 10 then UInt8.ofNat (0x30 + n) else UInt8.ofNat (0x57 + n)

def hexEncode (bytes : List UInt8) : List UInt8 :=
  bytes.flatMap fun b => [hexDigit (b.toNat / 16), hexDigit (b.toNat % 16)]

def blobsDir : List UInt8 := [0x62, 0x6c, 0x6f, 0x62, 0x73]

def shardName (hash : List UInt8) : List UInt8 := [0x62, hexDigit ((hash.headD 0).toNat % 8)]

def openOrMkdir (parent : Nat) (name : List UInt8) : HxM Nat := do
  let found ← gets fun w => w.openChildDir parent name
  match found with
  | .ok directory => return directory
  | .error _ => mkdirChild parent name

def blobsDirectory : HxM Nat := do
  let root ← gets (·.systemVolume.rootObjectId)
  openOrMkdir root blobsDir

def blobShardDirectory (hash : List UInt8) : HxM Nat := do
  let base ← blobsDirectory
  openOrMkdir base (shardName hash)

def writeChunks (E : Engines) (objectId : Nat) (data : List UInt8) : Nat → Nat → HxM Unit
  | 0, _ => pure ()
  | fuel + 1, offset =>
    if offset < data.length then do
      let n := min (data.length - offset) blockSize
      let _ ← writeFileAt E objectId offset (Bytes.slice data offset n)
      writeChunks E objectId data fuel (offset + n)
    else pure ()

def indexBlob (record : HxblobIndexRecord) : HxM Unit := fun w =>
  match insert record w.hxblobIndex with
  | .ok hxblobIndex => (.ok (), { w with hxblobIndex })
  | .error _ => (.error (.error .noSpace), w)

def blobRecord (hash : List UInt8) (file size : Nat) : HxblobIndexRecord :=
  { hash, objectId := file, size, merkleRoot := hash, merkleTreeLba := 0, refcount := 1, flags := 0 }

def putBlob (E : Engines) (data : List UInt8) : HxM (List UInt8) := do
  ensureMutableV6
  let hash := E.sha256 data
  let known ← gets fun w => (lookup hash w.hxblobIndex).isOk
  require (!known) .alreadyExists
  let count ← gets fun w => (Slots.live w.hxblobIndex).length
  require (count < maxHxblobs) .noSpace
  let directory ← blobShardDirectory hash
  let file ← createFileChild directory (hexEncode hash)
  writeChunks E file data data.length 0
  indexBlob (blobRecord hash file data.length)
  modify fun w => { w with dirty := true }
  return hash

end Writer
end HuesOS.Hxfs
