import HuesOS.Hxfs.Data
import Mathlib.Algebra.Order.Floor.Div

namespace HuesOS.Hxfs
open Slots Bytes Built

def payloadRoom : Nat := blockSize - headerBytes

def leafChunk {α : Type} (leafRecords : Nat) (records : List α) (i : Nat) : List α :=
  (records.drop (i * leafRecords)).take leafRecords

def leafBlocks (leafRecords count : Nat) : Nat :=
  if count > leafRecords then count ⌈/⌉ leafRecords else 0

namespace Writer
variable (E : Engines) (w : Writer)

def makeBlock (blockType : BlockType) (owner lba : Nat) (payload : List UInt8) : Built Block :=
  match w.metadataKey with
  | some key =>
    if isEncryptedBlockType blockType then
      match makeEncryptedMetadataBlock E blockType owner lba w.superblock.sequenceNumber payload
        key w.volumeUuid with
      | some block => .ok block
      | none => fail .badBlock
    else .ok (makeMetadataBlock blockType owner lba payload)
  | none => .ok (makeMetadataBlock blockType owner lba payload)

def buildTable (blockType : BlockType) (owner lba : Nat) (header : List UInt8) (width : Nat)
    (rows : List (List UInt8)) : Built Block :=
  if header.length + rows.length * width > payloadRoom then fail .noSpace
  else makeBlock E w blockType owner lba (header ++ rows.flatten)

/-- A root block that lists the leaves following it. The leaf numbers are stored into a payload
array of fixed size. -/
def buildTreeRoot (blockType : BlockType) (magic owner lba leafCount : Nat) : Built Block :=
  if 16 + leafCount * 8 > payloadRoom then .error (.fault .outOfBounds)
  else makeBlock E w blockType owner lba
    (encodeTreeRoot magic ((List.range leafCount).map (lba + 1 + ·)))

def buildTreeLeaves (blockType : BlockType) (owner lba leafBytes : Nat)
    (payloads : List (List UInt8)) : Built (List Block) :=
  payloads.zipIdx.mapM fun (payload, i) =>
    makeBlock E w blockType owner (lba + 1 + i) (pad leafBytes payload)

def buildTree (rootType leafType : BlockType) (magic owner lba leafRecords width : Nat)
    (rows : List (List UInt8)) : Built (Block × List Block) := do
  let leafCount := rows.length ⌈/⌉ leafRecords
  let root ← buildTreeRoot E w rootType magic owner lba leafCount
  let leaves ← buildTreeLeaves E w leafType owner lba (leafRecords * width)
    ((List.range leafCount).map fun i => (leafChunk leafRecords rows i).flatten)
  return (root, leaves)

def dirBody (entry : FixedDirEntry) : Built (List UInt8) :=
  match w.metadataKey with
  | none => .ok entry.name
  | some key =>
    if !isUtf8 entry.name then fail .badName
    else match encryptDirentName E entry.name entry.parentObjectId entry.objectId key with
      | some body => .ok body
      | none => fail .noSpace

def dirRows : Nat → List FixedDirEntry → Built (List (List UInt8))
  | _, [] => .ok []
  | written, entry :: rest => do
      if 16 + written * dirRecordBytes + dirRecordBytes > payloadRoom then fail .noSpace
      let body ← dirBody E w entry
      let rows ← dirRows (written + 1) rest
      return encodeDirRecord entry.objectId body :: rows

def entriesOf (objectId : Nat) : List FixedDirEntry :=
  (live w.dirEntries).filter (·.parentObjectId == objectId)

def buildDirectoryBlock (objectId lba : Nat) : Built Block := do
  let rows ← dirRows E w 0 (w.entriesOf objectId)
  makeBlock E w .directory objectId lba
    (le 8 objectId ++ le 4 (w.directoryEntryCount objectId) ++ zeros 4 ++ rows.flatten)

def objectNeedsGeneration (objectId : Nat) : Bool :=
  (w.extentsOf objectId).any (·.extent.generation != 0)

def sortExtents (extents : List FixedExtent) : List FixedExtent :=
  extents.insertionSort (fun a b => a.extent.logicalBlock ≤ b.extent.logicalBlock)

def buildExtentTree (objectId lba : Nat) : Built (Block × List Block) :=
  buildTree E w .extentTreeRoot .extentTreeLeaf extentTreeRootMagic objectId lba extentLeafRecords
    extentRecordBytesV2
    ((sortExtents (w.extentsOf objectId)).map fun e => encodeExtentRecordV2 e.extent e.compression)

def buildExtentBlock (objectId lba : Nat) : Built (Block × List Block) := do
  if w.extentCount objectId > extentLeafRecords then buildExtentTree E w objectId lba
  else
    let object ← ofParsed (w.object objectId)
    let v2 := (resolveCompressionForObject w.systemVolume w.compressionPolicies object).isSome ||
      w.objectNeedsGeneration objectId
    let header := le 8 objectId ++ le 4 (w.extentCount objectId) ++ zeros 4
    let block ← if v2 then
        buildTable E w .extentTableV2 objectId lba header extentRecordBytesV2
          ((w.extentsOf objectId).map fun e => encodeExtentRecordV2 e.extent e.compression)
      else
        buildTable E w .extentTable objectId lba header extentRecordBytes
          ((w.extentsOf objectId).map fun e => encodeExtentRecord e.extent)
    return (block, [])

def extentBlocksForObject (objectId : Nat) : Nat :=
  1 + leafBlocks extentLeafRecords (w.extentCount objectId)

def buildObjectTreeBlock (object : ObjectDescriptor) (lba : Nat) : Built (Block × List Block) :=
  if object.objectType = objectTypeDirectory then do
    let block ← buildDirectoryBlock E w object.objectId lba
    return (block, [])
  else if object.objectType = objectTypeFile ∨ object.objectType = objectTypeSymlink then
    buildExtentBlock E w object.objectId lba
  else fail .wrongType

structure ObjectPlan where
  objectId : Nat
  treeLba : Nat
  recordCount : Nat
  deriving DecidableEq

def plannedObjects : List ObjectDescriptor → List ObjectPlan → Built (List ObjectDescriptor)
  | [], _ => .ok []
  | _ :: _, [] => fail .badTree
  | object :: objects, plan :: plans => do
      if plan.objectId ≠ object.objectId then fail .badTree
      let rest ← plannedObjects objects plans
      return { object with treeLba := plan.treeLba, recordCount := plan.recordCount } :: rest

def buildObjectTableBlock (plans : List ObjectPlan) (lba : Nat) : Built Block := do
  let objects ← plannedObjects (live w.objects) plans
  let rows := objects.map encodeObjectRecord
  if 16 + rows.length * objectRecordBytes > payloadRoom then fail .noSpace
  return makeMetadataBlock .objectTable 1 lba (le 4 w.liveObjectCount ++ zeros 12 ++ rows.flatten)

def buildVolumeTableBlock (objectTableLba objectCount lba : Nat) : Block :=
  makeMetadataBlock .volumeTable 0 lba
    (le 4 1 ++ zeros 12 ++ encodeVolumeRecord { w.systemVolume with objectTableLba, objectCount })

def rootOwner : Nat := w.systemVolume.rootObjectId

def encodeAllocationRecord (r : AllocationRecord) : List UInt8 :=
  le 8 r.startBlock ++ le 8 r.blockCount ++ le 4 r.state ++ zeros 4 ++ le 8 r.ownerObjectId

def encodeRefcountRecord (r : RefcountRecord) : List UInt8 :=
  le 8 r.startBlock ++ le 8 r.blockCount ++ le 4 r.refcount ++ zeros 4

def encodeBackrefRecord (r : BackrefRecord) : List UInt8 :=
  le 8 r.startBlock ++ le 8 r.blockCount ++ le 8 r.ownerObjectId ++
    le 4 r.kind ++ zeros 4 ++ le 8 r.generation

def storedExtents : List FixedExtent := (live w.extents).filter (!·.isHole)

def collect {α ε : Type} (record : FixedExtent → α)
    (insert : α → Slots α → Except ε (Slots α)) (validate : Slots α → Bool) : Built (List α) := do
  let table ← w.storedExtents.foldlM (fun table extent =>
    match insert (record extent) table with
    | .ok table => .ok table
    | .error _ => fail .badTree) (Slots.empty w.extents.length)
  if !validate table then fail .badTree
  return live table

def buildTableOrTree (tableType rootType leafType : BlockType) (magic lba leafRecords width : Nat)
    (rows : List (List UInt8)) : Built (Block × List Block) :=
  if rows.length > leafRecords then
    buildTree E w rootType leafType magic w.rootOwner lba leafRecords width rows
  else do
    let block ← buildTable E w tableType w.rootOwner lba
      (le 4 rows.length ++ zeros 12) width rows
    return (block, [])

def allocationOf (e : FixedExtent) : AllocationRecord where
  startBlock := e.extent.physicalBlock
  blockCount := e.extent.blockCount
  state := allocationStateAllocated
  ownerObjectId := e.objectId

def refcountOf (e : FixedExtent) : RefcountRecord where
  startBlock := e.extent.physicalBlock
  blockCount := e.extent.blockCount
  refcount := 1

def backrefOf (generation : Nat) (e : FixedExtent) : BackrefRecord where
  startBlock := e.extent.physicalBlock
  blockCount := e.extent.blockCount
  ownerObjectId := e.objectId
  kind := backrefKindObjectData
  generation := generation

def buildAllocationTreeBlock (lba : Nat) : Built (Block × List Block) := do
  let records ← w.collect allocationOf AllocationBtree.insert AllocationBtree.validate
  buildTableOrTree E w .allocationTree .allocationTreeRoot .allocationTreeLeaf allocTreeRootMagic
    lba allocLeafRecords 32 (records.map encodeAllocationRecord)

def buildRefcountTreeBlock (lba : Nat) : Built (Block × List Block) := do
  let records ← w.collect refcountOf RefcountBtree.insert RefcountBtree.validate
  buildTableOrTree E w .refcountTree .refcountTreeRoot .refcountTreeLeaf refcountTreeRootMagic
    lba refcountLeafRecords 24 (records.map encodeRefcountRecord)

def buildBackrefTreeBlock (generation lba : Nat) : Built (Block × List Block) := do
  let records ← w.collect (backrefOf generation) BackrefBtree.insert BackrefBtree.validate
  buildTableOrTree E w .backrefTree .backrefTreeRoot .backrefTreeLeaf backrefTreeRootMagic
    lba backrefLeafRecords 40 (records.map encodeBackrefRecord)

def encodeQuotaRecord (r : QuotaRecord) : List UInt8 :=
  r.volumeUuid ++ le 8 r.physicalLimitBytes ++ le 8 r.physicalUsedBytes ++
    le 8 r.objectLimit ++ le 8 r.objectCount ++ zeros 8

def quotaRecords (futureNextLba : Nat) : Built (Slots QuotaRecord) := do
  if futureNextLba * blockSize > u64Max then fail .outOfRange
  let volume : QuotaRecord := {
    volumeUuid := w.systemVolume.uuid
    physicalLimitBytes := w.systemVolume.quotaPhysicalBytes
    physicalUsedBytes := futureNextLba * blockSize
    objectLimit := w.systemVolume.quotaObjects
    objectCount := w.liveObjectCount }
  let jobs := (live w.quotaTree).filter (·.volumeUuid != w.systemVolume.uuid)
  let table ← (volume :: jobs).foldlM (fun table record =>
    match QuotaBtree.upsert record table with
    | .ok table => .ok table
    | .error _ => fail .noSpace) (Slots.empty maxQuotaRecords)
  if !QuotaBtree.validate table then fail .badTree
  return table

def buildQuotaTreeBlock (futureNextLba lba : Nat) : Built Block := do
  let table ← w.quotaRecords futureNextLba
  let rows := (live table).map encodeQuotaRecord
  buildTable E w .quotaTree w.rootOwner lba (le 4 rows.length ++ zeros 12) 56 rows

end Writer

def policyTableVersion : Nat := 1
def maxPolicyRecords : Nat := 32
def encryptionMagic : Nat := 0x45504f4c
def compressionMagic : Nat := 0x43504f4c
def encryptionPolicyBytes : Nat := 24
def compressionPolicyBytes : Nat := 16
def providerTpmOrBootloader : Nat := 1

def validateForMount (policy : EncryptionPolicy) : Bool :=
  policy.algorithm == algorithmAesXts && policy.dataUnitBytes == dataUnitBytes4k

def encodeEncryptionPolicy (p : EncryptionPolicy) : List UInt8 :=
  le 4 p.policyId ++ le 4 p.algorithm ++ le 4 p.dataUnitBytes ++
    le 4 providerTpmOrBootloader ++ zeros 8

def encodeCompressionPolicy (p : CompressionPolicy) : List UInt8 :=
  le 4 p.policyId ++ le 4 p.algorithm ++ le 4 p.minSizeBytes ++ zeros 4

/-- A policy table: at most 32 valid policies with distinct ids other than zero. -/
def encodePolicyTable {α : Type} (magic width : Nat) (policyId : α → Nat) (valid : α → Bool)
    (encode : α → List UInt8) (invalid : HxfsError) (policies : List α) : Parsed (List UInt8) :=
  if policies.length > maxPolicyRecords then .error .noSpace
  else if policies.all (fun p => policyId p != 0 && valid p) && decide (policies.map policyId).Nodup then
    .ok (le 4 magic ++ le 2 policyTableVersion ++ le 2 width ++
      le 4 policies.length ++ zeros 4 ++ (policies.map encode).flatten)
  else .error invalid

def encodeEncryptionPayload : List EncryptionPolicy → Parsed (List UInt8) :=
  encodePolicyTable encryptionMagic encryptionPolicyBytes (·.policyId) validateForMount
    encodeEncryptionPolicy .encryptedPolicyInvalid

def encodeCompressionPayload : List CompressionPolicy → Parsed (List UInt8) :=
  encodePolicyTable compressionMagic compressionPolicyBytes (·.policyId) validateCompressionPolicy
    encodeCompressionPolicy .compressionPolicyInvalid

def buildPolicyBlock (blockType : BlockType) (payload : Parsed (List UInt8)) (lba : Nat) :
    Built Block := do
  let payload ← ofParsed payload
  return makeMetadataBlock blockType 0 lba payload

def encodeHxblobIndexRecord (r : HxblobIndexRecord) : List UInt8 :=
  r.hash ++ le 8 r.objectId ++ le 8 r.size ++ r.merkleRoot ++
    le 8 r.merkleTreeLba ++ le 4 r.refcount ++ le 4 r.flags

namespace Writer
variable (E : Engines) (w : Writer)

def hxblobLeafPayload (records : List HxblobIndexRecord) : List UInt8 :=
  le 4 records.length ++ (records.map encodeHxblobIndexRecord).flatten

def buildHxblobIndexBlock (lba : Nat) : Built (Block × List Block) := do
  let records := live w.hxblobIndex
  if records.length > hxblobLeafRecords then
    let leafCount := records.length ⌈/⌉ hxblobLeafRecords
    let root ← buildTreeRoot E w .hxblobIndexTreeRoot hxblobTreeRootMagic w.rootOwner lba leafCount
    let leaves ← buildTreeLeaves E w .hxblobIndexTreeLeaf w.rootOwner lba
      (4 + hxblobLeafRecords * hxblobRecordBytes)
      ((List.range leafCount).map fun i => hxblobLeafPayload (leafChunk hxblobLeafRecords records i))
    return (root, leaves)
  else
    let block ← buildTable E w .hxblobIndexTree w.rootOwner lba (le 4 records.length)
      hxblobRecordBytes (records.map encodeHxblobIndexRecord)
    return (block, [])

/-- The Merkle table is always empty: every blob is a single chunk. -/
def buildHxblobMerkleBlock (lba : Nat) : Built Block :=
  makeBlock E w .hxblobMerkleTree w.rootOwner lba (le 4 0)

end Writer

def makeSuperblock (instanceUuid : Uuid) (sequence checkpointLba journalStartLba journalEndLba
    rootState : Nat) : Superblock where
  formatGuid := formatGuid
  formatVersion := formatVersion
  typeSystemVersion := typeSystemVersion
  instanceUuid := instanceUuid
  sequenceNumber := sequence
  blockSize := blockSize
  checkpointLba := checkpointLba
  backupCheckpointLba := 0
  journalStartLba := journalStartLba
  journalEndLba := journalEndLba
  compatibleFeatures := 0
  roCompatibleFeatures := 0
  incompatibleFeatures := baseIncompatFeatures ||| featureQuotaEnforcement
  rootState := rootState
  rootFlags := 0

def makeSuperblockBlock (superblock : Superblock) : Block :=
  makeMetadataBlock .superblock 0 0 (encodeSuperblock superblock)

def buildCheckpointBlock (checkpoint : Checkpoint) (lba : Nat) : Block :=
  makeMetadataBlock .checkpoint 0 lba (encodeCheckpoint checkpoint)

def encodeJournalRecord (r : JournalRecord) : List UInt8 :=
  le 8 r.sequenceNumber ++ le 4 r.recordIndex ++ le 4 r.recordCount ++
    le 8 r.targetLba ++ le 8 r.dataLba ++ le 4 r.dataCrc32c ++
    le 4 r.flags ++ le 8 r.finalCheckpointLba

def buildJournalRecordBlock (record : JournalRecord) (metadataLba : Nat) : Block :=
  makeMetadataBlock .journalRecord 0 metadataLba (encodeJournalRecord record)

end HuesOS.Hxfs
