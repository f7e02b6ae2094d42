import HuesOS.Hxfs.Roots

namespace HuesOS.Hxfs
open Slots

structure TransactionShape where
  targetBlocks : Nat
  recordCount : Nat
  totalBlocks : Nat
  deriving DecidableEq

/-- One tree per object and ten fixed targets, plus the leaves; the journal has a record for
each target that is not a leaf and one for the superblock. -/
def TransactionShape.plan (liveObjects extraLeaves hxblobLeaves : Nat) :
    Parsed TransactionShape :=
  let targetBlocks := liveObjects + extraLeaves + 9 + 2 + hxblobLeaves
  let recordCount := liveObjects + 10 + 2
  let totalBlocks := targetBlocks + recordCount * 2
  if targetBlocks ≤ u64Max ∧ recordCount ≤ u32Max ∧ totalBlocks ≤ u64Max then
    .ok { targetBlocks, recordCount, totalBlocks }
  else .error .noSpace

structure LeafCounts where
  objects : Nat
  allocation : Nat
  refcount : Nat
  backref : Nat
  hxblob : Nat
  deriving DecidableEq

structure Sites where
  targetStart : Nat
  objectTable : Nat
  volumeTable : Nat
  allocationTree : Nat
  refcountTree : Nat
  backrefTree : Nat
  quotaTree : Nat
  encryptionPolicy : Nat
  compressionPolicy : Nat
  hxblobIndex : Nat
  hxblobMerkle : Nat
  checkpoint : Nat
  journalStart : Nat
  journalEnd : Nat
  deriving DecidableEq

def Sites.from (start liveObjects : Nat) (leaves : LeafCounts) (recordCount : Nat) : Sites :=
  let objectTable := start + liveObjects + leaves.objects
  let allocationTree := objectTable + 2
  let refcountTree := allocationTree + leaves.allocation + 1
  let backrefTree := refcountTree + leaves.refcount + 1
  let quotaTree := backrefTree + leaves.backref + 1
  let hxblobMerkle := quotaTree + 3 + leaves.hxblob + 1
  let journalStart := hxblobMerkle + 2
  { targetStart := start
    objectTable
    volumeTable := objectTable + 1
    allocationTree
    refcountTree
    backrefTree
    quotaTree
    encryptionPolicy := quotaTree + 1
    compressionPolicy := quotaTree + 2
    hxblobIndex := quotaTree + 3
    hxblobMerkle
    checkpoint := hxblobMerkle + 1
    journalStart
    journalEnd := journalStart + recordCount * 2 }

namespace Writer

def leafCounts (w : Writer) : LeafCounts :=
  let stored := w.storedExtents.length
  { objects := (((live w.objects).filter fun o =>
      o.objectType == objectTypeFile || o.objectType == objectTypeSymlink).map fun o =>
        w.extentBlocksForObject o.objectId - 1).sum
    allocation := leafBlocks allocLeafRecords stored
    refcount := leafBlocks refcountLeafRecords stored
    backref := leafBlocks backrefLeafRecords stored
    hxblob := leafBlocks hxblobLeafRecords (live w.hxblobIndex).length }

def transactionShape (w : Writer) : Parsed TransactionShape :=
  let leaves := w.leafCounts
  TransactionShape.plan w.liveObjectCount
    (leaves.objects + leaves.allocation + leaves.refcount + leaves.backref) leaves.hxblob

/-- A run for the transaction. One taken from the pool leaves the pool at once; the append
pointer moves only when the checkpoint is complete. -/
def reserveTransaction (total : Nat) : HxM Nat := fun w =>
  match takeFrom total w.freeSpace with
  | some (start, pool) =>
    (.ok start, { w with
      freeSpace := pool
      issued := w.issued ++ [{ startBlock := start, blockCount := total }] })
  | none =>
    (.ok w.nextLba, { w with
      issued := w.issued ++ [{ startBlock := w.nextLba, blockCount := total }] })

def planSites (w : Writer) (shape : TransactionShape) (start : Nat) : Parsed Sites :=
  let sites := Sites.from start w.liveObjectCount w.leafCounts shape.recordCount
  if sites.journalEnd > u64Max then .error .noSpace
  else if sites.journalStart - start ≠ shape.targetBlocks ∨
      sites.journalEnd - start ≠ shape.totalBlocks then .error .badJournal
  else .ok sites

structure JournalContext where
  sequence : Nat
  recordCount : Nat
  journalStart : Nat
  checkpointLba : Nat

def writeJournalCopy (journal : JournalContext) (index targetLba flags : Nat) (block : Block) :
    HxM Unit := do
  let metadataLba := journal.journalStart + index * 2
  let dataLba := metadataLba + 1
  HxM.require (dataLba ≤ u64Max) .noSpace
  writeStore metadataLba (buildJournalRecordBlock
    { sequenceNumber := journal.sequence, recordIndex := index, recordCount := journal.recordCount
      targetLba, dataLba, dataCrc32c := crc32c block.bytes, flags
      finalCheckpointLba := journal.checkpointLba } metadataLba)
  writeStore dataLba block

def writeLeaves : Nat → List Block → HxM Unit
  | _, [] => pure ()
  | lba, leaf :: rest => do
      writeStore lba leaf
      writeLeaves (lba + 1) rest

def writeTarget (journal : JournalContext) (index lba : Nat) (block : Block)
    (leaves : List Block) : HxM Unit := do
  HxM.require (index + 1 < journal.recordCount) .badJournal
  writeStore lba block
  writeJournalCopy journal index lba 0 block
  writeLeaves (lba + 1) leaves

def publishTarget (journal : JournalContext) (index lba : Nat)
    (build : Writer → Built (Block × List Block)) : HxM Nat := do
  let (block, leaves) ← HxM.built build
  writeTarget journal index lba block leaves
  return leaves.length

def single (built : Built Block) : Built (Block × List Block) := do
  let block ← built
  return (block, [])

def publishObjectTrees (E : Engines) (journal : JournalContext) :
    List ObjectDescriptor → Nat → Nat → HxM (List ObjectPlan)
  | [], _, _ => pure []
  | object :: rest, index, lba => do
      let recordCount ← Exec.gets (·.recordCountForObject object.objectId)
      let leaves ← publishTarget journal index lba (buildObjectTreeBlock E · object lba)
      let plans ← publishObjectTrees E journal rest (index + 1) (lba + 1 + leaves)
      return { objectId := object.objectId, treeLba := lba, recordCount } :: plans

/-- Both blob blocks are built before either is written. -/
def buildHxblobBlocks (E : Engines) (sites : Sites) (w : Writer) :
    Built ((Block × List Block) × Block) := do
  let index ← buildHxblobIndexBlock E w sites.hxblobIndex
  let merkle ← buildHxblobMerkleBlock E w sites.hxblobMerkle
  return (index, merkle)

def checkpointAt (w : Writer) (sites : Sites) (sequence : Nat) : Checkpoint where
  sequenceNumber := sequence
  volumeTableLba := sites.volumeTable
  volumeCount := 1
  systemVolumeUuid := w.systemVolume.uuid
  allocationTreeLba := sites.allocationTree
  refcountTreeLba := sites.refcountTree
  backrefTreeLba := sites.backrefTree
  quotaTreeLba := sites.quotaTree
  encryptionPolicyTreeLba := sites.encryptionPolicy
  compressionPolicyTreeLba := sites.compressionPolicy
  hxblobIndexTreeLba := sites.hxblobIndex
  hxblobMerkleTreeLba := sites.hxblobMerkle
  virtualVolumeTreeLba := 0
  gptSummaryLba := 0
  installManifestLba := 0

def publishFixedTargets (E : Engines) (journal : JournalContext) (sites : Sites)
    (plans : List ObjectPlan) (index : Nat) : HxM Unit := do
  let target (offset lba : Nat) (build : Writer → Built (Block × List Block)) : HxM Nat :=
    publishTarget journal (index + offset) lba build
  let _ ← target 0 sites.objectTable fun w => single (buildObjectTableBlock w plans sites.objectTable)
  let _ ← target 1 sites.volumeTable fun w =>
    single (.ok (buildVolumeTableBlock w sites.objectTable plans.length sites.volumeTable))
  let _ ← target 2 sites.allocationTree (buildAllocationTreeBlock E · sites.allocationTree)
  let _ ← target 3 sites.refcountTree (buildRefcountTreeBlock E · sites.refcountTree)
  let _ ← target 4 sites.backrefTree (buildBackrefTreeBlock E · journal.sequence sites.backrefTree)
  let _ ← target 5 sites.quotaTree fun w =>
    single (buildQuotaTreeBlock E w sites.journalEnd sites.quotaTree)
  let _ ← target 6 sites.encryptionPolicy fun w =>
    single (buildPolicyBlock .encryptionPolicyTree (encodeEncryptionPayload w.encryptionPolicies)
      sites.encryptionPolicy)
  let _ ← target 7 sites.compressionPolicy fun w =>
    single (buildPolicyBlock .compressionPolicyTree
      (encodeCompressionPayload w.compressionPolicies) sites.compressionPolicy)
  let (hxblobIndex, hxblobMerkle) ← HxM.built (buildHxblobBlocks E sites)
  let _ ← target 8 sites.hxblobIndex fun _ => .ok hxblobIndex
  let _ ← target 9 sites.hxblobMerkle fun _ => single (.ok hxblobMerkle)
  let _ ← target 10 sites.checkpoint fun w =>
    single (.ok (buildCheckpointBlock (w.checkpointAt sites journal.sequence) sites.checkpoint))

/-- Journal the final superblock, then move the root to it through the recovering state. -/
def switchRoot (journal : JournalContext) (sites : Sites) (oldCheckpointLba : Nat) : HxM Unit := do
  let instanceUuid ← Exec.gets (·.superblock.instanceUuid)
  let final := makeSuperblockBlock
    (makeSuperblock instanceUuid journal.sequence sites.checkpoint 0 0 rootStateClean)
  let recovering := makeSuperblockBlock
    (makeSuperblock instanceUuid journal.sequence oldCheckpointLba sites.journalStart
      sites.journalEnd rootStateRecovering)
  writeJournalCopy journal (journal.recordCount - 1) 0 journalRecordFlagFinalSuperblock final
  flushStore
  writeStore 0 recovering
  flushStore
  writeStore 0 final
  flushStore

def applyPlans : Slots ObjectDescriptor → List ObjectPlan → Slots ObjectDescriptor
  | none :: rest, plans => none :: applyPlans rest plans
  | some object :: rest, plan :: plans =>
    some { object with treeLba := plan.treeLba, recordCount := plan.recordCount } :: applyPlans rest plans
  | objects, _ => objects

def adopt (superblock : Superblock) (checkpoint : Checkpoint) (plans : List ObjectPlan)
    (sites : Sites) (retiredStart retiredEnd : Nat) (w : Writer) : Writer :=
  let w := { w with
    superblock
    checkpoint
    systemVolume := { w.systemVolume with
      objectTableLba := sites.objectTable, objectCount := plans.length }
    objects := applyPlans w.objects plans
    nextLba := sites.journalEnd }
  let w := w.promotePendingFree
  let w := if retiredEnd > retiredStart then w.freeRetiredMetadata retiredStart retiredEnd else w
  { w with dirty := false, issued := [] }

def publishCheckpoint (E : Engines) : HxM Nat := do
  ensureMutableV6
  let before ← Exec.gets id
  if !before.dirty then
    flushStore
    return before.checkpoint.sequenceNumber
  let sequence := before.blockGeneration
  let shape ← HxM.ofParsed before.transactionShape
  let targetStart ← reserveTransaction shape.totalBlocks
  let sites ← HxM.ofParsed (before.planSites shape targetStart)
  HxM.ofParsed (before.quotaAllowsMediaBlocks sites.journalEnd)
  let journal : JournalContext :=
    { sequence, recordCount := shape.recordCount, journalStart := sites.journalStart
      checkpointLba := sites.checkpoint }
  let plans ← publishObjectTrees E journal (live before.objects) 0 targetStart
  publishFixedTargets E journal sites plans before.liveObjectCount
  switchRoot journal sites before.superblock.checkpointLba
  let superblock ← HxM.view fun w => readSuperblock w.store 0
  let checkpoint ← HxM.view fun w => readCheckpoint w.store sites.checkpoint sequence
  Exec.modify (adopt superblock checkpoint plans sites before.metadataRegionStart
    (max before.nextLba before.superblock.journalEndLba))
  return sequence

end Writer
end HuesOS.Hxfs
