import HuesOS.Hxfs.Writer

namespace HuesOS.Hxfs
open RefcountBtree

def sortRanges (ranges : List FreeRange) : List FreeRange :=
  ranges.insertionSort (fun a b => a.startBlock ≤ b.startBlock)

def mergeFrom (current : FreeRange) : List FreeRange → List FreeRange
  | [] => [current]
  | next :: rest =>
    if current.endBlock = next.startBlock then
      mergeFrom { current with blockCount := satAdd current.blockCount next.blockCount } rest
    else current :: mergeFrom next rest

def mergeTouching : List FreeRange → List FreeRange
  | [] => []
  | range :: rest => mergeFrom range rest

def packed {α : Type} (capacity : Nat) (records : List α) : Slots α :=
  records.map some ++ List.replicate (capacity - records.length) none

def coalesced (pool : Slots FreeRange) : Slots FreeRange :=
  packed pool.length (mergeTouching (sortRanges (Slots.live pool)))

def recordRange (range : FreeRange) (table : Slots FreeRange) : Slots FreeRange :=
  (Slots.put range table).getD table

def takeFrom (count : Nat) : Slots FreeRange → Option (Nat × Slots FreeRange)
  | [] => none
  | none :: rest => (takeFrom count rest).map fun (start, rest') => (start, none :: rest')
  | some range :: rest =>
    if range.blockCount ≥ count then
      let left := if range.blockCount = count then none
        else some { startBlock := satAdd range.startBlock count
                    blockCount := range.blockCount - count : FreeRange }
      some (range.startBlock, left :: rest)
    else (takeFrom count rest).map fun (start, rest') => (start, some range :: rest')

namespace Writer

def reservedBlockFloor : Nat := 1

def metadataRoots (w : Writer) : List Nat :=
  [w.superblock.checkpointLba, w.superblock.backupCheckpointLba, w.superblock.journalStartLba,
    w.systemVolume.objectTableLba, w.checkpoint.volumeTableLba, w.checkpoint.allocationTreeLba,
    w.checkpoint.refcountTreeLba, w.checkpoint.backrefTreeLba, w.checkpoint.quotaTreeLba,
    w.checkpoint.encryptionPolicyTreeLba, w.checkpoint.compressionPolicyTreeLba,
    w.checkpoint.hxblobIndexTreeLba, w.checkpoint.hxblobMerkleTreeLba,
    w.checkpoint.virtualVolumeTreeLba, w.checkpoint.gptSummaryLba, w.checkpoint.installManifestLba]

def metadataRegionStart (w : Writer) : Nat :=
  (w.metadataRoots ++ (Slots.live w.objects).map (·.treeLba)).foldl
    (fun ceiling lba => if lba ≠ 0 ∧ lba < ceiling then lba else ceiling) w.nextLba

/-- Put a range no live extent uses any more into quarantine. Pinned ranges, ranges below the
floor and ranges reaching into the metadata region are left alone. -/
def freeExtentRange (startBlock blockCount : Nat) (w : Writer) : Writer :=
  if blockCount = 0 ∨ startBlock = 0 then w
  else
    let stop := satAdd startBlock blockCount
    let w := { w with pageCache := w.pageCache.invalidateRange startBlock stop }
    if covers startBlock blockCount w.snapshotRefs || startBlock < reservedBlockFloor
        || stop > w.metadataRegionStart then w
    else { w with pendingFree := recordRange { startBlock, blockCount } w.pendingFree }

/-- Free and remove the extents of a file; the bytes of the blocks it held. -/
def clearExtents (objectId : Nat) (w : Writer) : Nat × Writer :=
  let owned := (Slots.live w.extents).filter fun e => e.objectId == objectId && !e.isHole
  let blocks := owned.foldl (fun total e => satAdd total e.logicalBlocks) 0
  let freed := owned.foldl (fun w e => freeExtentRange e.extent.physicalBlock e.logicalBlocks w) w
  (min (blocks * blockSize) u64Max,
    { freed with extents := Slots.dropAll (·.objectId == objectId) w.extents })

def physicalRange (entry : FixedExtent) : FreeRange :=
  { startBlock := entry.extent.physicalBlock, blockCount := entry.logicalBlocks }

def nextLive (ranges : List FreeRange) (cursor stop : Nat) : Nat × Nat :=
  ranges.foldl (fun found range =>
    if range.endBlock > cursor ∧ range.startBlock < found.1 ∧ range.startBlock < stop then
      (max range.startBlock cursor, range.endBlock)
    else found) (stop, stop)

def freeRetiredFrom (ranges : List FreeRange) (stop : Nat) : Nat → Nat → Writer → Writer
  | 0, _, w => w
  | fuel + 1, cursor, w =>
    if cursor < stop then
      let live := nextLive ranges cursor stop
      let w := if live.1 > cursor then freeExtentRange cursor (live.1 - cursor) w else w
      freeRetiredFrom ranges stop fuel (if live.2 > cursor then live.2 else satAdd cursor 1) w
    else w

/-- Quarantine what no live extent uses of a metadata region that a checkpoint retired. The
cursor grows in every turn, so the length of the region bounds the turns. -/
def freeRetiredMetadata (start stop : Nat) (w : Writer) : Writer :=
  freeRetiredFrom (((Slots.live w.extents).filter (!·.isHole)).map physicalRange) stop
    (stop - start) start w

def promotePendingFree (w : Writer) : Writer :=
  let pool := (Slots.live w.pendingFree).foldl (fun pool range => recordRange range pool) w.freeSpace
  { w with freeSpace := coalesced pool, pendingFree := Slots.empty w.pendingFree.length }

def blockGeneration (w : Writer) : Nat := max (satAdd w.superblock.sequenceNumber 1) 1

def reserveDataBlocks (count : Nat) : HxM (Nat × Nat) := fun w =>
  if count = 0 then (.error (.error .outOfRange), w)
  else match takeFrom count w.freeSpace with
    | some (start, pool) =>
      (.ok (start, w.blockGeneration), { w with
        freeSpace := pool
        issued := w.issued ++ [{ startBlock := start, blockCount := count }] })
    | none => match checkedAdd w.nextLba count with
        | some next =>
          (.ok (w.nextLba, w.blockGeneration), { w with
            nextLba := next
            issued := w.issued ++ [{ startBlock := w.nextLba, blockCount := count }] })
        | none => (.error (.error .noSpace), w)

def pinExtent (entry : FixedExtent) (refs : Slots RefcountRecord) :
    Parsed (Slots RefcountRecord) :=
  match RefcountBtree.increment entry.extent.physicalBlock entry.extent.blockCount refs with
  | .ok (_, refs') => .ok refs'
  | .error .notFound =>
    match RefcountBtree.insert
      { startBlock := entry.extent.physicalBlock, blockCount := entry.extent.blockCount
        refcount := 1 } refs with
    | .ok refs' => .ok refs'
    | .error _ => .error .badTree
  | .error _ => .error .badTree

def pinAll : List FixedExtent → HxM Nat
  | [] => pure 0
  | entry :: rest => do
      let refs ← HxM.view fun w => pinExtent entry w.snapshotRefs
      Exec.modify fun w => { w with snapshotRefs := refs }
      let pinned ← pinAll rest
      return pinned + 1

def retainExtentsForSnapshot : HxM Nat := do
  ensureMutableV6
  let live ← Exec.gets fun w => (Slots.live w.extents).filter (!·.isHole)
  let pinned ← pinAll live
  let refs ← Exec.gets (·.snapshotRefs)
  HxM.require (validate refs) .badTree
  return pinned

def extentIsLive (startBlock blockCount : Nat) (w : Writer) : Bool :=
  (Slots.live w.extents).any fun e =>
    !e.isHole && e.extent.physicalBlock == startBlock && e.extent.blockCount == blockCount

def releaseOne (start count : Nat) : HxM Nat := fun w =>
  let freeUnlessLive (w : Writer) : Except Stop Nat × Writer :=
    if extentIsLive start count w then (.ok 0, w) else (.ok 1, freeExtentRange start count w)
  match decrement start count w.snapshotRefs with
  | .ok (next, refs) =>
    let w := { w with snapshotRefs := refs }
    if next = 0 then freeUnlessLive w else (.ok 0, w)
  | .error .notFound => freeUnlessLive w
  | .error _ => (.error (.error .badTree), w)

def releaseAll : List (Nat × Nat) → HxM Nat
  | [] => pure 0
  | (start, count) :: rest => do
      let first ← releaseOne start count
      let others ← releaseAll rest
      return first + others

def releaseExtentsForSnapshot (pinned : List (Nat × Nat)) : HxM Nat := do
  ensureMutableV6
  let released ← releaseAll pinned
  let refs ← Exec.gets (·.snapshotRefs)
  HxM.require (validate refs) .badTree
  return released

end Writer
end HuesOS.Hxfs
