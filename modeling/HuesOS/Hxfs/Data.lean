import HuesOS.Hxfs.FreeSpace

namespace HuesOS.Hxfs
open Bytes Built Exec QuotaBtree HxM

def validateCompressionPolicy (policy : CompressionPolicy) : Bool :=
  if policy.algorithm = compressionNone then policy.minSizeBytes == 0
  else if policy.algorithm = compressionLz4 ∨ policy.algorithm = compressionZstd then
    policy.minSizeBytes != 0
  else false

def resolveCompressionPolicy (policyId : Nat) (table : List CompressionPolicy) :
    Option CompressionPolicy := table.find? (·.policyId == policyId)

/-- The policy of the object if it has one, else that of the volume; `none` stores plain. -/
def resolveCompressionForObject (volume : VolumeDescriptor) (table : List CompressionPolicy)
    (object : ObjectDescriptor) : Option CompressionPolicy :=
  let policyId := if object.compressionPolicyId ≠ 0 then object.compressionPolicyId
    else volume.compressionPolicyId
  if policyId = 0 then none
  else (resolveCompressionPolicy policyId table).filter (·.algorithm != compressionNone)

inductive CompressOutcome
  | plain
  | compressed (payload : List UInt8) (algorithm payloadCrc32c : Nat)
  deriving DecidableEq

def compressScratch : Nat := blockSize + 512

def compressBlock (E : Engines) (policy : CompressionPolicy) (input : List UInt8) :
    Option CompressOutcome :=
  if !validateCompressionPolicy policy then none
  else if input.isEmpty then some .plain
  else if input.length > blockSize then none
  else if policy.algorithm = compressionNone ∨ input.length < policy.minSizeBytes then some .plain
  else if policy.algorithm = compressionLz4 then
    match E.compressLz4 input compressScratch with
    | some payload =>
      if 0 < payload.length ∧ payload.length < input.length then
        some (.compressed payload compressionLz4 (crc32c payload))
      else some .plain
    | none => some .plain
  else none

/-- Decompress one full block and verify the payload checksum. The output buffer starts zeroed,
and the branch for an uncompressed payload never copies into it. -/
def decompressBlock (E : Engines) (info : ExtentCompressionMeta) (payload : List UInt8) :
    Option (List UInt8) :=
  if payload.length ≠ info.compressedBytes then none
  else
    let output := if info.algorithm = compressionNone then
        if payload.length = blockSize then some (zeros blockSize) else none
      else if info.algorithm = compressionLz4 then
        (E.decompressLz4 payload blockSize).filter (·.length == blockSize)
      else none
    if crc32c payload = info.payloadCrc32c then output else none

inductive ExtentWriteKind
  | plain
  | compressed (info : ExtentCompressionMeta)
  | multiSlot
  deriving DecidableEq

def ExtentWriteKind.shape : ExtentWriteKind → Nat × Nat × Option ExtentCompressionMeta
  | .plain => (0, 1, none)
  | .compressed info => (extentFlagCompressed, 1, some info)
  | .multiSlot => (extentFlagMultiSlot, 2, none)

def ExtentWriteKind.ofCompression : Option ExtentCompressionMeta → ExtentWriteKind
  | some info => .compressed info
  | none => .plain

namespace Writer

def quotaAdmits (w : Writer) (additionalBytes additionalObjects : Nat) : Parsed Unit := do
  let nextObjects := w.liveObjectCount + additionalObjects
  if nextObjects > u64Max then throw .noSpace
  if w.systemVolume.quotaObjects ≠ 0 ∧ nextObjects > w.systemVolume.quotaObjects then
    throw .noSpace
  let nextBytes := w.committedPhysicalBytes + additionalBytes
  if nextBytes > u64Max then throw .outOfRange
  if w.systemVolume.quotaPhysicalBytes ≠ 0 ∧ nextBytes > w.systemVolume.quotaPhysicalBytes then
    throw .noSpace

def quotaAllowsMediaBlocks (w : Writer) (futureNextLba : Nat) : Parsed Unit := do
  if w.systemVolume.quotaPhysicalBytes = 0 then return ()
  if futureNextLba * blockSize > u64Max then throw .outOfRange
  if futureNextLba * blockSize > w.systemVolume.quotaPhysicalBytes then throw .noSpace

def checkVolumeQuota (w : Writer) (deltaBytes deltaObjects : Nat) : Parsed Unit :=
  let quota : VolumeQuota :=
    { maxPhysicalBytes := w.systemVolume.quotaPhysicalBytes
      maxObjects := w.systemVolume.quotaObjects }
  let usage : VolumeUsage :=
    { physicalBytes := w.committedPhysicalBytes, objects := w.systemVolume.objectCount }
  match checkQuota quota usage { physicalBytes := deltaBytes, objects := deltaObjects } with
  | .ok _ => .ok ()
  | .error _ => .error .quotaExceeded

def jobUuid (jobId : Nat) : Uuid := le 8 jobId ++ zeros 8

def checkJobQuota (deltaBytes deltaObjects : Nat) : HxM Unit := fun w =>
  match w.activeJob with
  | none => (.ok (), w)
  | some job =>
    match get (jobUuid job) w.quotaTree with
    | .error _ => (.error (.error .quotaExceeded), w)
    | .ok record =>
      let used := satAdd record.physicalUsedBytes deltaBytes
      let count := satAdd record.objectCount deltaObjects
      if record.physicalLimitBytes ≠ 0 ∧ used > record.physicalLimitBytes then
        (.error (.error .quotaExceeded), w)
      else if record.objectLimit ≠ 0 ∧ count > record.objectLimit then
        (.error (.error .quotaExceeded), w)
      else
        match upsert
          { record with physicalUsedBytes := used, objectCount := count } w.quotaTree with
        | .ok quotaTree => (.ok (), { w with quotaTree })
        | .error _ => (.error (.error .noSpace), w)

def releaseJobBytes (bytes : Nat) (w : Writer) : Writer :=
  if bytes = 0 then w
  else match w.activeJob with
    | none => w
    | some job =>
      match get (jobUuid job) w.quotaTree with
      | .error _ => w
      | .ok record =>
        match upsert
          { record with physicalUsedBytes := record.physicalUsedBytes - bytes } w.quotaTree with
        | .ok quotaTree => { w with quotaTree }
        | .error _ => w

def writeStore (lba : Nat) (block : Block) : HxM Unit := fun w =>
  match w.store.writeBlock lba block with
  | .ok store => (.ok (), { w with store })
  | .error e => (.error (.error e), w)

def flushStore : HxM Unit := fun w =>
  match w.store.flush with
  | .ok store => (.ok (), { w with store })
  | .error e => (.error (.error e), w)

def invalidateCachedRange (start stop : Nat) (w : Writer) : Writer :=
  { w with pageCache := w.pageCache.invalidateRange start stop }

def isBadExtent (w : Writer) (lba : Nat) : Bool := w.badExtents.contains lba

def markBadExtent (lba : Nat) (w : Writer) : Writer :=
  if w.isBadExtent lba || w.badExtents.length ≥ maxBadExtents then w
  else { w with badExtents := w.badExtents ++ [lba] }

def encodeData (E : Engines) (w : Writer) (data : List UInt8) (object : ObjectDescriptor) :
    Parsed (List UInt8 × Option ExtentCompressionMeta) :=
  match resolveCompressionForObject w.systemVolume w.compressionPolicies object with
  | none => .ok (data, none)
  | some policy =>
    match compressBlock E policy (pad blockSize data) with
    | some (.compressed payload algorithm payloadCrc32c) =>
      .ok (payload, some { algorithm, compressedBytes := payload.length, payloadCrc32c })
    | some .plain => .ok (data, none)
    | none => .error .compression

def sealSlot (E : Engines) (w : Writer) (key : List UInt8) (lba generation : Nat)
    (plaintext : List UInt8) : Parsed Block :=
  match E.sealEnvelope key lba generation w.volumeUuid plaintext with
  | some envelope => .ok (Block.ofBytes envelope)
  | none => .error .badBlock

def storeTwoSlots (E : Engines) (key data : List UInt8) (start generation : Nat) : HxM Unit := do
  if data.length < maxPlaintextBytes then Exec.stop (.fault .outOfBounds)
  else do
    let slot0 ← view fun w => sealSlot E w key start generation (data.take maxPlaintextBytes)
    let slot1 ← view fun w =>
      sealSlot E w key (start + 1) generation (data.drop maxPlaintextBytes)
    writeStore start slot0
    writeStore (start + 1) slot1
    modify (invalidateCachedRange start (start + 2))

def slotBlock (E : Engines) (extentKey : Option (List UInt8)) (blockBytes : List UInt8)
    (start generation : Nat) (w : Writer) : Parsed Block :=
  match extentKey with
  | some key => sealSlot E w key start generation blockBytes
  | none => .ok (Block.ofBytes blockBytes)

def storeOneSlot (E : Engines) (extentKey : Option (List UInt8)) (blockBytes : List UInt8)
    (start generation : Nat) : HxM Unit := do
  let block ← view (slotBlock E extentKey blockBytes start generation)
  writeStore start block
  modify (invalidateCachedRange start (start + 1))

def writeDataBlocks (E : Engines) (data : List UInt8) (object : ObjectDescriptor) :
    HxM (Nat × Nat × ExtentWriteKind) := do
  let (blockBytes, compression) ← view fun w => encodeData E w data object
  let extentKey ← gets (·.extentKey)
  let multiSlot := extentKey.isSome && blockBytes.length > maxPlaintextBytes
  view fun w => w.quotaAdmits (if multiSlot then 2 * blockSize else blockSize) 0
  let (start, generation) ← reserveDataBlocks (if multiSlot then 2 else 1)
  if multiSlot then
    storeTwoSlots E (extentKey.getD []) data start generation
    return (start, generation, .multiSlot)
  else
    storeOneSlot E extentKey blockBytes start generation
    return (start, generation, .ofCompression compression)

def decryptExtentBlockIfEncrypted (E : Engines) (w : Writer) (physicalBlock generation : Nat)
    (scratch : Block) : Parsed (List UInt8) :=
  match w.extentKey with
  | none => .ok scratch.bytes
  | some key =>
    match E.openEnvelope key physicalBlock generation w.volumeUuid
      (scratch.bytes.take encryptedBytes) with
    | some plain => .ok (pad blockSize plain)
    | none => .error .compression

def readTwoSlots (E : Engines) (w : Writer) (extent : ExtentRecord) : Built (List UInt8) := do
  if w.extentKey.isNone then fail .badTree
  let slot0 ← ofParsed (w.store.readBlock extent.physicalBlock)
  let second ← ofFault (addU64 extent.physicalBlock 1)
  let slot1 ← ofParsed (w.store.readBlock second)
  let plain0 ← ofParsed
    (decryptExtentBlockIfEncrypted E w extent.physicalBlock extent.generation slot0)
  let plain1 ← ofParsed
    (decryptExtentBlockIfEncrypted E w second extent.generation slot1)
  return plain0.take maxPlaintextBytes ++ plain1.take (blockSize - maxPlaintextBytes)

def decodeExtentBlock (E : Engines) (w : Writer) (extent : ExtentRecord)
    (compression : Option ExtentCompressionMeta) (blockOffset lba : Nat) : Built (List UInt8) := do
  if hasFlag extent.flags extentFlagMultiSlot then
    if blockOffset ≠ 0 then fail .outOfRange
    readTwoSlots E w extent
  else
    let scratch ← ofParsed (w.store.readBlock lba)
    let plain ← ofParsed (decryptExtentBlockIfEncrypted E w lba extent.generation scratch)
    match compression with
    | none => return plain
    | some info =>
      match decompressBlock E info (plain.take info.compressedBytes) with
      | some output => return output
      | none => fail .compression

def readExtentBlock (E : Engines) (extent : ExtentRecord)
    (compression : Option ExtentCompressionMeta) (blockOffset : Nat) : HxM (List UInt8) := do
  let lba ← HxM.ofFault (addU64 extent.physicalBlock blockOffset)
  let hit ← fun w =>
    let (hit, pageCache) := w.pageCache.lookup w.cacheVolumeId lba 0
    (.ok hit, { w with pageCache })
  match hit with
  | some page => return page
  | none =>
    let page ← built fun w => decodeExtentBlock E w extent compression blockOffset lba
    modify fun w => { w with pageCache := w.pageCache.insert w.cacheVolumeId lba 0 page }
    return page

def copyBlocks (E : Engines) (extent : ExtentRecord) (compression : Option ExtentCompressionMeta)
    (start copyEnd : Nat) : Nat → Nat → List UInt8 → HxM (List UInt8)
  | 0, _, out => pure out
  | fuel + 1, copied, out =>
    if copied < copyEnd then do
      let extentBlock := (copied - start) / blockSize
      let within := (copied - start) % blockSize
      let block ← fun w =>
        match readExtentBlock E extent compression extentBlock w with
        | (.ok block, w) => (.ok block, w)
        | (.error (.error e), w) =>
          (.error (.error e), markBadExtent (extent.physicalBlock + extentBlock) w)
        | (.error (.fault f), w) => (.error (.fault f), w)
      let chunk := min (copyEnd - copied) (blockSize - within)
      copyBlocks E extent compression start copyEnd fuel (copied + chunk)
        (splice out copied (Bytes.slice block within chunk))
    else pure out

def copyTwoSlots (E : Engines) (extent : ExtentRecord) (start copyEnd : Nat)
    (out : List UInt8) : HxM (List UInt8) := do
  let key ← gets (·.extentKey)
  require key.isSome .badTree
  let slot0 ← view fun w => w.store.readBlock extent.physicalBlock
  let second ← HxM.ofFault (addU64 extent.physicalBlock 1)
  let slot1 ← view fun w => w.store.readBlock second
  let openSlot (lba : Nat) (slot : Block) : HxM (List UInt8) := fun w =>
    match decryptExtentBlockIfEncrypted E w lba extent.generation slot with
    | .ok plain => (.ok plain, w)
    | .error e => (.error (.error e), markBadExtent lba w)
  let plain0 ← openSlot extent.physicalBlock slot0
  let plain1 ← openSlot second slot1
  let composed := plain0.take maxPlaintextBytes ++ plain1.take (blockSize - maxPlaintextBytes)
  let chunk := min copyEnd (start + blockSize) - start
  return splice out start (composed.take chunk)

def copyExtent (E : Engines) (entry : FixedExtent) (out : List UInt8) : HxM (List UInt8) := do
  let extent := entry.extent
  let start := extent.logicalBlock * blockSize
  let bytes := extent.blockCount * blockSize
  require (start ≤ u64Max && bytes ≤ u64Max && start + bytes ≤ u64Max) .outOfRange
  if start ≥ out.length then return out
  let copyEnd := min (start + bytes) out.length
  if entry.isHole then return splice out start (zeros (copyEnd - start))
  let bad ← gets fun w => w.isBadExtent extent.physicalBlock
  require (!bad) .compression
  if hasFlag extent.flags extentFlagMultiSlot then copyTwoSlots E extent start copyEnd out
  else copyBlocks E extent entry.compression start copyEnd (copyEnd - start) start out

def copyExtentList (E : Engines) : List FixedExtent → List UInt8 → HxM (List UInt8)
  | [], out => pure out
  | entry :: rest, out => do
      let out ← copyExtent E entry out
      copyExtentList E rest out

def extentsOf (w : Writer) (objectId : Nat) : List FixedExtent :=
  (Slots.live w.extents).filter (·.objectId == objectId)

def readFile (E : Engines) (objectId room : Nat) : HxM (List UInt8) := do
  let object ← view (·.object objectId)
  require (object.objectType == objectTypeFile) .wrongType
  require (object.size ≤ room) .bufferTooSmall
  let extents ← gets (·.extentsOf objectId)
  copyExtentList E extents (zeros object.size)

def copyRange (E : Engines) (entry : FixedExtent) (extentStart start copyTo : Nat) :
    Nat → Nat → List UInt8 → HxM (List UInt8)
  | 0, _, out => pure out
  | fuel + 1, cursor, out =>
    if cursor < copyTo then do
      let blockOffset := (cursor - extentStart) / blockSize
      let within := (cursor - extentStart) % blockSize
      let chunk := min (blockSize - within) (copyTo - cursor)
      let block ← readExtentBlock E entry.extent entry.compression blockOffset
      copyRange E entry extentStart start copyTo fuel (cursor + chunk)
        (splice out (cursor - start) (Bytes.slice block within chunk))
    else pure out

def copyRangeList (E : Engines) (start stop : Nat) :
    List FixedExtent → List UInt8 → HxM (List UInt8)
  | [], out => pure out
  | entry :: rest, out => do
      let extentStart ← HxM.ofFault (mulU64 entry.extent.logicalBlock blockSize)
      let extentEnd ← ofOption .outOfRange
        (checkedAdd extentStart (entry.logicalBlocks * blockSize))
      if extentEnd ≤ start ∨ extentStart ≥ stop then copyRangeList E start stop rest out
      else
        let copyFrom := max start extentStart
        let copyTo := min stop extentEnd
        let out ← copyRange E entry extentStart start copyTo (copyTo - copyFrom) copyFrom out
        copyRangeList E start stop rest out

def readFileAt (E : Engines) (objectId offset len : Nat) : HxM (List UInt8) := do
  let object ← view (·.object objectId)
  require (object.objectType == objectTypeFile) .wrongType
  if offset ≥ object.size then return []
  let count := min len (object.size - offset)
  let stop ← ofOption .outOfRange (checkedAdd offset count)
  let extents ← gets (·.extentsOf objectId)
  copyRangeList E offset stop extents (zeros count)

end Writer
end HuesOS.Hxfs
