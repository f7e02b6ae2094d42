import HuesOS.Hxfs.Engines

/-! Encoding and parsing of metadata blocks and of the records they hold. -/

namespace HuesOS.Hxfs
open Bytes

abbrev Parsed (α : Type) := Except HxfsError α

def readField (width : Nat) (bytes : List UInt8) (offset : Nat) : Parsed Nat :=
  match Bytes.field? bytes offset width with
  | some n => .ok n
  | none => .error .badTree

def readU16 := readField 2
def readU32 := readField 4
def readU64 := readField 8

def readBytes (bytes : List UInt8) (offset width : Nat) (missing : HxfsError) :
    Parsed (List UInt8) :=
  match Bytes.range? bytes offset width with
  | some found => .ok found
  | none => .error missing

def encodeHeader (h : BlockHeader) : List UInt8 :=
  le 4 h.blockType ++ le 2 h.typeVersion ++ le 2 h.headerBytes ++
    le 8 h.generation ++ le 8 h.ownerId ++ le 8 h.selfLba ++
    le 4 h.crc32c ++ le 4 h.payloadBytes

def parseHeader (block : List UInt8) : Parsed BlockHeader := do
  return {
    blockType := ← readU32 block 0
    typeVersion := ← readU16 block 4
    headerBytes := ← readU16 block 6
    generation := ← readU64 block 8
    ownerId := ← readU64 block 16
    selfLba := ← readU64 block 24
    crc32c := ← readU32 block 32
    payloadBytes := ← readU32 block 36 }

def sealBlock (header : BlockHeader) (payload : List UInt8) : Block :=
  let unsealed := Block.ofBytes (encodeHeader { header with crc32c := 0 } ++ payload)
  Block.ofBytes (encodeHeader { header with crc32c := metadataCrc32c unsealed.bytes } ++ payload)

def makeMetadataBlock (blockType : BlockType) (owner lba : Nat) (payload : List UInt8) : Block :=
  sealBlock { blockType := blockType.code, typeVersion := 1, headerBytes := headerBytes,
              generation := 1, ownerId := owner, selfLba := lba, crc32c := 0,
              payloadBytes := payload.length } payload

def makeEncryptedMetadataBlock (E : Engines) (blockType : BlockType) (owner lba generation : Nat)
    (plaintext metadataKey : List UInt8) (volumeUuid : Uuid) : Option Block :=
  (E.sealEnvelope metadataKey lba generation volumeUuid plaintext).map fun envelope =>
    sealBlock { blockType := blockType.code, typeVersion := 6, headerBytes := headerBytes,
                generation := generation, ownerId := owner, selfLba := lba, crc32c := 0,
                payloadBytes := encryptedBytes } envelope

def isEncryptedBlockType : BlockType → Bool
  | .directory | .extentTable | .extentTableV2 | .extentTreeRoot | .extentTreeLeaf
  | .allocationTree | .allocationTreeRoot | .allocationTreeLeaf
  | .refcountTree | .refcountTreeRoot | .refcountTreeLeaf
  | .backrefTree | .backrefTreeRoot | .backrefTreeLeaf | .quotaTree => true
  | _ => false

def validateMetadataBlock (block : Block) (expectedLba expectedType expectedOwner : Nat) :
    Parsed BlockHeader := do
  let header ← parseHeader block.bytes
  let typeVersionOk := header.typeVersion == 1 || header.typeVersion == 6
  if header.blockType != expectedType || !typeVersionOk || header.headerBytes != headerBytes ||
      header.selfLba != expectedLba || header.ownerId != expectedOwner ||
      header.payloadBytes > blockSize - headerBytes then
    throw .badBlock
  if metadataCrc32c block.bytes != header.crc32c then throw .badChecksum
  return header

def encodeSuperblock (s : Superblock) : List UInt8 :=
  s.formatGuid ++ le 4 s.formatVersion ++ le 4 s.typeSystemVersion ++
    s.instanceUuid ++ le 8 s.sequenceNumber ++ le 4 s.blockSize ++ zeros 4 ++
    le 8 s.checkpointLba ++ le 8 s.backupCheckpointLba ++
    le 8 s.journalStartLba ++ le 8 s.journalEndLba ++
    le 8 s.compatibleFeatures ++ le 8 s.roCompatibleFeatures ++
    le 8 s.incompatibleFeatures ++ le 4 s.rootState ++ le 4 s.rootFlags

def parseSuperblock (block : List UInt8) (base : Nat) : Parsed Superblock := do
  let guid ← readBytes block base 16 .badBlock
  if guid != formatGuid then throw .unsupportedFormat
  let s : Superblock := {
    formatGuid := guid
    formatVersion := ← readU32 block (base + 16)
    typeSystemVersion := ← readU32 block (base + 20)
    instanceUuid := ← readBytes block (base + 24) 16 .badBlock
    sequenceNumber := ← readU64 block (base + 40)
    blockSize := ← readU32 block (base + 48)
    checkpointLba := ← readU64 block (base + 56)
    backupCheckpointLba := ← readU64 block (base + 64)
    journalStartLba := ← readU64 block (base + 72)
    journalEndLba := ← readU64 block (base + 80)
    compatibleFeatures := ← readU64 block (base + 88)
    roCompatibleFeatures := ← readU64 block (base + 96)
    incompatibleFeatures := ← readU64 block (base + 104)
    rootState := ← readU32 block (base + 112)
    rootFlags := ← readU32 block (base + 116) }
  let versionPairValid :=
    (s.formatVersion == formatVersion && s.typeSystemVersion == typeSystemVersion) ||
      (s.formatVersion == legacyFormatVersion && s.typeSystemVersion == legacyTypeSystemVersion)
  if !versionPairValid || s.blockSize != blockSize then throw .unsupportedFormat
  let requiredIncompat :=
    if s.formatVersion == formatVersion then baseIncompatFeatures else legacyBaseIncompatFeatures
  if s.compatibleFeatures ||| supportedCompatFeatures != supportedCompatFeatures ||
      s.roCompatibleFeatures ||| supportedRoCompatFeatures != supportedRoCompatFeatures ||
      s.incompatibleFeatures ||| supportedIncompatFeatures != supportedIncompatFeatures ||
      s.incompatibleFeatures &&& requiredIncompat != requiredIncompat then
    throw .unsupportedFormat
  if !(s.rootState == rootStateClean || s.rootState == rootStateRecovering) ||
      s.rootFlags != 0 then
    throw .badBlock
  if ((s.journalStartLba == 0) != (s.journalEndLba == 0)) ||
      s.journalStartLba > s.journalEndLba then
    throw .badJournal
  return s

def encodeCheckpoint (c : Checkpoint) : List UInt8 :=
  le 8 c.sequenceNumber ++ le 8 c.volumeTableLba ++ le 4 c.volumeCount ++
    zeros 4 ++ c.systemVolumeUuid ++ le 8 c.allocationTreeLba ++
    le 8 c.refcountTreeLba ++ le 8 c.backrefTreeLba ++ le 8 c.quotaTreeLba ++
    le 8 c.encryptionPolicyTreeLba ++ le 8 c.compressionPolicyTreeLba ++
    le 8 c.hxblobIndexTreeLba ++ le 8 c.hxblobMerkleTreeLba ++
    le 8 c.virtualVolumeTreeLba ++ le 8 c.gptSummaryLba ++
    le 8 c.installManifestLba

def parseCheckpoint (block : List UInt8) (base sequenceNumber : Nat) : Parsed Checkpoint := do
  let checkpointSequence ← readU64 block base
  if checkpointSequence != sequenceNumber then throw .badTree
  return {
    sequenceNumber := checkpointSequence
    volumeTableLba := ← readU64 block (base + 8)
    volumeCount := ← readU32 block (base + 16)
    systemVolumeUuid := ← readBytes block (base + 24) 16 .badBlock
    allocationTreeLba := ← readU64 block (base + 40)
    refcountTreeLba := ← readU64 block (base + 48)
    backrefTreeLba := ← readU64 block (base + 56)
    quotaTreeLba := ← readU64 block (base + 64)
    encryptionPolicyTreeLba := ← readU64 block (base + 72)
    compressionPolicyTreeLba := ← readU64 block (base + 80)
    hxblobIndexTreeLba := ← readU64 block (base + 88)
    hxblobMerkleTreeLba := ← readU64 block (base + 96)
    virtualVolumeTreeLba := ← readU64 block (base + 104)
    gptSummaryLba := ← readU64 block (base + 112)
    installManifestLba := ← readU64 block (base + 120) }

def encodeVolumeRecord (v : VolumeDescriptor) : List UInt8 :=
  v.uuid ++ le 8 v.rootObjectId ++ le 8 v.objectTableLba ++
    le 4 v.objectCount ++ le 4 v.flags ++ le 4 v.encryptionPolicyId ++
    le 4 v.compressionPolicyId ++ le 8 v.quotaPhysicalBytes ++
    le 8 v.quotaObjects ++ zeros 32

def encodeObjectRecord (o : ObjectDescriptor) : List UInt8 :=
  le 8 o.objectId ++ le 4 o.objectType ++ le 4 o.typeVersion ++
    le 8 o.size ++ le 8 o.modifiedUnixNs ++ le 4 o.encryptionPolicyId ++
    le 4 o.compressionPolicyId ++ le 8 o.treeLba ++ le 4 o.recordCount ++
    le 4 o.flags ++ zeros 8

def isContinuation (b : UInt8) : Bool := 0x80 ≤ b && b ≤ 0xbf

def isUtf8 : List UInt8 → Bool
  | [] => true
  | b0 :: rest =>
    if b0 < 0x80 then isUtf8 rest
    else match rest with
      | [] => false
      | b1 :: rest1 =>
        if 0xc2 ≤ b0 && b0 ≤ 0xdf then isContinuation b1 && isUtf8 rest1
        else match rest1 with
          | [] => false
          | b2 :: rest2 =>
            if 0xe0 ≤ b0 && b0 ≤ 0xef then
              isContinuation b1 && (b0 != 0xe0 || 0xa0 ≤ b1) && (b0 != 0xed || b1 ≤ 0x9f) &&
                isContinuation b2 && isUtf8 rest2
            else match rest2 with
              | [] => false
              | b3 :: rest3 =>
                0xf0 ≤ b0 && b0 ≤ 0xf4 && isContinuation b1 &&
                  (b0 != 0xf0 || 0x90 ≤ b1) && (b0 != 0xf4 || b1 ≤ 0x8f) &&
                  isContinuation b2 && isContinuation b3 && isUtf8 rest3

def encodeDirRecord (objectId : Nat) (body : List UInt8) : List UInt8 :=
  le 8 objectId ++ le 2 body.length ++ pad (dirRecordBytes - 10) body

def encryptedDirentMinBody : Nat := 12 + 16

def buildDirentAad (parentDirId fileId : Nat) : List UInt8 :=
  le 8 parentDirId ++ le 8 fileId ++ zeros 8

/-- The body of an encrypted directory entry: nonce, ciphertext and tag. -/
def encryptDirentName (E : Engines) (name : List UInt8) (parentDirId fileId : Nat)
    (metadataKey : List UInt8) : Option (List UInt8) :=
  if name.length > maxNameBytes - encryptedDirentMinBody then none
  else
    let nonce := le 8 parentDirId ++ le 4 fileId
    some (nonce ++ E.encrypt metadataKey nonce (buildDirentAad parentDirId fileId) name)

def encodeExtentRecord (e : ExtentRecord) : List UInt8 :=
  le 8 e.logicalBlock ++ le 8 e.physicalBlock ++ le 4 e.blockCount ++ le 4 e.flags ++ zeros 8

def encodeExtentRecordV2 (e : ExtentRecord) (compression : Option ExtentCompressionMeta) :
    List UInt8 :=
  le 8 e.logicalBlock ++ le 8 e.physicalBlock ++ le 4 e.blockCount ++
    le 4 e.flags ++
    (match compression with
      | some c => le 4 c.algorithm ++ le 4 c.compressedBytes ++ le 4 c.payloadCrc32c
      | none => zeros 12) ++
    zeros 4 ++ le 8 e.generation

def encodeTreeRoot (magic : Nat) (leaves : List Nat) : List UInt8 :=
  le 4 magic ++ le 4 treeRootVersion ++ le 4 leaves.length ++ zeros 4 ++ (leaves.map (le 8)).flatten

end HuesOS.Hxfs
