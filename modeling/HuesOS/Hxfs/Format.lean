import HuesOS.Lib.Bytes

/-! HxFS on-disk constants, decoded records and the error vocabulary shared by the read-only
reader and the fixed-capacity writer. Machine integers are natural numbers; the width of a
field is enforced where it is encoded, decoded or added to. -/

namespace HuesOS.Hxfs

def formatGuid : List UInt8 :=
  [0x48, 0x78, 0x66, 0x73, 0x2d, 0x48, 0x75, 0x65, 0x73, 0x4f, 0x53, 0x2d, 0x76, 0x31, 0x00, 0x01]

def formatVersion : Nat := 7
def typeSystemVersion : Nat := 7
def legacyFormatVersion : Nat := 6
def legacyTypeSystemVersion : Nat := 6

def blockSize : Nat := 4096
def headerBytes : Nat := 40
def maxNameBytes : Nat := 255

def u64Max : Nat := 2 ^ 64 - 1
def u32Max : Nat := 2 ^ 32 - 1

def satAdd (a b : Nat) : Nat := min (a + b) u64Max

def checkedAdd (a b : Nat) : Option Nat := if a + b ≤ u64Max then some (a + b) else none

inductive BlockType
  | superblock | checkpoint | volumeTable | objectTable | directory | extentTable
  | journalRecord | allocationTree | refcountTree | backrefTree | quotaTree
  | encryptionPolicyTree | compressionPolicyTree | hxblobIndexTree | hxblobMerkleTree
  | virtualVolumeTree | gptSummary | installManifest
  | extentTableV2 | extentTreeRoot | extentTreeLeaf
  | allocationTreeRoot | allocationTreeLeaf | refcountTreeRoot | refcountTreeLeaf
  | backrefTreeRoot | backrefTreeLeaf | hxblobIndexTreeRoot | hxblobIndexTreeLeaf
  deriving DecidableEq

def BlockType.code : BlockType → Nat
  | superblock => 1
  | checkpoint => 2
  | volumeTable => 3
  | objectTable => 4
  | directory => 5
  | extentTable => 6
  | journalRecord => 7
  | allocationTree => 8
  | refcountTree => 9
  | backrefTree => 10
  | quotaTree => 11
  | encryptionPolicyTree => 12
  | compressionPolicyTree => 13
  | hxblobIndexTree => 14
  | hxblobMerkleTree => 15
  | virtualVolumeTree => 16
  | gptSummary => 17
  | installManifest => 18
  | extentTableV2 => 19
  | extentTreeRoot => 20
  | extentTreeLeaf => 21
  | allocationTreeRoot => 22
  | allocationTreeLeaf => 23
  | refcountTreeRoot => 24
  | refcountTreeLeaf => 25
  | backrefTreeRoot => 26
  | backrefTreeLeaf => 27
  | hxblobIndexTreeRoot => 28
  | hxblobIndexTreeLeaf => 29

def extentTreeRootMagic : Nat := 0x45585452
def allocTreeRootMagic : Nat := 0x414c4c54
def refcountTreeRootMagic : Nat := 0x52454652
def backrefTreeRootMagic : Nat := 0x4241434b
def hxblobTreeRootMagic : Nat := 0x48424c42
def treeRootVersion : Nat := 1

def extentLeafRecords : Nat := 83
def allocLeafRecords : Nat := 126
def refcountLeafRecords : Nat := 169
def backrefLeafRecords : Nat := 101
def hxblobLeafRecords : Nat := 42
def hxblobRecordBytes : Nat := 96

def objectRecordBytes : Nat := 64
def dirRecordBytes : Nat := 272
def extentRecordBytes : Nat := 32
def extentRecordBytesV2 : Nat := 48

def featureV2RootStore : Nat := 1
def featureMutableJournal : Nat := 2
def featureV3StorageTrees : Nat := 4
def featureQuotaEnforcement : Nat := 8
def featureV4PolicyAndBlobTrees : Nat := 16
def featureHxblobIndex : Nat := 32
def featureV5VolumeTopology : Nat := 64
def featureV6EncryptedMetadata : Nat := 128
def featureV6PolicyTablesAndGeneration : Nat := 256

def legacyBaseIncompatFeatures : Nat :=
  featureV2RootStore ||| featureMutableJournal ||| featureV3StorageTrees |||
    featureV4PolicyAndBlobTrees ||| featureV5VolumeTopology ||| featureV6PolicyTablesAndGeneration

def baseIncompatFeatures : Nat := legacyBaseIncompatFeatures ||| featureV6PolicyTablesAndGeneration

def supportedIncompatFeatures : Nat :=
  baseIncompatFeatures ||| featureQuotaEnforcement ||| featureHxblobIndex |||
    featureV6EncryptedMetadata ||| featureV6PolicyTablesAndGeneration

def supportedCompatFeatures : Nat := 0
def supportedRoCompatFeatures : Nat := 0

def rootStateClean : Nat := 1
def rootStateRecovering : Nat := 2

def journalRecordFlagFinalSuperblock : Nat := 1

def objectTypeFile : Nat := 1
def objectTypeDirectory : Nat := 2
def objectTypeSymlink : Nat := 3

def volumeFlagSystem : Nat := 1

def extentFlagHole : Nat := 1
def extentFlagCompressed : Nat := 4
def extentFlagMultiSlot : Nat := 8

def compressionNone : Nat := 0
def compressionLz4 : Nat := 1
def compressionZstd : Nat := 2

def algorithmAesXts : Nat := 1
def dataUnitBytes4k : Nat := 4096

def hasFlag (flags flag : Nat) : Bool := flags &&& flag != 0

inductive HxfsError
  | io | bufferTooSmall | outOfRange | badChecksum | badBlock | unsupportedFormat
  | encryptedVolumeKeyUnavailable | encryptedPolicyUnknown | encryptedPolicyInvalid
  | compressionPolicyInvalid | legacyReadOnly | badTree | notFound | wrongType | badName
  | needsRecovery | badJournal | alreadyExists | noSpace | directoryNotEmpty | unsupported
  | compression | quotaExceeded | refcountZero
  deriving DecidableEq

abbrev Uuid := List UInt8

structure Block where
  bytes : List UInt8
  size_eq : bytes.length = blockSize
  deriving DecidableEq

def Block.ofBytes (bytes : List UInt8) : Block where
  bytes := (bytes ++ Bytes.zeros blockSize).take blockSize
  size_eq := by
    rw [List.length_take, List.length_append, Bytes.zeros_length]
    omega

def Block.zero : Block := Block.ofBytes []

structure BlockHeader where
  blockType : Nat
  typeVersion : Nat
  headerBytes : Nat
  generation : Nat
  ownerId : Nat
  selfLba : Nat
  crc32c : Nat
  payloadBytes : Nat
  deriving DecidableEq

structure Superblock where
  formatGuid : List UInt8
  formatVersion : Nat
  typeSystemVersion : Nat
  instanceUuid : Uuid
  sequenceNumber : Nat
  blockSize : Nat
  checkpointLba : Nat
  backupCheckpointLba : Nat
  journalStartLba : Nat
  journalEndLba : Nat
  compatibleFeatures : Nat
  roCompatibleFeatures : Nat
  incompatibleFeatures : Nat
  rootState : Nat
  rootFlags : Nat
  deriving DecidableEq

structure JournalRecord where
  sequenceNumber : Nat
  recordIndex : Nat
  recordCount : Nat
  targetLba : Nat
  dataLba : Nat
  dataCrc32c : Nat
  flags : Nat
  finalCheckpointLba : Nat
  deriving DecidableEq

structure Checkpoint where
  sequenceNumber : Nat
  volumeTableLba : Nat
  volumeCount : Nat
  systemVolumeUuid : Uuid
  allocationTreeLba : Nat
  refcountTreeLba : Nat
  backrefTreeLba : Nat
  quotaTreeLba : Nat
  encryptionPolicyTreeLba : Nat
  compressionPolicyTreeLba : Nat
  hxblobIndexTreeLba : Nat
  hxblobMerkleTreeLba : Nat
  virtualVolumeTreeLba : Nat
  gptSummaryLba : Nat
  installManifestLba : Nat
  deriving DecidableEq

structure VolumeDescriptor where
  uuid : Uuid
  rootObjectId : Nat
  objectTableLba : Nat
  objectCount : Nat
  flags : Nat
  encryptionPolicyId : Nat
  compressionPolicyId : Nat
  quotaPhysicalBytes : Nat
  quotaObjects : Nat
  deriving DecidableEq

/-- The timestamp is kept as its raw 64-bit pattern: no operation interprets it. -/
structure ObjectDescriptor where
  objectId : Nat
  objectType : Nat
  typeVersion : Nat
  size : Nat
  modifiedUnixNs : Nat
  encryptionPolicyId : Nat
  compressionPolicyId : Nat
  treeLba : Nat
  recordCount : Nat
  flags : Nat
  deriving DecidableEq

structure ExtentRecord where
  logicalBlock : Nat
  physicalBlock : Nat
  blockCount : Nat
  flags : Nat
  generation : Nat
  deriving DecidableEq

structure ExtentCompressionMeta where
  algorithm : Nat
  compressedBytes : Nat
  payloadCrc32c : Nat
  deriving DecidableEq

structure CompressionPolicy where
  policyId : Nat
  algorithm : Nat
  minSizeBytes : Nat
  deriving DecidableEq

/-- The provider of the source is an enumeration with one member, so it carries no data. -/
structure EncryptionPolicy where
  policyId : Nat
  algorithm : Nat
  dataUnitBytes : Nat
  deriving DecidableEq

end HuesOS.Hxfs
