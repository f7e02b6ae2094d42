import HuesOS.Hxfs.Recovery

namespace HuesOS.Hxfs
open List Bytes
open Bytes (Holds)

section Fields
variable {block : List UInt8} {offset : Nat}
variable {n : Nat}

theorem readField_holds {width : Nat} (h : Holds block offset (le width n))
    (lt : n < 256 ^ width) : readField width block offset = .ok n := by
  rw [readField, h.field lt]

theorem readU16_holds (h : Holds block offset (le 2 n)) (lt : n < 2 ^ 16) :
    readU16 block offset = .ok n := readField_holds h lt

theorem readU32_holds (h : Holds block offset (le 4 n)) (bound : n ≤ u32Max) :
    readU32 block offset = .ok n := readField_holds h (Nat.lt_succ_of_le bound)

theorem readU64_holds (h : Holds block offset (le 8 n)) (bound : n ≤ u64Max) :
    readU64 block offset = .ok n := readField_holds h (Nat.lt_succ_of_le bound)

theorem readBytes_holds {chunk : List UInt8} {width : Nat} {missing : HxfsError}
    (h : Holds block offset chunk) (len : chunk.length = width) :
    readBytes block offset width missing = .ok chunk := by
  rw [readBytes, ← len, h.range]

end Fields

theorem BlockType.code_lt (t : BlockType) : t.code < 30 := by cases t <;> decide

theorem crc32c_le (bytes : List UInt8) : crc32c bytes ≤ u32Max :=
  Nat.le_of_lt_succ (UInt32.toNat_lt _)

theorem Block.ofBytes_bytes {bytes : List UInt8} (le : bytes.length ≤ blockSize) :
    (Block.ofBytes bytes).bytes = bytes ++ zeros (blockSize - bytes.length) := by
  change (bytes ++ zeros blockSize).take blockSize = _
  rw [take_append, take_of_length_le le, zeros, zeros, take_replicate]
  congr 2
  omega

structure BlockHeader.Fits (h : BlockHeader) : Prop where
  blockType : h.blockType ≤ u32Max
  typeVersion : h.typeVersion < 2 ^ 16
  headerBytes : h.headerBytes < 2 ^ 16
  generation : h.generation ≤ u64Max
  ownerId : h.ownerId ≤ u64Max
  selfLba : h.selfLba ≤ u64Max
  crc32c : h.crc32c ≤ u32Max
  payloadBytes : h.payloadBytes ≤ u32Max

theorem encodeHeader_length (h : BlockHeader) : (encodeHeader h).length = headerBytes := by
  simp [encodeHeader, headerBytes]

theorem parseHeader_holds {block : List UInt8} {h : BlockHeader}
    (stored : Holds block 0 (encodeHeader h)) (fits : h.Fits) : parseHeader block = .ok h := by
  simp only [encodeHeader, holds_append, le_length, length_append, Nat.reduceAdd] at stored
  obtain ⟨⟨⟨⟨⟨⟨⟨f0, f4⟩, f6⟩, f8⟩, f16⟩, f24⟩, f32⟩, f36⟩ := stored
  simp only [parseHeader, readU32_holds f0 fits.blockType, readU16_holds f4 fits.typeVersion,
    readU16_holds f6 fits.headerBytes, readU64_holds f8 fits.generation,
    readU64_holds f16 fits.ownerId, readU64_holds f24 fits.selfLba,
    readU32_holds f32 fits.crc32c, readU32_holds f36 fits.payloadBytes]
  rfl

def sealedHeader (header : BlockHeader) (payload : List UInt8) : BlockHeader :=
  { header with
    crc32c := metadataCrc32c (Block.ofBytes (encodeHeader { header with crc32c := 0 } ++ payload)).bytes }

section Sealing
variable {header : BlockHeader} {payload : List UInt8}

theorem sealBlock_bytes (le : payload.length ≤ payloadRoom) :
    (sealBlock header payload).bytes = encodeHeader (sealedHeader header payload) ++
      (payload ++ zeros (payloadRoom - payload.length)) := by
  have room : (encodeHeader (sealedHeader header payload) ++ payload).length ≤ blockSize := by
    rw [length_append, encodeHeader_length]
    exact (Nat.add_le_add_left le _).trans (by decide)
  have width : blockSize - (encodeHeader (sealedHeader header payload) ++ payload).length =
      payloadRoom - payload.length := by
    rw [length_append, encodeHeader_length]
    exact Nat.sub_add_eq _ _ _
  rw [← append_assoc, ← width]
  exact Block.ofBytes_bytes room

/-- The checksum does not depend on the four bytes it is stored in. -/
theorem metadataCrc32c_encodeHeader (crc crc' : Nat) (rest : List UInt8) :
    metadataCrc32c (encodeHeader { header with crc32c := crc } ++ rest) =
      metadataCrc32c (encodeHeader { header with crc32c := crc' } ++ rest) := by
  have parts : ∀ c, ∃ front back : List UInt8, front.length = 32 ∧
      encodeHeader { header with crc32c := c } = front ++ le 4 c ++ back ∧
      front = le 4 header.blockType ++ le 2 header.typeVersion ++
        le 2 header.headerBytes ++ le 8 header.generation ++
        le 8 header.ownerId ++ le 8 header.selfLba ∧
      back = le 4 header.payloadBytes :=
    fun c => ⟨_, _, by simp, rfl, rfl, rfl⟩
  obtain ⟨front, back, width, same, rfl, rfl⟩ := parts crc
  obtain ⟨front', back', width', same', rfl, rfl⟩ := parts crc'
  have cut : ∀ (a b c d : List UInt8), a.length = 32 → b.length = 4 →
      (a ++ b ++ c ++ d).take 32 = a ∧ (a ++ b ++ c ++ d).drop 36 = c ++ d := by
    intro a b c d ha hb
    rw [append_assoc, append_assoc]
    refine ⟨take_left' ha, ?_⟩
    rw [← append_assoc a b]
    exact drop_left' (by rw [length_append, ha, hb])
  rw [same, same', metadataCrc32c, metadataCrc32c,
    (cut _ _ _ rest width (le_length 4 crc)).1, (cut _ _ _ rest width (le_length 4 crc)).2,
    (cut _ _ _ rest width (le_length 4 crc')).1, (cut _ _ _ rest width (le_length 4 crc')).2]

theorem metadataCrc32c_sealBlock (header : BlockHeader) (le : payload.length ≤ payloadRoom) :
    metadataCrc32c (sealBlock header payload).bytes = (sealedHeader header payload).crc32c := by
  have room : (encodeHeader { header with crc32c := 0 } ++ payload).length ≤ blockSize := by
    rw [length_append, encodeHeader_length]
    exact (Nat.add_le_add_left le _).trans (by decide)
  have width : blockSize - (encodeHeader { header with crc32c := 0 } ++ payload).length =
      payloadRoom - payload.length := by
    rw [length_append, encodeHeader_length]
    exact Nat.sub_add_eq _ _ _
  rw [sealBlock_bytes le]
  refine (metadataCrc32c_encodeHeader _ 0 _).trans ?_
  rw [sealedHeader, Block.ofBytes_bytes room, width, append_assoc]

theorem sealBlock_holds (le : payload.length ≤ payloadRoom) :
    Holds (sealBlock header payload).bytes 0 (encodeHeader (sealedHeader header payload)) ∧
      Holds (sealBlock header payload).bytes headerBytes payload := by
  rw [sealBlock_bytes le]
  refine ⟨(holds_self _).append_left, ?_⟩
  have stored := (holds_self payload).append_left (b := zeros (payloadRoom - payload.length))
  have shifted := stored.append_right (a := encodeHeader (sealedHeader header payload))
  rwa [encodeHeader_length] at shifted

structure BlockHeader.Accepted (h : BlockHeader) (lba type owner : Nat) : Prop where
  blockType : h.blockType = type
  typeVersion : h.typeVersion = 1 ∨ h.typeVersion = 6
  headerBytes : h.headerBytes = Hxfs.headerBytes
  selfLba : h.selfLba = lba
  ownerId : h.ownerId = owner
  payloadBytes : h.payloadBytes ≤ payloadRoom

theorem sealedHeader_fits (fits : header.Fits) : (sealedHeader header payload).Fits :=
  { fits with crc32c := crc32c_le _ }

theorem validateMetadataBlock_sealBlock {lba type owner : Nat} (room : payload.length ≤ payloadRoom)
    (fits : header.Fits) (ok : header.Accepted lba type owner) :
    validateMetadataBlock (sealBlock header payload) lba type owner = .ok (sealedHeader header payload) := by
  have version : (header.typeVersion == 1 || header.typeVersion == 6) = true := by
    simpa using ok.typeVersion
  have small : ¬header.payloadBytes > blockSize - headerBytes := not_lt.mpr ok.payloadBytes
  have crc := metadataCrc32c_sealBlock header room
  rw [validateMetadataBlock, parseHeader_holds (sealBlock_holds room).1 (sealedHeader_fits fits)]
  simp only [bind, Except.bind, crc]
  simp [sealedHeader, version, ok.blockType, ok.headerBytes, ok.selfLba, ok.ownerId, small, pure, Except.pure]

end Sealing

def plainHeader (blockType : BlockType) (owner lba payloadBytes : Nat) : BlockHeader :=
  { blockType := blockType.code, typeVersion := 1, headerBytes := headerBytes, generation := 1
    ownerId := owner, selfLba := lba, crc32c := 0, payloadBytes }

variable {lba : Nat} {s : Superblock}

theorem plainHeader_fits {blockType : BlockType} {owner payloadBytes : Nat}
    (owner_fits : owner ≤ u64Max) (lba_fits : lba ≤ u64Max) (room : payloadBytes ≤ payloadRoom) :
    (plainHeader blockType owner lba payloadBytes).Fits where
  blockType := (le_of_lt blockType.code_lt).trans (by decide)
  typeVersion := (by decide : 1 < 2 ^ 16)
  headerBytes := (by decide : headerBytes < 2 ^ 16)
  generation := (by decide : 1 ≤ u64Max)
  ownerId := owner_fits
  selfLba := lba_fits
  crc32c := Nat.zero_le _
  payloadBytes := room.trans (by decide)

section MetadataBlock
variable (blockType : BlockType) (owner lba : Nat) {payload : List UInt8}

theorem validateMetadataBlock_plain {owner lba : Nat} (owner_fits : owner ≤ u64Max)
    (lba_fits : lba ≤ u64Max) (room : payload.length ≤ payloadRoom) :
    ∃ header, validateMetadataBlock (makeMetadataBlock blockType owner lba payload) lba
        blockType.code owner = .ok header ∧ header.headerBytes = headerBytes :=
  ⟨_, validateMetadataBlock_sealBlock room (plainHeader_fits owner_fits lba_fits room)
    ⟨rfl, .inl rfl, rfl, rfl, rfl, room⟩, rfl⟩

theorem makeMetadataBlock_holds (room : payload.length ≤ payloadRoom) :
    Holds (makeMetadataBlock blockType owner lba payload).bytes headerBytes payload :=
  (sealBlock_holds room).2

end MetadataBlock

structure Superblock.Fits (s : Superblock) : Prop where
  instanceUuid : s.instanceUuid.length = 16
  sequenceNumber : s.sequenceNumber ≤ u64Max
  checkpointLba : s.checkpointLba ≤ u64Max
  journalStartLba : s.journalStartLba ≤ u64Max
  journalEndLba : s.journalEndLba ≤ u64Max

structure Superblock.Accepted (s : Superblock) : Prop where
  formatGuid : s.formatGuid = Hxfs.formatGuid
  formatVersion : s.formatVersion = Hxfs.formatVersion
  typeSystemVersion : s.typeSystemVersion = Hxfs.typeSystemVersion
  blockSize : s.blockSize = Hxfs.blockSize
  backup : s.backupCheckpointLba = 0
  compatible : s.compatibleFeatures = 0
  roCompatible : s.roCompatibleFeatures = 0
  incompatible : s.incompatibleFeatures = baseIncompatFeatures ∨
    s.incompatibleFeatures = baseIncompatFeatures ||| featureQuotaEnforcement
  rootState : s.rootState = rootStateClean ∨ s.rootState = rootStateRecovering
  rootFlags : s.rootFlags = 0
  journal : (s.journalStartLba = 0 ↔ s.journalEndLba = 0) ∧ s.journalStartLba ≤ s.journalEndLba

theorem encodeSuperblock_length (guid : s.formatGuid.length = 16)
    (uuid : s.instanceUuid.length = 16) : (encodeSuperblock s).length = 120 := by
  simp [encodeSuperblock, guid, uuid]

theorem parseSuperblock_holds {block : List UInt8} {base : Nat}
    (stored : Holds block base (encodeSuperblock s)) (fits : s.Fits) (ok : s.Accepted) :
    parseSuperblock block base = .ok s := by
  obtain ⟨guid, version, typeSystem, uuid, sequence, size, checkpointLba, backup, journalStart,
    journalEnd, compatible, roCompatible, incompatible, state, flags⟩ := s
  obtain ⟨rfl, rfl, rfl, rfl, rfl, rfl, rfl, known, known_state, rfl, journal⟩ := ok
  dsimp only at known known_state journal
  have uuid16 : uuid.length = 16 := fits.instanceUuid
  have guid16 : formatGuid.length = 16 := rfl
  simp only [encodeSuperblock, holds_append, le_length,
    zeros_length, length_append, uuid16, guid16, Nat.reduceAdd] at stored
  obtain ⟨⟨⟨⟨⟨⟨⟨⟨⟨⟨⟨⟨⟨⟨⟨f0, f16⟩, f20⟩, f24⟩, f40⟩, f48⟩, -⟩, f56⟩, f64⟩, f72⟩, f80⟩, f88⟩, f96⟩,
    f104⟩, f112⟩, f116⟩ := stored
  have state_fits : state ≤ u32Max := by
    rcases known_state with h | h <;> rw [h] <;> decide
  have features_fit : incompatible ≤ u64Max := by
    rcases known with h | h <;> rw [h] <;> decide
  simp only [parseSuperblock, readBytes_holds f0 guid16, readU32_holds f16 (by decide),
    readU32_holds f20 (by decide), readBytes_holds f24 uuid16,
    readU64_holds f40 fits.sequenceNumber, readU32_holds f48 (by decide),
    readU64_holds f56 fits.checkpointLba, readU64_holds f64 (by decide),
    readU64_holds f72 fits.journalStartLba, readU64_holds f80 fits.journalEndLba,
    readU64_holds f88 (by decide), readU64_holds f96 (by decide),
    readU64_holds f104 features_fit, readU32_holds f112 state_fits,
    readU32_holds f116 (by decide), bind, Except.bind]
  have no_fault : ¬(!(state == rootStateClean || state == rootStateRecovering) ||
      (0 : Nat) != 0) = true := by
    rcases known_state with h | h <;> rw [h] <;> decide
  have paired : ¬((journalStart == 0) != (journalEnd == 0) ||
      decide (journalStart > journalEnd)) = true := by
    by_cases none_left : journalStart = 0
    · simp [none_left, journal.1.mp none_left]
    · simp [none_left, mt journal.1.mpr none_left, journal.2]
  have features : ¬(0 ||| supportedCompatFeatures != supportedCompatFeatures ||
      0 ||| supportedRoCompatFeatures != supportedRoCompatFeatures ||
      incompatible ||| supportedIncompatFeatures != supportedIncompatFeatures ||
      incompatible &&&
          (if (formatVersion == formatVersion) = true then baseIncompatFeatures
            else legacyBaseIncompatFeatures) !=
        (if (formatVersion == formatVersion) = true then baseIncompatFeatures
          else legacyBaseIncompatFeatures)) = true := by
    rcases known with h | h <;> rw [h] <;> decide
  rw [if_neg (by decide), if_neg (by decide), if_neg features, if_neg no_fault, if_neg paired]
  rfl

theorem readSuperblock_make {store : Store}
    (stored : store.readBlock 0 = .ok (makeSuperblockBlock s)) (fits : s.Fits)
    (ok : s.Accepted) : readSuperblock store 0 = .ok s := by
  have room : (encodeSuperblock s).length ≤ payloadRoom := by
    rw [encodeSuperblock_length (by rw [ok.formatGuid]; rfl) fits.instanceUuid]
    decide
  obtain ⟨header, valid, base⟩ := validateMetadataBlock_plain .superblock (Nat.zero_le _) (Nat.zero_le _) room
  have parsed := parseSuperblock_holds (makeMetadataBlock_holds .superblock 0 0 room) fits ok
  rw [readSuperblock, stored]
  simp only [bind, Except.bind, makeSuperblockBlock, valid, base, parsed]

structure JournalRecord.Fits (r : JournalRecord) : Prop where
  sequenceNumber : r.sequenceNumber ≤ u64Max
  recordIndex : r.recordIndex ≤ u32Max
  recordCount : r.recordCount ≠ 0 ∧ r.recordCount ≤ u32Max
  targetLba : r.targetLba ≤ u64Max
  dataLba : r.dataLba ≤ u64Max
  dataCrc32c : r.dataCrc32c ≤ u32Max
  flags : r.flags ≤ u32Max
  finalCheckpointLba : r.finalCheckpointLba ≤ u64Max

theorem readJournalRecord_build {store : Store} {r : JournalRecord} (fits : r.Fits)
    (lba_fits : lba ≤ u64Max) (stored : store.readBlock lba = .ok (buildJournalRecordBlock r lba)) :
    readJournalRecord store lba r.sequenceNumber = .ok r := by
  have room : (encodeJournalRecord r).length ≤ payloadRoom := by
    simp [encodeJournalRecord]
    decide
  obtain ⟨header, valid, base⟩ := validateMetadataBlock_plain .journalRecord (Nat.zero_le _) lba_fits room
  have payload := makeMetadataBlock_holds .journalRecord 0 lba room
  rw [buildJournalRecordBlock] at stored
  generalize makeMetadataBlock .journalRecord 0 lba (encodeJournalRecord r) = block at stored valid payload
  simp only [encodeJournalRecord, holds_append, le_length, length_append, Nat.reduceAdd] at payload
  obtain ⟨⟨⟨⟨⟨⟨⟨f0, f8⟩, f12⟩, f16⟩, f24⟩, f32⟩, f36⟩, f40⟩ := payload
  rw [readJournalRecord, stored]
  simp only [bind, Except.bind, valid, base,
    readU64_holds f0 fits.sequenceNumber, readU32_holds f8 fits.recordIndex,
    readU32_holds f12 fits.recordCount.2, readU64_holds f16 fits.targetLba,
    readU64_holds f24 fits.dataLba, readU32_holds f32 fits.dataCrc32c,
    readU32_holds f36 fits.flags, readU64_holds f40 fits.finalCheckpointLba]
  rw [if_neg (by simp [fits.recordCount.1])]
  rfl

end HuesOS.Hxfs
