import HuesOS.Hxfs.Roots

namespace HuesOS.Hxfs

inductive ReplayOutcome
  | clean
  | replayed (sequenceNumber records finalCheckpointLba : Nat)
  deriving DecidableEq

def readJournalRecord (store : Store) (lba sequenceNumber : Nat) : Parsed JournalRecord := do
  let block ← store.readBlock lba
  let header ← validateMetadataBlock block lba BlockType.journalRecord.code 0
  let base := header.headerBytes
  let record : JournalRecord := {
    sequenceNumber := ← readU64 block.bytes base
    recordIndex := ← readU32 block.bytes (base + 8)
    recordCount := ← readU32 block.bytes (base + 12)
    targetLba := ← readU64 block.bytes (base + 16)
    dataLba := ← readU64 block.bytes (base + 24)
    dataCrc32c := ← readU32 block.bytes (base + 32)
    flags := ← readU32 block.bytes (base + 36)
    finalCheckpointLba := ← readU64 block.bytes (base + 40) }
  if record.sequenceNumber ≠ sequenceNumber ∨ record.recordCount = 0 then throw .badJournal
  return record

abbrev StoreM := Exec Store HxfsError

def StoreM.ofParsed {α : Type} (f : Store → Parsed α) : StoreM α := fun store => (f store, store)

def StoreM.update (f : Store → Parsed Store) : StoreM Unit := fun store =>
  match f store with
  | .ok store' => (.ok (), store')
  | .error e => (.error e, store)

def checkedRecord (store : Store) (superblock : Superblock) (recordCount index : Nat) :
    Parsed (JournalRecord × Block) := do
  let metadataLba := superblock.journalStartLba + index * 2
  let record ← readJournalRecord store metadataLba superblock.sequenceNumber
  if record.recordIndex ≠ index ∨ record.recordCount ≠ recordCount then throw .badJournal
  if record.dataLba ≠ metadataLba + 1 then throw .badJournal
  let isFinal := hasFlag record.flags journalRecordFlagFinalSuperblock
  if isFinal ≠ (index + 1 == recordCount) then throw .badJournal
  if record.flags ||| journalRecordFlagFinalSuperblock ≠ journalRecordFlagFinalSuperblock then
    throw .badJournal
  let data ← store.readBlock record.dataLba
  if crc32c data.bytes ≠ record.dataCrc32c then throw .badChecksum
  if isFinal && record.targetLba != 0 then throw .badJournal
  return (record, data)

def replayFrom (superblock : Superblock) (recordCount : Nat) : Nat → Nat → Nat → StoreM Nat
  | 0, _, expected => pure expected
  | left + 1, index, expected => do
      let (record, data) ← StoreM.ofParsed fun store =>
        checkedRecord store superblock recordCount index
      StoreM.update fun store => store.writeBlock record.targetLba data
      if hasFlag record.flags journalRecordFlagFinalSuperblock then
        StoreM.update Store.flush
        replayFrom superblock recordCount left (index + 1) record.finalCheckpointLba
      else replayFrom superblock recordCount left (index + 1) expected

def replayJournal : StoreM ReplayOutcome := do
  let superblock ← StoreM.ofParsed fun store => readSuperblock store 0
  if superblock.rootState = rootStateClean ∧ superblock.journalStartLba = 0 ∧
      superblock.journalEndLba = 0 then
    return .clean
  if superblock.rootState ≠ rootStateRecovering ∨ superblock.journalStartLba = 0 ∨
      superblock.journalEndLba ≤ superblock.journalStartLba then
    Exec.stop .badJournal
  let span := superblock.journalEndLba - superblock.journalStartLba
  if span % 2 ≠ 0 ∨ span / 2 > u32Max ∨ span / 2 = 0 then Exec.stop .badJournal
  let expected ← replayFrom superblock (span / 2) (span / 2) 0 0
  if expected = 0 then Exec.stop .badJournal
  StoreM.update Store.flush
  return .replayed superblock.sequenceNumber (span / 2) expected

end HuesOS.Hxfs
