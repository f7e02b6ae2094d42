import HuesOS.Hxfs.Build

namespace HuesOS.Hxfs

def readSuperblock (store : Store) (lba : Nat) : Parsed Superblock := do
  let block ← store.readBlock lba
  let header ← validateMetadataBlock block lba BlockType.superblock.code 0
  parseSuperblock block.bytes header.headerBytes

def readCheckpoint (store : Store) (lba sequenceNumber : Nat) : Parsed Checkpoint := do
  let block ← store.readBlock lba
  let header ← validateMetadataBlock block lba BlockType.checkpoint.code 0
  parseCheckpoint block.bytes header.headerBytes sequenceNumber

end HuesOS.Hxfs
