import HuesOS.Hxfs.Format
import HuesOS.Lib.ExchangeSort
import HuesOS.Lib.Slots

/-! The fixed-capacity record tables of the writer: allocation, refcount, back-reference, quota and
blob index. -/

namespace HuesOS.Hxfs
open Slots

section Sorting
variable {α : Type}

def shouldSwap (gt : α → α → Bool) : Option α → Option α → Bool
  | none, some _ => true
  | some a, some b => gt a b
  | _, none => false

def sortTable (gt : α → α → Bool) (table : Slots α) : Slots α :=
  ExchangeSort.sort (shouldSwap gt) table

end Sorting

def validRange (start blocks : Nat) : Bool := blocks != 0 && start + blocks ≤ u64Max

inductive AllocTreeError
  | full | overlap | badRange
  deriving DecidableEq

/-- The writer's records are all allocated; `state` is its on-disk code. -/
structure AllocationRecord where
  startBlock : Nat
  blockCount : Nat
  state : Nat
  ownerObjectId : Nat
  deriving DecidableEq

def allocationStateAllocated : Nat := 2

def rangesAscend : Nat → List (Nat × Nat) → Bool
  | _, [] => true
  | previousEnd, (start, blocks) :: rest =>
    validRange start blocks && previousEnd ≤ start && rangesAscend (start + blocks) rest

namespace AllocationBtree

def insert (record : AllocationRecord) (table : Slots AllocationRecord) :
    Except AllocTreeError (Slots AllocationRecord) :=
  if !validRange record.startBlock record.blockCount then .error .badRange
  else if (live table).any fun existing =>
      record.startBlock < existing.startBlock + existing.blockCount &&
        existing.startBlock < record.startBlock + record.blockCount then .error .overlap
  else match put record table with
    | none => .error .full
    | some table' => .ok (sortTable (fun a b => a.startBlock > b.startBlock) table')

def validate (table : Slots AllocationRecord) : Bool :=
  rangesAscend 0 ((live table).map fun r => (r.startBlock, r.blockCount))

end AllocationBtree

inductive RefTreeError
  | full | badRange | overlap | notFound | underflow
  deriving DecidableEq

structure RefcountRecord where
  startBlock : Nat
  blockCount : Nat
  refcount : Nat
  deriving DecidableEq

namespace RefcountBtree

def insert (record : RefcountRecord) (table : Slots RefcountRecord) :
    Except RefTreeError (Slots RefcountRecord) :=
  if !validRange record.startBlock record.blockCount || record.refcount == 0 then .error .badRange
  else if (live table).any fun existing =>
      record.startBlock < existing.startBlock + existing.blockCount &&
        existing.startBlock < record.startBlock + record.blockCount then .error .overlap
  else match put record table with
    | none => .error .full
    | some table' => .ok (sortTable (fun a b => a.startBlock > b.startBlock) table')

def isExact (startBlock blockCount : Nat) (record : RefcountRecord) : Bool :=
  record.startBlock == startBlock && record.blockCount == blockCount

def findExact (startBlock blockCount : Nat) (table : Slots RefcountRecord) :
    Except RefTreeError RefcountRecord :=
  if !validRange startBlock blockCount then .error .badRange
  else match (live table).find? (isExact startBlock blockCount) with
    | none => .error .notFound
    | some record => .ok record

def increment (startBlock blockCount : Nat) (table : Slots RefcountRecord) :
    Except RefTreeError (Nat × Slots RefcountRecord) := do
  let record ← findExact startBlock blockCount table
  if record.refcount + 1 > u32Max then throw .badRange
  return (record.refcount + 1,
    modifyFirst (isExact startBlock blockCount) (fun r => { r with refcount := record.refcount + 1 }) table)

def decrement (startBlock blockCount : Nat) (table : Slots RefcountRecord) :
    Except RefTreeError (Nat × Slots RefcountRecord) := do
  let record ← findExact startBlock blockCount table
  if record.refcount == 0 then throw .underflow
  let next := record.refcount - 1
  if next == 0 then return (next, dropFirst (isExact startBlock blockCount) table)
  else
    return (next, modifyFirst (isExact startBlock blockCount) (fun r => { r with refcount := next }) table)

def validate (table : Slots RefcountRecord) : Bool :=
  (live table).all (·.refcount != 0) &&
    rangesAscend 0 ((live table).map fun r => (r.startBlock, r.blockCount))

def covers (startBlock blockCount : Nat) (table : Slots RefcountRecord) : Bool :=
  (live table).any fun record =>
    record.startBlock < min (startBlock + blockCount) u64Max &&
      startBlock < min (record.startBlock + record.blockCount) u64Max

end RefcountBtree

/-- The writer's records all have the object-data kind; `kind` is its on-disk code. -/
structure BackrefRecord where
  startBlock : Nat
  blockCount : Nat
  ownerObjectId : Nat
  kind : Nat
  generation : Nat
  deriving DecidableEq

def backrefKindObjectData : Nat := 1

namespace BackrefBtree

def insert (record : BackrefRecord) (table : Slots BackrefRecord) :
    Except RefTreeError (Slots BackrefRecord) :=
  if !validRange record.startBlock record.blockCount then .error .badRange
  else match put record table with
    | none => .error .full
    | some table' =>
      .ok (sortTable (fun a b => a.startBlock > b.startBlock ||
        (a.startBlock == b.startBlock && a.ownerObjectId > b.ownerObjectId)) table')

def startsAscend : Nat → List BackrefRecord → Bool
  | _, [] => true
  | previous, r :: rest =>
    validRange r.startBlock r.blockCount && previous ≤ r.startBlock && startsAscend r.startBlock rest

def validate (table : Slots BackrefRecord) : Bool := startsAscend 0 (live table)

end BackrefBtree

inductive QuotaTreeError
  | full | notFound | exceeded | badRecord
  deriving DecidableEq

structure QuotaRecord where
  volumeUuid : Uuid
  physicalLimitBytes : Nat
  physicalUsedBytes : Nat
  objectLimit : Nat
  objectCount : Nat
  deriving DecidableEq

def QuotaRecord.withinLimits (record : QuotaRecord) : Bool :=
  (record.physicalLimitBytes == 0 || record.physicalUsedBytes ≤ record.physicalLimitBytes) &&
    (record.objectLimit == 0 || record.objectCount ≤ record.objectLimit)

namespace QuotaBtree

def keys (table : Slots QuotaRecord) : List Uuid := (live table).map (·.volumeUuid)

def uuidGt (a b : QuotaRecord) : Bool := Bytes.lt b.volumeUuid a.volumeUuid

def upsert (record : QuotaRecord) (table : Slots QuotaRecord) :
    Except QuotaTreeError (Slots QuotaRecord) :=
  if !record.withinLimits then .error .exceeded
  else if (live table).any (·.volumeUuid == record.volumeUuid) then
    .ok (sortTable uuidGt (modifyFirst (·.volumeUuid == record.volumeUuid) (fun _ => record) table))
  else match put record table with
    | none => .error .full
    | some table' => .ok (sortTable uuidGt table')

def get (volumeUuid : Uuid) (table : Slots QuotaRecord) : Except QuotaTreeError QuotaRecord :=
  match (live table).find? (·.volumeUuid == volumeUuid) with
  | none => .error .notFound
  | some record => .ok record

def strictlySorted : Option Uuid → List QuotaRecord → Bool
  | _, [] => true
  | previous, record :: rest =>
    (match previous with
      | none => true
      | some uuid => Bytes.lt uuid record.volumeUuid) &&
    strictlySorted (some record.volumeUuid) rest

def validate (table : Slots QuotaRecord) : Bool :=
  (live table).all QuotaRecord.withinLimits && strictlySorted none (live table)

end QuotaBtree

structure VolumeQuota where
  maxPhysicalBytes : Nat
  maxObjects : Nat
  deriving DecidableEq

structure VolumeUsage where
  physicalBytes : Nat
  objects : Nat
  deriving DecidableEq

inductive QuotaError
  | physicalBytes | objects | overflow
  deriving DecidableEq

def checkQuota (quota : VolumeQuota) (usage delta : VolumeUsage) :
    Except QuotaError VolumeUsage :=
  let physical := usage.physicalBytes + delta.physicalBytes
  let objects := usage.objects + delta.objects
  if physical > u64Max || objects > u64Max then .error .overflow
  else if quota.maxPhysicalBytes != 0 && physical > quota.maxPhysicalBytes then
    .error .physicalBytes
  else if quota.maxObjects != 0 && objects > quota.maxObjects then .error .objects
  else .ok { physicalBytes := physical, objects }

inductive HxblobTreeError
  | full | duplicateHash | notFound | badRecord
  deriving DecidableEq

structure HxblobIndexRecord where
  hash : List UInt8
  objectId : Nat
  size : Nat
  merkleRoot : List UInt8
  merkleTreeLba : Nat
  refcount : Nat
  flags : Nat
  deriving DecidableEq

def validateIndexRecord (record : HxblobIndexRecord) : Bool :=
  record.objectId != 0 && record.size != 0 && record.flags == 0

namespace HxblobIndexTree

def insert (record : HxblobIndexRecord) (table : Slots HxblobIndexRecord) :
    Except HxblobTreeError (Slots HxblobIndexRecord) :=
  if !validateIndexRecord record then .error .badRecord
  else match (live table).find? (·.hash == record.hash) with
    | some existing => if existing = record then .ok table else .error .duplicateHash
    | none => match put record table with
        | none => .error .full
        | some table' => .ok (sortTable (fun a b => Bytes.lt b.hash a.hash) table')

def lookup (hash : List UInt8) (table : Slots HxblobIndexRecord) :
    Except HxblobTreeError HxblobIndexRecord :=
  match (live table).find? (·.hash == hash) with
  | none => .error .notFound
  | some record => .ok record

end HxblobIndexTree
end HuesOS.Hxfs
