import HuesOS.Hxfs.Codec
import HuesOS.Lib.Slots

namespace HuesOS.Hxfs
open Bytes

inductive StoreEvent
  | write (lba : Nat) (block : Block)
  | flush
  deriving DecidableEq

/-- A device of `size` blocks. `unreadable` and `unwritable` are the blocks at which a request
fails, `flushFaults` tells for each coming flush whether it fails, and `log` records the
completed writes and flushes, oldest first. -/
structure Store where
  size : Nat
  block : Nat → Block
  unreadable : Nat → Bool
  unwritable : Nat → Bool
  flushFaults : List Bool
  log : List StoreEvent

namespace Store

def readBlock (store : Store) (lba : Nat) : Parsed Block :=
  if store.size ≤ lba then .error .outOfRange
  else if store.unreadable lba then .error .io
  else .ok (store.block lba)

def writeBlock (store : Store) (lba : Nat) (block : Block) : Parsed Store :=
  if store.size ≤ lba then .error .outOfRange
  else if store.unwritable lba then .error .io
  else .ok { store with
    block := fun at_ => if at_ = lba then block else store.block at_
    log := store.log ++ [.write lba block] }

def flush (store : Store) : Parsed Store :=
  match store.flushFaults with
  | [] => .ok { store with log := store.log ++ [.flush] }
  | fails :: rest =>
    if fails then .error .io
    else .ok { store with flushFaults := rest, log := store.log ++ [.flush] }

def FaultFree (store : Store) : Prop :=
  (∀ lba, store.unreadable lba = false) ∧ (∀ lba, store.unwritable lba = false) ∧
    store.flushFaults = []

def Writable (store : Store) (lba : Nat) : Prop := lba < store.size ∧ store.unwritable lba = false

def written (store : Store) (lba : Nat) (block : Block) : Store :=
  { store with
    block := fun at_ => if at_ = lba then block else store.block at_
    log := store.log ++ [.write lba block] }

theorem writeBlock_cases (store : Store) (lba : Nat) (block : Block) :
    (store.Writable lba ∧ store.writeBlock lba block = .ok (store.written lba block)) ∨
      (¬store.Writable lba ∧ ∃ e, store.writeBlock lba block = .error e) := by
  unfold writeBlock Writable
  by_cases inside : store.size ≤ lba
  · rw [if_pos inside]
    exact .inr ⟨by omega, _, rfl⟩
  rw [if_neg inside]
  cases store.unwritable lba with
  | true => exact .inr ⟨by simp, _, rfl⟩
  | false => exact .inl ⟨⟨by omega, rfl⟩, rfl⟩

theorem readBlock_written {store : Store} {lba other : Nat} {block : Block}
    (ne : other ≠ lba) :
    (store.written lba block).readBlock other = store.readBlock other := by
  unfold readBlock written
  dsimp only
  rw [if_neg ne]

end Store

def pageCacheSlots : Nat := 256

structure CachedPage where
  volumeId : Nat
  extentPhysicalBlock : Nat
  pageIndex : Nat
  pageCrc : Nat
  page : List UInt8
  deriving DecidableEq

structure PageCache where
  slots : List (Option CachedPage)
  hand : Nat

namespace PageCache

def empty : PageCache := { slots := List.replicate pageCacheSlots none, hand := 0 }

def hashKey (volumeId extentPhysicalBlock pageIndex : Nat) : Nat :=
  let mix (h : UInt64) (byte : UInt8) : UInt64 := (h ^^^ byte.toUInt64) * 0x100000001b3
  let keyBytes := le 8 volumeId ++ le 8 extentPhysicalBlock ++ le 4 pageIndex
  (keyBytes.foldl mix 0xcbf29ce484222325).toNat ^^^ crc32c (le 8 volumeId)

def probes (cache : PageCache) (volumeId extentPhysicalBlock pageIndex : Nat) : List Nat :=
  let n := cache.slots.length
  let start := hashKey volumeId extentPhysicalBlock pageIndex % n
  (List.range (min n 8)).map fun step => (start + step) % n

def matchesKey (volumeId extentPhysicalBlock pageIndex : Nat) (entry : CachedPage) : Bool :=
  entry.volumeId == volumeId && entry.extentPhysicalBlock == extentPhysicalBlock &&
    entry.pageIndex == pageIndex

/-- Walk the probe sequence; a page whose checksum no longer matches is dropped. -/
def lookupAt (cache : PageCache) (volumeId extentPhysicalBlock pageIndex : Nat) :
    List Nat → Option (List UInt8) × PageCache
  | [] => (none, cache)
  | index :: rest =>
    match cache.slots[index]? with
    | some (some entry) =>
      if matchesKey volumeId extentPhysicalBlock pageIndex entry then
        if crc32c entry.page = entry.pageCrc then (some entry.page, cache)
        else (none, { cache with slots := cache.slots.set index none })
      else lookupAt cache volumeId extentPhysicalBlock pageIndex rest
    | _ => (none, cache)

def lookup (cache : PageCache) (volumeId extentPhysicalBlock pageIndex : Nat) :
    Option (List UInt8) × PageCache :=
  lookupAt cache volumeId extentPhysicalBlock pageIndex
    (cache.probes volumeId extentPhysicalBlock pageIndex)

def insertTarget (cache : PageCache) (volumeId extentPhysicalBlock pageIndex : Nat) :
    List Nat → Option Nat
  | [] => none
  | index :: rest =>
    match cache.slots[index]? with
    | some (some entry) =>
      if matchesKey volumeId extentPhysicalBlock pageIndex entry then some index
      else insertTarget cache volumeId extentPhysicalBlock pageIndex rest
    | _ => some index

def insert (cache : PageCache) (volumeId extentPhysicalBlock pageIndex : Nat)
    (page : List UInt8) : PageCache :=
  let entry : CachedPage :=
    { volumeId, extentPhysicalBlock, pageIndex, pageCrc := crc32c page, page }
  match insertTarget cache volumeId extentPhysicalBlock pageIndex
      (cache.probes volumeId extentPhysicalBlock pageIndex) with
  | some index => { cache with slots := cache.slots.set index (some entry) }
  | none =>
    let n := cache.slots.length
    { slots := cache.slots.set (cache.hand % n) (some entry), hand := (cache.hand + 1) % n }

def invalidateRange (cache : PageCache) (start stop : Nat) : PageCache :=
  { cache with
    slots := Slots.dropAll
      (fun entry => start ≤ entry.extentPhysicalBlock && entry.extentPhysicalBlock < stop)
      cache.slots }

end PageCache
end HuesOS.Hxfs
