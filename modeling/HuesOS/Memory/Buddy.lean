import HuesOS.Lib.Exec
import Mathlib

/-! The buddy allocator: a free list for each order, with blocks split on allocation and merged
with their buddies on release. Free lists are threaded through the free blocks themselves, which
nothing else writes to, so each is the list of its nodes. -/

namespace HuesOS.Memory
open Exec

inductive AllocError
  | outOfMemory
  | invalidSize
  | invalidPointer
  | doubleFree
  | corruptedFreeList
  deriving DecidableEq

/-- Memory handed to the constructor: pages of a power of two that can hold a free-list link, in a
range of the address space that starts at a page, and the number of orders. -/
structure Heap where
  baseAddr : Nat
  totalPages : Nat
  pageShift : Nat
  orders : Nat
  orders_pos : 0 < orders
  holds_link : 3 ≤ pageShift
  base_pos : 0 < baseAddr
  base_aligned : 2 ^ pageShift ∣ baseAddr
  end_fits : baseAddr + totalPages * 2 ^ pageShift < 2 ^ 64
  block_fits : 2 ^ (orders - 1) * 2 ^ pageShift < 2 ^ 64

structure Buddy where
  freeLists : Nat → List Nat

abbrev BuddyM := Exec Buddy AllocError

namespace Heap
variable (h : Heap)

def pageSize : Nat := 2 ^ h.pageShift

def heapEnd : Nat := h.baseAddr + h.totalPages * h.pageSize

def orderBytes (order : Nat) : Nat := 2 ^ order * h.pageSize

def ValidFreeNode (order address : Nat) : Prop :=
  address ≠ 0 ∧ order < h.orders ∧ h.baseAddr ≤ address ∧ address < h.heapEnd ∧
    h.orderBytes order ∣ address - h.baseAddr ∧ 8 ∣ address

instance (order address : Nat) : Decidable (h.ValidFreeNode order address) := by
  unfold ValidFreeNode
  infer_instance

/-- The address of the buddy; a sum past the end of the address space wraps. -/
def buddyPtr (order ptr : Nat) : Nat :=
  (h.baseAddr + ((ptr - h.baseAddr) ^^^ h.orderBytes order)) % 2 ^ 64

end Heap

def orderFor (pages : Nat) : Nat := Nat.clog 2 pages

namespace Buddy

def empty : Buddy := ⟨fun _ => []⟩

def setList (s : Buddy) (order : Nat) (nodes : List Nat) : Buddy :=
  ⟨Function.update s.freeLists order nodes⟩

def push (s : Buddy) (order ptr : Nat) : Buddy := s.setList order (ptr :: s.freeLists order)

variable (h : Heap)

def pushFreeBlockChecked (order ptr : Nat) : BuddyM Unit := fun s =>
  if h.ValidFreeNode order ptr then (.ok (), s.push order ptr) else (.error .invalidPointer, s)

def popFreeBlock (order : Nat) : BuddyM (Option Nat) := fun s =>
  match s.freeLists order with
  | [] => (.ok none, s)
  | ptr :: rest =>
    if h.ValidFreeNode order ptr then (.ok (some ptr), s.setList order rest)
    else (.error .corruptedFreeList, s)

/-- The largest order up to `order` of a block at `offset` with `remaining` pages left. -/
def pickOrder (offset remaining : Nat) : Nat → Nat
  | 0 => 0
  | order + 1 =>
    if remaining < 2 ^ (order + 1) ∨ offset % 2 ^ (order + 1) ≠ 0 then
      pickOrder offset remaining order
    else order + 1

def fill (offset remaining : Nat) : BuddyM Unit :=
  if remaining = 0 then pure ()
  else do
    let order := pickOrder offset remaining (h.orders - 1)
    pushFreeBlockChecked h order (h.baseAddr + offset * h.pageSize)
    fill (offset + 2 ^ order) (remaining - 2 ^ order)
termination_by remaining
decreasing_by
  have := Nat.two_pow_pos (pickOrder offset remaining (h.orders - 1))
  omega

def new : Except AllocError Unit × Buddy := fill h 0 h.totalPages empty

def splitDown (order : Nat) : Nat → Nat → BuddyM Nat
  | 0, current => pure current
  | n + 1, current => do
      pushFreeBlockChecked h (order + n) current
      splitDown order n (current + h.orderBytes (order + n))

def allocateFrom (order : Nat) : Nat → BuddyM Nat
  | 0 => stop .outOfMemory
  | left + 1 => do
      match ← popFreeBlock h (h.orders - (left + 1)) with
      | some block => splitDown h order (h.orders - (left + 1) - order) block
      | none => allocateFrom order left

def allocate (pages : Nat) : BuddyM Nat :=
  if pages = 0 then stop .invalidSize
  else if h.orders ≤ orderFor pages then stop .outOfMemory
  else allocateFrom h (orderFor pages) (h.orders - orderFor pages)

/-- Whether a node of the list passes the test; every node met is validated first. -/
def anyNode (order : Nat) (test : Nat → Bool) : List Nat → Except AllocError Bool
  | [] => .ok false
  | node :: rest =>
    if h.ValidFreeNode order node then
      if test node then .ok true else anyNode order test rest
    else .error .corruptedFreeList

def rangeIsFreeFrom (s : Buddy) (ptr bytes : Nat) : Nat → Except AllocError Bool
  | 0 => .ok false
  | left + 1 =>
    let order := h.orders - (left + 1)
    match anyNode h order
        (fun node => node ≤ ptr ∧ ptr + bytes ≤ node + h.orderBytes order) (s.freeLists order) with
    | .error e => .error e
    | .ok true => .ok true
    | .ok false => rangeIsFreeFrom s ptr bytes left

def rangeIsFree (ptr bytes : Nat) : BuddyM Bool := fun s =>
  (rangeIsFreeFrom h s ptr bytes h.orders, s)

def isBlockFree (order ptr : Nat) : BuddyM Bool := fun s =>
  (anyNode h order (· = ptr) (s.freeLists order), s)

def removeNode (order ptr : Nat) : List Nat → Except AllocError (List Nat)
  | [] => .error .corruptedFreeList
  | node :: rest =>
    if h.ValidFreeNode order node then
      if node = ptr then .ok rest
      else
        match removeNode order ptr rest with
        | .error e => .error e
        | .ok rest => .ok (node :: rest)
    else .error .corruptedFreeList

def removeFreeBlock (order ptr : Nat) : BuddyM Unit := fun s =>
  match removeNode h order ptr (s.freeLists order) with
  | .error e => (.error e, s)
  | .ok nodes => (.ok (), s.setList order nodes)

def coalesce : Nat → Nat → BuddyM (Nat × Nat)
  | 0, ptr => pure (h.orders - 1, ptr)
  | left + 1, ptr => do
      let order := h.orders - 1 - (left + 1)
      let buddy := h.buddyPtr order ptr
      if ← isBlockFree h order buddy then
        removeFreeBlock h order buddy
        coalesce left (min ptr buddy)
      else pure (order, ptr)

def deallocate (ptr pages : Nat) : BuddyM Unit :=
  let order := orderFor pages
  if pages = 0 ∨ h.orders ≤ order then stop .invalidSize
  else if 2 ^ 64 ≤ ptr + h.orderBytes order then stop .invalidPointer
  else if ptr < h.baseAddr ∨ h.heapEnd < ptr + h.orderBytes order ∨
      ¬h.orderBytes order ∣ ptr - h.baseAddr then stop .invalidPointer
  else do
    if ← rangeIsFree h ptr (h.orderBytes order) then stop .doubleFree
    else
      let (order, ptr) ← coalesce h (h.orders - 1 - order) ptr
      pushFreeBlockChecked h order ptr

end Buddy

inductive Call
  | allocate (pages : Nat)
  | deallocate (ptr pages : Nat)
  deriving DecidableEq

/-- The allocator with the blocks handed out and not released: address and order. -/
structure BuddyLedger where
  buddy : Buddy
  live : List (Nat × Nat)

def BuddyLedger.call (h : Heap) (s : BuddyLedger) : Call → Except AllocError Nat × BuddyLedger
  | .allocate pages =>
    match Buddy.allocate h pages s.buddy with
    | (.ok ptr, buddy) => (.ok ptr, ⟨buddy, (ptr, orderFor pages) :: s.live⟩)
    | (.error e, buddy) => (.error e, ⟨buddy, s.live⟩)
  | .deallocate ptr pages =>
    match Buddy.deallocate h ptr pages s.buddy with
    | (.ok _, buddy) => (.ok ptr, ⟨buddy, s.live.erase (ptr, orderFor pages)⟩)
    | (.error e, buddy) => (.error e, ⟨buddy, s.live⟩)

def BuddyLedger.new (h : Heap) : BuddyLedger := ⟨(Buddy.new h).2, []⟩

end HuesOS.Memory
