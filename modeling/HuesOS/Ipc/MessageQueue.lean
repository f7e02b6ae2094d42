import HuesOS.Object.Registry
import HuesOS.Quota.Tree

/-! The bounded queue of messages behind one end of a channel. -/

namespace HuesOS.Ipc
open Quotas Object

/-- The contents of a growable array, whose length is bounded by the address space. -/
abbrev Vec (α : Type) := { items : List α // items.length < 2 ^ 63 }

theorem nil_fits {α : Type} : ([] : List α).length < 2 ^ 63 := by simp

/-- Items kept in place when there are few of them, and on the heap otherwise. -/
inductive Stored (α : Type) (capacity : Nat)
  | inline (len : Fin (capacity + 1)) (items : Vector α capacity)
  | heap (items : Vec α)

namespace Stored
variable {α : Type} {capacity : Nat}

def len : Stored α capacity → Nat
  | .inline len _ => len
  | .heap items => items.1.length

def asList : Stored α capacity → List α
  | .inline len items => items.toList.take len
  | .heap items => items.1

def fromVec (blank : α) (data : Vec α) : Stored α capacity :=
  if few : data.1.length ≤ capacity then
    .inline ⟨data.1.length, Nat.lt_succ_of_le few⟩ (Vector.ofFn fun i => data.1.getD i blank)
  else .heap data

theorem length_asList (s : Stored α capacity) : s.asList.length = s.len := by
  cases s with
  | inline len items =>
    have := len.isLt
    simp only [asList, Stored.len, List.length_take, Vector.length_toList]
    omega
  | heap items => rfl

theorem asList_fromVec (blank : α) (data : Vec α) :
    (fromVec blank data : Stored α capacity).asList = data.1 := by
  unfold fromVec
  split
  next few =>
    apply List.ext_getElem
    · simp only [asList, List.length_take, Vector.length_toList]
      omega
    intro i inside here
    simp [asList, List.getElem_take, here]
  · rfl

end Stored

def channelInlineBytes : Nat := 64
def channelInlineHandles : Nat := 2

def emptyHandle : Handle := ⟨0, 0⟩

abbrev ChannelMessageData := Stored UInt8 channelInlineBytes

abbrev ChannelMessageHandles := Stored Handle channelInlineHandles

structure ChannelMessage where
  seq : UInt64
  data : ChannelMessageData
  handles : ChannelMessageHandles

namespace ChannelMessage

def new (data : Vec UInt8) (handles : Vec Handle) : ChannelMessage :=
  ⟨0, .fromVec 0 data, .fromVec emptyHandle handles⟩

def dataLen (m : ChannelMessage) : Nat := m.data.len

def handleCount (m : ChannelMessage) : Nat := m.handles.len

end ChannelMessage

def maxChannelQueueMessages : Nat := 256
def maxChannelQueueBytes : UInt64 := 1024 * 1024
def maxChannelQueueHandles : UInt64 := 256

def channelLimits : Limits
  | .memory => maxChannelQueueBytes
  | .handles => maxChannelQueueHandles
  | .cpuTicks => unlimited

/-- The storage is reserved when the queue is made and never grows. -/
structure MessageQueue where
  messages : List ChannelMessage
  capacity : Nat
  quota : Quota
  nextSeq : UInt64
  reserved : maxChannelQueueMessages ≤ capacity

inductive ChannelSendFailure
  | quotaExceeded | outOfMemory | peerClosed
  deriving DecidableEq

inductive ChannelRecvError
  | bytesTooSmall | handlesTooSmall | peerClosed
  deriving DecidableEq

namespace MessageQueue

def new (storage : { capacity // maxChannelQueueMessages ≤ capacity }) : MessageQueue :=
  ⟨[], storage.1, .new channelLimits, 0, storage.2⟩

def enqueue (msg : ChannelMessage) (q : MessageQueue) :
    Except (ChannelMessage × ChannelSendFailure) Unit × MessageQueue :=
  let bytes := UInt64.ofNat msg.dataLen
  let handles := UInt64.ofNat msg.handleCount
  if maxChannelQueueMessages ≤ q.messages.length ∨ q.quota.fits .memory bytes = false ∨
      q.quota.fits .handles handles = false then
    (.error (msg, .quotaExceeded), q)
  else if q.capacity ≤ q.messages.length then (.error (msg, .outOfMemory), q)
  else
    let charged := ((q.quota.tryAcquire .memory bytes).2.tryAcquire .handles handles).2
    (.ok (), { q with
      messages := q.messages ++ [{ msg with seq := q.nextSeq }]
      quota := charged
      nextSeq := q.nextSeq + 1 })

def dequeue (q : MessageQueue) : Option ChannelMessage × MessageQueue :=
  match q.messages with
  | [] => (none, q)
  | msg :: rest =>
    let released := (q.quota.release .memory (UInt64.ofNat msg.dataLen)).release .handles
      (UInt64.ofNat msg.handleCount)
    (some msg, { q with messages := rest, quota := released })

def peekFront (q : MessageQueue) : Option (Nat × Nat × UInt64) :=
  q.messages.head?.map fun msg => (msg.dataLen, msg.handleCount, msg.seq)

def consume (cookie : UInt64) (q : MessageQueue) : Option ChannelMessage × MessageQueue :=
  match q.messages.head? with
  | none => (none, q)
  | some front => if front.seq ≠ cookie then (none, q) else q.dequeue

def consumeIfFits (cookie : UInt64) (byteCapacity handleCapacity : Nat) (q : MessageQueue) :
    Except ChannelRecvError (Option ChannelMessage) × MessageQueue :=
  match q.messages.head? with
  | none => (.ok none, q)
  | some front =>
    if front.seq ≠ cookie then (.ok none, q)
    else if byteCapacity < front.dataLen then (.error .bytesTooSmall, q)
    else if handleCapacity < front.handleCount then (.error .handlesTooSmall, q)
    else (.ok q.dequeue.1, q.dequeue.2)

end MessageQueue

inductive QueueCall
  | enqueue (msg : ChannelMessage)
  | dequeue
  | peek
  | consume (cookie : UInt64)
  | consumeIfFits (cookie : UInt64) (byteCapacity handleCapacity : Nat)

inductive QueueAnswer
  | accepted
  | refused (msg : ChannelMessage) (reason : ChannelSendFailure)
  | taken (msg : ChannelMessage)
  | nothing
  | front (bytes handles : Nat) (cookie : UInt64)
  | tooSmall (error : ChannelRecvError)

def QueueAnswer.ofTaken : Option ChannelMessage → QueueAnswer
  | none => .nothing
  | some msg => .taken msg

def QueueCall.run : QueueCall → MessageQueue → QueueAnswer × MessageQueue
  | .enqueue msg, q =>
    match q.enqueue msg with
    | (.ok (), q') => (.accepted, q')
    | (.error (back, reason), q') => (.refused back reason, q')
  | .dequeue, q => (.ofTaken q.dequeue.1, q.dequeue.2)
  | .peek, q =>
    match q.peekFront with
    | none => (.nothing, q)
    | some (bytes, handles, cookie) => (.front bytes handles cookie, q)
  | .consume cookie, q => (.ofTaken (q.consume cookie).1, (q.consume cookie).2)
  | .consumeIfFits cookie byteCapacity handleCapacity, q =>
    match q.consumeIfFits cookie byteCapacity handleCapacity with
    | (.ok msg, q') => (.ofTaken msg, q')
    | (.error e, q') => (.tooSmall e, q')

end HuesOS.Ipc
