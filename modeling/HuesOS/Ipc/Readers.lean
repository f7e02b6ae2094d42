import HuesOS.Ipc.MessageQueue
import HuesOS.Lib.Interleave

/-! One end of a channel and the tasks that wait there for messages. The inbox and the list of
waiters have locks of their own, and each step is one critical section. -/

namespace HuesOS.Ipc

abbrev Signals := BitVec 32

namespace Signals

def readable : Signals := 1#32 <<< 0
def canceled : Signals := 1#32 <<< 2

def intersects (s other : Signals) : Bool := s &&& other != 0

end Signals

structure WaitItem where
  awaited : Signals
  active : Signals

def WaitItem.isSatisfied (item : WaitItem) : Bool := item.active.intersects item.awaited

inductive WaitMode
  | any | all
  deriving DecidableEq

inductive WaitOutcome
  | pending | signaled | timedOut
  deriving DecidableEq

/-- Poll the items of a wait set; the deadline counts only if the condition is not met. -/
def pollAt (mode : WaitMode) (late : Bool) (items : List WaitItem) : WaitOutcome :=
  let done := match mode with
    | .any => items.any WaitItem.isSatisfied
    | .all => items.all WaitItem.isSatisfied
  if done then .signaled else if late then .timedOut else .pending

/-- The calls that wait at the end of a channel: receives of any message with or without a timeout,
receives and reads that take a message only if it fits (reads have a deadline and take no handles),
peeks, and wait sets that watch the channel beside other objects. -/
inductive Wait
  | recvBlocking (timed : Bool)
  | recvIfFitsBlocking (byteCapacity handleCapacity : Nat)
  | channelRead (capacity : Nat)
  | channelPeek (timed : Bool)
  | waitSet (mode : WaitMode) (awaited : Signals) (others : List Signals) (timed : Bool)

/-- What a task finds around it: whether its deadline has passed, and for a wait set whether the
handle is still open and which signals the other objects have. -/
structure Seen where
  late : Bool
  handleOpen : Bool
  others : Nat → Signals

inductive Look
  | took (inbox : MessageQueue)
  | ended
  | nothing

namespace Wait

def timed : Wait → Bool
  | .recvBlocking timed => timed
  | .recvIfFitsBlocking .. => false
  | .channelRead _ => true
  | .channelPeek timed => timed
  | .waitSet _ _ _ timed => timed

def looksFirst : Wait → Bool
  | .recvBlocking _ => false
  | .recvIfFitsBlocking .. => false
  | _ => true

def looksLast : Wait → Bool
  | .recvBlocking _ => true
  | _ => false

def lookIfFits (byteCapacity handleCapacity : Nat) (inbox : MessageQueue) : Look :=
  match inbox.messages.head? with
  | none => .nothing
  | some front =>
    if byteCapacity < front.dataLen then .ended
    else if handleCapacity < front.handleCount then .ended
    else .took inbox.dequeue.2

def items (awaited : Signals) (others : List Signals) (seen : Seen) (inbox : MessageQueue) :
    List WaitItem :=
  let closed := if seen.handleOpen then 0 else Signals.canceled
  let active := if inbox.peekFront.isSome then closed ||| Signals.readable else closed
  ⟨awaited, active⟩ :: others.mapIdx fun i awaited => ⟨awaited, seen.others i⟩

def look (seen : Seen) (inbox : MessageQueue) : Wait → Look
  | .recvBlocking _ =>
    match inbox.dequeue with
    | (some _, inbox) => .took inbox
    | (none, _) => .nothing
  | .recvIfFitsBlocking byteCapacity handleCapacity =>
    lookIfFits byteCapacity handleCapacity inbox
  | .channelRead capacity => lookIfFits capacity 0 inbox
  | .channelPeek _ => if inbox.peekFront.isSome then .ended else .nothing
  | .waitSet mode awaited others timed =>
    match pollAt mode (timed && seen.late) (items awaited others seen inbox) with
    | .pending => .nothing
    | _ => .ended

/-- A wait that a message in the inbox is meant for: it takes the message, or tells its caller that
there is one. -/
def couldTake (msg : ChannelMessage) : Wait → Bool
  | .recvBlocking _ => true
  | .recvIfFitsBlocking byteCapacity handleCapacity =>
    msg.dataLen ≤ byteCapacity && msg.handleCount ≤ handleCapacity
  | .channelRead capacity => msg.dataLen ≤ capacity && msg.handleCount ≤ 0
  | .channelPeek _ => true
  | .waitSet mode awaited _ _ => mode = .any && Signals.readable.intersects awaited

end Wait

variable {tasks : Nat}

/-- The end of a channel: its inbox, the tasks that wait in line, and the tasks with a wake-up on
its way to them. -/
structure Endpoint (tasks : Nat) where
  inbox : MessageQueue
  waiters : List (Fin tasks)
  wakePending : Fin tasks → Bool

namespace Endpoint

def enqueue (task : Fin tasks) (s : Endpoint tasks) : Endpoint tasks :=
  if task ∈ s.waiters then s else { s with waiters := s.waiters ++ [task] }

def remove (task : Fin tasks) (s : Endpoint tasks) : Endpoint tasks :=
  { s with waiters := s.waiters.filter (· ≠ task) }

def wakeOne (s : Endpoint tasks) : Endpoint tasks :=
  match s.waiters with
  | [] => s
  | task :: rest =>
    { s with waiters := rest, wakePending := Function.update s.wakePending task true }

end Endpoint

/-- Where a task is. A reader that has been woken remembers it until it has looked again. -/
inductive TaskPoint
  | idle
  /-- A message was sent, and a waiter has to be woken. -/
  | sent
  | first (wait : Wait) (woken : Bool)
  | prepare (wait : Wait) (woken : Bool)
  | check (wait : Wait) (woken : Bool)
  | cancel
  | parked (wait : Wait)
  | unparked (wait : Wait) (woken : Bool)
  | last (wait : Wait) (woken : Bool)

def Wait.begin (wait : Wait) (woken : Bool) : TaskPoint :=
  if wait.looksFirst then .first wait woken else .prepare wait woken

inductive TaskChoice
  | send (msg : ChannelMessage)
  | wait (wait : Wait)
  | go (seen : Seen)

@[simp] def Look.isTook : Look → Bool
  | .took _ => true
  | _ => false

def Look.inbox (before : MessageQueue) : Look → MessageQueue
  | .took inbox => inbox
  | _ => before

def taskStep (task : Fin tasks) : TaskChoice → TaskPoint → Endpoint tasks →
    Option (TaskPoint × Endpoint tasks × List Empty)
  | .send msg, .idle, s =>
    match s.inbox.enqueue msg with
    | (.ok (), inbox) => some (.sent, { s with inbox }, [])
    | (.error _, inbox) => some (.idle, { s with inbox }, [])
  | .wait wait, .idle, s => some (wait.begin false, s, [])
  | .go _, .sent, s => some (.idle, s.wakeOne, [])
  | .go seen, .first wait _, s =>
    match wait.look seen s.inbox with
    | .took inbox => some (.idle, { s with inbox }, [])
    | .ended => some (.idle, s, [])
    | .nothing => some (.prepare wait false, s, [])
  | .go _, .prepare wait woken, s => some (.check wait woken, s.enqueue task, [])
  | .go seen, .check wait _, s =>
    match wait.look seen s.inbox with
    | .took inbox => some (.cancel, { s with inbox }, [])
    | .ended => some (.cancel, s, [])
    | .nothing => some (.parked wait, s, [])
  | .go _, .cancel, s => some (.idle, s.remove task, [])
  -- A park ends with the wake-up, and sometimes without one.
  | .go _, .parked wait, s => some (.unparked wait (s.wakePending task),
      { s with wakePending := Function.update s.wakePending task false }, [])
  | .go seen, .unparked wait woken, s =>
    let next := if wait.timed && seen.late then
        (if wait.looksLast then .last wait woken else .idle)
      else wait.begin woken
    some (next, s.remove task, [])
  | .go seen, .last wait _, s =>
    some (.idle, { s with inbox := (wait.look seen s.inbox).inbox s.inbox }, [])
  | _, _, _ => none

end HuesOS.Ipc
