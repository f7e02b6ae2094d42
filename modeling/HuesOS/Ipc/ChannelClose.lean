import HuesOS.Ipc.MessageHistory
import HuesOS.Lib.Interleave

/-! One direction of a channel: the peer sends messages and then closes its end, while a receiver
asks for them at the other end. Each step is one critical section of the lock or one access to the
flag. -/

namespace HuesOS.Ipc
open List MessageQueue

structure Wire where
  inbox : MessageQueue
  /-- The receiver holds the lock of the inbox from one step to the next. -/
  held : Bool
  peerAlive : Bool
  receiverAlive : Bool

inductive WireEvent
  | sent (msg : ChannelMessage)
  | refused (msg : ChannelMessage) (reason : ChannelSendFailure)
  | closed
  | received (msg : ChannelMessage)
  | peeked (bytes handles : Nat) (cookie : UInt64)
  | empty
  | told (error : ChannelRecvError)

inductive PeerPoint
  | ready (todo : List ChannelMessage)
  | checked (msg : ChannelMessage) (todo : List ChannelMessage)
  | closed

def peerStep : PeerPoint → Wire → Option (PeerPoint × Wire × List WireEvent)
  | .ready (msg :: todo), s =>
    if s.receiverAlive then some (.checked msg todo, s, [])
    else some (.ready todo, s, [.refused msg .peerClosed])
  | .checked msg todo, s =>
    if s.held then none
    else match s.inbox.enqueue msg with
      | (.ok (), inbox) =>
        some (.ready todo, { s with inbox }, [.sent { msg with seq := s.inbox.nextSeq }])
      | (.error (back, reason), inbox) =>
        some (.ready todo, { s with inbox }, [.refused back reason])
  | .ready [], s => some (.closed, { s with peerAlive := false }, [.closed])
  | .closed, _ => none

inductive ReceiveCall
  | recvStatus
  | recvIfFits (byteCapacity handleCapacity : Nat)
  | peek
  | consume (cookie : UInt64)
  | consumeIfFits (cookie : UInt64) (byteCapacity handleCapacity : Nat)

/-- A receiver that found the inbox empty still has to load the flag of the peer, with the lock
dropped or with the lock in hand. -/
inductive ReceiverPoint
  | idle
  | unlocked
  | locked
  deriving DecidableEq

inductive ReceiverChoice
  | call (call : ReceiveCall)
  | check

def QueueAnswer.event : QueueAnswer → WireEvent
  | .taken msg => .received msg
  | .front bytes handles cookie => .peeked bytes handles cookie
  | .tooSmall error => .told error
  | _ => .empty

def Wire.atOnce (call : QueueCall) (s : Wire) : ReceiverPoint × Wire × List WireEvent :=
  (.idle, { s with inbox := (call.run s.inbox).2 }, [(call.run s.inbox).1.event])

def Wire.closedOrEmpty (s : Wire) : WireEvent := if s.peerAlive then .empty else .told .peerClosed

def receiverStep : ReceiverChoice → ReceiverPoint → Wire →
    Option (ReceiverPoint × Wire × List WireEvent)
  | .check, .unlocked, s => some (.idle, s, [s.closedOrEmpty])
  | .check, .locked, s => some (.idle, { s with held := false }, [s.closedOrEmpty])
  | .call call, .idle, s =>
    if s.held then none
    else match call with
      | .recvStatus =>
        if s.inbox.messages = [] then some (.unlocked, s, []) else some (s.atOnce .dequeue)
      | .recvIfFits byteCapacity handleCapacity =>
        match s.inbox.messages.head? with
        | none => some (.locked, { s with held := true }, [])
        | some front =>
          if byteCapacity < front.dataLen then some (.idle, s, [.told .bytesTooSmall])
          else if handleCapacity < front.handleCount then
            some (.idle, s, [.told .handlesTooSmall])
          else some (s.atOnce .dequeue)
      | .peek =>
        if s.inbox.messages = [] then some (.locked, { s with held := true }, [])
        else some (s.atOnce .peek)
      | .consume cookie => some (s.atOnce (.consume cookie))
      | .consumeIfFits cookie byteCapacity handleCapacity =>
        some (s.atOnce (.consumeIfFits cookie byteCapacity handleCapacity))
  | _, _, _ => none

inductive Side
  | peer | receiver
  deriving DecidableEq

def SidePoint : Side → Type
  | .peer => PeerPoint
  | .receiver => ReceiverPoint

def SideChoice : Side → Type
  | .peer => Unit
  | .receiver => ReceiverChoice

def wireProgram : Program Wire SidePoint SideChoice WireEvent
  | .peer, _, t, s => peerStep t s
  | .receiver, k, t, s => receiverStep k t s

def wireStart (storage : { capacity // maxChannelQueueMessages ≤ capacity }) (receiverAlive : Bool)
    (messages : List ChannelMessage) : Config Wire SidePoint WireEvent :=
  { shared := ⟨.new storage, false, true, receiverAlive⟩
    threads := fun
      | .peer => .ready messages
      | .receiver => .idle
    log := [] }

def WireEvent.sent? : WireEvent → Option ChannelMessage
  | .sent msg => some msg
  | _ => none

def WireEvent.received? : WireEvent → Option ChannelMessage
  | .received msg => some msg
  | _ => none

def sentIn (log : List WireEvent) : List ChannelMessage := (log.filterMap WireEvent.sent?).reverse

def receivedIn (log : List WireEvent) : List ChannelMessage :=
  (log.filterMap WireEvent.received?).reverse

/-- When the receiver is told that the peer is closed, it has received all that was sent. -/
def ToldLast (log : List WireEvent) : Prop :=
  ∀ later earlier, log = later ++ .told .peerClosed :: earlier → receivedIn earlier = sentIn log

/-- The peer does not close while messages wait that the receiver, between its look at the inbox
and its look at the flag, did not find. -/
def ClosesApart (act : Σ i, SideChoice i) (c : Config Wire SidePoint WireEvent) : Prop :=
  act.1 = .peer → c.threads .peer = PeerPoint.ready [] →
    c.threads .receiver = ReceiverPoint.unlocked → c.shared.inbox.messages = []

section Logs
variable {log events : List WireEvent} {m : ChannelMessage}

theorem sentIn_append : sentIn (events ++ log) = sentIn log ++ sentIn events := by
  simp [sentIn]

theorem receivedIn_append : receivedIn (events ++ log) = receivedIn log ++ receivedIn events := by
  simp [receivedIn]

theorem ToldLast.append (h : ToldLast log) (quiet : .told .peerClosed ∉ events)
    (over_ : .told .peerClosed ∈ log → sentIn events = []) : ToldLast (events ++ log) := by
  intro later old split
  obtain ⟨between, -, rest⟩ := split_of_not_mem split quiet
  have known : WireEvent.told .peerClosed ∈ log := by simp [rest]
  rw [sentIn_append, over_ known, append_nil]
  exact h between old rest

theorem ToldLast.told (h : ToldLast log) (all : sentIn log = receivedIn log) :
    ToldLast (.told .peerClosed :: log) := by
  intro later old split
  have eq : sentIn (.told .peerClosed :: log) = sentIn log := rfl
  rw [eq]
  cases later with
  | nil =>
    cases split
    exact all.symm
  | cons event later =>
    cases split
    exact h later old rfl

end Logs

structure WireFacts (s : Wire) (peer : PeerPoint) (receiver : ReceiverPoint)
    (log : List WireEvent) : Prop where
  kept : sentIn log = receivedIn log ++ s.inbox.messages
  told : ToldLast log
  after : .told .peerClosed ∈ log → s.peerAlive = false
  closed : peer = .closed ↔ s.peerAlive = false
  unlocked : receiver = .unlocked → s.peerAlive = false → s.inbox.messages = []
  locked : receiver = .locked → s.held = true ∧ s.inbox.messages = []

section Steps
variable {s s' : Wire} {peer peer' : PeerPoint} {receiver receiver' : ReceiverPoint}
  {log events : List WireEvent}

namespace WireFacts
variable (h : WireFacts s peer receiver log)
include h

theorem quiet (sent : sentIn events = [])
    (received : receivedIn events = []) (untold : .told .peerClosed ∉ events) :
    WireFacts s peer receiver (events ++ log) where
  kept := by
    rw [sentIn_append, receivedIn_append, h.kept, sent, received, append_nil, append_nil]
  told := h.told.append untold fun _ => sent
  after := fun told => h.after ((mem_append.mp told).resolve_left untold)
  closed := h.closed
  unlocked := h.unlocked
  locked := h.locked

theorem peerStep
    (apart : peer = .ready [] → receiver = .unlocked → s.inbox.messages = [])
    (step : peerStep peer s = some (peer', s', events)) :
    WireFacts s' peer' receiver (events ++ log) := by
  cases peer with
  | closed => cases step
  | ready todo =>
    have alive : s.peerAlive ≠ false := fun dead => nomatch h.closed.mpr dead
    cases todo with
    | nil =>
      cases step
      have logged : WireFacts s _ receiver ([.closed] ++ log) := h.quiet rfl rfl (by simp)
      exact ⟨logged.kept, logged.told, fun _ => rfl, by simp, fun here _ => apart rfl here, h.locked⟩
    | cons msg todo =>
      simp only [Ipc.peerStep] at step
      split at step
      · cases step
        exact ⟨h.kept, h.told, h.after, by simp [alive], h.unlocked, h.locked⟩
      cases step
      have logged : WireFacts s _ receiver ([.refused msg .peerClosed] ++ log) := h.quiet rfl rfl (by simp)
      exact ⟨logged.kept, logged.told, logged.after, by simp [alive], h.unlocked, h.locked⟩
  | checked msg todo =>
    have alive : s.peerAlive ≠ false := fun dead => nomatch h.closed.mpr dead
    simp only [Ipc.peerStep] at step
    split at step
    · cases step
    next free =>
    by_cases room : s.inbox.Admits msg
    · simp only [enqueue_of_admits room] at step
      cases step
      refine ⟨?_, ?_, fun told => h.after (by simpa using told), by simp [alive],
        fun _ dead => absurd dead alive, fun here => absurd (h.locked here).1 free⟩
      · rw [sentIn_append, receivedIn_append, h.kept]
        simp [sentIn, receivedIn, WireEvent.sent?, WireEvent.received?, push]
      · exact h.told.append (by simp) (fun told => absurd (h.after told) alive)
    simp only [enqueue_of_not_admits room] at step
    cases step
    have logged : WireFacts s _ receiver ([.refused msg .quotaExceeded] ++ log) := h.quiet rfl rfl (by simp)
    exact ⟨logged.kept, logged.told, logged.after, by simp [alive], h.unlocked, h.locked⟩

theorem atOnce (call : QueueCall)
    (reads : ∀ msg, call ≠ .enqueue msg) :
    WireFacts (s.atOnce call).2.1 peer .idle ((s.atOnce call).2.2 ++ log) := by
  have does := call.run_does s.inbox
  unfold Wire.atOnce
  generalize (call.run s.inbox).1 = answer at does
  generalize (call.run s.inbox).2 = inbox at does
  cases does with
  | accept msg room => exact absurd rfl (reads msg)
  | take _ m rest front own =>
    refine ⟨?_, h.told.append (by simp [QueueAnswer.event]) (fun _ => rfl),
      fun told => h.after (by simpa [QueueAnswer.event] using told), h.closed, by simp, by simp⟩
    rw [sentIn_append, receivedIn_append, h.kept, front]
    simp [QueueAnswer.event, sentIn, receivedIn, WireEvent.received?, pop]
    rfl
  | leave _ _ fails none _ size =>
    have logged : WireFacts s peer receiver ([answer.event] ++ log) := by
      cases answer with
      | taken m => exact absurd rfl (none m)
      | tooSmall error =>
        refine h.quiet rfl rfl ?_
        rw [mem_singleton]
        intro eq
        cases eq
        exact size rfl
      | _ => exact h.quiet rfl rfl (by simp [QueueAnswer.event])
    exact ⟨logged.kept, logged.told, logged.after, h.closed, by simp, by simp⟩

theorem check
    (empty : s.peerAlive = false → s.inbox.messages = []) (held : Bool) :
    WireFacts { s with held } peer .idle ([s.closedOrEmpty] ++ log) := by
  by_cases alive : s.peerAlive = true
  · have logged : WireFacts s _ receiver ([.empty] ++ log) := h.quiet rfl rfl (by simp)
    rw [Wire.closedOrEmpty, if_pos alive]
    exact ⟨logged.kept, logged.told, logged.after, h.closed, nofun, nofun⟩
  have dead : s.peerAlive = false := Bool.eq_false_iff.mpr alive
  have all : sentIn log = receivedIn log := by rw [h.kept, empty dead, append_nil]
  rw [Wire.closedOrEmpty, if_neg alive]
  exact ⟨h.kept, h.told.told all, fun _ => dead, h.closed, nofun, nofun⟩

theorem receiverStep {k : ReceiverChoice}
    (step : receiverStep k receiver s = some (receiver', s', events)) :
    WireFacts s' peer receiver' (events ++ log) := by
  cases k with
  | check =>
    cases receiver with
    | idle => cases step
    | unlocked =>
      cases step
      exact h.check (h.unlocked rfl) s.held
    | locked =>
      cases step
      exact h.check (fun _ => (h.locked rfl).2) false
  | call call =>
    cases receiver with
    | unlocked => cases step
    | locked => cases step
    | idle =>
      simp only [Ipc.receiverStep] at step
      split at step
      · cases step
      cases call with
      | recvStatus =>
        simp only at step
        split at step
        next empty =>
          cases step
          exact ⟨h.kept, h.told, h.after, h.closed, fun _ _ => empty, nofun⟩
        cases step
        exact h.atOnce .dequeue nofun
      | recvIfFits byteCapacity handleCapacity =>
        simp only at step
        split at step
        next empty =>
          cases step
          exact ⟨h.kept, h.told, h.after, h.closed, nofun, fun _ => ⟨rfl, head?_eq_none_iff.mp empty⟩⟩
        split_ifs at step
        · cases step
          exact h.quiet rfl rfl (by simp)
        · cases step
          exact h.quiet rfl rfl (by simp)
        cases step
        exact h.atOnce .dequeue nofun
      | peek =>
        simp only at step
        split at step
        next empty =>
          cases step
          exact ⟨h.kept, h.told, h.after, h.closed, nofun, fun _ => ⟨rfl, empty⟩⟩
        cases step
        exact h.atOnce .peek nofun
      | consume cookie =>
        cases step
        exact h.atOnce (.consume cookie) nofun
      | consumeIfFits cookie byteCapacity handleCapacity =>
        cases step
        exact h.atOnce (.consumeIfFits cookie byteCapacity handleCapacity) nofun

end WireFacts
end Steps

def Config.WireFacts (c : Config Wire SidePoint WireEvent) : Prop :=
  Ipc.WireFacts c.shared (c.threads .peer) (c.threads .receiver) c.log

theorem wireStart_facts (storage : { capacity // maxChannelQueueMessages ≤ capacity })
    (receiverAlive : Bool) (messages : List ChannelMessage) :
    Config.WireFacts (wireStart storage receiverAlive messages) where
  kept := rfl
  told := fun later old split => by simp [wireStart] at split
  after := nofun
  closed := by simp [wireStart]
  unlocked := nofun
  locked := nofun

theorem wireStep_facts {act : Σ i, SideChoice i} {c c' : Config Wire SidePoint WireEvent}
    (h : Config.WireFacts c) (apart : ClosesApart act c) (step : Program.Step wireProgram act c c') :
    Config.WireFacts c' := by
  obtain ⟨side, k⟩ := act
  obtain ⟨events, taken, still, log⟩ := step.inversion
  unfold Config.WireFacts
  rw [log]
  cases side with
  | peer =>
    rw [still .receiver (by decide)]
    exact WireFacts.peerStep h (apart rfl) taken
  | receiver =>
    rw [still .peer (by decide)]
    exact WireFacts.receiverStep h taken

/-- A receiver that finds the peer closed while messages wait is told too early. -/
theorem told_early {c c' : Config Wire SidePoint WireEvent} (h : Config.WireFacts c)
    (step : Program.Step wireProgram ⟨.peer, ()⟩ c c') (apart : ¬ClosesApart ⟨.peer, ()⟩ c) :
    ∃ c'', Program.Step wireProgram ⟨.receiver, ReceiverChoice.check⟩ c' c'' ∧ ¬ToldLast c''.log := by
  simp only [ClosesApart, true_implies, not_forall] at apart
  obtain ⟨last, between, waiting⟩ := apart
  obtain ⟨events, taken, still, log⟩ := step.inversion
  have closes : Ipc.peerStep (c.threads .peer) c.shared =
      some (.closed, { c.shared with peerAlive := false }, [.closed]) := by rw [last]; rfl
  change Ipc.peerStep (c.threads .peer) c.shared = _ at taken
  rw [closes] at taken
  have shared := congrArg (·.2.1) (Option.some.inj taken)
  have logged := congrArg (·.2.2) (Option.some.inj taken)
  dsimp only at shared logged
  have here : c'.threads .receiver = ReceiverPoint.unlocked := (still .receiver (by decide)).trans between
  have told : c'.shared.closedOrEmpty = .told .peerClosed := by rw [← shared]; rfl
  refine ⟨⟨c'.shared, _, [c'.shared.closedOrEmpty] ++ c'.log⟩,
    ⟨.idle, c'.shared, [c'.shared.closedOrEmpty], ?_, rfl⟩, fun all => ?_⟩
  · change Ipc.receiverStep .check (c'.threads .receiver) c'.shared = _
    rw [here]
    rfl
  have early := all [] c'.log (by rw [told]; rfl)
  have unsent : sentIn [.told .peerClosed] = [] ∧ sentIn [.closed] = [] := ⟨rfl, rfl⟩
  have unreceived : receivedIn [.closed] = [] := rfl
  rw [sentIn_append, told, log, ← logged, sentIn_append, receivedIn_append, h.kept] at early
  simp only [unsent.1, unsent.2, unreceived, append_nil] at early
  exact waiting (self_eq_append_right.mp early)

/-- As long as the peer does not close between the two looks of a receiver that missed a message,
the receiver is told of the closed peer after all messages; and a close in between lets the next
step of the receiver tell it too early. -/
theorem told_closed_after_messages
    (storage : { capacity // maxChannelQueueMessages ≤ capacity }) (receiverAlive : Bool)
    (messages : List ChannelMessage) (c : Config Wire SidePoint WireEvent)
    (run : Runs (Program.Step wireProgram) ClosesApart (wireStart storage receiverAlive messages) c) :
    ToldLast c.log ∧ ∀ act c', Program.Step wireProgram act c c' → (ClosesApart act c ↔
      ∀ c'', Program.Step wireProgram ⟨.receiver, ReceiverChoice.check⟩ c' c'' → ToldLast c''.log) := by
  have facts : Config.WireFacts c :=
    run.invariant (wireStart_facts storage receiverAlive messages) wireStep_facts
  refine ⟨facts.told, fun act c' step => ⟨fun apart c'' check => ?_, fun all => ?_⟩⟩
  · have next := wireStep_facts facts apart step
    exact (wireStep_facts next (by simp [ClosesApart]) check).told
  by_contra together
  obtain ⟨side, k⟩ := act
  cases side with
  | peer =>
    obtain ⟨c'', check, early⟩ := told_early facts step together
    exact early (all c'' check)
  | receiver => exact together (by simp [ClosesApart])

/-- The peer sends one message and closes between the two looks of the receiver. -/
def missedMessage : List (Σ i, SideChoice i) :=
  [⟨.receiver, ReceiverChoice.call .recvStatus⟩, ⟨.peer, ()⟩, ⟨.peer, ()⟩, ⟨.peer, ()⟩,
    ⟨.receiver, ReceiverChoice.check⟩]

theorem told_closed_before_message :
    ∃ c, Program.run wireProgram missedMessage (wireStart ⟨256, by decide⟩ true [History.hello]) =
      some c ∧ ¬ToldLast c.log := by
  refine ⟨_, rfl, fun all => ?_⟩
  have early := congrArg List.length (all [] _ rfl)
  exact absurd early (by decide)

/-- The peer sends one message and closes, and only then the receiver asks twice. -/
theorem told_closed_after_hello : ∃ c : Config Wire SidePoint WireEvent,
    c.log.length = 4 ∧ ToldLast c.log := by
  have idle : ∀ {c : Config Wire SidePoint WireEvent} {act},
      c.threads .receiver = ReceiverPoint.idle → ClosesApart act c := by
    intro c act idle _ _ between
    rw [idle] at between
    cases between
  have begun : Runs (Program.Step wireProgram) ClosesApart
      (wireStart ⟨256, by decide⟩ true [History.hello]) _ := .start
  have checked := begun.next (k := ⟨.peer, ()⟩) (idle rfl) ⟨_, _, _, rfl, rfl⟩
  have sent := checked.next (k := ⟨.peer, ()⟩) (idle rfl) ⟨_, _, _, rfl, rfl⟩
  have closed := sent.next (k := ⟨.peer, ()⟩) (idle rfl) ⟨_, _, _, rfl, rfl⟩
  have received := closed.next (k := ⟨.receiver, ReceiverChoice.call .recvStatus⟩)
    (by simp [ClosesApart]) ⟨_, _, _, rfl, rfl⟩
  have looked := received.next (k := ⟨.receiver, ReceiverChoice.call .recvStatus⟩)
    (by simp [ClosesApart]) ⟨_, _, _, rfl, rfl⟩
  have told := looked.next (k := ⟨.receiver, ReceiverChoice.check⟩)
    (by simp [ClosesApart]) ⟨_, _, _, rfl, rfl⟩
  exact ⟨_, rfl, (told_closed_after_messages _ _ _ _ told).1⟩

end HuesOS.Ipc
