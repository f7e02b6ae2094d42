import HuesOS.Ipc.MessageQueue

namespace HuesOS.Ipc
open List QueueCall QueueAnswer MessageQueue ChannelMessage
open Quotas

namespace ChannelMessage

/-- What a message says, without the cookie the queue gives it. -/
def content (m : ChannelMessage) : ChannelMessageData × ChannelMessageHandles := (m.data, m.handles)

section
variable (m : ChannelMessage)
include m

theorem dataLen_seq (cookie : UInt64) : dataLen { m with seq := cookie } = m.dataLen := rfl

theorem handleCount_seq (cookie : UInt64) : handleCount { m with seq := cookie } = m.handleCount := rfl

theorem dataLen_lt : m.dataLen < 2 ^ 64 := by
  unfold dataLen
  cases m.data with
  | inline len items => exact lt_of_lt_of_le len.isLt (by decide)
  | heap items => exact lt_trans items.2 (by decide)

theorem handleCount_lt : m.handleCount < 2 ^ 64 := by
  unfold handleCount
  cases m.handles with
  | inline len items => exact lt_of_lt_of_le len.isLt (by decide)
  | heap items => exact lt_trans items.2 (by decide)

theorem toNat_dataLen : (UInt64.ofNat m.dataLen).toNat = m.dataLen :=
  UInt64.toNat_ofNat_of_lt' m.dataLen_lt

theorem toNat_handleCount :
    (UInt64.ofNat m.handleCount).toNat = m.handleCount :=
  UInt64.toNat_ofNat_of_lt' m.handleCount_lt

end
end ChannelMessage

namespace MessageQueue
variable {q : MessageQueue} {m msg : ChannelMessage} {rest : List ChannelMessage}

def charged (msg : ChannelMessage) (u : Usage) : Usage :=
  (u.add .memory (UInt64.ofNat msg.dataLen)).add .handles (UInt64.ofNat msg.handleCount)

def refunded (msg : ChannelMessage) (u : Usage) : Usage :=
  (u.sub .memory (UInt64.ofNat msg.dataLen)).sub .handles (UInt64.ofNat msg.handleCount)

def push (msg : ChannelMessage) (q : MessageQueue) : MessageQueue :=
  { q with
    messages := q.messages ++ [{ msg with seq := q.nextSeq }]
    quota := ⟨q.quota.limits, charged msg q.quota.used⟩
    nextSeq := q.nextSeq + 1 }

def pop (m : ChannelMessage) (rest : List ChannelMessage) (q : MessageQueue) : MessageQueue :=
  { q with messages := rest, quota := ⟨q.quota.limits, refunded m q.quota.used⟩ }

def Admits (q : MessageQueue) (msg : ChannelMessage) : Prop :=
  q.messages.length < maxChannelQueueMessages ∧
    q.quota.fits .memory (UInt64.ofNat msg.dataLen) = true ∧
    q.quota.fits .handles (UInt64.ofNat msg.handleCount) = true

theorem tryAcquire_of_fits {quota : Quota} {res : Resource} {amount : UInt64}
    (h : quota.fits res amount = true) :
    quota.tryAcquire res amount = (true, ⟨quota.limits, quota.used.add res amount⟩) := if_pos h

theorem enqueue_of_admits (h : q.Admits msg) : q.enqueue msg = (.ok (), q.push msg) := by
  have room : ¬(maxChannelQueueMessages ≤ q.messages.length ∨
      q.quota.fits .memory (UInt64.ofNat msg.dataLen) = false ∨
      q.quota.fits .handles (UInt64.ofNat msg.handleCount) = false) := by
    simp only [h.2.1, h.2.2, Bool.true_eq_false, or_false]
    exact not_le.mpr h.1
  have storage : ¬q.capacity ≤ q.messages.length := by
    have := q.reserved
    have := h.1
    omega
  -- The charge for the handles does not see the one for the bytes.
  have second : Quota.fits ⟨q.quota.limits, q.quota.used.add .memory (UInt64.ofNat msg.dataLen)⟩
      .handles (UInt64.ofNat msg.handleCount) = true := by
    simpa [Quota.fits, Usage.add] using h.2.2
  simp only [enqueue, if_neg room, if_neg storage, tryAcquire_of_fits h.2.1, tryAcquire_of_fits second]
  rfl

theorem enqueue_of_not_admits (h : ¬q.Admits msg) : q.enqueue msg = (.error (msg, .quotaExceeded), q) := by
  apply if_pos
  by_contra room
  simp only [not_or, Bool.not_eq_false] at room
  exact h ⟨not_le.mp room.1, room.2.1, room.2.2⟩

theorem dequeue_cons (h : q.messages = m :: rest) : q.dequeue = (some m, q.pop m rest) := by
  simp only [dequeue, h]
  rfl

theorem dequeue_nil (h : q.messages = []) : q.dequeue = (none, q) := by
  simp only [dequeue, h]

end MessageQueue

/-- The three things a call can do. A message is taken by its own cookie, or without one. -/
inductive QueueCall.Does (q : MessageQueue) : QueueCall → QueueAnswer → MessageQueue → Prop
  | accept (msg : ChannelMessage) (room : q.Admits msg) : Does q (.enqueue msg) .accepted (q.push msg)
  | take (call : QueueCall) (m : ChannelMessage) (rest : List ChannelMessage)
      (front : q.messages = m :: rest)
      (own : call = .dequeue ∨ call = .consume m.seq ∨
        ∃ bytes handles, call = .consumeIfFits m.seq bytes handles) :
      Does q call (.taken m) (q.pop m rest)
  | leave (call : QueueCall) (answer : QueueAnswer) (fails : answer ≠ .accepted)
      (none : ∀ m, answer ≠ .taken m)
      (back : ∀ m msg reason, call = .enqueue m → answer = .refused msg reason → msg = m)
      (size : answer ≠ .tooSmall .peerClosed) :
      Does q call answer q

theorem QueueCall.run_does (call : QueueCall) (q : MessageQueue) :
    call.Does q (call.run q).1 (call.run q).2 := by
  cases call with
  | enqueue msg =>
    by_cases room : q.Admits msg
    · simp only [run, enqueue_of_admits room]
      exact .accept msg room
    simp only [run, enqueue_of_not_admits room]
    refine .leave _ _ nofun nofun (fun m back reason eq answer => ?_) nofun
    cases eq
    cases answer
    rfl
  | dequeue =>
    cases found : q.messages with
    | nil =>
      simp only [run, dequeue_nil found]
      exact .leave _ _ nofun nofun nofun nofun
    | cons m rest =>
      simp only [run, MessageQueue.dequeue_cons found]
      exact .take _ m rest found (.inl rfl)
  | peek =>
    simp only [run]
    cases q.peekFront <;> exact .leave _ _ nofun nofun nofun nofun
  | consume cookie =>
    simp only [run, MessageQueue.consume]
    cases found : q.messages with
    | nil => exact .leave _ _ nofun nofun nofun nofun
    | cons m rest =>
      simp only [head?_cons]
      split_ifs with other
      · exact .leave _ _ nofun nofun nofun nofun
      rw [MessageQueue.dequeue_cons found]
      exact .take _ m rest found (.inr (.inl (by rw [not_not.mp other])))
  | consumeIfFits cookie byteCapacity handleCapacity =>
    simp only [run, MessageQueue.consumeIfFits]
    cases found : q.messages with
    | nil => exact .leave _ _ nofun nofun nofun nofun
    | cons m rest =>
      simp only [head?_cons]
      split_ifs with other bytes handles
      · exact .leave _ _ nofun nofun nofun nofun
      · exact .leave _ _ nofun nofun nofun nofun
      · exact .leave _ _ nofun nofun nofun nofun
      rw [MessageQueue.dequeue_cons found]
      exact .take _ m rest found (.inr (.inr ⟨_, _, by rw [not_not.mp other]⟩))

namespace MessageQueue

structure Booked (q : MessageQueue) : Prop where
  limits : q.quota.limits = channelLimits
  bytes : (q.quota.used .memory).toNat = (q.messages.map dataLen).sum
  handles : (q.quota.used .handles).toNat = (q.messages.map handleCount).sum

variable {q : MessageQueue} {m msg : ChannelMessage} {rest : List ChannelMessage}

theorem toNat_add_of_fits {quota : Quota} {res : Resource} {amount : UInt64}
    (h : quota.fits res amount = true) (limited : quota.limits res ≠ unlimited) :
    (saturatingAdd (quota.used res) amount).toNat = (quota.used res).toNat + amount.toNat := by
  simp only [Quota.fits, limited, decide_false, Bool.false_or, decide_eq_true_eq,
    UInt64.le_iff_toNat_le, toNat_saturatingAdd] at h
  have small := (quota.limits res).toNat_lt
  have other : (quota.limits res).toNat ≠ 2 ^ 64 - 1 := fun eq => limited (UInt64.toNat_inj.mp eq)
  rw [toNat_saturatingAdd]
  omega

theorem Booked.push (h : q.Booked) (room : q.Admits msg) : (q.push msg).Booked := by
  have bytes := toNat_add_of_fits room.2.1 (by rw [h.limits]; decide)
  have handles := toNat_add_of_fits room.2.2 (by rw [h.limits]; decide)
  refine ⟨h.limits, ?_, ?_⟩
  · simp [MessageQueue.push, charged, Usage.add, bytes, h.bytes, msg.toNat_dataLen, dataLen_seq]
  simp [MessageQueue.push, charged, Usage.add, handles, h.handles, msg.toNat_handleCount, handleCount_seq]

theorem Booked.pop (h : q.Booked) (front : q.messages = m :: rest) : (q.pop m rest).Booked := by
  have bytes := h.bytes
  have handles := h.handles
  simp only [front, map_cons, sum_cons] at bytes handles
  refine ⟨h.limits, ?_, ?_⟩
  · simp [MessageQueue.pop, refunded, Usage.sub, toNat_saturatingSub, m.toNat_dataLen, bytes]
  simp [MessageQueue.pop, refunded, Usage.sub, toNat_saturatingSub, m.toNat_handleCount, handles]

end MessageQueue

/-- What a call hands over to the queue, given its answer. -/
def QueueCall.gives : QueueCall → QueueAnswer → List ChannelMessage
  | .enqueue msg, .accepted => [msg]
  | _, _ => []

def QueueAnswer.takes : QueueAnswer → List ChannelMessage
  | .taken m => [m]
  | _ => []

/-- A queue with the messages it has accepted so far, as they were handed in, and those that have
left it. -/
structure History where
  queue : MessageQueue
  accepted : List ChannelMessage
  taken : List ChannelMessage

namespace History

def start (storage : { capacity // maxChannelQueueMessages ≤ capacity }) : History :=
  ⟨.new storage, [], []⟩

def step (h : History) (call : QueueCall) : History :=
  { queue := (call.run h.queue).2
    accepted := h.accepted ++ call.gives (call.run h.queue).1
    taken := h.taken ++ (call.run h.queue).1.takes }

def run (calls : List QueueCall) (h : History) : History := calls.foldl step h

def messages (h : History) : List ChannelMessage := h.taken ++ h.queue.messages

structure Sound (h : History) : Prop where
  booked : h.queue.Booked
  kept : h.messages.map content = h.accepted.map content
  cookies : h.messages.map seq = (List.range h.accepted.length).map UInt64.ofNat
  next : h.queue.nextSeq = UInt64.ofNat h.accepted.length

variable {h : History} {call : QueueCall}

theorem sound_start (storage : { capacity // maxChannelQueueMessages ≤ capacity }) :
    (start storage).Sound := ⟨⟨rfl, rfl, rfl⟩, rfl, rfl, rfl⟩

/-- One call: a message is accepted at the end, or taken from the front, or nothing happens. -/
theorem step_cases (h : History) (call : QueueCall) :
    (∃ msg, h.queue.Admits msg ∧ call = .enqueue msg ∧
      h.step call = ⟨h.queue.push msg, h.accepted ++ [msg], h.taken⟩) ∨
    (∃ m rest, h.queue.messages = m :: rest ∧ h.step call = ⟨h.queue.pop m rest, h.accepted, h.taken ++ [m]⟩) ∨
    h.step call = h := by
  have does := call.run_does h.queue
  unfold step
  generalize (call.run h.queue).1 = answer at does
  generalize (call.run h.queue).2 = after at does
  cases does with
  | accept msg room =>
    refine .inl ⟨msg, room, rfl, ?_⟩
    simp [gives, takes]
  | take _ m rest front own =>
    refine .inr (.inl ⟨m, rest, front, ?_⟩)
    cases call <;> simp [gives, takes]
  | leave _ _ fails none =>
    refine .inr (.inr ?_)
    have given : call.gives answer = [] := by
      cases call <;> cases answer <;> simp_all [gives]
    have nothing : answer.takes = [] := by
      cases answer <;> simp_all [takes]
    rw [given, nothing, append_nil, append_nil]

theorem step_extends (h : History) (call : QueueCall) : h.messages <+: (h.step call).messages := by
  rcases h.step_cases call with ⟨msg, -, -, eq⟩ | ⟨m, rest, front, eq⟩ | eq
  · rw [eq]
    exact ⟨[{ msg with seq := h.queue.nextSeq }], by simp [messages, MessageQueue.push]⟩
  · rw [eq]
    exact ⟨[], by simp [messages, MessageQueue.pop, front]⟩
  · rw [eq]

theorem Sound.step (s : h.Sound) (call : QueueCall) : (h.step call).Sound := by
  rcases h.step_cases call with ⟨msg, room, -, eq⟩ | ⟨m, rest, front, eq⟩ | eq
  · have longer : History.messages ⟨h.queue.push msg, h.accepted ++ [msg], h.taken⟩ =
        h.messages ++ [{ msg with seq := h.queue.nextSeq }] := by
      simp [messages, MessageQueue.push]
    rw [eq]
    refine ⟨s.booked.push room, ?_, ?_, ?_⟩
    · rw [longer, map_append, s.kept, map_append]
      rfl
    · simp [longer, s.cookies, range_succ, s.next]
    · simp [MessageQueue.push, s.next, UInt64.ofNat_add]
  · have same : History.messages ⟨h.queue.pop m rest, h.accepted, h.taken ++ [m]⟩ = h.messages := by
      simp [messages, MessageQueue.pop, front]
    rw [eq]
    refine ⟨s.booked.pop front, ?_, ?_, s.next⟩
    · rw [same, s.kept]
    · rw [same, s.cookies]
  rw [eq]
  exact s

theorem Sound.run (s : h.Sound) (calls : List QueueCall) : (h.run calls).Sound := by
  induction calls generalizing h with
  | nil => exact s
  | cons call rest ih => exact ih (s.step call)

theorem run_extends (calls : List QueueCall) (h : History) : h.messages <+: (h.run calls).messages := by
  induction calls generalizing h with
  | nil => exact prefix_refl _
  | cons call rest ih => exact (h.step_extends call).trans (ih (h.step call))

/-- Cookies are distinct until the counter has gone round. -/
theorem Sound.cookies_nodup (s : h.Sound) (few : h.accepted.length ≤ 2 ^ 64) :
    (h.messages.map seq).Nodup := by
  rw [s.cookies]
  refine List.Nodup.map_on (fun i left j right eq => ?_) nodup_range
  have small : ∀ k ∈ List.range h.accepted.length, (UInt64.ofNat k).toNat = k := by
    intro k mem
    have := mem_range.mp mem
    exact UInt64.toNat_ofNat_of_lt' (lt_of_lt_of_le this few)
  rw [← small i left, ← small j right, eq]

/-- A later reader that names the cookie of a message gets that message. -/
theorem Sound.same_message (s : h.Sound) {m m' : ChannelMessage} {calls : List QueueCall}
    (few : (h.run calls).accepted.length ≤ 2 ^ 64) (pre : m ∈ h.messages)
    (after : m' ∈ (h.run calls).messages) (cookie : m'.seq = m.seq) : m' = m := by
  have kept : m ∈ (h.run calls).messages := (h.run_extends calls).subset pre
  exact inj_on_of_nodup_map ((s.run calls).cookies_nodup few) after kept cookie

theorem front_of_peek {q : MessageQueue} {bytes handles : Nat} {cookie : UInt64}
    (h : (QueueCall.peek.run q).1 = .front bytes handles cookie) :
    ∃ m rest, q.messages = m :: rest ∧ m.seq = cookie := by
  cases found : q.messages with
  | nil =>
    simp only [QueueCall.run, peekFront, found] at h
    cases h
  | cons m rest =>
    simp only [QueueCall.run, peekFront, found] at h
    cases h
    exact ⟨m, rest, rfl, rfl⟩

theorem front_of_consume {q : MessageQueue} {m : ChannelMessage} {cookie : UInt64}
    (named : call = .consume cookie ∨ ∃ bytes handles, call = .consumeIfFits cookie bytes handles)
    (h : (call.run q).1 = .taken m) : m ∈ q.messages ∧ m.seq = cookie := by
  have does := call.run_does q
  rw [h] at does
  generalize (call.run q).2 = after at does
  cases does with
  | take _ _ rest front own =>
    refine ⟨by rw [front]; exact mem_cons_self, ?_⟩
    rcases named with rfl | ⟨bytes, handles, rfl⟩
    · rcases own with own | own | ⟨_, _, own⟩ <;> cases own
      rfl
    rcases own with own | own | ⟨_, _, own⟩ <;> cases own
    rfl
  | leave _ _ fails none => exact absurd rfl (none m)

/-- In every history the messages that left and those that wait are the accepted ones, in order and
unaltered, the charges are those of the messages that wait, and calls that fail change nothing. As
long as no more than `2 ^ 64` messages were accepted, a cookie names one message, and whoever peeked
at it takes that message or none. -/
theorem reachable_keeps_messages (storage : { capacity // maxChannelQueueMessages ≤ capacity })
    (calls : List QueueCall) :
    let h := (start storage).run calls
    h.messages.map content = h.accepted.map content ∧
      (h.queue.quota.used .memory).toNat = (h.queue.messages.map dataLen).sum ∧
      (h.queue.quota.used .handles).toNat = (h.queue.messages.map handleCount).sum ∧
      (∀ call : QueueCall, (call.run h.queue).1 = .accepted ∨
        (∃ m, (call.run h.queue).1 = .taken m) ∨ (call.run h.queue).2 = h.queue) ∧
      (∀ msg back reason, ((QueueCall.enqueue msg).run h.queue).1 = .refused back reason → back = msg) ∧
      (h.accepted.length ≤ 2 ^ 64 → (h.messages.map seq).Nodup) ∧
      ∀ bytes handles cookie, (QueueCall.peek.run h.queue).1 = .front bytes handles cookie →
        ∀ later, (h.run later).accepted.length ≤ 2 ^ 64 →
        ∀ (call : QueueCall) (m : ChannelMessage),
          (call = .consume cookie ∨ ∃ b n, call = .consumeIfFits cookie b n) →
          (call.run (h.run later).queue).1 = .taken m → h.queue.messages.head? = some m := by
  intro h
  have s : h.Sound := (sound_start storage).run calls
  refine ⟨s.kept, s.booked.bytes, s.booked.handles, fun call => ?_, fun msg back reason no => ?_,
    s.cookies_nodup, ?_⟩
  · have does := call.run_does h.queue
    generalize (call.run h.queue).1 = answer at does
    generalize (call.run h.queue).2 = after at does
    cases does with
    | accept => exact .inl rfl
    | take _ m => exact .inr (.inl ⟨m, rfl⟩)
    | leave => exact .inr (.inr rfl)
  · have does := (QueueCall.enqueue msg).run_does h.queue
    rw [no] at does
    generalize ((QueueCall.enqueue msg).run h.queue).2 = after at does
    cases does with
    | leave _ _ _ _ eq => exact eq msg back reason rfl rfl
  intro bytes handles cookie peeked later few call m named took
  obtain ⟨front, rest, waiting, own⟩ := front_of_peek peeked
  obtain ⟨mem, cookie'⟩ := front_of_consume named took
  have pre : front ∈ h.messages := by simp [messages, waiting]
  have after : m ∈ (h.run later).messages := mem_append_right _ mem
  rw [waiting, head?_cons, s.same_message few pre after (cookie'.trans own.symm)]

def hello : ChannelMessage := .new ⟨[], nil_fits⟩ ⟨[], nil_fits⟩

/-- Send one message after the other, each taken before the next. -/
def rounds (n : Nat) : List QueueCall :=
  (List.replicate n [QueueCall.enqueue hello, .dequeue]).flatten

theorem admits_hello {q : MessageQueue} (booked : q.Booked) (empty : q.messages = []) : q.Admits hello := by
  have bytes : q.quota.used .memory = 0 := by
    apply UInt64.toNat_inj.mp
    rw [booked.bytes, empty]
    rfl
  have handles : q.quota.used .handles = 0 := by
    apply UInt64.toNat_inj.mp
    rw [booked.handles, empty]
    rfl
  refine ⟨?_, ?_, ?_⟩
  · rw [empty]
    decide
  · rw [Quota.fits, booked.limits, bytes]
    decide
  rw [Quota.fits, booked.limits, handles]
  decide

theorem run_rounds (s : h.Sound) (empty : h.queue.messages = []) (n : Nat) :
    (h.run (rounds n)).queue.messages = [] ∧ (h.run (rounds n)).accepted.length = h.accepted.length + n := by
  induction n generalizing h with
  | zero => exact ⟨empty, rfl⟩
  | succ n ih =>
    let first := h.step (.enqueue hello)
    have sent : first = ⟨h.queue.push hello, h.accepted ++ [hello], h.taken⟩ := by
      simp [first, step, QueueCall.run, gives, takes, enqueue_of_admits (admits_hello s.booked empty)]
    have waiting : first.queue.messages = [{ hello with seq := h.queue.nextSeq }] := by
      simp [sent, MessageQueue.push, empty]
    have received : (first.step .dequeue).queue.messages = [] ∧
        (first.step .dequeue).accepted = h.accepted ++ [hello] := by
      have kept : first.accepted = h.accepted ++ [hello] := by rw [sent]
      simp [step, QueueCall.run, gives, MessageQueue.dequeue_cons waiting, MessageQueue.pop, kept]
    have rest := ih ((s.step (.enqueue hello)).step .dequeue) received.1
    rw [received.2, length_append, length_singleton] at rest
    have unfold_rounds : h.run (rounds (n + 1)) = (first.step .dequeue).run (rounds n) := rfl
    rw [unfold_rounds]
    exact ⟨rest.1, by rw [rest.2]; omega⟩

/-- After `2 ^ 64` messages the cookies start again. -/
theorem Sound.cookies_repeat (s : h.Sound) (many : 2 ^ 64 < h.accepted.length) :
    ¬(h.messages.map seq).Nodup := by
  intro ne
  rw [s.cookies] at ne
  have first : 0 ∈ List.range h.accepted.length := mem_range.mpr (Nat.zero_lt_of_lt many)
  have last : 2 ^ 64 ∈ List.range h.accepted.length := mem_range.mpr many
  have wrapped : UInt64.ofNat 0 = UInt64.ofNat (2 ^ 64) := by decide
  exact absurd (inj_on_of_nodup_map ne first last wrapped) (by decide)

theorem cookie_of_two_messages :
    ¬(((start ⟨256, by decide⟩).run (rounds (2 ^ 64 + 1))).messages.map seq).Nodup := by
  have begins := sound_start ⟨256, by decide⟩
  apply (begins.run (rounds (2 ^ 64 + 1))).cookies_repeat
  rw [(run_rounds begins rfl (2 ^ 64 + 1)).2]
  exact lt_of_lt_of_le (Nat.lt_succ_self _) (Nat.le_add_left _ _)

end History
end HuesOS.Ipc
