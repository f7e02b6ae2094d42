import HuesOS.Ipc.Readers

/-! When a queued message has a reader coming for it. -/

namespace HuesOS.Ipc
open List Function Finset MessageQueue Signals
variable {tasks : Nat}

namespace Wait
variable {wait : Wait} {seen : Seen} {inbox inbox' : MessageQueue} {msg : ChannelMessage}

/-- A wait that a message ends, whatever the message is. -/
def heeds : Wait → Bool
  | .waitSet mode awaited _ _ => mode = .any && readable.intersects awaited
  | _ => true

theorem heeds_of_couldTake (could : wait.couldTake msg = true) : wait.heeds = true := by
  cases wait with
  | waitSet mode awaited others timed => exact could
  | _ => rfl

theorem intersects_or {s t awaited : Signals} (meets : t.intersects awaited = true) :
    intersects (s ||| t) awaited = true := by
  unfold intersects at *
  rw [bne_iff_ne] at *
  intro none
  apply meets
  rw [BitVec.and_or_distrib_right] at none
  exact (BitVec.or_eq_zero_iff.mp none).2

theorem messages_of_dequeue (found : inbox.dequeue = (some msg, inbox')) :
    inbox.messages = msg :: inbox'.messages := by
  unfold dequeue at found
  split at found <;> cases found
  assumption

theorem look_took (took : wait.look seen inbox = .took inbox') :
    inbox.messages.length = inbox'.messages.length + 1 := by
  have fits : ∀ byteCapacity handleCapacity,
      lookIfFits byteCapacity handleCapacity inbox = .took inbox' →
        inbox.messages.length = inbox'.messages.length + 1 := by
    intro byteCapacity handleCapacity took
    unfold lookIfFits at took
    split at took
    · cases took
    next front found =>
    split at took
    · cases took
    split at took <;> cases took
    cases here : inbox.messages with
    | nil => rw [here] at found; cases found
    | cons msg rest => simp [dequeue, here]
  cases wait with
  | recvBlocking timed =>
    rw [look] at took
    split at took <;> cases took
    next found => rw [messages_of_dequeue found, length_cons]
  | recvIfFitsBlocking byteCapacity handleCapacity => exact fits _ _ took
  | channelRead capacity => exact fits _ _ took
  | channelPeek timed =>
    rw [look] at took
    split at took <;> cases took
  | waitSet mode awaited others timed =>
    rw [look] at took
    split at took <;> cases took

theorem look_nothing (heeds : wait.heeds = true) (nothing : wait.look seen inbox = .nothing) :
    inbox.messages = [] := by
  have fits : ∀ byteCapacity handleCapacity,
      lookIfFits byteCapacity handleCapacity inbox = .nothing → inbox.messages = [] := by
    intro byteCapacity handleCapacity nothing
    unfold lookIfFits at nothing
    split at nothing
    next found => exact head?_eq_none_iff.mp found
    split at nothing
    · cases nothing
    · split at nothing <;> cases nothing
  cases here : inbox.messages with
  | nil => rfl
  | cons msg rest =>
    exfalso
    have front : inbox.peekFront.isSome = true := by simp [peekFront, here]
    cases wait with
    | recvBlocking timed => simp [look, dequeue, here] at nothing
    | recvIfFitsBlocking byteCapacity handleCapacity =>
      rw [fits _ _ nothing] at here
      cases here
    | channelRead capacity =>
      rw [fits _ _ nothing] at here
      cases here
    | channelPeek timed => simp [look, front] at nothing
    | waitSet mode awaited others timed =>
      obtain ⟨rfl, readable⟩ : mode = .any ∧ readable.intersects awaited = true := by
        simpa [Wait.heeds] using heeds
      have satisfied : (items awaited others seen inbox).any WaitItem.isSatisfied = true := by
        simp only [items, front, if_true, any_cons, Bool.or_eq_true]
        exact .inl (intersects_or readable)
      simp [look, pollAt, satisfied] at nothing

end Wait

abbrev ReaderConfig (tasks : Nat) := Config (Endpoint tasks) (fun _ : Fin tasks => TaskPoint) Empty

def endpointProgram : Program (Endpoint tasks) (fun _ : Fin tasks => TaskPoint)
    (fun _ => TaskChoice) Empty := fun task k t s => taskStep task k t s

namespace TaskPoint

/-- Whether a reader at this point has been woken and still has to look at the inbox. -/
def owesLook (wakePending : Bool) : TaskPoint → Bool
  | .first _ woken => woken || wakePending
  | .prepare _ woken => woken || wakePending
  | .check _ woken => woken || wakePending
  | .parked _ => wakePending
  | .unparked _ woken => woken || wakePending
  | .last _ woken => woken || wakePending
  | _ => false

def isSent : TaskPoint → Bool
  | .sent => true
  | _ => false

def inLine : TaskPoint → Bool
  | .check .. | .cancel | .parked _ | .unparked .. => true
  | _ => false

/-- Points where the task stands in line unless it has been woken. -/
def mustQueue : TaskPoint → Bool
  | .check .. | .parked _ => true
  | _ => false

theorem owesLook_mono {p : TaskPoint} {pending pending' : Bool}
    (more : pending = true → pending' = true) (owes : p.owesLook pending = true) :
    p.owesLook pending' = true := by
  cases pending with
  | true =>
    rw [more rfl]
    exact owes
  | false => cases p <;> simp_all [owesLook]

theorem owesLook_begin {wait : Wait} {woken pending : Bool} :
    (wait.begin woken).owesLook pending = (woken || pending) := by
  unfold Wait.begin
  split <;> rfl

end TaskPoint

namespace ReaderConfig

def owesLook (c : ReaderConfig tasks) (i : Fin tasks) : Bool :=
  (c.threads i).owesLook (c.shared.wakePending i)

/-- A reader is parked, and no wake-up is on its way to it. -/
def Blocked (c : ReaderConfig tasks) (i : Fin tasks) (wait : Wait) : Prop :=
  c.threads i = .parked wait ∧ c.shared.wakePending i = false

/-- A message is queued that a blocked reader could take, no sender has a waiter to wake yet, and
no woken reader has to look at the inbox. -/
def Stranded (c : ReaderConfig tasks) : Prop :=
  ∃ msg, c.shared.inbox.messages.head? = some msg ∧
    (∃ i wait, c.Blocked i wait ∧ wait.couldTake msg = true) ∧
    (∀ i, c.threads i ≠ .sent) ∧ ∀ i, c.owesLook i = false

end ReaderConfig

/-- A step in which a reader leaves the message that it looks at, or leaves at its deadline without
a look. -/
def leavesUnread (inbox : MessageQueue) : TaskChoice → TaskPoint → Bool
  | .go seen, .first wait _ => !(wait.look seen inbox).isTook
  | .go seen, .check wait _ => !(wait.look seen inbox).isTook
  | .go seen, .last wait _ => !(wait.look seen inbox).isTook
  | .go seen, .unparked wait _ => wait.timed && seen.late && !wait.looksLast
  | _, _ => false

/-- A wake-up is swallowed: while a message is queued and another reader is blocked, a waiter is
woken that is done with its wait and only has to leave the line, or a woken reader does not take
the message. -/
def Swallows (act : (_ : Fin tasks) × TaskChoice) (c : ReaderConfig tasks) : Prop :=
  c.shared.inbox.messages ≠ [] ∧ (∃ other wait, other ≠ act.1 ∧ c.Blocked other wait) ∧
    ((c.threads act.1 = .sent ∧
        ∃ oldest rest, c.shared.waiters = oldest :: rest ∧ c.threads oldest = .cancel) ∨
      (c.owesLook act.1 = true ∧ leavesUnread c.shared.inbox act.2 (c.threads act.1) = true))

namespace ReaderConfig
variable {c c' : ReaderConfig tasks} {i j b : Fin tasks}

def ahead (c : ReaderConfig tasks) (b : Fin tasks) : List (Fin tasks) :=
  c.shared.waiters.takeWhile (· ≠ b)

/-- A task from which a blocked reader may expect something: a sender that has to wake a waiter, or
a woken reader that is no longer ahead in line. -/
def credited (c : ReaderConfig tasks) (b i : Fin tasks) : Bool :=
  (c.threads i).isSent || (c.owesLook i && !(c.ahead b).contains i)

def credits (c : ReaderConfig tasks) (b : Fin tasks) : Finset (Fin tasks) :=
  Finset.univ.filter fun i => c.credited b i = true

theorem mem_credits : j ∈ c.credits b ↔ c.credited b j = true := by
  simp [credits]

theorem credited_mono (same : c'.threads j = c.threads j)
    (pending : c.shared.wakePending j = true → c'.shared.wakePending j = true)
    (behind : j ∈ c'.ahead b → j ∈ c.ahead b) (credited : c.credited b j = true) :
    c'.credited b j = true := by
  simp only [ReaderConfig.credited, owesLook, same, Bool.or_eq_true, Bool.and_eq_true,
    Bool.not_eq_true', contains_eq_mem, decide_eq_false_iff_not] at *
  rcases credited with sent | ⟨owes, not_ahead⟩
  · exact .inl sent
  · exact .inr ⟨TaskPoint.owesLook_mono pending owes, fun now => not_ahead (behind now)⟩

structure Sound (c : ReaderConfig tasks) : Prop where
  once : c.shared.waiters.Nodup
  members : ∀ i ∈ c.shared.waiters, (c.threads i).inLine = true
  line : ∀ i, (c.threads i).mustQueue = true → c.shared.wakePending i = false → i ∈ c.shared.waiters
  enough : ∀ b wait, c.Blocked b wait → wait.heeds = true →
    c.shared.inbox.messages.length ≤ (c.credits b).card

/-- While enough is expected, a queued message has a sender or a woken reader that comes for it. -/
theorem Sound.not_stranded (h : c.Sound) : ¬c.Stranded := by
  rintro ⟨msg, front, ⟨b, wait, blocked, could⟩, senders, readers⟩
  have some_ : 0 < c.shared.inbox.messages.length := by
    apply length_pos_of_mem (mem_of_mem_head? front)
  have enough := h.enough b wait blocked (Wait.heeds_of_couldTake could)
  obtain ⟨i, mem⟩ := card_pos.mp (lt_of_lt_of_le some_ enough)
  rw [mem_credits, credited, Bool.or_eq_true, Bool.and_eq_true] at mem
  rcases mem with sent | ⟨owes, -⟩
  · apply senders i
    cases here : c.threads i <;> simp_all [TaskPoint.isSent]
  rw [readers i] at owes
  cases owes

/-- How what is expected of a task and the number of messages change together. -/
inductive Balance (i b : Fin tasks) (c c' : ReaderConfig tasks) : Prop
  | empty (none : c'.shared.inbox.messages = [])
  | quiet (same : c'.shared.inbox.messages.length = c.shared.inbox.messages.length)
      (kept : c.credited b i = true → c'.credited b i = true)
  | took (one : c.shared.inbox.messages.length = c'.shared.inbox.messages.length + 1)
  | sent (one : c'.shared.inbox.messages.length = c.shared.inbox.messages.length + 1)
      (before : c.credited b i = false) (after : c'.credited b i = true)

theorem Balance.enough (balance : Balance i b c c')
    (others : ∀ j, j ≠ i → c.credited b j = true → c'.credited b j = true)
    (enough : c.shared.inbox.messages.length ≤ (c.credits b).card) :
    c'.shared.inbox.messages.length ≤ (c'.credits b).card := by
  have rest : (c.credits b).erase i ⊆ c'.credits b := by
    intro j mem
    obtain ⟨other, credited⟩ := mem_erase.mp mem
    exact mem_credits.mpr (others j other (mem_credits.mp credited))
  cases balance with
  | empty none => simp [none]
  | quiet eq kept =>
    have all : c.credits b ⊆ c'.credits b := by
      intro j mem
      by_cases here : j = i
      · subst here
        exact mem_credits.mpr (kept (mem_credits.mp mem))
      · exact rest (mem_erase.mpr ⟨here, mem⟩)
    have := card_le_card all
    omega
  | took one =>
    have := card_le_card rest
    have : (c.credits b).card ≤ ((c.credits b).erase i).card + 1 := Nat.le_add_of_sub_le pred_card_le_card_erase
    omega
  | sent one pre after =>
    have new : i ∉ c.credits b := by simp [mem_credits, pre]
    have all : insert i (c.credits b) ⊆ c'.credits b := by
      intro j mem
      rcases mem_insert.mp mem with rfl | old
      · exact mem_credits.mpr after
      have other : j ≠ i := by
        rintro rfl
        exact new old
      exact rest (mem_erase.mpr ⟨other, old⟩)
    have := card_le_card all
    rw [card_insert_of_notMem new] at this
    omega

/-- A step of one task that wakes nobody: it joins the line at its end or leaves it, and the others
stay where they are. -/
structure Turn (i : Fin tasks) (c c' : ReaderConfig tasks) : Prop where
  still : ∀ j, j ≠ i → c'.threads j = c.threads j
  pendings : ∀ j, j ≠ i → c'.shared.wakePending j = c.shared.wakePending j
  once : c'.shared.waiters.Nodup
  others : ∀ j, j ≠ i → (j ∈ c'.shared.waiters ↔ j ∈ c.shared.waiters)
  own : i ∈ c'.shared.waiters → (c'.threads i).inLine = true
  queued : (c'.threads i).mustQueue = true → c'.shared.wakePending i = false → i ∈ c'.shared.waiters
  behind : ∀ b ∈ c.shared.waiters, b ≠ i → ∀ j ∈ c'.ahead b, j ∈ c.ahead b
  parks : ∀ wait, c'.threads i = .parked wait → wait.heeds = true → c'.shared.inbox.messages = []
  balance : ∀ b wait, b ≠ i → c.Blocked b wait → Balance i b c c'

theorem Sound.turn (h : c.Sound) (t : Turn i c c') : c'.Sound where
  once := t.once
  members := by
    intro j mem
    by_cases here : j = i
    · rw [here] at mem ⊢
      exact t.own mem
    rw [t.still j here]
    exact h.members j ((t.others j here).mp mem)
  line := by
    intro j must unwoken
    by_cases here : j = i
    · rw [here] at must unwoken ⊢
      exact t.queued must unwoken
    rw [t.still j here] at must
    rw [t.pendings j here] at unwoken
    exact (t.others j here).mpr (h.line j must unwoken)
  enough := by
    intro b wait blocked heeds
    by_cases here : b = i
    · rw [here] at blocked
      rw [t.parks wait blocked.1 heeds]
      exact Nat.zero_le _
    have pre : c.Blocked b wait := by
      rw [Blocked, ← t.still b here, ← t.pendings b here]
      exact blocked
    have waits : b ∈ c.shared.waiters := by
      apply h.line b _ pre.2
      rw [pre.1]
      rfl
    refine (t.balance b wait here pre).enough (fun j other => ?_) (h.enough b wait pre heeds)
    apply credited_mono (t.still j other)
    · rw [t.pendings j other]
      exact id
    · exact t.behind b waits here j

theorem Turn.inside (h : c.Sound) (still : ∀ j, j ≠ i → c'.threads j = c.threads j)
    (waiters : c'.shared.waiters = c.shared.waiters)
    (pending : c'.shared.wakePending = c.shared.wakePending)
    (kept : (c.threads i).inLine = true → (c'.threads i).inLine = true)
    (queued : (c'.threads i).mustQueue = true → (c.threads i).mustQueue = true)
    (parks : ∀ wait, c'.threads i = .parked wait → wait.heeds = true → c'.shared.inbox.messages = [])
    (balance : ∀ b wait, b ≠ i → c.Blocked b wait → Balance i b c c') : Turn i c c' where
  still := still
  pendings := by simp [pending]
  once := by
    rw [waiters]
    exact h.once
  others := by simp [waiters]
  own := by
    rw [waiters]
    exact fun mem => kept (h.members i mem)
  queued := by
    rw [waiters, pending]
    exact fun must => h.line i (queued must)
  behind := by simp [ahead, waiters]
  parks := parks
  balance := balance

/-- Moves within a wait that leave the line as it is. -/
inductive Quiet : TaskPoint → TaskPoint → Prop
  | idle : Quiet .idle .idle
  | begin {wait : Wait} : Quiet .idle (wait.begin false)
  | first {wait woken} : Quiet (.first wait woken) .idle
  | prepare {wait woken} : Quiet (.first wait woken) (.prepare wait false)
  | check {wait woken} : Quiet (.check wait woken) .cancel
  | park {wait woken} : Quiet (.check wait woken) (.parked wait)
  | last {wait woken} : Quiet (.last wait woken) .idle

theorem begin_mustQueue (wait : Wait) (woken : Bool) : (wait.begin woken).mustQueue = false := by
  unfold Wait.begin
  split <;> rfl

theorem Quiet.facts {p p' : TaskPoint} (q : Quiet p p') : p.isSent = false ∧
    (p.inLine = true → p'.inLine = true) ∧ (p'.mustQueue = true → p.mustQueue = true) := by
  cases q with
  | begin => simp [TaskPoint.isSent, TaskPoint.inLine, begin_mustQueue]
  | _ => simp [TaskPoint.isSent, TaskPoint.inLine, TaskPoint.mustQueue]

theorem Turn.silent (h : c.Sound) (still : ∀ j, j ≠ i → c'.threads j = c.threads j)
    (shared : c'.shared = c.shared) (moves : Quiet (c.threads i) (c'.threads i))
    (parks : ∀ wait, c'.threads i = .parked wait → wait.heeds = true → c.shared.inbox.messages = [])
    (unread : ∀ b wait, b ≠ i → c.Blocked b wait →
      c.shared.inbox.messages = [] ∨ c.owesLook i = false) : Turn i c c' := by
  obtain ⟨reader, kept, queued⟩ := moves.facts
  refine .inside h still (by rw [shared]) (by rw [shared]) kept queued (shared ▸ parks)
    fun b wait other blocked => ?_
  rcases unread b wait other blocked with none | nothing
  · exact .empty (by rw [shared]; exact none)
  refine .quiet (by rw [shared]) fun credited => ?_
  simp [ReaderConfig.credited, reader, nothing] at credited

variable {wait : Wait} {seen : Seen}

theorem Turn.takes (h : c.Sound) (still : ∀ j, j ≠ i → c'.threads j = c.threads j) {inbox : MessageQueue} (took : wait.look seen c.shared.inbox = .took inbox)
    (shared : c'.shared = { c.shared with inbox }) (moves : Quiet (c.threads i) (c'.threads i))
    (awake : ∀ wait, c'.threads i ≠ .parked wait) : Turn i c c' := by
  obtain ⟨-, kept, queued⟩ := moves.facts
  refine .inside h still (by rw [shared]) (by rw [shared]) kept queued ?_
    fun b wait' other blocked => .took ?_
  · exact fun wait' parked => absurd parked (awake wait')
  rw [shared]
  exact Wait.look_took took

/-- Somebody who joins the line gets ahead of nobody in it. -/
theorem takeWhile_append_mem {waiters more : List (Fin tasks)} (there : b ∈ waiters) :
    (waiters ++ more).takeWhile (· ≠ b) = waiters.takeWhile (· ≠ b) := by
  induction waiters with
  | nil => cases there
  | cons first rest ih =>
    by_cases here : first = b
    · simp [here]
    rw [cons_append, takeWhile_cons_of_pos (by simpa using here),
      takeWhile_cons_of_pos (by simpa using here),
      ih ((mem_cons.mp there).resolve_left (Ne.symm here))]

/-- Who leaves the line leaves fewer ahead of the others. -/
theorem mem_takeWhile_filter {waiters : List (Fin tasks)} (other : b ≠ i)
    (mem : j ∈ (waiters.filter (· ≠ i)).takeWhile (· ≠ b)) :
    j ∈ waiters.takeWhile (· ≠ b) := by
  induction waiters with
  | nil => exact mem
  | cons first rest ih =>
    by_cases leaves : first = i
    · rw [List.filter_cons_of_neg (by simpa using leaves)] at mem
      rw [takeWhile_cons_of_pos (by simpa [leaves] using Ne.symm other)]
      exact .tail _ (ih mem)
    rw [List.filter_cons_of_pos (by simpa using leaves)] at mem
    by_cases here : first = b
    · simp [here] at mem
    rw [takeWhile_cons_of_pos (by simpa using here)] at mem ⊢
    rcases mem_cons.mp mem with eq | later
    · exact eq ▸ mem_cons_self
    · exact .tail _ (ih later)

theorem Turn.leave (h : c.Sound) (still : ∀ j, j ≠ i → c'.threads j = c.threads j)
    (shared : c'.shared = c.shared.remove i) (must : (c'.threads i).mustQueue = false)
    (kept : ∀ b wait, b ≠ i → c.Blocked b wait → c.shared.inbox.messages = [] ∨
      ((c.threads i).isSent = false ∧ (c.owesLook i = true → c'.owesLook i = true))) :
    Turn i c c' where
  still := still
  pendings := by
    intro j _
    rw [shared]
    rfl
  once := by
    rw [shared]
    exact h.once.filter _
  others := by
    intro j other
    simp [shared, Endpoint.remove, other]
  own := by simp [shared, Endpoint.remove]
  queued := by simp [must]
  behind := by
    intro b _ other j mem
    rw [ahead, shared] at mem
    exact mem_takeWhile_filter other mem
  parks := by
    intro wait parked
    rw [parked] at must
    cases must
  balance := by
    intro b wait other blocked
    rcases kept b wait other blocked with none | ⟨reader, owes⟩
    · exact .empty (by rw [shared]; exact none)
    refine .quiet (by rw [shared]; rfl) fun credited => ?_
    simp only [ReaderConfig.credited, reader, Bool.false_or, Bool.and_eq_true] at credited
    have gone : i ∉ c'.ahead b := by
      rw [ahead, shared]
      intro mem
      have := takeWhile_subset _ mem
      simp [Endpoint.remove] at this
    simp [ReaderConfig.credited, owes credited.1, gone]

theorem Turn.join (h : c.Sound) (still : ∀ j, j ≠ i → c'.threads j = c.threads j)
    {woken : Bool} (pre : c.threads i = .prepare wait woken)
    (after : c'.threads i = .check wait woken) (shared : c'.shared = c.shared.enqueue i) :
    Turn i c c' := by
  have absent : i ∉ c.shared.waiters := by
    intro mem
    have inside := h.members i mem
    rw [pre] at inside
    cases inside
  have joined : c'.shared = { c.shared with waiters := c.shared.waiters ++ [i] } := by
    rw [shared, Endpoint.enqueue, if_neg absent]
  have behind : ∀ b ∈ c.shared.waiters, c'.ahead b = c.ahead b := by
    intro b there
    rw [ahead, joined]
    exact takeWhile_append_mem there
  exact {
    still := still
    pendings := by simp [joined]
    once := by
      rw [joined]
      refine List.nodup_append.mpr ⟨h.once, List.nodup_singleton i, ?_⟩
      rintro j there _ here rfl
      rw [List.mem_singleton] at here
      exact absent (here ▸ there)
    others := by
      intro j other
      simp [joined, other]
    own := by simp [after, TaskPoint.inLine]
    queued := by simp [joined]
    behind := by
      intro b there _ j mem
      rwa [behind b there] at mem
    parks := by simp [after]
    balance := by
      intro b wait' other blocked
      have there : b ∈ c.shared.waiters := by
        apply h.line b _ blocked.2
        rw [blocked.1]
        rfl
      refine .quiet (by rw [joined]) fun credited => ?_
      rw [ReaderConfig.credited, behind b there, owesLook, after, joined]
      rw [ReaderConfig.credited, owesLook, pre] at credited
      exact credited }

theorem Turn.unpark (h : c.Sound) (still : ∀ j, j ≠ i → c'.threads j = c.threads j)
    (pre : c.threads i = .parked wait)
    (after : c'.threads i = .unparked wait (c.shared.wakePending i))
    (shared : c'.shared = { c.shared with
      wakePending := update c.shared.wakePending i false }) : Turn i c c' where
  still := still
  pendings := by
    intro j other
    rw [shared]
    exact update_of_ne other ..
  once := by
    rw [shared]
    exact h.once
  others := by simp [shared]
  own := by simp [after, TaskPoint.inLine]
  queued := by simp [after, TaskPoint.mustQueue]
  behind := by simp [ahead, shared]
  parks := by simp [after]
  balance := by
    intro b wait' other blocked
    refine .quiet (by rw [shared]) fun credited => ?_
    rw [ReaderConfig.credited, owesLook, pre] at credited
    rw [ReaderConfig.credited, owesLook, after, ahead, shared]
    simpa [TaskPoint.isSent, TaskPoint.owesLook, ahead] using credited

/-- One task stops being expected and another one begins to be. -/
theorem card_credits_of_exchange {a : Fin tasks}
    (others : ∀ j, j ≠ i → c.credited b j = true → c'.credited b j = true)
    (pre : c.credited b a = false) (after : c'.credited b a = true) :
    (c.credits b).card ≤ (c'.credits b).card := by
  have new : a ∉ (c.credits b).erase i := by
    intro mem
    have credited := mem_credits.mp (Finset.mem_of_mem_erase mem)
    rw [pre] at credited
    cases credited
  have all : insert a ((c.credits b).erase i) ⊆ c'.credits b := by
    intro j mem
    rcases mem_insert.mp mem with rfl | old
    · exact mem_credits.mpr after
    obtain ⟨other, credited⟩ := mem_erase.mp old
    exact mem_credits.mpr (others j other (mem_credits.mp credited))
  calc (c.credits b).card ≤ ((c.credits b).erase i).card + 1 :=
        Nat.le_add_of_sub_le pred_card_le_card_erase
    _ = (insert a ((c.credits b).erase i)).card := (card_insert_of_notMem new).symm
    _ ≤ (c'.credits b).card := card_le_card all

/-- The oldest waiter is woken, and will look unless the wake-up is swallowed. -/
theorem Sound.wake (h : c.Sound) (still : ∀ j, j ≠ i → c'.threads j = c.threads j)
    (pre : c.threads i = .sent) (after : c'.threads i = .idle)
    (shared : c'.shared = c.shared.wakeOne)
    (heard : ∀ b wait, b ≠ i → c.Blocked b wait → c.shared.inbox.messages ≠ [] →
      ∀ oldest rest, c.shared.waiters = oldest :: rest → c.threads oldest ≠ .cancel) :
    c'.Sound := by
  have waits : ∀ b wait, c.Blocked b wait → b ∈ c.shared.waiters := by
    intro b wait blocked
    apply h.line b _ blocked.2
    rw [blocked.1]
    rfl
  cases line : c.shared.waiters with
  | nil =>
    have eq : c'.shared = c.shared := by rw [shared, Endpoint.wakeOne, line]
    refine h.turn (.inside h still (by rw [eq]) (by rw [eq]) ?_ ?_ ?_ fun b wait _ blocked => ?_)
    · simp [pre, TaskPoint.inLine]
    · simp [after, TaskPoint.mustQueue]
    · simp [after]
    have there := waits b wait blocked
    rw [line] at there
    cases there
  | cons oldest rest =>
    obtain ⟨inbox, waiters, pending⟩ : c'.shared.inbox = c.shared.inbox ∧
        c'.shared.waiters = rest ∧
        c'.shared.wakePending = update c.shared.wakePending oldest true := by
      rw [shared, Endpoint.wakeOne, line]
      exact ⟨rfl, rfl, rfl⟩
    have members : ∀ j ∈ oldest :: rest, j ≠ i ∧ (c.threads j).inLine = true := by
      intro j mem
      have inside := h.members j (line ▸ mem)
      refine ⟨?_, inside⟩
      rintro rfl
      rw [pre] at inside
      cases inside
    have once := h.once
    rw [line, nodup_cons] at once
    have later : ∀ j, c'.shared.wakePending j = false → j ≠ oldest ∧ c.shared.wakePending j = false := by
      intro j unwoken
      rw [pending] at unwoken
      have other : j ≠ oldest := by
        rintro rfl
        rw [update_self] at unwoken
        cases unwoken
      rw [update_of_ne other] at unwoken
      exact ⟨other, unwoken⟩
    refine ⟨by rw [waiters]; exact once.2, fun j mem => ?_, fun j must unwoken => ?_,
      fun b wait blocked heeds => ?_⟩
    · rw [waiters] at mem
      obtain ⟨other, inside⟩ := members j (.tail _ mem)
      rw [still j other]
      exact inside
    · have other : j ≠ i := by
        rintro rfl
        simp [after, TaskPoint.mustQueue] at must
      rw [still j other] at must
      have there := h.line j must (later j unwoken).2
      rw [line] at there
      rw [waiters]
      exact (mem_cons.mp there).resolve_left (later j unwoken).1
    have other : b ≠ i := by
      rintro rfl
      have parked := blocked.1
      rw [after] at parked
      cases parked
    obtain ⟨behind, unwoken⟩ := later b blocked.2
    have was : c.Blocked b wait := ⟨(still b other).symm.trans blocked.1, unwoken⟩
    rw [inbox]
    by_cases none : c.shared.inbox.messages = []
    · simp [none]
    obtain ⟨reader, inside⟩ := members oldest mem_cons_self
    have first : c.ahead b = oldest :: c'.ahead b := by
      rw [ahead, line, takeWhile_cons_of_pos (by simpa using behind.symm), ahead, waiters]
    refine (h.enough b wait was heeds).trans (card_credits_of_exchange (i := i) (a := oldest)
      (fun j away => ?_) ?_ ?_)
    · apply credited_mono (still j away)
      · rw [pending]
        intro already
        by_cases here : j = oldest
        · rw [here, update_self]
        · rwa [update_of_ne here]
      rw [first]
      exact mem_cons_of_mem _
    · rw [credited, first]
      cases at_ : c.threads oldest <;> simp_all [TaskPoint.isSent, TaskPoint.inLine]
    have gone : oldest ∉ c'.ahead b := by
      intro mem
      rw [ahead, waiters] at mem
      exact once.1 (takeWhile_subset _ mem)
    rw [credited, owesLook, still oldest reader, pending, update_self]
    cases at_ : c.threads oldest <;> simp_all [TaskPoint.isSent, TaskPoint.inLine, TaskPoint.owesLook]

/-- A woken reader that leaves without a message finds none, or no other reader is blocked. -/
theorem empty_of_unread {k : TaskChoice} (heard : ¬Swallows ⟨i, k⟩ c)
    (unread : leavesUnread c.shared.inbox k (c.threads i) = true) :
    ∀ b wait, b ≠ i → c.Blocked b wait → c.shared.inbox.messages = [] ∨ c.owesLook i = false := by
  intro b wait other blocked
  by_contra neither
  obtain ⟨some_, owes⟩ := not_or.mp neither
  exact heard ⟨some_, ⟨b, wait, other, blocked⟩, .inr ⟨by simpa using owes, unread⟩⟩

theorem of_taken {p : TaskPoint} {s : Endpoint tasks} {events : List Empty}
    (taken : some (p, s, []) = some (c'.threads i, c'.shared, events)) :
    c'.threads i = p ∧ c'.shared = s := by
  simp only [Option.some.injEq, Prod.mk.injEq] at taken
  exact ⟨taken.1.symm, taken.2.1.symm⟩

/-- A send leaves a waiter to be woken, unless the message is refused. -/
theorem Sound.send (h : c.Sound) {msg : ChannelMessage} {events : List Empty}
    (still : ∀ j, j ≠ i → c'.threads j = c.threads j) (idle : c.threads i = .idle)
    (taken : taskStep i (.send msg) .idle c.shared = some (c'.threads i, c'.shared, events)) :
    c'.Sound := by
  rw [taskStep] at taken
  split at taken
  next inbox ok =>
    obtain ⟨after, shared⟩ := of_taken taken
    have one : inbox.messages.length = c.shared.inbox.messages.length + 1 := by
      unfold enqueue at ok
      dsimp only at ok
      split at ok
      · cases ok
      split at ok <;> cases ok
      simp
    refine h.turn (.inside h still (by rw [shared]) (by rw [shared]) ?_ ?_ ?_
      fun b wait other blocked => .sent (by rw [shared]; exact one) ?_ ?_)
    · simp [idle, TaskPoint.inLine]
    · simp [after, TaskPoint.mustQueue]
    · simp [after]
    · simp [credited, owesLook, idle, TaskPoint.isSent, TaskPoint.owesLook]
    · simp [credited, after, TaskPoint.isSent]
  next reason inbox refused =>
  obtain ⟨after, shared⟩ := of_taken taken
  have eq : inbox = c.shared.inbox := by
    unfold enqueue at refused
    dsimp only at refused
    split at refused
    · cases refused
      rfl
    split at refused <;> cases refused
    rfl
  refine h.turn (.silent h still (by rw [shared, eq]) ?_ (by simp [after])
    fun b wait other blocked => .inr (by simp [owesLook, idle, TaskPoint.owesLook]))
  rw [idle, after]
  exact .idle

/-- A look from one of the points where readers look: it takes a message, or the reader goes on
without one. -/
theorem Sound.look (h : c.Sound) (still : ∀ j, j ≠ i → c'.threads j = c.threads j) (wait : Wait) (heard : ¬Swallows ⟨i, .go seen⟩ c)
    (unread : leavesUnread c.shared.inbox (.go seen) (c.threads i) = !(wait.look seen c.shared.inbox).isTook)
    (shared : c'.shared = { c.shared with
      inbox := (wait.look seen c.shared.inbox).inbox c.shared.inbox })
    (moves : Quiet (c.threads i) (c'.threads i))
    (parks : ∀ wait', c'.threads i = .parked wait' →
      wait' = wait ∧ wait.look seen c.shared.inbox = .nothing) : c'.Sound := by
  cases found : wait.look seen c.shared.inbox with
  | took inbox =>
    rw [found] at shared parks
    exact h.turn (.takes h still found shared moves fun wait' parked => nomatch (parks _ parked).2)
  | ended =>
    rw [found] at shared parks unread
    refine h.turn (.silent h still shared moves (fun wait' parked => nomatch (parks _ parked).2)
      (empty_of_unread heard unread))
  | nothing =>
    rw [found] at shared parks unread
    refine h.turn (.silent h still shared moves (fun wait' parked heeds => ?_) (empty_of_unread heard unread))
    obtain ⟨rfl, -⟩ := parks wait' parked
    exact Wait.look_nothing heeds found

/-- A reader comes back from its park: it begins again, or its time is up. -/
theorem Sound.unparked (h : c.Sound) (still : ∀ j, j ≠ i → c'.threads j = c.threads j) {woken : Bool} (heard : ¬Swallows ⟨i, .go seen⟩ c)
    (pre : c.threads i = .unparked wait woken)
    (after : c'.threads i = if wait.timed && seen.late then
      (if wait.looksLast then .last wait woken else .idle) else wait.begin woken)
    (shared : c'.shared = c.shared.remove i) : c'.Sound := by
  have owes : c.owesLook i = (woken || c.shared.wakePending i) := by
    rw [owesLook, pre]
    rfl
  have reader : (c.threads i).isSent = false := by
    rw [pre]
    rfl
  have pending : c'.shared.wakePending = c.shared.wakePending := by
    rw [shared]
    rfl
  by_cases late : (wait.timed && seen.late) = true
  · by_cases last : wait.looksLast = true
    · rw [if_pos late, if_pos last] at after
      refine h.turn (.leave h still shared (by simp [after, TaskPoint.mustQueue])
        fun b wait' other blocked => .inr ⟨reader, ?_⟩)
      rw [owes, owesLook, after, pending]
      exact id
    rw [if_pos late, if_neg last] at after
    have unread : leavesUnread c.shared.inbox (.go seen) (c.threads i) = true := by
      simp [pre, leavesUnread, late, last]
    refine h.turn (.leave h still shared (by simp [after, TaskPoint.mustQueue]) fun b wait' other blocked => ?_)
    refine (empty_of_unread heard unread b wait' other blocked).imp_right fun nothing => ?_
    exact ⟨reader, by simp [nothing]⟩
  rw [if_neg late] at after
  refine h.turn (.leave h still shared (by rw [after]; exact begin_mustQueue wait woken)
    fun b wait' other blocked => .inr ⟨reader, ?_⟩)
  rw [owes, owesLook, after, pending, TaskPoint.owesLook_begin]
  exact id

theorem Sound.step {act : (_ : Fin tasks) × TaskChoice} (h : c.Sound) (heard : ¬Swallows act c)
    (step : Program.Step endpointProgram act c c') : c'.Sound := by
  obtain ⟨i, k⟩ := act
  obtain ⟨events, taken, still, -⟩ := step.inversion
  rw [endpointProgram] at taken
  cases k with
  | send msg =>
    cases at_ : c.threads i with
    | idle =>
      rw [at_] at taken
      exact h.send still at_ taken
    | _ =>
      rw [at_] at taken
      cases taken
  | wait wait =>
    cases at_ : c.threads i with
    | idle =>
      rw [at_] at taken
      obtain ⟨after, shared⟩ := of_taken taken
      have moves : Quiet (c.threads i) (c'.threads i) := by
        rw [at_, after]
        exact .begin
      refine h.turn (.silent h still shared moves (fun wait' parked => ?_)
        fun b other _ _ => .inr (by simp [owesLook, at_, TaskPoint.owesLook]))
      have free := begin_mustQueue wait false
      rw [← after, parked] at free
      cases free
    | _ =>
      rw [at_] at taken
      cases taken
  | go seen =>
    cases at_ : c.threads i with
    | idle =>
      rw [at_] at taken
      cases taken
    | sent =>
      rw [at_] at taken
      obtain ⟨after, shared⟩ := of_taken taken
      refine h.wake still at_ after shared fun b wait other blocked some_ oldest rest line => ?_
      intro done
      exact heard ⟨some_, ⟨b, wait, other, blocked⟩, .inl ⟨at_, oldest, rest, line, done⟩⟩
    | first wait woken =>
      rw [at_, taskStep] at taken
      split at taken <;> obtain ⟨after, shared⟩ := of_taken taken <;> next found =>
        refine h.look still wait heard (by rw [at_]; rfl) (by rw [found]; exact shared) ?_ (by simp [after])
        rw [at_, after]
        constructor
    | prepare wait woken =>
      rw [at_] at taken
      obtain ⟨after, shared⟩ := of_taken taken
      exact h.turn (.join h still at_ after shared)
    | check wait woken =>
      rw [at_, taskStep] at taken
      split at taken <;> obtain ⟨after, shared⟩ := of_taken taken <;> next found =>
        refine h.look still wait heard (by rw [at_]; rfl) (by rw [found]; exact shared) ?_
          (by simp [after, found, eq_comm])
        rw [at_, after]
        constructor
    | cancel =>
      rw [at_] at taken
      obtain ⟨after, shared⟩ := of_taken taken
      refine h.turn (.leave h still shared (by simp [after, TaskPoint.mustQueue])
        fun b wait other blocked => .inr ?_)
      simp [at_, owesLook, TaskPoint.isSent, TaskPoint.owesLook]
    | parked wait =>
      rw [at_] at taken
      obtain ⟨after, shared⟩ := of_taken taken
      exact h.turn (.unpark h still at_ after shared)
    | unparked wait woken =>
      rw [at_] at taken
      obtain ⟨after, shared⟩ := of_taken taken
      exact h.unparked still heard at_ after shared
    | last wait woken =>
      rw [at_] at taken
      obtain ⟨after, shared⟩ := of_taken taken
      refine h.look still wait heard (by rw [at_]; rfl) shared ?_ (by simp [after])
      rw [at_, after]
      exact .last

def start (storage : { capacity // maxChannelQueueMessages ≤ capacity }) : ReaderConfig tasks :=
  ⟨⟨.new storage, [], fun _ => false⟩, fun _ => .idle, []⟩

theorem sound_start (storage : { capacity // maxChannelQueueMessages ≤ capacity }) :
    (start storage : ReaderConfig tasks).Sound where
  once := .nil
  members := nofun
  line := nofun
  enough := nofun

/-- In every run in which no wake-up is swallowed, a queued message that a blocked reader could
take has a sender or a woken reader coming for it. -/
theorem not_stranded_of_heard (storage : { capacity // maxChannelQueueMessages ≤ capacity })
    (run : Runs (Program.Step endpointProgram) (fun act c => ¬Swallows act c)
      (start storage : ReaderConfig tasks) c) : ¬c.Stranded := by
  have sound := Runs.invariant (P := Sound) (sound_start storage)
    (fun h heard step => h.step heard step) run
  exact sound.not_stranded

def note : ChannelMessage := .new ⟨[1], by decide⟩ ⟨[], nil_fits⟩

def onward : TaskChoice := .go ⟨false, true, fun _ => 0⟩

/-- Two readers park, a message is sent, and the first of them is on its way. -/
theorem not_stranded_of_note : ∃ c : ReaderConfig 3, c.shared.inbox.messages.length = 1 ∧
    c.Blocked 1 (.recvBlocking false) ∧ ¬c.Stranded := by
  have begun : Runs (Program.Step endpointProgram) (fun act c => ¬Swallows act c)
      (start ⟨256, by decide⟩ : ReaderConfig 3) _ := .start
  have first := ((begun.next (k := ⟨0, .wait (.recvBlocking false)⟩) (fun s => s.1 rfl)
    ⟨_, _, _, rfl, rfl⟩).next (k := ⟨0, onward⟩) (fun s => s.1 rfl)
    ⟨_, _, _, rfl, rfl⟩).next (k := ⟨0, onward⟩) (fun s => s.1 rfl) ⟨_, _, _, rfl, rfl⟩
  have second := ((first.next (k := ⟨1, .wait (.recvBlocking false)⟩) (fun s => s.1 rfl)
    ⟨_, _, _, rfl, rfl⟩).next (k := ⟨1, onward⟩) (fun s => s.1 rfl)
    ⟨_, _, _, rfl, rfl⟩).next (k := ⟨1, onward⟩) (fun s => s.1 rfl) ⟨_, _, _, rfl, rfl⟩
  have sent := second.next (k := ⟨2, .send note⟩) (fun s => s.1 rfl) ⟨_, _, _, rfl, rfl⟩
  have woken := sent.next (k := ⟨2, onward⟩) (by
    rintro ⟨-, -, ⟨-, oldest, rest, line, done⟩ | ⟨owes, -⟩⟩
    · cases line
      cases done
    · cases owes) ⟨_, _, _, rfl, rfl⟩
  exact ⟨_, rfl, ⟨rfl, rfl⟩, not_stranded_of_heard _ woken⟩

/-- A reader whose buffer is too small is woken first and fails. -/
def smallBuffer : List ((_ : Fin 3) × TaskChoice) :=
  [⟨0, .wait (.recvIfFitsBlocking 0 0)⟩, ⟨0, onward⟩, ⟨0, onward⟩,
    ⟨1, .wait (.recvBlocking false)⟩, ⟨1, onward⟩, ⟨1, onward⟩, ⟨2, .send note⟩, ⟨2, onward⟩,
    ⟨0, onward⟩, ⟨0, onward⟩, ⟨0, onward⟩, ⟨0, onward⟩, ⟨0, onward⟩]

/-- A reader has its message but still stands in line when the next wake-up comes. -/
def stillInLine : List ((_ : Fin 3) × TaskChoice) :=
  [⟨2, .send note⟩, ⟨2, onward⟩, ⟨0, .wait (.recvBlocking false)⟩, ⟨0, onward⟩, ⟨0, onward⟩,
    ⟨1, .wait (.recvBlocking false)⟩, ⟨1, onward⟩, ⟨1, onward⟩, ⟨2, .send note⟩, ⟨2, onward⟩,
    ⟨0, onward⟩]

theorem stranded_by_swallowed_wakes :
    (∃ c : ReaderConfig 3,
      Program.run endpointProgram smallBuffer (start ⟨256, by decide⟩) = some c ∧ c.Stranded) ∧
    ∃ c : ReaderConfig 3,
      Program.run endpointProgram stillInLine (start ⟨256, by decide⟩) = some c ∧ c.Stranded := by
  have stranded : ∀ c : ReaderConfig 3, c.shared.inbox.messages.head?.isSome = true →
      c.threads 0 = .idle → c.threads 1 = .parked (.recvBlocking false) →
      c.shared.wakePending 1 = false → c.threads 2 = .idle → c.Stranded := by
    intro c queued first second unwoken sender
    obtain ⟨msg, front⟩ := Option.isSome_iff_exists.mp queued
    refine ⟨msg, front, ⟨1, _, ⟨second, unwoken⟩, rfl⟩, fun i => ?_, fun i => ?_⟩
    · fin_cases i <;> simp [first, second, sender]
    · fin_cases i <;> simp [owesLook, TaskPoint.owesLook, first, second, sender, unwoken]
  constructor
  · exact ⟨_, rfl, stranded _ rfl rfl rfl rfl rfl⟩
  · exact ⟨_, rfl, stranded _ rfl rfl rfl rfl rfl⟩

end ReaderConfig
end HuesOS.Ipc
