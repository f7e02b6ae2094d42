import HuesOS.Lib.Bytes
import HuesOS.Lib.Runs

/-! The client of the filesystem service: its calls on one channel and the routines that read the
answers. The service may answer at any later time, also after the call has given up. -/

namespace HuesOS.HxfsClient
open List Option Bytes

inductive HxfsHandleKind
  | none | volume | directory | file | snapshot | blobView
  deriving DecidableEq

def HxfsHandleKind.fromU32 (value : Nat) : Option HxfsHandleKind :=
  [.none, .volume, .directory, .file, .snapshot, .blobView][value]?

inductive HxfsStatus
  | ok | invalid | notFound | alreadyExists | wrongType | accessDenied | needsRecovery | ioError
  | noSpace | unsupported | encryptedUnavailable | corruptObject | refcountZero
  deriving DecidableEq

def HxfsStatus.fromU32 (value : Nat) : Option HxfsStatus :=
  [.ok, .invalid, .notFound, .alreadyExists, .wrongType, .accessDenied, .needsRecovery, .ioError,
    .noSpace, .unsupported, .encryptedUnavailable, .corruptObject, .refcountZero][value]?

structure HxfsResponse where
  status : HxfsStatus
  requestId : Nat
  handleKind : HxfsHandleKind
  rights : Nat
  value : Nat
  payloadLen : Nat
  deriving DecidableEq

def responseBytes : Nat := 64
def maxInlineWriteBytes : Nat := 4096
def nativeMessageBytes : Nat := responseBytes + maxInlineWriteBytes
def protocolVersion : Nat := 1

def HxfsResponse.decode (bytes : List UInt8) : Option HxfsResponse := do
  guard (bytes.length = responseBytes)
  let version ← Bytes.field? bytes 0 2
  let reserved0 ← Bytes.field? bytes 2 2
  let status ← HxfsStatus.fromU32 (← Bytes.field? bytes 4 4)
  let payloadLen ← Bytes.field? bytes 12 4
  let requestId ← Bytes.field? bytes 16 8
  let handleKind ← HxfsHandleKind.fromU32 (← Bytes.field? bytes 32 4)
  let reserved1 ← Bytes.field? bytes 36 4
  let rights ← Bytes.field? bytes 40 8
  let value ← Bytes.field? bytes 56 8
  guard (version = protocolVersion ∧ reserved0 = 0 ∧ reserved1 = 0)
  -- All rights are the nine lowest bits.
  guard (rights < 2 ^ 9)
  guard (payloadLen ≤ maxInlineWriteBytes)
  return ⟨status, requestId, handleKind, rights, value, payloadLen⟩

inductive ErrorCode
  | internal | invalidArgs | notFound | wrongType | accessDenied | busy | noMemory | notSupported
  | timedOut | peerClosed
  deriving DecidableEq

def statusToError : HxfsStatus → ErrorCode
  | .ok | .ioError | .corruptObject => .internal
  | .invalid | .alreadyExists | .refcountZero => .invalidArgs
  | .notFound => .notFound
  | .wrongType => .wrongType
  | .accessDenied | .encryptedUnavailable => .accessDenied
  | .needsRecovery => .busy
  | .noSpace => .noMemory
  | .unsupported => .notSupported

/-- A request; only native ones carry an id. -/
structure Request where
  serial : Nat
  id : Option Nat
  deriving DecidableEq

/-- A message from the service. Which request it answers is not part of it. -/
structure Message where
  answers : Request
  bytes : List UInt8
  handle : Option Nat
  deriving DecidableEq

inductive Answer
  | status (response : HxfsResponse)
  | payload (bytes : List UInt8)
  | handle (handle : Nat)
  | view (handle : Nat) (hash : List UInt8) (size : Nat)
  deriving DecidableEq

/-- `service` reads the answer to a text request for a channel or a memory object, `text` that to
`LIST` or, where errors are looked for, `READ`; `out` is the length of the caller's buffer. -/
inductive Reader
  | status
  | handle (expected : HxfsHandleKind)
  | payload (out : Nat)
  | payloadBounded (out : Nat)
  | blobView (hash : List UInt8)
  | pollBlobView (hash : List UInt8)
  | pollRead (out : Nat)
  | service (name : List UInt8) (failure : ErrorCode)
  | text (checked : Bool) (out : Nat)
  deriving DecidableEq

def readNativeStatus (bytes : List UInt8) : Except ErrorCode Answer :=
  match HxfsResponse.decode bytes with
  | none => .error .invalidArgs
  | some r => if r.status = .ok then .ok (.status r) else .error (statusToError r.status)

def readNativeHandle (expected : HxfsHandleKind) (m : Message) : Except ErrorCode Answer :=
  match HxfsResponse.decode m.bytes, m.handle with
  | none, _ => .error .invalidArgs
  | some r, none => .error (statusToError r.status)
  | some r, some handle =>
    if r.status ≠ .ok then .error (statusToError r.status)
    else if r.handleKind ≠ expected then .error .wrongType
    else .ok (.handle handle)

def payloadOf (out : Nat) (r : HxfsResponse) (bytes : List UInt8) : Except ErrorCode Answer :=
  if r.status ≠ .ok then .error (statusToError r.status)
  else if bytes.length ≠ responseBytes + r.payloadLen ∨ out < r.payloadLen then
    .error .invalidArgs
  else .ok (.payload (bytes.drop responseBytes))

def viewOf (hash : List UInt8) (r : HxfsResponse) (handle : Nat) (bytes : List UInt8) :
    Except ErrorCode Answer :=
  if r.status ≠ .ok then .error (statusToError r.status)
  else if r.handleKind ≠ .blobView then .error .wrongType
  else if r.rights.testBit 1 then .error .internal
  else
    let resolved :=
      if r.payloadLen = 32 ∧ responseBytes + 32 ≤ bytes.length then
        Bytes.slice bytes responseBytes 32
      else hash
    .ok (.view handle resolved r.value)

def headerOf (bytes : List UInt8) : Option HxfsResponse :=
  if bytes.length < responseBytes then none
  else HxfsResponse.decode (bytes.take responseBytes)

/-- What a routine makes of a message it has read, given the id of its request: what the call
returns, or nothing if it goes on waiting. -/
def Reader.react (reader : Reader) (id : Nat) (m : Message) : Option (Except ErrorCode Answer) :=
  match reader with
  | .status => some (readNativeStatus m.bytes)
  | .handle expected => some (readNativeHandle expected m)
  | .payload out | .payloadBounded out =>
    match headerOf m.bytes with
    | none => some (.error .invalidArgs)
    | some r => some (payloadOf out r m.bytes)
  | .pollRead out =>
    match headerOf m.bytes with
    | none => some (.error .invalidArgs)
    | some r => if r.requestId ≠ id then none else some (payloadOf out r m.bytes)
  | .blobView hash | .pollBlobView hash =>
    match headerOf m.bytes, m.handle with
    | none, _ => some (.error .invalidArgs)
    | some r, none => if r.requestId ≠ id then none else some (.error (statusToError r.status))
    | some r, some received =>
      if r.requestId ≠ id then none else some (viewOf hash r received m.bytes)
  | .service name failure =>
    match m.handle with
    | some received => if m.bytes = name then some (.ok (.handle received)) else none
    | none =>
      if "err:hxfs".toUTF8.toList.isPrefixOf m.bytes then some (.error failure)
      else some (.error .invalidArgs)
  | .text checked _ =>
    if checked ∧ "err:".toUTF8.toList.isPrefixOf m.bytes then some (.error .invalidArgs)
    else some (.ok (.payload m.bytes))

namespace Reader

def room : Reader → Nat
  | .status | .handle _ | .service .. => 64
  | .text _ out => out
  | _ => nativeMessageBytes

def takesHandle : Reader → Bool
  | .handle _ | .blobView _ | .pollBlobView _ | .service .. => true
  | _ => false

def comparesIds : Reader → Bool
  | .blobView _ | .pollBlobView _ | .pollRead _ => true
  | _ => false

def native : Reader → Bool
  | .service .. | .text .. => false
  | _ => true

/-- Polls read without waiting, and for a request that was sent before. -/
def polls : Reader → Bool
  | .pollBlobView _ | .pollRead _ => true
  | _ => false

/-- Rounds of the loop that waits; the other loops have no bound. -/
def budget : Reader → Nat
  | .blobView _ => 4000000
  | .payloadBounded _ => 4000
  | _ => 0

end Reader

inductive ClientPoint
  | idle
  | waiting (reader : Reader) (own : Request) (left : Nat)
  deriving DecidableEq

structure Return where
  own : Request
  message : Message
  result : Except ErrorCode Answer

/-- The channel: requests the service has not answered, messages the client has not read, and the
client's point. `drawn` counts the ids that were drawn from the counter of the process. All requests
and the calls that returned an answer are history. -/
structure Line where
  drawn : Nat
  unanswered : List Request
  unread : List Message
  client : ClientPoint
  history : List Request
  returned : List Return

namespace Line

def new : Line := ⟨0, [], [], .idle, [], []⟩

def outstanding (l : Line) : List Request := l.unread.map (·.answers) ++ l.unanswered

/-- The counter starts at one and is a 64-bit word. -/
def nextRequestId (l : Line) : Nat := (1 + l.drawn) % 2 ^ 64

def nextRequest (native : Bool) (l : Line) : Request :=
  ⟨l.history.length, if native then some l.nextRequestId else none⟩

def send (native : Bool) (l : Line) : Line :=
  { l with
    drawn := if native then l.drawn + 1 else l.drawn
    unanswered := l.unanswered ++ [l.nextRequest native]
    history := l.nextRequest native :: l.history }

/-- One round of the loop of a call that waits. A message that does not fit the buffer, or brings a
handle that the routine has no room for, stays in the queue. -/
def attempt (reader : Reader) (own : Request) (left : Nat) (l : Line) : Line :=
  let again := { l with client := .waiting reader own (left - 1) }
  let ended := { l with client := .idle }
  match l.unread with
  | [] =>
    if reader.polls ∨ (reader.budget ≠ 0 ∧ left = 0) then ended else again
  | m :: rest =>
    if reader.comparesIds ∧ ¬reader.polls ∧ left = 0 then ended
    else if reader.room < m.bytes.length ∨ (m.handle.isSome ∧ ¬reader.takesHandle) then ended
    else match reader.react (own.id.getD 0) m with
      | none => { again with unread := rest }
      | some result =>
        { ended with unread := rest, returned := ⟨own, m, result⟩ :: l.returned }

end Line

/-- `draw` is a request on another channel, or one that the kernel refuses to send; `fail` is an
error of the kernel that ends a call. -/
inductive Action
  | draw
  | call (reader : Reader)
  | begin_
  | poll (own : Request) (reader : Reader)
  | answer (bytes : List UInt8) (handle : Option Nat)
  | attempt
  | fail
  deriving DecidableEq

/-- Answers to native requests are native and carry the id of the request. -/
def Action.step (a : Action) (l : Line) : Option Line :=
  match a, l.client with
  | .draw, _ => some { l with drawn := l.drawn + 1 }
  | .call reader, .idle =>
    if reader.polls then none
    else some { l.send reader.native with
      client := .waiting reader (l.nextRequest reader.native) reader.budget }
  | .begin_, .idle => some (l.send true)
  | .poll own reader, .idle =>
    if reader.polls ∧ own ∈ l.history ∧ own.id.isSome then
      some { l with client := .waiting reader own 0 }
    else none
  | .answer bytes handle, _ =>
    match l.unanswered with
    | [] => none
    | request :: rest =>
      if request.id.isSome ∧ (headerOf bytes).map (·.requestId) ≠ request.id then none
      else some { l with unanswered := rest, unread := l.unread ++ [⟨request, bytes, handle⟩] }
  | .attempt, .waiting reader own left => some (l.attempt reader own left)
  | .fail, .waiting .. => some { l with client := .idle }
  | _, _ => none

/-- A call that does not compare ids starts when no earlier request is outstanding; one that does,
when those are all native, and the counter has not wrapped. -/
def Action.Clear : Action → Line → Prop
  | .call reader, l => (reader.native = true → 1 + l.drawn < 2 ^ 64) ∧
      if reader.comparesIds then ∀ o ∈ l.outstanding, o.id.isSome = true else l.outstanding = []
  | .begin_, l => 1 + l.drawn < 2 ^ 64
  | .poll _ _, l => ∀ o ∈ l.outstanding, o.id.isSome = true
  | _, _ => True

instance (a : Action) (l : Line) : Decidable (a.Clear l) := by
  cases a <;> dsimp only [Action.Clear] <;> infer_instance

/-- A routine that compares ids returns only answers with the id of its request. -/
theorem Reader.react_comparing {reader : Reader} {id : Nat} {m : Message} {r : HxfsResponse}
    {res : Except ErrorCode Answer} (compares : reader.comparesIds = true)
    (header : headerOf m.bytes = some r) (returns : reader.react id m = some res) :
    r.requestId = id := by
  by_contra other
  cases reader with
  | blobView hash | pollBlobView hash =>
    rw [react, header] at returns
    cases handle : m.handle <;> simp [handle, other] at returns
  | pollRead out =>
    rw [react, header] at returns
    simp [other] at returns
  | _ => cases compares

namespace Line

def Awaits (l : Line) : ClientPoint → Prop
  | .idle => True
  | .waiting reader own _ => own ∈ l.history ∧ (reader.comparesIds = true → own.id.isSome = true) ∧
    ∀ o ∈ l.outstanding, if reader.comparesIds then o.id.isSome = true else o = own

structure Sound (l : Line) : Prop where
  drawn : ∀ o ∈ l.history, ∀ i, o.id = some i → i ≤ l.drawn
  unique : ∀ o ∈ l.history, ∀ o' ∈ l.history, o.id.isSome = true → o.id = o'.id → o = o'
  known : ∀ o ∈ l.outstanding, o ∈ l.history
  echoed : ∀ m ∈ l.unread, m.answers.id.isSome = true →
    (headerOf m.bytes).map (·.requestId) = m.answers.id
  awaits : l.Awaits l.client
  own : ∀ e ∈ l.returned, e.own = e.message.answers

theorem Sound.new : Line.new.Sound := ⟨nofun, nofun, nofun, nofun, trivial, nofun⟩

variable {l l' : Line} {reader : Reader} {own : Request} {left : Nat}
variable {point : ClientPoint}

theorem Awaits.fewer (awaits : l.Awaits point)
    (history : l'.history = l.history) (fewer : ∀ o ∈ l'.outstanding, o ∈ l.outstanding) :
    l'.Awaits point := by
  cases point with
  | idle => trivial
  | waiting reader own left =>
    exact ⟨history ▸ awaits.1, awaits.2.1, fun o mem => awaits.2.2 o (fewer o mem)⟩

theorem Sound.withClient (h : l.Sound) (awaits : l.Awaits point) :
    Sound { l with client := point } :=
  { h with awaits := awaits.fewer rfl fun _ => id }

theorem outstanding_send (native : Bool) :
    (l.send native).outstanding = l.outstanding ++ [l.nextRequest native] := by
  rw [outstanding, outstanding, append_assoc]
  rfl

theorem Sound.send (h : l.Sound) (idle : l.client = .idle) {native : Bool}
    (fresh : native = true → 1 + l.drawn < 2 ^ 64) : (l.send native).Sound where
  drawn := by
    intro o mem i has
    cases native with
    | false =>
      cases mem with
      | head => cases has
      | tail _ old => exact h.drawn o old i has
    | true =>
      cases mem with
      | head =>
        cases has
        exact (Nat.mod_le _ _).trans (le_of_eq (Nat.add_comm ..))
      | tail _ old => exact Nat.le_succ_of_le (h.drawn o old i has)
  unique := by
    have new : ∀ o ∈ l.history, o.id.isSome = true → o.id ≠ (l.nextRequest native).id := by
      intro o old has eq
      cases native with
      | false =>
        rw [eq] at has
        cases has
      | true =>
        have above := h.drawn o old _ eq
        rw [nextRequestId, Nat.mod_eq_of_lt (fresh rfl)] at above
        omega
    intro o mem o' member' has eq
    cases mem with
    | head =>
      cases member' with
      | head => rfl
      | tail _ old => exact absurd eq.symm (new o' old (eq ▸ has))
    | tail _ old =>
      cases member' with
      | head => exact absurd eq (new o old has)
      | tail _ old' => exact h.unique o old o' old' has eq
  known := by
    intro o mem
    rw [outstanding_send, mem_append, mem_singleton] at mem
    rcases mem with old | rfl
    · exact .tail _ (h.known o old)
    · exact mem_cons_self
  echoed := h.echoed
  awaits := by
    change Awaits _ l.client
    rw [idle]
    trivial
  own := h.own

/-- The message that a call reads and returns is the answer to its own request. -/
theorem Sound.react_own (h : l.Sound) (awaits : l.Awaits (.waiting reader own left)) {m : Message}
    (first : m ∈ l.unread) {res : Except ErrorCode Answer}
    (returns : reader.react (own.id.getD 0) m = some res) : own = m.answers := by
  obtain ⟨asked, has, trust⟩ := awaits
  have mem : m.answers ∈ l.outstanding := mem_append_left _ (mem_map_of_mem first)
  have trusted := trust _ mem
  cases compares : reader.comparesIds with
  | false =>
    rw [compares, if_neg Bool.false_ne_true] at trusted
    exact trusted.symm
  | true =>
    rw [compares, if_pos rfl] at trusted
    obtain ⟨i, hasOwn⟩ := isSome_iff_exists.mp (has compares)
    obtain ⟨id, hasId⟩ := isSome_iff_exists.mp trusted
    have echo := h.echoed m first trusted
    rw [hasId] at echo
    obtain ⟨r, header, eq⟩ := map_eq_some_iff.mp echo
    have mine := Reader.react_comparing compares header returns
    rw [hasOwn, getD_some, eq] at mine
    exact h.unique own asked _ (h.known _ mem) (has compares) (by rw [hasOwn, hasId, mine])

theorem Sound.read (h : l.Sound) {m : Message} {rest : List Message}
    (unread : l.unread = m :: rest) (awaits : l.Awaits point) :
    Sound { l with unread := rest, client := point } := by
  have fewer : ∀ o ∈ rest.map (·.answers) ++ l.unanswered, o ∈ l.outstanding := by
    intro o mem
    rw [outstanding, unread]
    exact .tail _ mem
  refine { h with known := fun o mem => h.known o (fewer o mem), echoed := ?_, awaits := ?_ }
  · exact fun m mem => h.echoed m (unread ▸ mem_cons_of_mem _ mem)
  · exact awaits.fewer rfl fewer

theorem Sound.attempt (h : l.Sound) (awaits : l.Awaits (.waiting reader own left)) :
    (l.attempt reader own left).Sound := by
  have ended : Sound { l with client := .idle } := h.withClient trivial
  rw [Line.attempt]
  dsimp only
  split
  · split
    · exact ended
    · exact h.withClient awaits
  next m rest unread =>
  split
  · exact ended
  split
  · exact ended
  split
  · exact h.read unread awaits
  next res returns =>
  have mine := h.react_own awaits (unread ▸ mem_cons_self) returns
  have done : Sound { l with unread := rest, client := .idle } := h.read unread trivial
  exact { done with own := forall_mem_cons.mpr ⟨mine, h.own⟩ }

theorem Sound.step {a : Action} (h : l.Sound) (clear : a.Clear l) (taken : a.step l = some l') :
    l'.Sound := by
  unfold Action.step at taken
  split at taken
  · cases taken
    exact { h with drawn := fun o mem i has => Nat.le_succ_of_le (h.drawn o mem i has) }
  next reader idle =>
    split at taken
    · cases taken
    cases taken
    refine (h.send idle clear.1).withClient ⟨mem_cons_self, ?_, fun o mem => ?_⟩
    · intro compares
      cases reader <;> first | rfl | cases compares
    rw [outstanding_send, mem_append, mem_singleton] at mem
    have free := clear.2
    split
    next compares =>
      rw [if_pos compares] at free
      rcases mem with old | rfl
      · exact free o old
      · cases reader <;> first | rfl | cases compares
    next blind =>
    rw [if_neg blind] at free
    rw [free] at mem
    exact mem.resolve_left not_mem_nil
  next idle =>
    cases taken
    exact h.send idle fun _ => clear
  next own reader idle =>
    split at taken
    next asked =>
      cases taken
      refine h.withClient ⟨asked.2.1, fun _ => asked.2.2, fun o mem => ?_⟩
      rw [if_pos (by cases reader <;> first | rfl | cases asked.1)]
      exact clear o mem
    · cases taken
  next bytes handle =>
    split at taken
    · cases taken
    next request rest first =>
    split at taken
    · cases taken
    next native =>
    cases taken
    have eq : outstanding { l with
        unanswered := rest, unread := l.unread ++ [⟨request, bytes, handle⟩] } =
        l.outstanding := by
      rw [outstanding, outstanding, first, map_append, append_assoc]
      rfl
    refine { h with known := eq ▸ h.known, echoed := ?_, awaits := ?_ }
    · intro m mem has
      rcases mem_append.mp mem with old | new
      · exact h.echoed m old has
      cases mem_singleton.mp new
      exact not_not.mp fun other => native ⟨has, other⟩
    · exact h.awaits.fewer rfl fun o mem => eq ▸ mem
  next reader own left waiting =>
    cases taken
    exact h.attempt (waiting ▸ h.awaits)
  · cases taken
    exact h.withClient trivial
  · cases taken

end Line

/-- If the calls that take the next message start on a channel without outstanding requests, and
those that compare ids on one where these are all native, then every call that returns an answer
returns the one to its own request. -/
theorem calls_return_own_answers {l : Line}
    (run : Runs (fun a l l' => Action.step a l = some l') Action.Clear Line.new l) :
    ∀ e ∈ l.returned, e.own = e.message.answers :=
  (Runs.invariant Line.Sound.new (fun h clear taken => h.step clear taken) run).own

/-- The answer to a request for a status, as the service encodes it. -/
def emptyResponse (id : Nat) : List UInt8 := le 2 1 ++ zeros 14 ++ le 8 id ++ zeros 40

/-- Two reads are begun, and the second one is polled: its poll drops the answer to the first. -/
theorem calls_return_own_answers_polled :
    ∃ l : Line, l.returned.map (·.own) = [⟨1, some 2⟩] ∧ l.unread = [] ∧
      ∀ e ∈ l.returned, e.own = e.message.answers := by
  obtain ⟨l, ran, own, read⟩ : ∃ l, [Action.begin_, .begin_, .answer (emptyResponse 1) none,
      .answer (emptyResponse 2) none, .poll ⟨1, some 2⟩ (.pollRead 16), .attempt, .attempt].foldlM
        (fun l a => if a.Clear l then Action.step a l else none) Line.new = some l ∧
      l.returned.map (·.own) = [⟨1, some 2⟩] ∧ l.unread = [] := by
    exact ⟨_, rfl, rfl, rfl⟩
  exact ⟨l, own, read, calls_return_own_answers (Runs.of_foldlM_if _ ran)⟩

/-- A read of a blob is begun and left alone; the next read returns its bytes. -/
theorem later_read_takes_left_over_answer : ∃ l : Line,
    Runs (fun a l l' => Action.step a l = some l') (fun _ _ => True) Line.new l ∧
      ∃ e ∈ l.returned, e.result = .ok (.payload []) ∧ e.own ≠ e.message.answers := by
  refine ⟨_, Runs.of_foldlM (f := fun l a => Action.step a l) [.begin_, .call (.payloadBounded 16),
    .answer (emptyResponse 1) none, .attempt] rfl, _, mem_cons_self, rfl, ?_⟩
  decide +kernel

end HuesOS.HxfsClient
