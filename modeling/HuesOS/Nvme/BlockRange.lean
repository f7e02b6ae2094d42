import Mathlib

/-! The block-range proxy of the volume service: it answers requests itself or passes them on to
the backend, and relays the backend's completions to the port of its client. -/

namespace HuesOS.Nvme
open List

inductive AsyncBlockOp
  | info | read | write | flush
  deriving DecidableEq

inductive AsyncBlockStatus
  | ok | invalidArgs | ioError | timeout | noResources

structure AsyncBlockRequest where
  op : AsyncBlockOp
  requestId : Nat
  namespaceId : Nat
  lba : Nat
  blockCount : Nat
  bufferId : Nat

structure AsyncBlockInfo where
  namespaceId : Nat
  blockSize : Nat
  blockCount : Nat
  maxRequestBytes : Nat

structure BlockCompletion where
  requestId : Nat
  status : AsyncBlockStatus
  bytes : Nat

def asyncInfoResponseBytes : Nat := 24

/-- A proxy with the infos written to its client, the requests the backend has received and not
completed, the completion ports, and the ids of the requests so far. -/
structure BlockRangeProxy where
  startBlock : Nat
  blockCount : Nat
  blockSize : Nat
  maxRequestBytes : Nat
  client : List AsyncBlockInfo
  backend : List AsyncBlockRequest
  backendCompletion : List BlockCompletion
  clientCompletion : List BlockCompletion
  requested : List Nat

namespace BlockRangeProxy
variable (p : BlockRangeProxy)

def completeProxy (requestId : Nat) (status : AsyncBlockStatus) (bytes : Nat) : BlockRangeProxy :=
  { p with clientCompletion := p.clientCompletion ++ [⟨requestId, status, bytes⟩] }

def writeBackend (request : AsyncBlockRequest) : BlockRangeProxy :=
  { p with backend := p.backend ++ [request] }

/-- `writable`: the channel to the backend takes the message. -/
def forwardRangedRequest (request : AsyncBlockRequest) (writable : Bool) : BlockRangeProxy :=
  if 2 ^ 64 ≤ request.blockCount + request.lba then
    p.completeProxy request.requestId .invalidArgs 0
  else if p.blockCount < request.blockCount + request.lba then
    p.completeProxy request.requestId .invalidArgs 0
  else if 2 ^ 64 ≤ p.startBlock + request.lba then
    p.completeProxy request.requestId .invalidArgs 0
  else if writable then
    p.writeBackend { request with lba := p.startBlock + request.lba }
  else
    p.completeProxy request.requestId .ioError 0

def writeInfo : BlockRangeProxy :=
  { p with client := p.client ++ [⟨1, p.blockSize, p.blockCount, p.maxRequestBytes⟩] }

def handleProxyRequest (request : AsyncBlockRequest) (writable : Bool) : BlockRangeProxy :=
  match request.op with
  | .info => p.writeInfo.completeProxy request.requestId .ok asyncInfoResponseBytes
  | .read | .write => p.forwardRangedRequest request writable
  | .flush => if writable then p.writeBackend request else p

def drainBackendCompletions : BlockRangeProxy :=
  { p with
    clientCompletion := p.clientCompletion ++ p.backendCompletion
    backendCompletion := [] }

def backendCompletes (n : Nat) (status : AsyncBlockStatus) (bytes : Nat) : BlockRangeProxy :=
  match p.backend[n]? with
  | none => p
  | some request =>
    { p with
      backend := p.backend.eraseIdx n
      backendCompletion := p.backendCompletion ++ [⟨request.requestId, status, bytes⟩] }

end BlockRangeProxy

inductive ProxyEvent
  | submit (request : AsyncBlockRequest) (writable : Bool)
  | complete (n : Nat) (status : AsyncBlockStatus) (bytes : Nat)
  | drain

/-- The id of a flush that the backend did not take. -/
def ProxyEvent.lost : ProxyEvent → List Nat
  | .submit request false => if request.op = .flush then [request.requestId] else []
  | _ => []

namespace BlockRangeProxy

def step (p : BlockRangeProxy) : ProxyEvent → BlockRangeProxy
  | .submit request writable =>
    { p with requested := p.requested ++ [request.requestId] }.handleProxyRequest request writable
  | .complete n status bytes => p.backendCompletes n status bytes
  | .drain => p.drainBackendCompletions

/-- The completions of the client, and those that the backend or the relay still owes it. -/
def answers (p : BlockRangeProxy) : List Nat :=
  p.clientCompletion.map (·.requestId) ++ p.backendCompletion.map (·.requestId) ++
    p.backend.map (·.requestId)

variable {p : BlockRangeProxy} (id : Nat)

theorem count_completeProxy (requestId : Nat) (status : AsyncBlockStatus) (bytes : Nat) :
    (p.completeProxy requestId status bytes).answers.count id = p.answers.count id + [requestId].count id := by
  simp only [answers, completeProxy, map_append, count_append, map_cons, map_nil]
  omega

theorem count_writeBackend (request : AsyncBlockRequest) :
    (p.writeBackend request).answers.count id = p.answers.count id + [request.requestId].count id := by
  simp only [answers, writeBackend, map_append, count_append, map_cons, map_nil]
  omega

theorem count_handle (request : AsyncBlockRequest) (writable : Bool) :
    (p.handleProxyRequest request writable).answers.count id +
        (ProxyEvent.submit request writable).lost.count id =
      p.answers.count id + [request.requestId].count id := by
  have kept : request.op ≠ .flush → (ProxyEvent.submit request writable).lost = [] := by
    intro other
    cases writable with
    | true => rfl
    | false => exact if_neg other
  rw [handleProxyRequest]
  cases op : request.op with
  | info =>
    rw [kept (by rw [op]; nofun)]
    exact count_completeProxy ..
  | read | write =>
    rw [kept (by rw [op]; nofun)]
    simp only [forwardRangedRequest]
    split_ifs
    · exact count_completeProxy ..
    · exact count_completeProxy ..
    · exact count_completeProxy ..
    · exact count_writeBackend ..
    · exact count_completeProxy ..
  | flush =>
    cases writable with
    | true => exact count_writeBackend ..
    | false => rw [ProxyEvent.lost, if_pos op]; rfl

theorem requested_handle (request : AsyncBlockRequest) (writable : Bool) :
    (p.handleProxyRequest request writable).requested = p.requested := by
  unfold handleProxyRequest
  split
  · rfl
  · unfold forwardRangedRequest
    split_ifs <;> rfl
  · unfold forwardRangedRequest
    split_ifs <;> rfl
  · split_ifs <;> rfl

theorem count_step (event : ProxyEvent) :
    (p.step event).answers.count id + event.lost.count id + p.requested.count id =
      p.answers.count id + (p.step event).requested.count id := by
  cases event with
  | submit request writable =>
    have counts := @count_handle { p with requested := p.requested ++ [request.requestId] } id request writable
    change _ = p.answers.count id + _ at counts
    rw [step, requested_handle, count_append]
    omega
  | complete n status bytes =>
    rw [step, backendCompletes]
    split
    · rfl
    next request there =>
      obtain ⟨inside, rfl⟩ := List.getElem?_eq_some_iff.mp there
      have moved := ((getElem_cons_eraseIdx_perm inside).map (·.requestId)).count_eq id
      simp only [answers, ProxyEvent.lost, map_append, map_cons, map_nil, count_append, count_cons,
        count_nil] at moved ⊢
      omega
  | drain =>
    simp [step, drainBackendCompletions, answers, ProxyEvent.lost]

theorem count_run (p : BlockRangeProxy) (events : List ProxyEvent) :
    (events.foldl step p).answers.count id + (events.flatMap ProxyEvent.lost).count id +
        p.requested.count id =
      p.answers.count id + (events.foldl step p).requested.count id := by
  induction events generalizing p with
  | nil => rfl
  | cons event rest ih =>
    have first := @count_step p id event
    have later := ih (p.step event)
    rw [foldl_cons, flatMap_cons, count_append]
    omega

/-- No request of a run is completed more often than it was made. When the backend has completed
what it received and the relay is drained, every request has exactly one completion with its own id
exactly when every flush of the run could be passed on. -/
theorem answered_once_iff (startBlock blockCount blockSize maxRequestBytes : Nat)
    (events : List ProxyEvent) :
    let p := events.foldl step
      ⟨startBlock, blockCount, blockSize, maxRequestBytes, [], [], [], [], []⟩
    (∀ id, (p.clientCompletion.map (·.requestId)).count id ≤ p.requested.count id) ∧
      (p.backend = [] → (((p.step .drain).clientCompletion.map (·.requestId)).Perm p.requested ↔
        ∀ event ∈ events, event.lost = [])) := by
  intro p
  have counts := fun id => count_run id
    ⟨startBlock, blockCount, blockSize, maxRequestBytes, [], [], [], [], []⟩ events
  change ∀ id, p.answers.count id + _ + 0 = 0 + p.requested.count id at counts
  refine ⟨fun id => ?_, fun done => ?_⟩
  · have := counts id
    rw [answers, count_append, count_append] at this
    omega
  have drained : (p.step .drain).clientCompletion.map (·.requestId) = p.answers := by
    simp [step, drainBackendCompletions, answers, done]
  rw [drained, ← flatMap_eq_nil_iff]
  constructor
  · intro eq
    refine eq_nil_iff_forall_not_mem.mpr fun id mem => ?_
    have once := count_pos_iff.mpr mem
    have := eq.count_eq id
    have := counts id
    omega
  · intro none
    refine perm_iff_count.mpr fun id => ?_
    have := counts id
    rw [none, count_nil] at this
    omega

/-- A read is passed on, an info request and a read beyond the end are answered at once, and the
backend completes the first. -/
theorem answered_once_mixed :
    let p := [ProxyEvent.submit ⟨.read, 7, 1, 2, 2, 0⟩ true, .submit ⟨.info, 8, 1, 0, 0, 0⟩ false,
      .submit ⟨.read, 9, 1, 7, 2, 0⟩ true, .complete 0 .ok 1024].foldl step
      ⟨16, 8, 512, 4096, [], [], [], [], []⟩
    (p.step .drain).clientCompletion.map (·.requestId) = [8, 9, 7] ∧
      ((p.step .drain).clientCompletion.map (·.requestId)).Perm p.requested :=
  ⟨rfl, ((answered_once_iff 16 8 512 4096 _).2 rfl).mpr (by simp [ProxyEvent.lost])⟩

/-- A flush that the backend does not take is never completed. -/
theorem flush_unanswered :
    let p := [ProxyEvent.submit ⟨.flush, 7, 1, 0, 0, 0⟩ false, .drain].foldl step
      ⟨0, 8, 512, 4096, [], [], [], [], []⟩
    p.requested = [7] ∧ p.backend = [] ∧ (p.step .drain).clientCompletion.length = 0 := ⟨rfl, rfl, rfl⟩

/-- A request of the backend that touches no block outside the range of the proxy. -/
def Contained (p : BlockRangeProxy) (request : AsyncBlockRequest) : Prop :=
  request.op = .flush ∨ (request.op = .read ∨ request.op = .write) ∧
    p.startBlock ≤ request.lba ∧ request.lba + request.blockCount ≤ p.startBlock + p.blockCount

theorem step_contained (p : BlockRangeProxy) (e : ProxyEvent) :
    ((p.step e).startBlock = p.startBlock ∧ (p.step e).blockCount = p.blockCount) ∧
      ∀ request ∈ (p.step e).backend, request ∈ p.backend ∨ p.Contained request := by
  cases e with
  | submit request writable =>
    simp only [step, handleProxyRequest, forwardRangedRequest]
    split <;> try split_ifs
    all_goals simp [writeInfo, completeProxy, writeBackend, Contained, *]
    all_goals grind
  | complete n status bytes =>
    simp only [step, backendCompletes]
    split
    · exact ⟨⟨rfl, rfl⟩, fun _ => .inl⟩
    · exact ⟨⟨rfl, rfl⟩, fun request mem => .inl (mem_of_mem_eraseIdx mem)⟩
  | drain => exact ⟨⟨rfl, rfl⟩, fun _ => .inl⟩

/-- Whatever clients ask for, the backend is never asked for a block outside the range. -/
theorem backend_contained (p : BlockRangeProxy) (events : List ProxyEvent) :
    ∀ request ∈ (events.foldl step { p with backend := [] }).backend, p.Contained request := by
  suffices kept : ∀ q : BlockRangeProxy, q.startBlock = p.startBlock ∧ q.blockCount = p.blockCount →
      (∀ request ∈ q.backend, p.Contained request) →
      ∀ request ∈ (events.foldl step q).backend, p.Contained request from
    kept _ ⟨rfl, rfl⟩ fun request mem => by cases mem
  induction events with
  | nil => exact fun _ _ inside => inside
  | cons e rest ih =>
    intro q same inside
    obtain ⟨range, asked⟩ := q.step_contained e
    refine ih _ ⟨range.1.trans same.1, range.2.trans same.2⟩ fun request mem => ?_
    refine (asked request mem).elim (inside request) fun contained => ?_
    rwa [Contained, same.1, same.2] at contained

theorem backend_contained_forwarded :
    Contained ⟨16, 8, 512, 4096, [], [], [], [], []⟩ ⟨.read, 7, 1, 18, 2, 0⟩ :=
  backend_contained _ [.submit ⟨.read, 7, 1, 2, 2, 0⟩ true] _ (.head _)

end BlockRangeProxy
end HuesOS.Nvme
