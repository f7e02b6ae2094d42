import HuesOS.Lib.Interleave
import HuesOS.Sched.Tasks

/-! The token that lets another processor change a run queue. Each step is one load, store or
exchange of one word. -/

namespace HuesOS.Sched

abbrev Requester (cpu : Fin kernelCpus) := { i : Fin kernelCpus // i ≠ cpu }

def runqueueTokenFree : Nat := 2 ^ 64 - 1

def tokenWaitIters : Nat := 100000

/-- The state word of the mailbox. Whose request it is belongs to the model only; the code
compares the four states. -/
inductive Mailbox (cpu : Fin kernelCpus)
  | empty
  | filling (by_ : Requester cpu)
  | pending (by_ : Requester cpu)
  | granted (by_ : Requester cpu)
  deriving DecidableEq

namespace Mailbox
variable {cpu : Fin kernelCpus}

def filler : Mailbox cpu → Option (Requester cpu)
  | empty => none
  | filling i | pending i | granted i => some i

def isGranted : Mailbox cpu → Bool
  | granted _ => true
  | _ => false

end Mailbox

/-- The words of one processor: the token, the mailbox, the counter that numbers all requests,
and who holds the lock of the run queue. The last three fields are not part of the code: how
many numbers were given out, to whom, and whether the token was abandoned. -/
structure TokenWords (cpu : Fin kernelCpus) where
  token : Nat
  mailbox : Mailbox cpu
  requester : Nat
  requestId : Nat
  nextRequestId : Nat
  lock : Option Nat
  issued : Nat
  issuedTo : Nat → Option (Requester cpu)
  abandoned : Bool

variable {cpu : Fin kernelCpus}

def TokenWords.new : TokenWords cpu :=
  ⟨runqueueTokenFree, .empty, 0, 0, 1, none, 0, fun _ => none, false⟩

def TokenWords.freshId (s : TokenWords cpu) : Nat := max s.nextRequestId 1

def TokenWords.counted (s : TokenWords cpu) : TokenWords cpu :=
  { s with nextRequestId := (s.nextRequestId + 1) % 2 ^ 64, issued := s.issued + 1 }

def TokenWords.numbered (s : TokenWords cpu) (i : Requester cpu) : TokenWords cpu :=
  { s with
    nextRequestId := (s.nextRequestId + 1) % 2 ^ 64
    issued := s.issued + 1
    issuedTo := Function.update s.issuedTo s.freshId (some i) }

/-- The next step of a requester, with the number of its request and the rounds it still waits. -/
inductive RequesterPoint
  | idle
  /-- Exchange the empty mailbox for one that is being filled. -/
  | claiming (id left : Nat)
  | storeRequester (id : Nat)
  | storeId (id : Nat)
  | storePending (id : Nat)
  /-- Wait for the grant: load the number, then the state. -/
  | polling (id left : Nat)
  | checking (id left : Nat)
  /-- The guard is alive, without and with the lock of the run queue. -/
  | guarding (id : Nat)
  | changing (id : Nat)
  /-- The guard has given the token back. -/
  | dropLoad (id : Nat)
  | dropStore (id : Nat)
  /-- The request timed out. -/
  | cancelLoad (id : Nat)
  | cancelPending (id : Nat)
  | cancelReload (id : Nat)
  | cancelState (id : Nat)
  | cancelToken (id : Nat)
  | cancelGranted (id : Nat)
  deriving DecidableEq

/-- What a requester may do next: ask for this token or for another processor's, use its guard
or drop it, or go on. -/
inductive RequesterChoice
  | request | elsewhere | enter | drop | step
  deriving DecidableEq

def requesterStep (i : Requester cpu) : RequesterChoice → RequesterPoint → TokenWords cpu →
    Option (RequesterPoint × TokenWords cpu × List Empty)
  | .request, .idle, s =>
    some (.claiming s.freshId tokenWaitIters, s.numbered i, [])
  | .elsewhere, .idle, s => some (.idle, s.counted, [])
  | .step, .claiming id 0, s => some (.polling id tokenWaitIters, s, [])
  | .step, .claiming id (left + 1), s =>
    if s.mailbox = .empty then some (.storeRequester id, { s with mailbox := .filling i }, [])
    else some (.claiming id left, s, [])
  | .step, .storeRequester id, s => some (.storeId id, { s with requester := i.1 }, [])
  | .step, .storeId id, s => some (.storePending id, { s with requestId := id }, [])
  | .step, .storePending id, s =>
    some (.polling id tokenWaitIters, { s with mailbox := .pending i }, [])
  | .step, .polling id 0, s => some (.cancelLoad id, s, [])
  | .step, .polling id (left + 1), s =>
    some (if s.requestId = id then .checking id left else .polling id left, s, [])
  | .step, .checking id left, s =>
    some (if s.mailbox.isGranted then .guarding id else .polling id left, s, [])
  | .enter, .guarding id, s =>
    if s.lock = none then some (.changing id, { s with lock := some i.1 }, []) else none
  | .step, .changing id, s => some (.guarding id, { s with lock := none }, [])
  | .drop, .guarding id, s => some (.dropLoad id, { s with token := runqueueTokenFree }, [])
  | .step, .dropLoad id, s => some (if s.requestId = id then .dropStore id else .idle, s, [])
  | .step, .dropStore _, s => some (.idle, { s with mailbox := .empty }, [])
  | .step, .cancelLoad id, s =>
    some (if s.requestId ≠ id then .idle else .cancelPending id, s, [])
  | .step, .cancelPending id, s =>
    match s.mailbox with
    | .pending _ => some (.idle, { s with mailbox := .empty }, [])
    | _ => some (.cancelReload id, s, [])
  | .step, .cancelReload id, s =>
    some (if s.requestId = id then .cancelState id else .idle, s, [])
  | .step, .cancelState id, s =>
    some (if s.mailbox.isGranted then .cancelToken id else .idle, s, [])
  | .step, .cancelToken id, s =>
    some (.cancelGranted id,
      if s.token = i.1 then { s with token := runqueueTokenFree }
      else { s with abandoned := s.abandoned || decide (s.token ≠ runqueueTokenFree) }, [])
  | .step, .cancelGranted _, s =>
    match s.mailbox with
    | .granted _ => some (.idle, { s with mailbox := .empty }, [])
    | _ => some (.idle, s, [])
  | _, _, _ => none

inductive OwnerStage
  | idle
  | loadState
  | loadRequester
  | takeToken (requester : Nat)
  | grant
  | freeToken
  | clearMailbox
  /-- It holds the lock and changes its run queue. -/
  | ticking
  deriving DecidableEq

inductive OwnerMove
  | process | tick | elsewhere | step
  deriving DecidableEq

def tokenOwnerStep : OwnerMove → OwnerStage → TokenWords cpu →
    Option (OwnerStage × TokenWords cpu × List Empty)
  | .process, .idle, s => some (.loadState, s, [])
  | .tick, .idle, s =>
    if s.lock = none then some (.ticking, { s with lock := some cpu }, []) else none
  | .elsewhere, .idle, s => some (.idle, s.counted, [])
  | .step, .loadState, s =>
    match s.mailbox with
    | .pending _ => some (.loadRequester, s, [])
    | _ => some (.idle, s, [])
  | .step, .loadRequester, s =>
    some (if kernelCpus ≤ s.requester then .clearMailbox else .takeToken s.requester, s, [])
  | .step, .clearMailbox, s => some (.idle, { s with mailbox := .empty }, [])
  | .step, .takeToken requester, s =>
    if s.token = runqueueTokenFree then some (.grant, { s with token := requester }, [])
    else some (.idle, s, [])
  | .step, .grant, s =>
    match s.mailbox with
    | .pending i => some (.idle, { s with mailbox := .granted i }, [])
    | _ => some (.freeToken, s, [])
  | .step, .freeToken, s => some (.idle, { s with token := runqueueTokenFree }, [])
  | .step, .ticking, s => some (.idle, { s with lock := none }, [])
  | _, _, _ => none

def TokenPoint (cpu : Fin kernelCpus) : Option (Requester cpu) → Type
  | none => OwnerStage
  | some _ => RequesterPoint

def TokenChoice (cpu : Fin kernelCpus) : Option (Requester cpu) → Type
  | none => OwnerMove
  | some _ => RequesterChoice

def tokenProgram (cpu : Fin kernelCpus) :
    Program (TokenWords cpu) (TokenPoint cpu) (TokenChoice cpu) Empty
  | none => tokenOwnerStep
  | some i => requesterStep i

abbrev TokenConfig (cpu : Fin kernelCpus) := Config (TokenWords cpu) (TokenPoint cpu) Empty

def tokenStart (cpu : Fin kernelCpus) : TokenConfig cpu where
  shared := .new
  threads
    | none => OwnerStage.idle
    | some _ => RequesterPoint.idle
  log := []

def ownerAt (c : TokenConfig cpu) : OwnerStage := c.threads none

def requesterAt (c : TokenConfig cpu) (i : Requester cpu) : RequesterPoint := c.threads (some i)

def Numbers : (Σ t, TokenChoice cpu t) → Prop
  | ⟨none, .elsewhere⟩ => True
  | ⟨some _, .request⟩ | ⟨some _, .elsewhere⟩ => True
  | _ => False

instance : DecidablePred (@Numbers cpu)
  | ⟨none, .elsewhere⟩ | ⟨some _, .request⟩ | ⟨some _, .elsewhere⟩ => .isTrue trivial
  | ⟨none, .process⟩ | ⟨none, .tick⟩ | ⟨none, .step⟩ => .isFalse id
  | ⟨some _, .enter⟩ | ⟨some _, .drop⟩ | ⟨some _, .step⟩ => .isFalse id

/-- The counter does not wrap: a step that takes a number finds one that was not used yet. -/
def FreshNumber (act : Σ t, TokenChoice cpu t) (c : TokenConfig cpu) : Prop :=
  Numbers act → c.shared.issued + 1 < 2 ^ 64

theorem fresh_of_not_numbers (schedule : List (Σ t, TokenChoice cpu t))
    (plain : ∀ act ∈ schedule, ¬ Numbers act) : ∀ act ∈ schedule, ∀ c, FreshNumber act c :=
  fun act mem _ numbers => absurd numbers (plain act mem)

end HuesOS.Sched
