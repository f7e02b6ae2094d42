import HuesOS.Lib.Interleave
import HuesOS.Sched.TaskId

/-! The notification inbox of a processor: a bitmap of task slots, a summary of the bitmap words
that may hold bits, and a flag that says whether an interrupt is under way. Each step is one atomic
operation on one word. -/

namespace HuesOS.Sched

def taskBitsPerWord : Nat := 64

def inboxWords : Nat := maxTasks / taskBitsPerWord

def inboxSummaryWords : Nat := inboxWords / taskBitsPerWord

structure InboxShared where
  pending : Nat → Bool
  summary : Nat → Bool
  armed : Bool

def InboxShared.new : InboxShared := ⟨fun _ => false, fun _ => false, false⟩

namespace InboxShared

def placesOf (word : Nat) : List Nat := (List.range taskBitsPerWord).map (word * taskBitsPerWord + ·)

def dirty (s : InboxShared) (index : Nat) : List Nat := (placesOf index).filter s.summary

def tasks (s : InboxShared) (word : Nat) : List Nat := (placesOf word).filter s.pending

def setTask (s : InboxShared) (slot : Nat) : InboxShared :=
  { s with pending := Function.update s.pending slot true }

def setSummary (s : InboxShared) (word : Nat) : InboxShared :=
  { s with summary := Function.update s.summary word true }

def clearSummary (s : InboxShared) (index : Nat) : InboxShared :=
  { s with summary := fun word => s.summary word && word / taskBitsPerWord != index }

def clearWord (s : InboxShared) (word : Nat) : InboxShared :=
  { s with pending := fun slot => s.pending slot && slot / taskBitsPerWord != word }

end InboxShared

inductive InboxEvent
  /-- A publication has set its bit. -/
  | marked (slot : Nat) (newlyPending : Bool)
  /-- A publication returns and says whether an interrupt must be sent. -/
  | finished (slot : Nat) (sendIpi : Bool)
  | drainStarted
  | delivered (slot : Nat)
  | disarmed
  | drainEnded (consumed : Nat)
  deriving DecidableEq

inductive PublisherPoint
  | idle
  | markWord (slot : Fin maxTasks)
  | markSummary (slot : Fin maxTasks)
  | arm (slot : Fin maxTasks)
  deriving DecidableEq

inductive PublisherChoice
  | publish (slot : Fin maxTasks)
  | step

def publisherStep : PublisherChoice → PublisherPoint → InboxShared →
    Option (PublisherPoint × InboxShared × List InboxEvent)
  | .publish slot, .idle, s => some (.markWord slot, s, [])
  | .step, .markWord slot, s =>
    some (.markSummary slot, s.setTask slot, [.marked slot (!s.pending slot)])
  | .step, .markSummary slot, s => some (.arm slot, s.setSummary (slot / taskBitsPerWord), [])
  | .step, .arm slot, s => some (.idle, { s with armed := true }, [.finished slot (!s.armed)])
  | _, _, _ => none

/-- The next step of the draining processor, with the number of bits consumed so far. -/
inductive DrainPoint
  | idle
  | scan (index consumed : Nat)
  | sweep (index : Nat) (dirty : List Nat) (consumed : Nat)
  | disarm (consumed : Nat)
  | check (index consumed : Nat)
  | claim (consumed : Nat)
  deriving DecidableEq

inductive DrainChoice
  | drain
  | step

/-- The next word that is dirty, then the next summary word, then the end of the scan. -/
def afterSweep (index : Nat) (dirty : List Nat) (consumed : Nat) : DrainPoint :=
  match dirty with
  | [] => if index + 1 < inboxSummaryWords then .scan (index + 1) consumed else .disarm consumed
  | _ :: _ => .sweep index dirty consumed

def drainStep : DrainChoice → DrainPoint → InboxShared →
    Option (DrainPoint × InboxShared × List InboxEvent)
  | .drain, .idle, s => some (.scan 0 0, s, [.drainStarted])
  | .step, .scan index consumed, s =>
    some (afterSweep index (s.dirty index) consumed, s.clearSummary index, [])
  | .step, .sweep index (word :: rest) consumed, s =>
    some (afterSweep index rest (consumed + (s.tasks word).length), s.clearWord word,
      (s.tasks word).reverse.map .delivered)
  | .step, .disarm consumed, s => some (.check 0 consumed, { s with armed := false }, [.disarmed])
  | .step, .check index consumed, s =>
    if (s.dirty index).isEmpty then
      if index + 1 < inboxSummaryWords then some (.check (index + 1) consumed, s, [])
      else some (.idle, s, [.drainEnded consumed])
    else some (.claim consumed, s, [])
  | .step, .claim consumed, s =>
    if s.armed then some (.idle, s, [.drainEnded consumed])
    else some (.scan 0 consumed, { s with armed := true }, [])
  | _, _, _ => none

def InboxPoint {ι : Type} : Option ι → Type
  | none => DrainPoint
  | some _ => PublisherPoint

def InboxChoice {ι : Type} : Option ι → Type
  | none => DrainChoice
  | some _ => PublisherChoice

def inboxProgram (ι : Type) : Program InboxShared (@InboxPoint ι) (@InboxChoice ι) InboxEvent
  | none => drainStep
  | some _ => publisherStep

def inboxStart (ι : Type) : Config InboxShared (@InboxPoint ι) InboxEvent where
  shared := .new
  threads
    | none => DrainPoint.idle
    | some _ => PublisherPoint.idle
  log := []

end HuesOS.Sched
