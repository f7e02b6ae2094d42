import HuesOS.Lib.Interleave
import HuesOS.Sched.Directory

/-! The atomic steps of the calls on one directory slot: one owner that publishes, retires and
clears, and any number of clients that post and take operations or look the task up. Each step
is one load, store or read-modify-write of one word; `fetch_update` is a load followed by weak
compare-and-exchange attempts. -/

namespace HuesOS.Sched
open TaskDirectoryEntry

abbrev SlotId (slot : Nat) := { id : TaskId // id.slot = slot }

theorem SlotId.eq_of_generation {slot : Nat} {a b : SlotId slot}
    (eq : a.1.generation = b.1.generation) : a = b := by
  obtain ⟨⟨s, g, _, _, _⟩, rfl⟩ := a
  obtain ⟨⟨s', g', _, _, _⟩, equal⟩ := b
  dsimp only at eq equal
  subst eq equal
  rfl

abbrev Operations := { operations : Nat // validOperations operations = true }

structure Placement (slot : Nat) where
  id : SlotId slot
  owner : CpuIndex
  localIndex : Nat
  valid : validLocalIndex localIndex = true

/-- The first task that uses slot 5. -/
def slotFiveTask : SlotId 5 := ⟨⟨5, 1, by decide, Nat.one_pos, one_le_maxTaskGeneration⟩, rfl⟩

theorem validLocalIndex_one : validLocalIndex 1 = true := by decide

/-- What the calls have done, each at the step at which it takes effect. -/
inductive DirectoryEvent (slot : Nat)
  /-- A publication starts to write. -/
  | published (p : Placement slot)
  /-- A publication has put its generation into the pending word. -/
  | adopted (id : SlotId slot)
  | retired (id : SlotId slot)
  | cleared (id : SlotId slot)
  | posted (id : SlotId slot) (operations : Operations)
  | taken (id : SlotId slot) (flags : Nat)
  | located (id : SlotId slot) (location : TaskLocation)

/-- The words of the slot, and how often its sequence has been bumped; the count is not part of
the code. -/
structure DirectoryShared where
  entry : TaskDirectoryEntry
  edits : Nat

def DirectoryShared.new : DirectoryShared := ⟨.new, 0⟩

namespace DirectoryShared

def bumped (s : DirectoryShared) : DirectoryShared :=
  ⟨{ s.entry with sequence := bump s.entry.sequence }, s.edits + 1⟩

def setOwner (s : DirectoryShared) (owner : Nat) : DirectoryShared :=
  { s with entry := { s.entry with owner } }

def setLocal (s : DirectoryShared) (localIndex : Nat) : DirectoryShared :=
  { s with entry := { s.entry with localIndex } }

def setId (s : DirectoryShared) (publishedId : Nat) : DirectoryShared :=
  { s with entry := { s.entry with publishedId } }

def setPending (s : DirectoryShared) (pendingOperations : Nat) : DirectoryShared :=
  { s with entry := { s.entry with pendingOperations } }

end DirectoryShared

open DirectoryShared

inductive OwnerPoint (slot : Nat)
  | idle
  | publishCheck (p : Placement slot)
  | publishBegin (p : Placement slot)
  | publishOwner (p : Placement slot)
  | publishLocal (p : Placement slot)
  | publishLoad (p : Placement slot)
  | publishSwap (p : Placement slot) (state : Nat)
  | publishId (p : Placement slot)
  | publishEnd (p : Placement slot)
  | dropCheck (id : SlotId slot) (discardPending : Bool)
  | dropLoad (id : SlotId slot) (discardPending : Bool)
  | dropSwap (id : SlotId slot) (discardPending : Bool) (state : Nat)
  | dropBegin
  | dropId
  | dropOwner
  | dropLocal
  | dropEnd

/-- What may happen next at the owner: a call starts, or a step is taken, in which a weak
exchange may fail for no reason. -/
inductive OwnerChoice (slot : Nat)
  | publish (p : Placement slot)
  | unpublish (id : SlotId slot) (discardPending : Bool)
  | step (spurious : Bool)

variable {slot : Nat}

def dropEvent (id : SlotId slot) (discardPending : Bool) : DirectoryEvent slot :=
  if discardPending then .retired id else .cleared id

def ownerStep : OwnerChoice slot → OwnerPoint slot → DirectoryShared →
    Option (OwnerPoint slot × DirectoryShared × List (DirectoryEvent slot))
  | .publish p, .idle, s => some (.publishCheck p, s, [])
  | .unpublish id discard, .idle, s => some (.dropCheck id discard, s, [])
  | .step _, .publishCheck p, s =>
    some (if replaceable s.entry.publishedId p.id then .publishBegin p else .idle, s, [])
  | .step _, .publishBegin p, s => some (.publishOwner p, s.bumped, [.published p])
  | .step _, .publishOwner p, s => some (.publishLocal p, s.setOwner p.owner.index, [])
  | .step _, .publishLocal p, s => some (.publishLoad p, s.setLocal p.localIndex, [])
  | .step _, .publishLoad p, s => some (.publishSwap p s.entry.pendingOperations, s, [])
  | .step spurious, .publishSwap p state, s =>
    if s.entry.pendingOperations = state ∧ !spurious then
      some (.publishId p, s.setPending (adoptUpdate state p.id), [.adopted p.id])
    else some (.publishSwap p s.entry.pendingOperations, s, [])
  | .step _, .publishId p, s => some (.publishEnd p, s.setId p.id.1.raw, [])
  | .step _, .publishEnd _, s => some (.idle, s.bumped, [])
  | .step _, .dropCheck id discard, s =>
    some (if s.entry.publishedId = id.1.raw then .dropLoad id discard else .idle, s, [])
  | .step _, .dropLoad id discard, s =>
    some (.dropSwap id discard s.entry.pendingOperations, s, [])
  | .step spurious, .dropSwap id discard state, s =>
    match unpublishUpdate state id discard with
    | none => some (.idle, s, [])
    | some next =>
      if s.entry.pendingOperations = state ∧ !spurious then
        some (.dropBegin, s.setPending next, [dropEvent id discard])
      else some (.dropSwap id discard s.entry.pendingOperations, s, [])
  | .step _, .dropBegin, s => some (.dropId, s.bumped, [])
  | .step _, .dropId, s => some (.dropOwner, s.setId 0, [])
  | .step _, .dropOwner, s => some (.dropLocal, s.setOwner 0, [])
  | .step _, .dropLocal, s => some (.dropEnd, s.setLocal 0, [])
  | .step _, .dropEnd, s => some (.idle, s.bumped, [])
  | _, _, _ => none

/-- The next step of a client. A look-up carries what it has read so far, and the count of bumps
at its first load, which is not part of the code. -/
inductive ClientPoint (slot : Nat)
  | idle
  | postCheck (id : SlotId slot) (operations : Operations)
  | postLoad (id : SlotId slot) (operations : Operations)
  | postSwap (id : SlotId slot) (operations : Operations) (state : Nat)
  | takeCheck (id : SlotId slot)
  | takeLoad (id : SlotId slot)
  | takeSwap (id : SlotId slot) (state : Nat)
  | locateBefore (id : SlotId slot) (attempts : Nat)
  | locateId (id : SlotId slot) (attempts before since : Nat)
  | locateOwner (id : SlotId slot) (attempts before since : Nat)
  | locateLocal (id : SlotId slot) (attempts before since owner : Nat)
  | locateAfter (id : SlotId slot) (attempts before since owner localIndex : Nat)

inductive ClientChoice (slot : Nat)
  | post (id : SlotId slot) (operations : Operations)
  | take (id : SlotId slot)
  | locate (id : SlotId slot)
  | step (spurious : Bool)

/-- Another attempt, if one is left; otherwise the look-up reports contention. -/
def retryLocate (id : SlotId slot) : Nat → ClientPoint slot
  | 0 => .idle
  | attempts + 1 => .locateBefore id attempts

def locatedEvent (id : SlotId slot) (owner localIndex : Nat) : List (DirectoryEvent slot) :=
  match decodeLocation owner localIndex with
  | .ok location => [.located id location]
  | .error _ => []

def clientStep : ClientChoice slot → ClientPoint slot → DirectoryShared →
    Option (ClientPoint slot × DirectoryShared × List (DirectoryEvent slot))
  | .post id operations, .idle, s => some (.postCheck id operations, s, [])
  | .take id, .idle, s => some (.takeCheck id, s, [])
  | .locate id, .idle, s => some (retryLocate id 8, s, [])
  | .step _, .postCheck id operations, s =>
    some (if s.entry.publishedId = id.1.raw then .postLoad id operations else .idle, s, [])
  | .step _, .postLoad id operations, s =>
    some (.postSwap id operations s.entry.pendingOperations, s, [])
  | .step spurious, .postSwap id operations state, s =>
    match operationUpdate state id operations false with
    | none => some (.idle, s, [])
    | some next =>
      if s.entry.pendingOperations = state ∧ !spurious then
        some (.idle, s.setPending next, [.posted id operations])
      else some (.postSwap id operations s.entry.pendingOperations, s, [])
  | .step _, .takeCheck id, s =>
    some (if s.entry.publishedId = id.1.raw then .takeLoad id else .idle, s, [])
  | .step _, .takeLoad id, s => some (.takeSwap id s.entry.pendingOperations, s, [])
  | .step spurious, .takeSwap id state, s =>
    match operationUpdate state id 0 true with
    | none => some (.idle, s, [])
    | some next =>
      if s.entry.pendingOperations = state ∧ !spurious then
        some (.idle, s.setPending next, [.taken id (flagsOf state)])
      else some (.takeSwap id s.entry.pendingOperations, s, [])
  | .step _, .locateBefore id attempts, s =>
    some (if s.entry.sequence % 2 ≠ 0 then retryLocate id attempts
      else .locateId id attempts s.entry.sequence s.edits, s, [])
  | .step _, .locateId id attempts before since, s =>
    some (if s.entry.publishedId ≠ id.1.raw then .idle
      else .locateOwner id attempts before since, s, [])
  | .step _, .locateOwner id attempts before since, s =>
    some (.locateLocal id attempts before since s.entry.owner, s, [])
  | .step _, .locateLocal id attempts before since owner, s =>
    some (.locateAfter id attempts before since owner s.entry.localIndex, s, [])
  | .step _, .locateAfter id attempts before _ owner localIndex, s =>
    if before = s.entry.sequence then some (.idle, s, locatedEvent id owner localIndex)
    else some (retryLocate id attempts, s, [])
  | _, _, _ => none

def OwnerPoint.Writing : OwnerPoint slot → Prop
  | .publishOwner _ | .publishLocal _ | .publishId _ | .dropId | .dropOwner | .dropLocal => True
  | _ => False

inductive OwnerEffect (p : OwnerPoint slot) (s : DirectoryShared) :
    DirectoryShared → List (DirectoryEvent slot) → Prop
  | nothing : OwnerEffect p s s []
  | begins (p' : Placement slot) : OwnerEffect p s s.bumped [.published p']
  | bumps : OwnerEffect p s s.bumped []
  | writes (writing : p.Writing) (owner localIndex publishedId : Nat) :
      OwnerEffect p s { s with entry := { s.entry with owner, localIndex, publishedId } } []
  | adopts (p' : Placement slot) :
      OwnerEffect p s (s.setPending (adoptUpdate s.entry.pendingOperations p'.id)) [.adopted p'.id]
  | drops {id : SlotId slot} {discard : Bool} {w : Nat}
      (update : unpublishUpdate s.entry.pendingOperations id discard = some w) :
      OwnerEffect p s (s.setPending w) [dropEvent id discard]

inductive ClientEffect (s : DirectoryShared) :
    ClientPoint slot → DirectoryShared → List (DirectoryEvent slot) → Prop
  | nothing {p : ClientPoint slot} : ClientEffect s p s []
  | posts {p : ClientPoint slot} {id : SlotId slot} {operations : Operations} {w : Nat}
      (update : operationUpdate s.entry.pendingOperations id operations false = some w) :
      ClientEffect s p (s.setPending w) [.posted id operations]
  | takes {p : ClientPoint slot} {id : SlotId slot} {w : Nat}
      (update : operationUpdate s.entry.pendingOperations id 0 true = some w) :
      ClientEffect s p (s.setPending w) [.taken id (flagsOf s.entry.pendingOperations)]
  | locates {id : SlotId slot} {attempts since owner localIndex : Nat} :
      ClientEffect s (.locateAfter id attempts s.entry.sequence since owner localIndex) s
        (locatedEvent id owner localIndex)

section Effects
variable {s s' : DirectoryShared} {events : List (DirectoryEvent slot)}

theorem ownerStep_effect {choice : OwnerChoice slot} {p p' : OwnerPoint slot}
    (step : ownerStep choice p s = some (p', s', events)) : OwnerEffect p s s' events := by
  cases choice with
  | publish _ | unpublish _ _ =>
    cases p <;> cases step
    exact .nothing
  | step spurious =>
    cases p with
    | idle => cases step
    | publishCheck _ | publishLoad _ | dropCheck _ _ | dropLoad _ _ =>
      cases step
      exact .nothing
    | publishBegin p =>
      cases step
      exact .begins p
    | publishEnd _ | dropBegin | dropEnd =>
      cases step
      exact .bumps
    | publishOwner _ | publishLocal _ | publishId _ | dropId | dropOwner | dropLocal =>
      cases step
      refine .writes ?_ _ _ _
      trivial
    | publishSwap p state =>
      rw [ownerStep] at step
      split at step
      next exchange =>
        cases step
        rw [← exchange.1]
        exact .adopts p
      · cases step
        exact .nothing
    | dropSwap id discard state =>
      rw [ownerStep] at step
      split at step
      · cases step
        exact .nothing
      next update =>
      split at step
      next exchange =>
        cases step
        rw [← exchange.1] at update
        exact .drops update
      · cases step
        exact .nothing

theorem clientStep_effect {choice : ClientChoice slot} {p p' : ClientPoint slot}
    (step : clientStep choice p s = some (p', s', events)) : ClientEffect s p s' events := by
  cases choice with
  | post _ _ | take _ | locate _ =>
    cases p <;> cases step
    exact .nothing
  | step spurious =>
    cases p with
    | idle => cases step
    | postSwap id operations state =>
      rw [clientStep] at step
      split at step
      · cases step
        exact .nothing
      next update =>
      split at step
      next exchange =>
        cases step
        rw [← exchange.1] at update
        exact .posts update
      · cases step
        exact .nothing
    | takeSwap id state =>
      rw [clientStep] at step
      split at step
      · cases step
        exact .nothing
      next update =>
      split at step
      next exchange =>
        cases step
        rw [← exchange.1] at update ⊢
        exact .takes update
      · cases step
        exact .nothing
    | locateAfter id attempts pre since owner localIndex =>
      rw [clientStep] at step
      split at step
      next unchanged =>
        cases step
        subst unchanged
        exact .locates
      · cases step
        exact .nothing
    | _ =>
      cases step
      exact .nothing

end Effects

def DirectoryPoint (slot : Nat) {ι : Type} : Option ι → Type
  | none => OwnerPoint slot
  | some _ => ClientPoint slot

def DirectoryChoice (slot : Nat) {ι : Type} : Option ι → Type
  | none => OwnerChoice slot
  | some _ => ClientChoice slot

def directoryProgram (slot : Nat) (ι : Type) :
    Program DirectoryShared (@DirectoryPoint slot ι) (@DirectoryChoice slot ι) (DirectoryEvent slot)
  | none => ownerStep
  | some _ => clientStep

def directoryStart (slot : Nat) (ι : Type) :
    Config DirectoryShared (@DirectoryPoint slot ι) (DirectoryEvent slot) where
  shared := .new
  threads
    | none => OwnerPoint.idle
    | some _ => ClientPoint.idle
  log := []

theorem publish_alone {ι : Type} [DecidableEq ι]
    (c : Config DirectoryShared (@DirectoryPoint slot ι) (DirectoryEvent slot))
    (p : Placement slot) (idle : c.threads none = OwnerPoint.idle)
    (replaces : replaceable c.shared.entry.publishedId p.id = true) :
    Runs (Program.Step (directoryProgram slot ι)) (fun _ _ => True) c
      ⟨⟨(publish p.id p.owner p.localIndex c.shared.entry).2, c.shared.edits + 2⟩,
        c.threads, .adopted p.id :: .published p :: c.log⟩ := by
  have steps : Program.alone ownerStep (.publish p :: List.replicate 8 (.step false)) .idle
      c.shared = some (.idle,
        ⟨c.shared.entry.holding p.id p.owner.index p.localIndex, c.shared.edits + 2⟩,
        [.adopted p.id, .published p]) := by
    simp [Program.alone, ownerStep, List.replicate, replaces, bumped,
      setOwner, setLocal, setPending,
      setId, holding]
  rw [← idle] at steps
  have run := @Program.alone_runs _ _ _ _ _ _ (directoryProgram slot ι) c none
    (OwnerChoice.publish p :: List.replicate 8 (OwnerChoice.step false)) _ _ _ steps
  rw [Function.update_eq_self] at run
  rw [publish_run p.valid replaces]
  exact run

end HuesOS.Sched
