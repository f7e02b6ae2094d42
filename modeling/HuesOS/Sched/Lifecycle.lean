import HuesOS.Sched.Directory

/-! The lifecycle of a task: its states, the data each state carries, and the calls that move it
between states. -/

namespace HuesOS.Sched
open Exec

inductive TaskState
  | embryo | deferredReady | ready | running | blocking | blocked | waking | migrating
  | dying | dead | reaped
  deriving DecidableEq

inductive MigrationSource
  | ready | blocked
  deriving DecidableEq

inductive LifecycleError
  | wrongState | staleEpoch | sameCpu | migrationUnsafe
  deriving DecidableEq

/-- Nesting depths of the scopes that forbid preemption and migration. -/
structure ExecutionGuards where
  preemptDepth : UInt16
  migrationDepth : UInt16
  deriving DecidableEq

def ExecutionGuards.canMigrate (guards : ExecutionGuards) : Bool :=
  guards.preemptDepth = 0 && guards.migrationDepth = 0

structure TaskLifecycle where
  state : TaskState
  owner : Option CpuIndex
  target : Option CpuIndex
  waitEpoch : UInt32
  migrationGeneration : UInt32
  migrationSource : Option MigrationSource
  wakePending : Bool
  deriving DecidableEq

abbrev LifecycleM := Exec TaskLifecycle LifecycleError

namespace TaskLifecycle

def new : TaskLifecycle := ⟨.embryo, none, none, 0, 0, none, false⟩

def require (condition : TaskLifecycle → Bool) (error : LifecycleError) : LifecycleM Unit := do
  if !(← gets condition) then stop error

def deferReady (target : CpuIndex) : LifecycleM Unit := do
  require (·.state = .embryo) .wrongState
  modify fun s => { s with state := .deferredReady, target := some target }

def enqueueReady (cpu : CpuIndex) : LifecycleM Unit := do
  require (fun s => s.state = .deferredReady && s.target = some cpu) .wrongState
  modify fun s => { s with state := .ready, owner := some cpu, target := none }

def startRunning (cpu : CpuIndex) : LifecycleM Unit := do
  require (fun s => s.state = .ready && s.owner = some cpu) .wrongState
  modify fun s => { s with state := .running }

def preempt (cpu : CpuIndex) : LifecycleM Unit := do
  require (fun s => s.state = .running && s.owner = some cpu) .wrongState
  modify fun s => { s with state := .ready }

def beginBlock (cpu : CpuIndex) (epoch : UInt32) : LifecycleM Unit := do
  require (fun s => s.state = .running && s.owner = some cpu) .wrongState
  modify fun s => { s with state := .blocking, waitEpoch := epoch, wakePending := false }

/-- Finish going to sleep. The result says whether the task is asleep; with a wake pending it
turns round instead. -/
def completeBlock (cpu : CpuIndex) (epoch : UInt32) : LifecycleM Bool := do
  require (fun s => s.state = .blocking && s.owner = some cpu) .wrongState
  require (·.waitEpoch = epoch) .staleEpoch
  if ← gets (·.wakePending) then
    modify fun s => { s with state := .waking }
    if (← gets (·.target)).isNone then
      modify fun s => { s with target := some cpu }
    pure false
  else
    modify fun s => { s with state := .blocked }
    pure true

/-- Wake the task out of a wait. The result says whether this call is the one that wakes it. -/
def wake (target : CpuIndex) (epoch : UInt32) : LifecycleM Bool := do
  require (·.waitEpoch = epoch) .staleEpoch
  match ← gets (·.state) with
  | .blocking =>
    modify fun s => { s with wakePending := true, target := some target }
    pure true
  | .blocked =>
    modify fun s => { s with state := .waking, target := some target }
    pure true
  | .waking | .ready | .running => pure false
  | _ => stop .wrongState

def completeWake (cpu : CpuIndex) (epoch : UInt32) : LifecycleM Unit := do
  require (fun s => s.state = .waking && s.target = some cpu) .wrongState
  require (·.waitEpoch = epoch) .staleEpoch
  modify fun s =>
    { s with state := .ready, owner := some cpu, target := none, wakePending := false }

def beginMigration (target : CpuIndex) (guards : ExecutionGuards) : LifecycleM UInt32 := do
  if !guards.canMigrate then stop .migrationUnsafe
  let source : MigrationSource ← match ← gets (·.state) with
    | .ready => pure .ready
    | .blocked => pure .blocked
    | _ => stop .wrongState
  require (·.owner ≠ some target) .sameCpu
  modify fun s =>
    { s with
      migrationGeneration := max (s.migrationGeneration + 1) 1
      migrationSource := some source
      target := some target
      state := .migrating }
  gets (·.migrationGeneration)

def restoreSource : LifecycleM Unit := do
  match ← gets (·.migrationSource) with
  | some .ready => modify fun s => { s with state := .ready }
  | some .blocked => modify fun s => { s with state := .blocked }
  | none => stop .wrongState

def commitMigration (target : CpuIndex) (generation : UInt32) : LifecycleM Unit := do
  require (fun s => s.state = .migrating && s.target = some target) .wrongState
  require (·.migrationGeneration = generation) .staleEpoch
  restoreSource
  modify fun s => { s with owner := some target, target := none, migrationSource := none }

def rollbackMigration (generation : UInt32) : LifecycleM Unit := do
  require (·.state = .migrating) .wrongState
  require (·.migrationGeneration = generation) .staleEpoch
  restoreSource
  modify fun s => { s with target := none, migrationSource := none }

def beginDying : LifecycleM Unit := do
  match ← gets (·.state) with
  | .ready | .running | .blocked =>
    modify fun s => { s with state := .dying, target := none, wakePending := false }
  | _ => stop .wrongState

def markDead : LifecycleM Unit := do
  require (·.state = .dying) .wrongState
  modify fun s => { s with state := .dead }

def reap : LifecycleM Unit := do
  require (·.state = .dead) .wrongState
  modify fun s => { s with state := .reaped, owner := none }

end TaskLifecycle

inductive LifecycleCall
  | deferReady (target : CpuIndex)
  | enqueueReady (cpu : CpuIndex)
  | startRunning (cpu : CpuIndex)
  | preempt (cpu : CpuIndex)
  | beginBlock (cpu : CpuIndex) (epoch : UInt32)
  | completeBlock (cpu : CpuIndex) (epoch : UInt32)
  | wake (target : CpuIndex) (epoch : UInt32)
  | completeWake (cpu : CpuIndex) (epoch : UInt32)
  | beginMigration (target : CpuIndex) (guards : ExecutionGuards)
  | commitMigration (target : CpuIndex) (generation : UInt32)
  | rollbackMigration (generation : UInt32)
  | beginDying
  | markDead
  | reap

inductive LifecycleReply
  | done
  | flag (value : Bool)
  | generation (value : UInt32)
  deriving DecidableEq

namespace LifecycleCall
open TaskLifecycle

def run : LifecycleCall → LifecycleM LifecycleReply
  | deferReady target => (fun _ => .done) <$> TaskLifecycle.deferReady target
  | enqueueReady cpu => (fun _ => .done) <$> TaskLifecycle.enqueueReady cpu
  | startRunning cpu => (fun _ => .done) <$> TaskLifecycle.startRunning cpu
  | preempt cpu => (fun _ => .done) <$> TaskLifecycle.preempt cpu
  | beginBlock cpu epoch => (fun _ => .done) <$> TaskLifecycle.beginBlock cpu epoch
  | completeBlock cpu epoch => .flag <$> TaskLifecycle.completeBlock cpu epoch
  | wake target epoch => .flag <$> TaskLifecycle.wake target epoch
  | completeWake cpu epoch => (fun _ => .done) <$> TaskLifecycle.completeWake cpu epoch
  | beginMigration target guards => .generation <$> TaskLifecycle.beginMigration target guards
  | commitMigration target generation => (fun _ => .done) <$> TaskLifecycle.commitMigration target generation
  | rollbackMigration generation => (fun _ => .done) <$> TaskLifecycle.rollbackMigration generation
  | beginDying => (fun _ => .done) <$> TaskLifecycle.beginDying
  | markDead => (fun _ => .done) <$> TaskLifecycle.markDead
  | reap => (fun _ => .done) <$> TaskLifecycle.reap

def runAll : List LifecycleCall → TaskLifecycle → TaskLifecycle
  | [], s => s
  | call :: rest, s => runAll rest (call.run s).2

theorem runAll_append (first second : List LifecycleCall) (s : TaskLifecycle) :
    runAll (first ++ second) s = runAll second (runAll first s) := by
  induction first generalizing s with
  | nil => rfl
  | cons call rest ih => exact ih _

end LifecycleCall

/-- The moves of a task, each with the test that admits it. -/
inductive Moves (s : TaskLifecycle) : LifecycleCall → LifecycleReply → TaskLifecycle → Prop
  | deferReady {target} (at_ : s.state = .embryo) :
      Moves s (.deferReady target) .done { s with state := .deferredReady, target := some target }
  | enqueueReady {cpu} (at_ : s.state = .deferredReady) (aimed : s.target = some cpu) :
      Moves s (.enqueueReady cpu) .done { s with state := .ready, owner := some cpu, target := none }
  | startRunning {cpu} (at_ : s.state = .ready) (owned : s.owner = some cpu) :
      Moves s (.startRunning cpu) .done { s with state := .running }
  | preempt {cpu} (at_ : s.state = .running) (owned : s.owner = some cpu) :
      Moves s (.preempt cpu) .done { s with state := .ready }
  | beginBlock {cpu epoch} (at_ : s.state = .running) (owned : s.owner = some cpu) :
      Moves s (.beginBlock cpu epoch) .done
        { s with state := .blocking, waitEpoch := epoch, wakePending := false }
  | fallAsleep {cpu} (at_ : s.state = .blocking) (owned : s.owner = some cpu)
      (quiet : s.wakePending = false) :
      Moves s (.completeBlock cpu s.waitEpoch) (.flag true) { s with state := .blocked }
  | turnRound {cpu} (at_ : s.state = .blocking) (owned : s.owner = some cpu)
      (pending : s.wakePending = true) :
      Moves s (.completeBlock cpu s.waitEpoch) (.flag false)
        { s with state := .waking, target := some (s.target.getD cpu) }
  | wakeBlocking {target} (at_ : s.state = .blocking) :
      Moves s (.wake target s.waitEpoch) (.flag true) { s with wakePending := true, target := some target }
  | wakeBlocked {target} (at_ : s.state = .blocked) :
      Moves s (.wake target s.waitEpoch) (.flag true) { s with state := .waking, target := some target }
  | wakeAwake {target}
      (at_ : s.state = .waking ∨ s.state = .ready ∨ s.state = .running) :
      Moves s (.wake target s.waitEpoch) (.flag false) s
  | completeWake {cpu} (at_ : s.state = .waking) (aimed : s.target = some cpu) :
      Moves s (.completeWake cpu s.waitEpoch) .done
        { s with state := .ready, owner := some cpu, target := none, wakePending := false }
  | beginMigration {target guards source} (safe : guards.canMigrate = true)
      (at_ : s.state = .ready ∧ source = .ready ∨ s.state = .blocked ∧ source = .blocked)
      (elsewhere : s.owner ≠ some target) :
      Moves s (.beginMigration target guards) (.generation (max (s.migrationGeneration + 1) 1))
        { s with
          migrationGeneration := max (s.migrationGeneration + 1) 1
          migrationSource := some source
          target := some target
          state := .migrating }
  | commitMigration {target source} (at_ : s.state = .migrating) (aimed : s.target = some target)
      (kept : s.migrationSource = some source) :
      Moves s (.commitMigration target s.migrationGeneration) .done
        { s with
          state := if source = .ready then .ready else .blocked
          owner := some target
          target := none
          migrationSource := none }
  | rollbackMigration {source} (at_ : s.state = .migrating)
      (kept : s.migrationSource = some source) :
      Moves s (.rollbackMigration s.migrationGeneration) .done
        { s with
          state := if source = .ready then .ready else .blocked
          target := none
          migrationSource := none }
  | beginDying (at_ : s.state = .ready ∨ s.state = .running ∨ s.state = .blocked) :
      Moves s .beginDying .done { s with state := .dying, target := none, wakePending := false }
  | markDead (at_ : s.state = .dying) : Moves s .markDead .done { s with state := .dead }
  | reap (at_ : s.state = .dead) : Moves s .reap .done { s with state := .reaped, owner := none }

open TaskLifecycle
variable {s t : TaskLifecycle} {call : LifecycleCall}

/-- A result that is an error with the task as it was, or a move of the task. -/
def SettledCall (s : TaskLifecycle) (call : LifecycleCall)
    (result : Except LifecycleError LifecycleReply × TaskLifecycle) : Prop :=
  (∃ e, result = (.error e, s)) ∨ ∃ r t, result = (.ok r, t) ∧ Moves s call r t

section
variable {α : Type} {reply : α → LifecycleReply} {next : Unit → LifecycleM α}

theorem TaskLifecycle.require_bind {condition : TaskLifecycle → Bool} {error : LifecycleError} :
    (require condition error >>= next) s = if condition s then next () s else (.error error, s) := by
  unfold require
  rw [bind_assoc, gets_bind]
  cases condition s <;> rfl

theorem settled_require {condition : TaskLifecycle → Bool} {error : LifecycleError}
    (passed : condition s = true → SettledCall s call ((reply <$> next ()) s)) :
    SettledCall s call ((reply <$> (require condition error >>= next)) s) := by
  rw [map_bind, require_bind]
  split
  next holds => exact passed holds
  · exact .inl ⟨error, rfl⟩

theorem settled_restore (kept : ∀ source, s.migrationSource = some source →
      SettledCall s call ((reply <$> next ())
        { s with state := if source = .ready then .ready else .blocked })) :
    SettledCall s call ((reply <$> (restoreSource >>= next)) s) := by
  unfold restoreSource
  rw [map_bind, bind_assoc, gets_bind]
  cases from_ : s.migrationSource with
  | none => exact .inl ⟨.wrongState, rfl⟩
  | some source => cases source with
    | ready => exact kept _ from_
    | blocked => exact kept _ from_

end

theorem and_of_decide {p q : Prop} [Decidable p] [Decidable q] (h : (decide p && decide q) = true) :
    p ∧ q := by
  simpa using h

/-- Every call leaves the task as it was, with an error, or makes one move. -/
theorem LifecycleCall.run_settled (call : LifecycleCall) (s : TaskLifecycle) :
    SettledCall s call (call.run s) := by
  cases call with
  | deferReady target =>
    refine settled_require fun here => .inr ⟨_, _, rfl, ?_⟩
    exact .deferReady (of_decide_eq_true here)
  | enqueueReady cpu =>
    refine settled_require fun here => .inr ⟨_, _, rfl, ?_⟩
    exact .enqueueReady (and_of_decide here).1 (and_of_decide here).2
  | startRunning cpu =>
    refine settled_require fun here => .inr ⟨_, _, rfl, ?_⟩
    exact .startRunning (and_of_decide here).1 (and_of_decide here).2
  | preempt cpu =>
    refine settled_require fun here => .inr ⟨_, _, rfl, ?_⟩
    exact .preempt (and_of_decide here).1 (and_of_decide here).2
  | beginBlock cpu epoch =>
    refine settled_require fun here => .inr ⟨_, _, rfl, ?_⟩
    exact .beginBlock (and_of_decide here).1 (and_of_decide here).2
  | completeBlock cpu epoch =>
    refine settled_require fun here => settled_require fun current => .inr ?_
    obtain ⟨state, owned⟩ := and_of_decide here
    obtain rfl := of_decide_eq_true current
    obtain ⟨_, _, aimed, _, _, _, pending⟩ := s
    cases pending with
    | false => exact ⟨_, _, rfl, .fallAsleep state owned rfl⟩
    | true => cases aimed with
      | none => exact ⟨_, _, rfl, .turnRound state owned rfl⟩
      | some target => exact ⟨_, _, rfl, .turnRound state owned rfl⟩
  | wake target epoch =>
    refine settled_require fun current => ?_
    obtain rfl := of_decide_eq_true current
    rw [map_bind, gets_bind]
    cases state : s.state with
    | blocking => exact .inr ⟨_, _, rfl, .wakeBlocking state⟩
    | blocked => exact .inr ⟨_, _, rfl, .wakeBlocked state⟩
    | waking => exact .inr ⟨_, _, rfl, .wakeAwake (.inl state)⟩
    | ready => exact .inr ⟨_, _, rfl, .wakeAwake (.inr (.inl state))⟩
    | running => exact .inr ⟨_, _, rfl, .wakeAwake (.inr (.inr state))⟩
    | _ => exact .inl ⟨.wrongState, rfl⟩
  | completeWake cpu epoch =>
    refine settled_require fun here => settled_require fun current => .inr ⟨_, _, rfl, ?_⟩
    obtain rfl := of_decide_eq_true current
    exact .completeWake (and_of_decide here).1 (and_of_decide here).2
  | beginMigration target guards =>
    simp only [run, TaskLifecycle.beginMigration]
    cases safe : guards.canMigrate with
    | false => exact .inl ⟨.migrationUnsafe, rfl⟩
    | true =>
      simp only [Bool.not_true, Bool.false_eq_true, if_false]
      rw [map_bind, gets_bind]
      cases state : s.state with
      | ready =>
        refine settled_require fun apart => .inr ⟨_, _, rfl, ?_⟩
        exact .beginMigration safe (.inl ⟨state, rfl⟩) (of_decide_eq_true apart)
      | blocked =>
        refine settled_require fun apart => .inr ⟨_, _, rfl, ?_⟩
        exact .beginMigration safe (.inr ⟨state, rfl⟩) (of_decide_eq_true apart)
      | _ => exact .inl ⟨.wrongState, rfl⟩
  | commitMigration target gen =>
    refine settled_require fun here => settled_require fun current => ?_
    refine settled_restore fun source kept => .inr ⟨_, _, rfl, ?_⟩
    obtain rfl := of_decide_eq_true current
    exact .commitMigration (and_of_decide here).1 (and_of_decide here).2 kept
  | rollbackMigration gen =>
    refine settled_require fun here => settled_require fun current => ?_
    refine settled_restore fun source kept => .inr ⟨_, _, rfl, ?_⟩
    obtain rfl := of_decide_eq_true current
    exact .rollbackMigration (of_decide_eq_true here) kept
  | beginDying =>
    simp only [run, TaskLifecycle.beginDying, map_bind, gets_bind]
    cases state : s.state with
    | ready => exact .inr ⟨_, _, rfl, .beginDying (.inl state)⟩
    | running => exact .inr ⟨_, _, rfl, .beginDying (.inr (.inl state))⟩
    | blocked => exact .inr ⟨_, _, rfl, .beginDying (.inr (.inr state))⟩
    | _ => exact .inl ⟨.wrongState, rfl⟩
  | markDead =>
    refine settled_require fun here => .inr ⟨_, _, rfl, ?_⟩
    exact .markDead (of_decide_eq_true here)
  | reap =>
    refine settled_require fun here => .inr ⟨_, _, rfl, ?_⟩
    exact .reap (of_decide_eq_true here)

theorem LifecycleCall.run_moves {r : LifecycleReply} (h : call.run s = (.ok r, t)) : Moves s call r t := by
  rcases call.run_settled s with ⟨e, stopped⟩ | ⟨_, _, done, move⟩
  · cases h.symm.trans stopped
  · cases h.symm.trans done
    exact move

theorem LifecycleCall.run_refused {e : LifecycleError} (h : call.run s = (.error e, t)) : t = s := by
  rcases call.run_settled s with ⟨_, stopped⟩ | ⟨_, _, done, _⟩
  · cases h.symm.trans stopped
    rfl
  · cases h.symm.trans done

end HuesOS.Sched
