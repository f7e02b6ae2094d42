import Mathlib.Logic.Function.Basic
import HuesOS.Lib.Runs

/-! The executor: a table of at most 64 slots for futures and one word of ready bits. Futures are
numbered in the order they are given to `spawn`. What a future does while it is polled (spawn,
wake, finish) is not fixed: user code runs between the steps of the executor, both outside `poll`
and while a future is polled. -/

namespace HuesOS.Async
open Function

inductive SpawnError
  | tooLarge | misaligned | full

structure TaskId where
  index : Nat
  generation : BitVec 32

/-- A slot holds a future while its poll function is set. -/
structure Slot where
  task : Option Nat
  generation : BitVec 32

structure Executor where
  ready : BitVec 64
  count : Nat
  slots : List Slot

def bit (i : Nat) : BitVec 64 := 1#64 <<< i

def trailingZeros (word : BitVec 64) : Nat := ((List.range 64).find? (word.getLsbD ·)).getD 64

namespace Executor

def new (tasks : Nat) : Executor := ⟨0, 0, List.replicate tasks ⟨none, 0⟩⟩

def spawn (x : Executor) (capacity future size align : Nat) :
    Except SpawnError (TaskId × Executor) :=
  if size > capacity then .error .tooLarge
  else if align > 16 then .error .misaligned
  else
    match x.slots.zipIdx.find? (·.1.task.isNone) with
    | none => .error .full
    | some (slot, i) =>
      let generation := slot.generation + 1
      .ok (⟨i, generation⟩, ⟨x.ready ||| bit i, x.count + 1, x.slots.set i ⟨some future, generation⟩⟩)

/-- The waker of a slot sets its bit, whoever holds the slot by now. -/
def wakeByRef (x : Executor) (i : Nat) : Executor := { x with ready := x.ready ||| bit i }

def names (x : Executor) (task : TaskId) : Bool :=
  x.slots[task.index]?.any fun slot => slot.generation == task.generation && slot.task.isSome

def wake (x : Executor) (task : TaskId) : Executor :=
  if x.names task then x.wakeByRef task.index else x

def release (x : Executor) (i : Nat) (slot : Slot) : Executor :=
  ⟨x.ready, x.count - 1, x.slots.set i ⟨none, slot.generation + 1⟩⟩

end Executor

/-- Where the executor is: outside a call, in the loop of `poll` with the rest of its snapshot,
inside the poll of a slot, or in its own drop. -/
inductive Phase
  | idle
  | draining (remaining : BitVec 64) (polled : Nat)
  | polling (i : Nat) (remaining : BitVec 64) (polled : Nat)
  | dropping (i : Nat)
  | gone

def Phase.user : Phase → Bool
  | .idle => true
  | .polling .. => true
  | _ => false

def Phase.remaining : Phase → BitVec 64
  | .draining remaining _ => remaining
  | .polling _ remaining _ => remaining
  | _ => 0

/-- The executor with the history of the futures given to it so far, of which there are `next`:
whether each was spawned or woken and not polled since, whether it completed, and how often it was
dropped. -/
structure Machine where
  executor : Executor
  phase : Phase
  next : Nat
  owed : Nat → Bool
  completed : Nat → Bool
  drops : Nat → Nat

inductive Call
  | spawn (size align : Nat)
  | wake (task : TaskId)
  | wakeByRef (i : Nat)
  | poll
  | finish (done : Bool)
  | drop
  | advance

namespace Machine

def new (tasks : Nat) : Machine :=
  ⟨.new tasks, .idle, 0, fun _ => false, fun _ => false, fun _ => 0⟩

def dropped (m : Machine) (future : Nat) : Machine :=
  { m with drops := update m.drops future (m.drops future + 1) }

def wakeSlot (m : Machine) (i : Nat) : Machine :=
  { m with
    executor := m.executor.wakeByRef i
    owed := (m.executor.slots[i]?.bind (·.task)).elim m.owed (update m.owed · true) }

/-- One round of the loops of `poll` and of `drop`. -/
def advance (m : Machine) : Option Machine :=
  match m.phase with
  | .draining remaining polled =>
    if remaining = 0 then
      if m.executor.ready = 0 then some { m with phase := .idle }
      else
        some { m with
          executor := { m.executor with ready := 0 }
          phase := .draining m.executor.ready polled }
    else
      let i := trailingZeros remaining
      let remaining := remaining &&& ~~~bit i
      match m.executor.slots[i]? with
      | none => none
      | some slot =>
        match slot.task with
        | none => some { m with phase := .draining remaining polled }
        | some future =>
          some { m with
            phase := .polling i remaining polled
            owed := update m.owed future false }
  | .dropping i =>
    match m.executor.slots[i]? with
    | none => some { m with phase := .gone }
    | some slot =>
      match slot.task with
      | none => some { m with phase := .dropping (i + 1) }
      | some future =>
        some { m.dropped future with
          executor := { m.executor with slots := m.executor.slots.set i { slot with task := none } }
          phase := .dropping (i + 1) }
  | _ => none

def finish (m : Machine) (done : Bool) : Option Machine :=
  match m.phase with
  | .polling i remaining polled =>
    match m.executor.slots[i]? with
    | none => none
    | some slot =>
      if done then
        let ended := slot.task.elim m fun future =>
          { m.dropped future with completed := update m.completed future true }
        some { ended with
          executor := m.executor.release i slot
          phase := .draining remaining (polled + 1) }
      else some { m with phase := .draining remaining (polled + 1) }
  | _ => none

/-- A step, on an executor whose slots hold futures of `capacity` bytes. A future that `spawn`
refuses is dropped on the spot. -/
def step (capacity : Nat) (m : Machine) : Call → Option Machine
  | .spawn size align =>
    if m.phase.user then
      match m.executor.spawn capacity m.next size align with
      | .error _ => some { m.dropped m.next with next := m.next + 1 }
      | .ok (_, executor) =>
        some { m with
          executor := executor
          next := m.next + 1
          owed := update m.owed m.next true }
    else none
  | .wake task =>
    if m.phase.user then some (if m.executor.names task then m.wakeSlot task.index else m) else none
  | .wakeByRef i =>
    if m.phase.user ∧ i < m.executor.slots.length then some (m.wakeSlot i) else none
  | .poll =>
    match m.phase with
    | .idle => some { m with phase := .draining 0 0 }
    | _ => none
  | .drop =>
    match m.phase with
    | .idle => some { m with phase := .dropping 0 }
    | _ => none
  | .finish done => m.finish done
  | .advance => m.advance

end Machine
end HuesOS.Async
