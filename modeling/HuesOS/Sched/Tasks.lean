import Mathlib.Data.Fin.Basic
import Mathlib.Data.List.FinRange
import Mathlib.Logic.Function.Basic
import HuesOS.Sched.Directory

namespace HuesOS.Sched
open Function TaskDirectoryEntry

/-- The bitmap of taken slots and the generation counter of each slot. The source keeps 64 slots
to a word; its scan over the words finds the lowest slot that is not taken. -/
structure TaskSlotAllocator where
  taken : Fin maxTasks → Bool
  generations : Fin maxTasks → Nat

namespace TaskSlotAllocator

def new : TaskSlotAllocator := ⟨fun _ => false, fun _ => 0⟩

def lowestFree (a : TaskSlotAllocator) : Option (Fin maxTasks) :=
  (List.finRange maxTasks).find? fun slot => !a.taken slot

/-- Take the lowest free slot and its next generation. The counter is a 64-bit word, and a slot
whose counter wraps stays taken. -/
def allocate (a : TaskSlotAllocator) : Option (Fin maxTasks × Nat) × TaskSlotAllocator :=
  match a.lowestFree with
  | none => (none, a)
  | some slot =>
    let previous := a.generations slot
    let after : TaskSlotAllocator :=
      ⟨update a.taken slot true, update a.generations slot ((previous + 1) % 2 ^ 64)⟩
    if previous = 2 ^ 64 - 1 then (none, after) else (some (slot, previous + 1), after)

def free (a : TaskSlotAllocator) (slot : Nat) :
    Except DirectoryError Unit × TaskSlotAllocator :=
  if h : slot < maxTasks then
    if a.taken ⟨slot, h⟩ then (.ok (), { a with taken := update a.taken ⟨slot, h⟩ false })
    else (.error .notAllocated, a)
  else (.error .invalidLocalIndex, a)

end TaskSlotAllocator

/-- The kernel runs fewer processors than the directory can name. -/
def kernelCpus : Nat := 64

theorem zero_lt_kernelCpus : 0 < kernelCpus := by decide

structure LocalTask where
  id : TaskId
  finished : Bool
  reaped : Bool

/-- The tasks of a processor; of the queue of its fair tasks only the length matters here, since the
key of a new task is never in it. -/
structure CpuTasks where
  tasks : List LocalTask
  freeSlots : List Nat
  current : Nat
  queued : Nat

def CpuTasks.new : CpuTasks := ⟨[], [], 0, 0⟩

def maxFairTasks : Nat := 256

/-- Pop indexes until one names a reaped task; without one the vector grows. -/
def reserveIndex (tasks : List LocalTask) : List Nat → Nat × List Nat
  | [] => (tasks.length, [])
  | index :: rest =>
    match tasks[index]? with
    | none => reserveIndex tasks rest
    | some task => if task.reaped then (index, rest) else reserveIndex tasks rest

def CpuTasks.place (c : CpuTasks) (index : Nat) (task : LocalTask) : CpuTasks :=
  { c with tasks := if index = c.tasks.length then c.tasks ++ [task] else c.tasks.set index task }

structure Kernel where
  slots : TaskSlotAllocator
  directory : Fin maxTasks → TaskDirectoryEntry
  cpus : Fin kernelCpus → CpuTasks

namespace Kernel

def boot : Kernel := ⟨.new, fun _ => .new, fun _ => .new⟩

def setCpu (k : Kernel) (cpu : Fin kernelCpus) (c : CpuTasks) : Kernel :=
  { k with cpus := update k.cpus cpu c }

def setEntry (k : Kernel) (slot : Fin maxTasks) (entry : TaskDirectoryEntry) : Kernel :=
  { k with directory := update k.directory slot entry }

def nextIndex (k : Kernel) (cpu : Fin kernelCpus) : Nat :=
  (reserveIndex (k.cpus cpu).tasks (k.cpus cpu).freeSlots).1

def popped (k : Kernel) (cpu : Fin kernelCpus) : Kernel :=
  k.setCpu cpu { k.cpus cpu with
    freeSlots := (reserveIndex (k.cpus cpu).tasks (k.cpus cpu).freeSlots).2 }

/-- There is no result when the queue is full, which panics. -/
def fairQueueInsert (cpu : Fin kernelCpus) (k : Kernel) : Option Kernel :=
  if (k.cpus cpu).queued < maxFairTasks then
    some (k.setCpu cpu { k.cpus cpu with queued := (k.cpus cpu).queued + 1 })
  else none

def installTask (cpu : Fin kernelCpus) (fair : Bool) (index : Nat) (slot : Fin maxTasks)
    (generation : Nat) (k : Kernel) : Option (Option TaskId × Kernel) :=
  match TaskId.new slot generation with
  | none => some (none, { k with slots := (k.slots.free slot).2 })
  | some id =>
    match CpuIndex.new cpu with
    | none => some (none, k)
    | some owner =>
      match publish id owner index (k.directory slot) with
      | (.error _, entry) =>
        some (none, { k.setEntry slot entry with slots := (k.slots.free slot).2 })
      | (.ok (), entry) =>
        let k := (k.setEntry slot entry).setCpu cpu ((k.cpus cpu).place index ⟨id, false, false⟩)
        if 0 < index ∧ fair then (k.fairQueueInsert cpu).map (some id, ·) else some (some id, k)

/-- Create a task, with the fair policy or another one, on a processor. What a failed step has done
so far is undone only as far as the global slot goes; the local index is lost. -/
def addTask (cpu : Fin kernelCpus) (fair : Bool) (k : Kernel) : Option (Option TaskId × Kernel) :=
  match (k.popped cpu).slots.allocate with
  | (none, slots) => some (none, { k.popped cpu with slots })
  | (some (slot, generation), slots) =>
    installTask cpu fair (k.nextIndex cpu) slot generation { k.popped cpu with slots }

/-- Reclaim a task that has finished and is not running: retire its directory slot, then give
back its local index and its global slot. -/
def reap (id : TaskId) (k : Kernel) : Kernel :=
  let slot : Fin maxTasks := ⟨id.slot, id.slot_lt⟩
  match (locate id 8 (k.directory slot)).1 with
  | .error _ => k
  | .ok location =>
    if h : location.owner.index < kernelCpus then
      let cpu : Fin kernelCpus := ⟨location.owner.index, h⟩
      let c := k.cpus cpu
      match c.tasks[location.localIndex]? with
      | none => k
      | some task =>
        if task.id ≠ id ∨ c.current = location.localIndex ∨ !task.finished ∨ task.reaped then k
        else
          match retire id (k.directory slot) with
          | (.error _, _) => k
          | (.ok (), entry) =>
            let tasks := c.tasks.set location.localIndex { task with reaped := true }
            let freeSlots := location.localIndex :: c.freeSlots
            { (k.setEntry slot entry).setCpu cpu { c with tasks, freeSlots } with
              slots := (k.slots.free id.slot).2 }
    else k

def finish (cpu : Fin kernelCpus) (index : Nat) (k : Kernel) : Kernel :=
  k.setCpu cpu { k.cpus cpu with
    tasks := (k.cpus cpu).tasks.modify index fun t => { t with finished := true } }

def switch (cpu : Fin kernelCpus) (index : Nat) (k : Kernel) : Kernel :=
  k.setCpu cpu { k.cpus cpu with current := index }

/-- Ticks, wakes and blocks change how many tasks are queued. -/
def requeue (cpu : Fin kernelCpus) (queued : Nat) (k : Kernel) : Kernel :=
  k.setCpu cpu { k.cpus cpu with queued := min queued maxFairTasks }

end Kernel

inductive TaskOp
  | create (cpu : Fin kernelCpus) (fair : Bool)
  | finish (cpu : Fin kernelCpus) (index : Nat)
  | switch (cpu : Fin kernelCpus) (index : Nat)
  | requeue (cpu : Fin kernelCpus) (queued : Nat)
  | reap (id : TaskId)

def TaskOp.step : TaskOp → Kernel → Option (Option TaskId × Kernel)
  | .create cpu fair, k => k.addTask cpu fair
  | .finish cpu index, k => some (none, k.finish cpu index)
  | .switch cpu index, k => some (none, k.switch cpu index)
  | .requeue cpu queued, k => some (none, k.requeue cpu queued)
  | .reap id, k => some (none, k.reap id)

/-- The identities that a sequence of operations issues, latest first, and the state it leaves, if
none of them panics. -/
def runOps : List TaskOp → List TaskId × Kernel → Option (List TaskId × Kernel)
  | [], s => some s
  | op :: rest, (issued, k) =>
    match op.step k with
    | none => none
    | some (id, k') => runOps rest (id.toList ++ issued, k')

end HuesOS.Sched
