import HuesOS.Lib.Exec
import HuesOS.Sched.TaskId

/-! One slot of the task directory: where the task of the slot runs, and the operations that other
processors have asked of it. -/

namespace HuesOS.Sched
open Exec

@[ext] structure CpuIndex where
  index : Nat
  inside : index < maxCpus
  deriving DecidableEq

def CpuIndex.new (index : Nat) : Option CpuIndex :=
  if h : index < maxCpus then some ⟨index, h⟩ else none

structure TaskLocation where
  owner : CpuIndex
  localIndex : Nat
  deriving DecidableEq

inductive DirectoryError
  | invalidLocalIndex | invalidOperations | staleIdentity | busy | pendingOperations | notAllocated
  deriving DecidableEq

/-- Atomic words of a slot. The pending word carries a generation above the operation flags. -/
structure TaskDirectoryEntry where
  sequence : Nat
  publishedId : Nat
  owner : Nat
  localIndex : Nat
  pendingOperations : Nat
  deriving DecidableEq

def TaskDirectoryEntry.new : TaskDirectoryEntry := ⟨0, 0, 0, 0, 0⟩

def allOperations : Nat := 0x3f

def generationOf (state : Nat) : Nat := state / 2 ^ taskIndexBits

def flagsOf (state : Nat) : Nat := state % 2 ^ taskIndexBits

def tagged (generation : Nat) : Nat := generation * 2 ^ taskIndexBits

/-- The transition of producers and consumers; a word of another generation refuses it. -/
def operationUpdate (state : Nat) (id : TaskId) (operations : Nat) (take : Bool) : Option Nat :=
  if generationOf state ≠ id.generation then none
  else some (if take then tagged (generationOf state) else state ||| operations)

/-- The transition of a publication: flags of the same generation stay. -/
def adoptUpdate (state : Nat) (id : TaskId) : Nat :=
  if tagged (generationOf state) = tagged id.generation then state else tagged id.generation

/-- The transition of a retirement or a clearing. -/
def unpublishUpdate (state : Nat) (id : TaskId) (discardPending : Bool) : Option Nat :=
  if generationOf state ≠ id.generation ∨ (!discardPending ∧ flagsOf state ≠ 0) then none
  else some 0

/-- Why a retirement or a clearing refused a word. -/
def unpublishError (state : Nat) (id : TaskId) : DirectoryError :=
  if generationOf state = id.generation then .pendingOperations else .staleIdentity

def replaceable (current : Nat) (id : TaskId) : Bool :=
  if current = 0 then true
  else match TaskId.fromRaw current with
    | none => false
    | some existing => existing.slot = id.slot

theorem replaceable_zero {id : TaskId} : replaceable 0 id = true := rfl

theorem replaceable_raw (id : TaskId) : replaceable id.raw id = true := by
  rw [replaceable, if_neg id.raw_ne_zero, TaskId.fromRaw_raw]
  exact decide_eq_true rfl

def bump (sequence : Nat) : Nat := (sequence + 1) % 2 ^ 64

def decodeLocation (owner localIndex : Nat) : Except DirectoryError TaskLocation :=
  match CpuIndex.new owner with
  | none => .error .staleIdentity
  | some cpu => if localIndex < 2 ^ 16 then .ok ⟨cpu, localIndex⟩ else .error .invalidLocalIndex

def validLocalIndex (localIndex : Nat) : Bool := localIndex < maxTasks ∧ localIndex < 2 ^ 16

def validOperations (operations : Nat) : Bool := operations &&& allOperations = operations

@[simp] theorem generationOf_tagged (generation : Nat) :
    generationOf (tagged generation) = generation :=
  Nat.mul_div_cancel _ (Nat.two_pow_pos _)

@[simp] theorem flagsOf_tagged (gen : Nat) : flagsOf (tagged gen) = 0 := Nat.mul_mod_left ..

theorem tagged_injective {a b : Nat} (eq : tagged a = tagged b) : a = b :=
  Nat.eq_of_mul_eq_mul_right (Nat.two_pow_pos _) eq

theorem generationOf_adoptUpdate (state : Nat) (id : TaskId) :
    generationOf (adoptUpdate state id) = id.generation := by
  unfold adoptUpdate
  split
  next eq => exact tagged_injective eq
  · exact generationOf_tagged _

abbrev DirectoryM := Exec TaskDirectoryEntry DirectoryError

namespace TaskDirectoryEntry

def publish (id : TaskId) (owner : CpuIndex) (localIndex : Nat) : DirectoryM Unit := do
  if !validLocalIndex localIndex then stop .invalidLocalIndex
  else
    let current ← gets (·.publishedId)
    if !replaceable current id then stop .staleIdentity
    else do
      modify fun e => { e with sequence := bump e.sequence }
      modify fun e => { e with owner := owner.index }
      modify fun e => { e with localIndex }
      modify fun e => { e with pendingOperations := adoptUpdate e.pendingOperations id }
      modify fun e => { e with publishedId := id.raw }
      modify fun e => { e with sequence := bump e.sequence }

/-- One attempt after the other, eight in all; without interference each reads the same. -/
def locate (id : TaskId) : Nat → DirectoryM TaskLocation
  | 0 => stop .busy
  | attempts + 1 => do
      let e ← gets fun e => e
      if e.sequence % 2 ≠ 0 then locate id attempts
      else if e.publishedId ≠ id.raw then stop .staleIdentity
      else lift (decodeLocation e.owner e.localIndex)

def unpublish (id : TaskId) (discardPending : Bool) : DirectoryM Unit := do
  let e ← gets fun e => e
  if e.publishedId ≠ id.raw then stop .staleIdentity
  else match unpublishUpdate e.pendingOperations id discardPending with
    | none => stop (unpublishError e.pendingOperations id)
    | some next => do
        modify fun e => { e with pendingOperations := next }
        modify fun e => { e with sequence := bump e.sequence }
        modify fun e => { e with publishedId := 0 }
        modify fun e => { e with owner := 0 }
        modify fun e => { e with localIndex := 0 }
        modify fun e => { e with sequence := bump e.sequence }

def retire (id : TaskId) : DirectoryM Unit := unpublish id true

/-- A slot once an identity is published in it. -/
def holding (e : TaskDirectoryEntry) (id : TaskId) (owner index : Nat) : TaskDirectoryEntry :=
  ⟨bump (bump e.sequence), id.raw, owner, index, adoptUpdate e.pendingOperations id⟩

theorem publish_run {id : TaskId} {owner : CpuIndex} {idx : Nat} {e : TaskDirectoryEntry}
    (valid : validLocalIndex idx = true) (replaces : replaceable e.publishedId id = true) :
    publish id owner idx e = (.ok (), e.holding id owner.index idx) := by
  rw [publish, valid]
  simp only [Bool.not_true, Bool.false_eq_true, if_false, gets_bind, replaces,
    modify_bind, modify_run, holding]

end TaskDirectoryEntry
end HuesOS.Sched
