import Mathlib.Data.Nat.Basic
import Mathlib.Tactic.Common
import Mathlib.Tactic.Linarith

namespace HuesOS.Sched

def maxTasks : Nat := 8192
def maxCpus : Nat := 256
def taskIndexBits : Nat := 13

/-- The largest generation that fits above the slot index in 64 bits. -/
def maxTaskGeneration : Nat := (2 ^ 64 - 1) / 2 ^ taskIndexBits

theorem zero_lt_maxTasks : 0 < maxTasks := by decide
theorem one_lt_maxTasks : 1 < maxTasks := by decide
theorem two_lt_maxTasks : 2 < maxTasks := by decide
theorem zero_lt_maxCpus : 0 < maxCpus := by decide
theorem one_le_maxTaskGeneration : 1 ≤ maxTaskGeneration := by decide

/-- An identity names a slot of the registry and one of its generations. -/
structure TaskId where
  slot : Nat
  generation : Nat
  slot_lt : slot < maxTasks
  generation_pos : 0 < generation
  generation_le : generation ≤ maxTaskGeneration
  deriving DecidableEq

namespace TaskId

def new (slot generation : Nat) : Option TaskId :=
  if h : slot < maxTasks ∧ 0 < generation ∧ generation ≤ maxTaskGeneration then
    some ⟨slot, generation, h.1, h.2.1, h.2.2⟩
  else none

def raw (id : TaskId) : Nat := id.generation * 2 ^ taskIndexBits + id.slot

/-- Decode a representation. Zero, and any word whose generation is zero, names no task. -/
def fromRaw (word : Nat) : Option TaskId :=
  if word = 0 then none else new (word % 2 ^ taskIndexBits) (word / 2 ^ taskIndexBits)

theorem new_eq_some {slot generation : Nat} {id : TaskId} :
    new slot generation = some id ↔ id.slot = slot ∧ id.generation = generation := by
  unfold new
  constructor
  · intro h
    split at h
    · cases h
      exact ⟨rfl, rfl⟩
    · cases h
  rintro ⟨rfl, rfl⟩
  rw [dif_pos ⟨id.slot_lt, id.generation_pos, id.generation_le⟩]

theorem new_eq_none {slot generation : Nat} (lt : slot < maxTasks) (pos : 0 < generation) :
    new slot generation = none ↔ maxTaskGeneration < generation := by
  unfold new
  constructor
  · intro h
    split at h
    · cases h
    next refused =>
    by_contra small
    exact refused ⟨lt, pos, by omega⟩
  intro large
  rw [dif_neg]
  rintro ⟨-, -, small⟩
  omega

theorem raw_slot (id : TaskId) : id.raw % 2 ^ taskIndexBits = id.slot := by
  have lt : id.slot < 2 ^ taskIndexBits := id.slot_lt
  rw [raw, Nat.mul_comm, Nat.mul_add_mod, Nat.mod_eq_of_lt lt]

theorem raw_generation (id : TaskId) : id.raw / 2 ^ taskIndexBits = id.generation := by
  have lt : id.slot < 2 ^ taskIndexBits := id.slot_lt
  rw [raw, Nat.mul_comm, Nat.mul_add_div (by decide), Nat.div_eq_of_lt lt, Nat.add_zero]

theorem raw_ne_zero (id : TaskId) : id.raw ≠ 0 := by
  have := id.generation_pos
  have := Nat.mul_pos this (by decide : 0 < 2 ^ taskIndexBits)
  rw [raw]
  omega

theorem fromRaw_raw (id : TaskId) : fromRaw id.raw = some id := by
  rw [fromRaw, if_neg id.raw_ne_zero, raw_slot, raw_generation]
  exact new_eq_some.mpr ⟨rfl, rfl⟩

theorem raw_injective {a b : TaskId} (eq : a.raw = b.raw) : a = b := by
  have := congrArg fromRaw eq
  rw [fromRaw_raw, fromRaw_raw] at this
  exact Option.some.inj this

end TaskId
end HuesOS.Sched
