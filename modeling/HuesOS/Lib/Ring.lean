import Mathlib.Data.Nat.ModEq
import Mathlib.Logic.Function.Basic
import Mathlib.Tactic.Common

namespace Ring
open List Function
variable {α : Type} {N : Nat}

def slot (pos : 0 < N) (head i : Nat) : Fin N := ⟨(head + i) % N, Nat.mod_lt _ pos⟩

variable {pos : 0 < N} {head : Nat}

theorem slot_inj {i j : Nat} (hi : i < N) (hj : j < N) : slot pos head i = slot pos head j ↔ i = j := by
  constructor
  · intro eq
    have residues : (head + i) % N = (head + j) % N := Fin.mk.inj eq
    have shifted : i % N = j % N := Nat.ModEq.add_left_cancel' head residues
    rwa [Nat.mod_eq_of_lt hi, Nat.mod_eq_of_lt hj] at shifted
  · exact fun eq => eq ▸ rfl

theorem slot_next (pos : 0 < N) (head i : Nat) : slot pos ((head + 1) % N) i = slot pos head (i + 1) := by
  simp only [slot, Fin.mk.injEq, Nat.mod_add_mod]
  congr 1
  omega

theorem slot_last (pos : 0 < N) (head : Nat) : slot pos head (N - 1 + 1) = slot pos head 0 := by
  simp only [slot, Nat.sub_add_cancel pos, Nat.add_mod_right, Nat.add_zero]

theorem slot_zero (lt : head < N) : slot pos head 0 = ⟨head, lt⟩ := by
  simp only [slot, Nat.add_zero, Nat.mod_eq_of_lt lt]

theorem update_slot {i j : Nat} (slots : Fin N → α) (v : α) (hi : i < N)
    (hj : j < N) :
    update slots (slot pos head i) v (slot pos head j) = if j = i then v else slots (slot pos head j) := by
  by_cases same : j = i
  · rw [if_pos same, same, update_self]
  · rw [if_neg same, update_of_ne (fun h => same ((slot_inj hj hi).mp h))]

/-- From `head` on, the ring holds the items of `xs`; its other slots are empty. -/
def Holds (slots : Fin N → Option α) (head : Nat) (xs : List α) : Prop :=
  xs.length ≤ N ∧ ∀ (pos : 0 < N) (i : Nat), i < N → slots (slot pos head i) = xs[i]?

theorem Holds.empty (head : Nat) : Holds (fun _ : Fin N => (none : Option α)) head [] :=
  ⟨Nat.zero_le _, fun _ _ _ => rfl⟩

/-- Filling the slot behind the last item appends to the list. -/
theorem Holds.push {slots : Fin N → Option α} {xs : List α} (pos : 0 < N) (x : α)
    (holds : Holds slots head xs) (room : xs.length < N) :
    Holds (update slots (slot pos head xs.length) (some x)) head (xs ++ [x]) := by
  refine ⟨by rw [length_append]; exact room, fun _ i hi => ?_⟩
  rw [update_slot slots _ room hi, holds.2 pos i hi, getElem?_append]
  split <;> split
  · omega
  · subst i; simp
  · rfl
  · rw [getElem?_eq_none (by omega), getElem?_eq_none (by simp; omega)]

/-- Emptying the slot at the head and moving on drops the first item. -/
theorem Holds.pop {slots : Fin N → Option α} {x : α} {xs : List α} (pos : 0 < N)
    (holds : Holds slots head (x :: xs)) :
    Holds (update slots (slot pos head 0) none) ((head + 1) % N) xs := by
  have room : xs.length + 1 ≤ N := holds.1
  refine ⟨by omega, fun _ i hi => ?_⟩
  rw [slot_next]
  by_cases last : i + 1 < N
  · rw [update_slot slots _ pos last, if_neg (by omega), holds.2 pos _ last]
    rfl
  rw [show i = N - 1 by omega, slot_last pos, update_slot slots _ pos pos, if_pos rfl,
    getElem?_eq_none (by omega)]

end Ring
