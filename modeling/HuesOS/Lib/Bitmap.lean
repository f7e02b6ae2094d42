import Mathlib.Data.Finset.Card
import Mathlib.Data.Finset.Range
import Mathlib.Order.Interval.Finset.Nat
import Mathlib.Tactic.Common

abbrev Bitmap := List (BitVec 8)

namespace Bitmap
open List Finset

def isSet (b : Bitmap) (i : Nat) : Bool := b.getD (i / 8) 0 &&& 1#8 <<< (i % 8) != 0

def set (b : Bitmap) (i : Nat) : Bitmap := b.modify (i / 8) (· ||| 1#8 <<< (i % 8))

def clear (b : Bitmap) (i : Nat) : Bitmap := b.modify (i / 8) (· &&& ~~~(1#8 <<< (i % 8)))

theorem getLsbD_bit : ∀ k < 8, ∀ j < 8, (1#8 <<< k).getLsbD j = decide (j = k) := by decide

theorem and_bit_ne_zero (x : BitVec 8) {k : Nat} (hk : k < 8) : (x &&& 1#8 <<< k != 0) = x.getLsbD k := by
  have bit (j : Nat) (hj : j < 8) : (x &&& 1#8 <<< k).getLsbD j = (x.getLsbD j && decide (j = k)) := by
    rw [BitVec.getLsbD_and, getLsbD_bit k hk j hj]
  cases set : x.getLsbD k with
  | true =>
    rw [bne_iff_ne]
    intro zero
    have here := bit k hk
    rw [zero, set] at here
    simp at here
  | false =>
    rw [bne_eq_false_iff_eq]
    apply BitVec.eq_of_getLsbD_eq
    intro j hj
    rw [bit j hj]
    by_cases eq : j = k <;> simp [eq, set]

theorem isSet_eq (b : Bitmap) (i : Nat) : b.isSet i = (b.getD (i / 8) 0).getLsbD (i % 8) :=
  and_bit_ne_zero _ (Nat.mod_lt _ (by decide))

@[simp] theorem length_set (b : Bitmap) (i : Nat) : (b.set i).length = b.length := length_modify ..

@[simp] theorem length_clear (b : Bitmap) (i : Nat) : (b.clear i).length = b.length :=
  length_modify ..

theorem getD_modify (b : Bitmap) (f : BitVec 8 → BitVec 8) (i j : Nat) (lt : i < b.length) :
    (b.modify i f).getD j 0 = if j = i then f (b.getD j 0) else b.getD j 0 := by
  simp only [getD_eq_getElem?_getD, getElem?_modify]
  by_cases eq : i = j
  · subst j
    simp [getElem?_eq_getElem lt]
  · simp [eq, Ne.symm eq]

variable {b : Bitmap} {i : Nat}

theorem isSet_set (lt : i < 8 * b.length) (j : Nat) : (b.set i).isSet j = (decide (j = i) || b.isSet j) := by
  have hi := Nat.mod_lt i (show 0 < 8 by decide)
  have hj := Nat.mod_lt j (show 0 < 8 by decide)
  rw [isSet_eq, isSet_eq, set, getD_modify b _ _ _ (by omega)]
  split
  · rw [BitVec.getLsbD_or, getLsbD_bit _ hi _ hj, Bool.or_comm]
    congr 2
    exact propext ⟨fun h => by omega, fun h => by omega⟩
  · rw [decide_eq_false (by omega), Bool.false_or]

theorem isSet_clear (lt : i < 8 * b.length) (j : Nat) :
    (b.clear i).isSet j = (!decide (j = i) && b.isSet j) := by
  have hi := Nat.mod_lt i (show 0 < 8 by decide)
  have hj := Nat.mod_lt j (show 0 < 8 by decide)
  rw [isSet_eq, isSet_eq, clear, getD_modify b _ _ _ (by omega)]
  split
  · rw [BitVec.getLsbD_and, BitVec.getLsbD_not, getLsbD_bit _ hi _ hj, Bool.and_comm, decide_eq_true hj,
      Bool.true_and]
    congr 3
    exact propext ⟨fun h => by omega, fun h => by omega⟩
  · rw [decide_eq_false (by omega), Bool.not_false, Bool.true_and]

def zeros (b : Bitmap) : Finset Nat := (Finset.range (8 * b.length)).filter fun i => b.isSet i = false

@[simp] theorem mem_zeros : i ∈ b.zeros ↔ i < 8 * b.length ∧ b.isSet i = false := by
  simp [zeros]

theorem zeros_set (lt : i < 8 * b.length) : (b.set i).zeros = b.zeros.erase i := by
  ext j
  simp [isSet_set lt, and_left_comm]

theorem zeros_clear (lt : i < 8 * b.length) : (b.clear i).zeros = insert i b.zeros := by
  ext j
  by_cases same : j = i <;> simp [isSet_clear lt, same, lt]

theorem zeros_foldl_set (start count : Nat) (inside : start + count ≤ 8 * b.length) :
    ((List.range' start count).foldl set b).length = b.length ∧
      ((List.range' start count).foldl set b).zeros = b.zeros \ Finset.Ico start (start + count) := by
  induction count generalizing start b with
  | zero => simp
  | succ count ih =>
    rw [List.range'_succ, foldl_cons]
    obtain ⟨len, rest⟩ := ih (start + 1) (b := b.set start) (by rw [length_set]; omega)
    refine ⟨len.trans (length_set b start), ?_⟩
    rw [rest, zeros_set (by omega)]
    ext j
    simp only [mem_sdiff, mem_erase, mem_Ico]
    constructor
    · rintro ⟨⟨_, zero⟩, out⟩
      exact ⟨zero, by omega⟩
    rintro ⟨zero, out⟩
    exact ⟨⟨by omega, zero⟩, by omega⟩

end Bitmap
