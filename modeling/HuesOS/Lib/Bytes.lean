import Mathlib.Algebra.Order.Ring.Nat
import Mathlib.Data.List.Basic
import Mathlib.Tactic.Common
import Mathlib.Tactic.Ring

namespace Bytes
open List

/-- The `width` low bytes of `n`, least significant first. -/
def le : Nat → Nat → List UInt8
  | 0, _ => []
  | width + 1, n => UInt8.ofNat (n % 256) :: le width (n / 256)

/-- The number whose little-endian digits are the given bytes. -/
def nat (bytes : List UInt8) : Nat := bytes.foldr (fun byte high => byte.toNat + 256 * high) 0

def zeros (n : Nat) : List UInt8 := List.replicate n 0

def slice (bytes : List UInt8) (offset width : Nat) : List UInt8 := (bytes.drop offset).take width

def range? (bytes : List UInt8) (offset width : Nat) : Option (List UInt8) :=
  if offset + width ≤ bytes.length then some (slice bytes offset width) else none

def field? (bytes : List UInt8) (offset width : Nat) : Option Nat :=
  (range? bytes offset width).map nat

def splice (bytes : List UInt8) (offset : Nat) (source : List UInt8) : List UInt8 :=
  bytes.take offset ++ source ++ bytes.drop (offset + source.length)

def pad (width : Nat) (bytes : List UInt8) : List UInt8 := bytes ++ zeros (width - bytes.length)

def lt : List UInt8 → List UInt8 → Bool
  | _, [] => false
  | [], _ :: _ => true
  | a :: as, b :: bs => a < b || (a == b && lt as bs)

@[simp] theorem le_length (width n : Nat) : (le width n).length = width := by
  induction width generalizing n with
  | zero => rfl
  | succ width ih => simp [le, ih]

@[simp] theorem zeros_length (n : Nat) : (zeros n).length = n := by simp [zeros]

@[simp] theorem nat_nil : nat [] = 0 := rfl

@[simp] theorem nat_cons (byte : UInt8) (bytes : List UInt8) :
    nat (byte :: bytes) = byte.toNat + 256 * nat bytes := rfl

theorem nat_le (width n : Nat) : nat (le width n) = n % 256 ^ width := by
  induction width generalizing n with
  | zero => simp [le, Nat.mod_one]
  | succ width ih =>
    have low : (UInt8.ofNat (n % 256)).toNat = n % 256 := by simp
    rw [le, nat_cons, low, ih, Nat.pow_succ', Nat.mod_mul]

theorem nat_le_of_lt {width n : Nat} (lt : n < 256 ^ width) : nat (le width n) = n := by
  rw [nat_le, Nat.mod_eq_of_lt lt]

section Slices
variable (a b bytes : List UInt8) (offset width : Nat)

theorem slice_length (le : offset + width ≤ bytes.length) : (slice bytes offset width).length = width := by
  simp only [slice, length_take, length_drop]
  omega

theorem slice_append_right (past : a.length ≤ offset) :
    slice (a ++ b) offset width = slice b (offset - a.length) width := by
  rw [slice, slice, drop_append, drop_of_length_le past, nil_append]

theorem slice_append_left (within : offset + width ≤ a.length) :
    slice (a ++ b) offset width = slice a offset width := by
  rw [slice, slice, drop_append_of_le_length (by omega), take_append_of_le_length]
  rw [length_drop]
  omega

theorem slice_self (eq : bytes.length = width) : slice bytes 0 width = bytes := by
  rw [slice, drop_zero, ← eq, take_length]

theorem range?_eq_some (le : offset + width ≤ bytes.length) :
    range? bytes offset width = some (slice bytes offset width) := if_pos le

end Slices

theorem pad_length {width : Nat} {bytes : List UInt8} (le : bytes.length ≤ width) :
    (pad width bytes).length = width := by
  rw [pad, length_append, zeros_length]
  omega

def Holds (bytes : List UInt8) (offset : Nat) (chunk : List UInt8) : Prop :=
  offset + chunk.length ≤ bytes.length ∧ slice bytes offset chunk.length = chunk

section Holds
variable {bytes a b chunk : List UInt8} {offset : Nat}

theorem holds_self (bytes : List UInt8) : Holds bytes 0 bytes := ⟨by omega, slice_self _ _ rfl⟩

theorem Holds.append_left (h : Holds a offset chunk) : Holds (a ++ b) offset chunk := by
  refine ⟨?_, ?_⟩
  · rw [length_append]
    exact Nat.le_add_right_of_le h.1
  rw [slice_append_left _ _ _ _ h.1]
  exact h.2

theorem Holds.append_right (h : Holds b offset chunk) : Holds (a ++ b) (a.length + offset) chunk := by
  refine ⟨?_, ?_⟩
  · rw [length_append, Nat.add_assoc]
    exact Nat.add_le_add_left h.1 _
  rw [slice_append_right _ _ _ _ (Nat.le_add_right _ _), Nat.add_sub_cancel_left]
  exact h.2

theorem holds_append :
    Holds bytes offset (a ++ b) ↔ Holds bytes offset a ∧ Holds bytes (offset + a.length) b := by
  have split : slice bytes offset (a.length + b.length) =
      slice bytes offset a.length ++ slice bytes (offset + a.length) b.length := by
    rw [slice, slice, slice, take_add, drop_drop]
  rw [Holds, Holds, Holds, length_append, split]
  constructor
  · rintro ⟨fits, eq⟩
    have parts := append_inj eq (slice_length _ _ _ (by omega))
    exact ⟨⟨by omega, parts.1⟩, ⟨by omega, parts.2⟩⟩
  rintro ⟨⟨-, first⟩, ⟨fits, second⟩⟩
  exact ⟨by omega, by rw [first, second]⟩

theorem Holds.field {width n : Nat} (h : Holds bytes offset (le width n))
    (lt : n < 256 ^ width) : field? bytes offset width = some n := by
  have fits := h.1
  have same := h.2
  rw [le_length] at fits same
  rw [field?, range?_eq_some _ _ _ fits, Option.map_some, same, nat_le_of_lt lt]

theorem Holds.range (h : Holds bytes offset chunk) : range? bytes offset chunk.length = some chunk := by
  rw [range?_eq_some _ _ _ h.1, h.2]

end Holds
end Bytes
