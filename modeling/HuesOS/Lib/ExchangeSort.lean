import Mathlib.Data.List.Basic
import Mathlib.Data.List.Perm.Basic
import Mathlib.Tactic.Common

/-! The in-place exchange sort: for every position, each later element that the comparison
tells to swap is exchanged with the element at that position. -/

namespace ExchangeSort
variable {α : Type}

/-- One outer pass: `x` is the element at the position, the list what stands after it. -/
def pass (swap : α → α → Bool) (x : α) : List α → α × List α
  | [] => (x, [])
  | y :: rest =>
    if swap x y then ((pass swap y rest).1, x :: (pass swap y rest).2)
    else ((pass swap x rest).1, y :: (pass swap x rest).2)

def sortFrom (swap : α → α → Bool) : Nat → List α → List α
  | 0, xs => xs
  | _ + 1, [] => []
  | n + 1, x :: xs => (pass swap x xs).1 :: sortFrom swap n (pass swap x xs).2

def sort (swap : α → α → Bool) (xs : List α) : List α := sortFrom swap xs.length xs

variable {swap : α → α → Bool}

theorem pass_perm (x : α) (xs : List α) : ((pass swap x xs).1 :: (pass swap x xs).2).Perm (x :: xs) := by
  induction xs generalizing x with
  | nil => exact .refl _
  | cons y rest ih =>
    by_cases h : swap x y
    · rw [pass, if_pos h]
      exact (List.Perm.swap _ _ _).trans (.cons _ (ih y))
    rw [pass, if_neg h]
    exact (List.Perm.swap _ _ _).trans ((List.Perm.cons _ (ih x)).trans (.swap _ _ _))

theorem sortFrom_perm (n : Nat) (xs : List α) : (sortFrom swap n xs).Perm xs := by
  induction n generalizing xs with
  | zero => exact .refl _
  | succ n ih =>
    cases xs with
    | nil => exact .refl _
    | cons x xs => exact (List.Perm.cons _ (ih _)).trans (pass_perm x xs)

theorem sort_perm (xs : List α) : (sort swap xs).Perm xs := sortFrom_perm _ _

end ExchangeSort
