import Mathlib.Data.List.Forall2
import Mathlib.Data.List.MinMax
import Mathlib.Data.List.Perm.Basic
import Mathlib.Tactic.Common

namespace Lists
open List Option
variable {α β : Type}

theorem first_or_none (p : α → Prop) (l : List α) :
    (∀ x ∈ l, ¬p x) ∨ ∃ after x between, l = after ++ x :: between ∧ p x ∧ ∀ y ∈ between, ¬p y := by
  induction l with
  | nil => exact .inl fun x mem => absurd mem not_mem_nil
  | cons a rest ih =>
    rcases ih with clear | ⟨after, x, between, rfl, here, clear⟩
    · by_cases here : p a
      · exact .inr ⟨[], a, rest, rfl, here, clear⟩
      · exact .inl (forall_mem_cons.mpr ⟨here, clear⟩)
    · exact .inr ⟨a :: after, x, between, rfl, here, clear⟩

variable {l : List α} {i : Nat}

theorem exists_argmin [LinearOrder β] (f : α → β) (nonempty : l ≠ []) :
    ∃ a ∈ l, l.argmin f = some a ∧ ∀ x ∈ l, f a ≤ f x := by
  have some_least : l.argmin f ≠ none := fun missing => nonempty (argmin_eq_none.mp missing)
  obtain ⟨a, found⟩ := ne_none_iff_exists'.mp some_least
  exact ⟨a, argmin_mem found, found, fun x mem => le_of_mem_argmin mem found⟩

theorem flatMap_set_perm (f : α → List β) {x : α} (found : l[i]? = some x)
    (y : α) : (f x ++ (l.set i y).flatMap f).Perm (f y ++ l.flatMap f) := by
  induction l generalizing i with
  | nil => simp at found
  | cons a rest ih =>
    cases i with
    | zero =>
      cases found
      simp only [set_cons_zero, flatMap_cons]
      rw [← append_assoc, ← append_assoc]
      exact perm_append_comm.append_right _
    | succ i =>
      rw [getElem?_cons_succ] at found
      simp only [set_cons_succ, flatMap_cons]
      refine (perm_append_comm_assoc _ _ _).trans ?_
      exact ((ih found).append_left _).trans (perm_append_comm_assoc _ _ _)

def swapRemove (l : List α) (i : Nat) : List α :=
  match l.getLast? with
  | none => []
  | some last => (l.set i last).dropLast

theorem swapRemove_append_singleton {init : List α} {last : α}
    (bound : i ≤ init.length) : swapRemove (init ++ [last]) i = init.set i last := by
  rw [swapRemove, getLast?_append_of_ne_nil _ (cons_ne_nil _ _)]
  dsimp only [getLast?_singleton]
  rcases Nat.lt_or_eq_of_le bound with inner | rfl
  · rw [set_append_left i last inner, dropLast_concat]
  rw [set_append_right _ _ le_rfl, Nat.sub_self, set_cons_zero, dropLast_concat, set_eq_of_length_le le_rfl]

theorem swapRemove_perm (lt : i < l.length) : l.Perm (l.get ⟨i, lt⟩ :: swapRemove l i) := by
  rcases eq_nil_or_concat' l with rfl | ⟨init, last, rfl⟩
  · cases lt
  have small : i ≤ init.length := by simp at lt; omega
  rw [swapRemove_append_singleton small]
  have here : (init ++ [last]).get ⟨i, lt⟩ = init.getD i last := by
    rw [get_eq_getElem, getD_eq_getElem?_getD, getElem_append]
    split
    next inner => rw [getElem?_eq_getElem inner, getD_some]
    next outer =>
    rw [getElem?_eq_none (not_lt.mp outer), getD_none, getElem_singleton]
  rw [here]
  exact (perm_append_singleton last init).trans (getD_set_perm_cons init i last).symm

def swapRemoveOf [DecidableEq α] (a : α) (l : List α) : Option (List α) :=
  if a ∈ l then some (swapRemove l (l.idxOf a)) else none

theorem swapRemoveOf_perm [DecidableEq α] {a : α} {rest : List α}
    (removed : swapRemoveOf a l = some rest) : l.Perm (a :: rest) := by
  rw [swapRemoveOf] at removed
  split at removed
  next mem =>
    cases removed
    have bound := idxOf_lt_length_of_mem mem
    have perm := swapRemove_perm bound
    rwa [get_eq_getElem, getElem_idxOf bound] at perm
  · cases removed

theorem swapRemoveOf_isSome [DecidableEq α] {a : α} (mem : a ∈ l) :
    ∃ rest, swapRemoveOf a l = some rest := ⟨_, if_pos mem⟩

end Lists
