import Mathlib.Data.List.Basic
import Mathlib.Logic.Function.Basic

/-! Contents of a device under a list of writes, oldest first. A device that may lose some of its
last writes holds what a sublist of them leaves. -/

namespace Writes
open List Function
variable {A V : Type} [DecidableEq A]

def apply : List (A × V) → (A → V) → A → V
  | [], contents => contents
  | w :: ws, contents => apply ws (update contents w.1 w.2)

variable {ws kept : List (A × V)} {contents other : A → V} {a : A} {v : V}

@[simp] theorem apply_nil : apply [] contents = contents := rfl

theorem apply_concat (ws : List (A × V)) (a : A) (v : V) (contents : A → V) :
    apply (ws ++ [(a, v)]) contents = update (apply ws contents) a v := by
  induction ws generalizing contents with
  | nil => rfl
  | cons w ws ih => exact ih _

theorem apply_of_untouched (untouched : ∀ w ∈ ws, w.1 ≠ a) : apply ws contents a = contents a := by
  induction ws generalizing contents with
  | nil => rfl
  | cons w ws ih =>
    rw [apply, ih (fun w' inside => untouched w' (.tail _ inside))]
    exact update_of_ne (untouched w mem_cons_self).symm _ _

theorem apply_of_held (held : ∀ w ∈ ws, contents w.1 = w.2) : apply ws contents = contents := by
  induction ws with
  | nil => rfl
  | cons w ws ih =>
    rw [apply, ← held w mem_cons_self, update_eq_self]
    exact ih fun w' inside => held w' (.tail _ inside)

/-- What the writes leave depends only on what stood where none of them writes. -/
theorem apply_congr (eq : ∀ a, (∀ w ∈ ws, w.1 ≠ a) → contents a = other a) :
    apply ws contents = apply ws other := by
  induction ws generalizing contents other with
  | nil => exact funext fun a => eq a (by simp)
  | cons w ws ih =>
    refine ih fun a untouched => ?_
    by_cases here : a = w.1
    · rw [here, update_self, update_self]
    rw [update_of_ne here, update_of_ne here]
    apply eq
    intro w' inside
    rcases mem_cons.mp inside with rfl | inside
    · exact Ne.symm here
    · exact untouched w' inside

/-- Some of the writes followed by all of them leave what all of them leave. -/
theorem apply_apply_of_sublist (part : kept.Sublist ws) :
    apply ws (apply kept contents) = apply ws contents :=
  apply_congr fun _ untouched => apply_of_untouched fun w inside => untouched w (part.subset inside)

end Writes
