import Mathlib.Logic.Relation
import Mathlib.Tactic.Common

/-- `Runs step allowed s t`: from `s` the system reaches `t` by steps that are allowed in the
state they are taken in. -/
inductive Runs {σ κ : Type} (step : κ → σ → σ → Prop) (allowed : κ → σ → Prop) (s : σ) : σ → Prop
  | start : Runs step allowed s s
  | next {t u : σ} {k : κ} (before : Runs step allowed s t) (permitted : allowed k t)
      (taken : step k t u) : Runs step allowed s u

namespace Runs
variable {σ κ : Type} {step : κ → σ → σ → Prop} {allowed : κ → σ → Prop} {s t u : σ}

/-- A property that allowed steps keep holds along the whole run. -/
theorem invariant {P : σ → Prop} (initial : P s)
    (preserved : ∀ {k t u}, P t → allowed k t → step k t u → P u)
    (run : Runs step allowed s t) : P t := by
  induction run with
  | start => exact initial
  | next _ permitted taken ih => exact preserved ih permitted taken

theorem one {k : κ} (permitted : allowed k s) (taken : step k s t) : Runs step allowed s t :=
  next start permitted taken

theorem mono {wider : κ → σ → Prop} (run : Runs step allowed s t)
    (implies : ∀ k t, allowed k t → wider k t) : Runs step wider s t := by
  induction run with
  | start => exact start
  | next _ permitted taken ih => exact next ih (implies _ _ permitted) taken

theorem trans (first : Runs step allowed s t) (second : Runs step allowed t u) : Runs step allowed s u := by
  induction second with
  | start => exact first
  | next _ permitted taken ih => exact next ih permitted taken

/-- The run of a machine whose steps are computed from the given labels, as far as they are allowed. -/
theorem of_foldlM_if {f : σ → κ → Option σ} [∀ k s, Decidable (allowed k s)] (ks : List κ)
    (computed : ks.foldlM (fun s k => if allowed k s then f s k else none) s = some t) :
    Runs (fun k s t => f s k = some t) allowed s t := by
  induction ks generalizing s with
  | nil =>
    cases computed
    exact start
  | cons k ks ih =>
    rw [List.foldlM_cons] at computed
    obtain ⟨u, taken, rest⟩ := Option.bind_eq_some_iff.mp computed
    split at taken
    next permitted => exact (one permitted taken).trans (ih rest)
    · cases taken

theorem of_foldlM {f : σ → κ → Option σ} (ks : List κ) (computed : ks.foldlM f s = some t) :
    Runs (fun k s t => f s k = some t) (fun _ _ => True) s t :=
  of_foldlM_if ks (by simpa using computed)

end Runs
