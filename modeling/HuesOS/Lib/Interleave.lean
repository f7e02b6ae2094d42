import Mathlib.Logic.Function.Basic
import HuesOS.Lib.Runs

/-! Programs that share memory, interleaved step by step. -/

/-- A configuration: the shared memory, the state of every thread, and the events recorded so
far, latest first. -/
structure Config {ι : Type} (σ : Type) (τ : ι → Type) (ε : Type) where
  shared : σ
  threads : ∀ i, τ i
  log : List ε

/-- What each thread does: given a choice, its state and the memory, its next state, the memory
and the events it records. A thread that cannot take the choice does not step. -/
abbrev Program {ι : Type} (σ : Type) (τ κ : ι → Type) (ε : Type) :=
  ∀ i, κ i → τ i → σ → Option (τ i × σ × List ε)

theorem split_of_not_mem {ε : Type} {events log later earlier : List ε} {e : ε}
    (split : events ++ log = later ++ e :: earlier) (absent : e ∉ events) :
    ∃ between, later = events ++ between ∧ log = between ++ e :: earlier := by
  rcases List.append_eq_append_iff.mp split with ⟨between, rfl, rest⟩ | ⟨tail, rfl, rest⟩
  · exact ⟨between, rfl, rest⟩
  cases tail with
  | nil => exact ⟨[], by simp, by simpa using rest.symm⟩
  | cons first tail =>
    rw [List.cons_append, List.cons.injEq] at rest
    exact absurd (by simp [rest.1]) absent

namespace Program
open List Function Option
variable {ι σ ε : Type} {τ κ : ι → Type} [DecidableEq ι] {program : Program σ τ κ ε}
  {allowed : (Σ i, κ i) → Config σ τ ε → Prop} {c c' : Config σ τ ε}

def Step (program : Program σ τ κ ε) (act : Σ i, κ i) (c c' : Config σ τ ε) : Prop :=
  ∃ t s events, program act.1 act.2 (c.threads act.1) c.shared = some (t, s, events) ∧
    c' = ⟨s, update c.threads act.1 t, events ++ c.log⟩

/-- The thread that steps moves as its program says; the others stand still. -/
theorem Step.inversion {i : ι} {k : κ i} (step : Step program ⟨i, k⟩ c c') :
    ∃ events, program i k (c.threads i) c.shared = some (c'.threads i, c'.shared, events) ∧
      (∀ j, j ≠ i → c'.threads j = c.threads j) ∧ c'.log = events ++ c.log := by
  obtain ⟨t, s, events, taken, rfl⟩ := step
  refine ⟨events, ?_, fun j other => update_of_ne other .., rfl⟩
  dsimp only
  rw [update_self]
  exact taken

/-- Facts about memory and events (`global`), and further facts at each point of each thread
(`locally`), such that every step keeps both the facts of its own thread and those of the others. -/
structure Outline (program : Program σ τ κ ε) (allowed : (Σ i, κ i) → Config σ τ ε → Prop)
    (global : σ → List ε → Prop) (locally : ∀ i, τ i → σ → List ε → Prop) : Prop where
  /-- A step keeps the global facts and leads to a point whose facts hold. -/
  own : ∀ {c i k t s events}, allowed ⟨i, k⟩ c → global c.shared c.log →
    (∀ j, locally j (c.threads j) c.shared c.log) →
    program i k (c.threads i) c.shared = some (t, s, events) →
    global s (events ++ c.log) ∧ locally i t s (events ++ c.log)
  /-- A step of one thread keeps the facts of another. -/
  others : ∀ {c i j k t s events}, allowed ⟨i, k⟩ c → i ≠ j → global c.shared c.log →
    (∀ j, locally j (c.threads j) c.shared c.log) →
    program i k (c.threads i) c.shared = some (t, s, events) →
    locally j (c.threads j) s (events ++ c.log)

/-- The facts of an outline hold along every run that starts with them. -/
theorem Outline.holds {global : σ → List ε → Prop} {locally : ∀ i, τ i → σ → List ε → Prop}
    (outline : Outline program allowed global locally) (first : global c.shared c.log)
    (each : ∀ i, locally i (c.threads i) c.shared c.log) (run : Runs (Step program) allowed c c') :
    global c'.shared c'.log ∧ ∀ i, locally i (c'.threads i) c'.shared c'.log := by
  refine Runs.invariant (P := fun c => global c.shared c.log ∧
    ∀ i, locally i (c.threads i) c.shared c.log) ⟨first, each⟩ ?_ run
  rintro ⟨i, k⟩ d d' ⟨known, points⟩ permitted ⟨t, s, events, taken, rfl⟩
  obtain ⟨after, here⟩ := outline.own permitted known points taken
  refine ⟨after, fun j => ?_⟩
  by_cases eq : j = i
  · subst eq
    dsimp only
    rwa [update_self]
  dsimp only
  rw [update_of_ne eq]
  exact outline.others permitted (fun equal => eq equal.symm) known points taken

/-- Run a schedule: the steps of the named threads, one after the other. -/
def run (program : Program σ τ κ ε) : List (Σ i, κ i) → Config σ τ ε → Option (Config σ τ ε)
  | [], c => some c
  | act :: rest, c =>
    match program act.1 act.2 (c.threads act.1) c.shared with
    | none => none
    | some (t, s, events) => run program rest ⟨s, update c.threads act.1 t, events ++ c.log⟩

/-- A schedule of steps that are allowed whatever the configuration is a run. -/
theorem run_runs_of {schedule : List (Σ i, κ i)} (permits : ∀ act ∈ schedule, ∀ c, allowed act c)
    (ran : run program schedule c = some c') : Runs (Step program) allowed c c' := by
  induction schedule generalizing c with
  | nil =>
    cases ran
    exact .start
  | cons act rest ih =>
    rw [run] at ran
    split at ran
    · cases ran
    next t s events taken =>
    exact (Runs.one (permits act mem_cons_self c) ⟨t, s, events, taken, rfl⟩).trans
      (ih (fun act mem => permits act (.tail _ mem)) ran)

theorem run_runs {schedule : List (Σ i, κ i)} (ran : run program schedule c = some c') :
    Runs (Step program) (fun _ _ => True) c c' := run_runs_of (fun _ _ _ => trivial) ran

def alone {τ κ : Type} (step : κ → τ → σ → Option (τ × σ × List ε)) :
    List κ → τ → σ → Option (τ × σ × List ε)
  | [], t, s => some (t, s, [])
  | k :: rest, t, s =>
    match step k t s with
    | none => none
    | some (t', s', events) =>
      (alone step rest t' s').map fun r => (r.1, r.2.1, r.2.2 ++ events)

theorem alone_append {τ κ : Type} {step : κ → τ → σ → Option (τ × σ × List ε)} {first second : List κ}
    {t t₁ t₂ : τ} {s s₁ s₂ : σ} {e₁ e₂ : List ε} (ran : alone step first t s = some (t₁, s₁, e₁))
    (more : alone step second t₁ s₁ = some (t₂, s₂, e₂)) :
    alone step (first ++ second) t s = some (t₂, s₂, e₂ ++ e₁) := by
  induction first generalizing t s e₁ with
  | nil =>
    cases ran
    rw [nil_append, append_nil]
    exact more
  | cons k rest ih =>
    rw [alone] at ran
    rw [List.cons_append, alone]
    split at ran
    · cases ran
    next t' s' events taken =>
    obtain ⟨⟨u, v, later⟩, after, eq⟩ := map_eq_some_iff.mp ran
    cases eq
    rw [ih after, map_some, append_assoc]

theorem alone_runs {i : ι} {choices : List (κ i)} {t : τ i} {s : σ} {events : List ε}
    (ran : alone (program i) choices (c.threads i) c.shared = some (t, s, events)) :
    Runs (Step program) (fun _ _ => True) c ⟨s, update c.threads i t, events ++ c.log⟩ := by
  induction choices generalizing c t s events with
  | nil =>
    cases ran
    rw [update_eq_self]
    exact .start
  | cons k rest ih =>
    rw [alone] at ran
    split at ran
    · cases ran
    next t₁ s₁ first taken =>
    obtain ⟨⟨t₂, s₂, second⟩, after, eq⟩ := map_eq_some_iff.mp ran
    cases eq
    have step : Step program ⟨i, k⟩ c ⟨s₁, update c.threads i t₁, first ++ c.log⟩ :=
      ⟨t₁, s₁, first, taken, rfl⟩
    have remaining : alone (program i) rest (update c.threads i t₁ i) s₁ =
        some (t₂, s₂, second) := by rw [update_self]; exact after
    have tail := @ih ⟨s₁, update c.threads i t₁, first ++ c.log⟩ t₂ s₂ second remaining
    rw [update_idem, ← append_assoc] at tail
    exact (Runs.one trivial step).trans tail

/-- While the memory is `s`, thread `i` gets from `t` to `t'` by steps of its own that leave the
memory alone. -/
def Retires (program : Program σ τ κ ε) (allowed : (Σ i, κ i) → Config σ τ ε → Prop) (s : σ) (i : ι)
    (t t' : τ i) : Prop :=
  ∀ c : Config σ τ ε, c.shared = s → c.threads i = t →
    Runs (Step program) allowed c { c with threads := update c.threads i t' }

theorem Retires.refl {s : σ} {i : ι} {t : τ i} : Retires program allowed s i t t := by
  rintro c - rfl
  rw [update_eq_self]
  exact .start

theorem Retires.step {s : σ} {i : ι} {t t₁ t₂ : τ i} {k : κ i}
    (taken : program i k t s = some (t₁, s, []))
    (permitted : ∀ c : Config σ τ ε, c.shared = s → c.threads i = t → allowed ⟨i, k⟩ c)
    (later : Retires program allowed s i t₁ t₂) : Retires program allowed s i t t₂ := by
  rintro c rfl rfl
  have first : Step program ⟨i, k⟩ c { c with threads := update c.threads i t₁ } :=
    ⟨t₁, c.shared, [], taken, rfl⟩
  have rest := later { c with threads := update c.threads i t₁ } rfl (update_self ..)
  dsimp only at rest
  rw [update_idem] at rest
  exact (Runs.one (permitted c rfl rfl) first).trans rest

/-- Threads that can retire one by one can all retire, one after the other. -/
theorem Retires.all (goal : ∀ i, τ i) (threads : List ι)
    (each : ∀ i ∈ threads, Retires program allowed c.shared i (c.threads i) (goal i)) :
    ∃ d, Runs (Step program) allowed c d ∧ d.shared = c.shared ∧
      (∀ i ∈ threads, d.threads i = goal i) ∧ ∀ i ∉ threads, d.threads i = c.threads i := by
  induction threads with
  | nil => exact ⟨c, .start, rfl, nofun, fun _ _ => rfl⟩
  | cons first rest ih =>
    obtain ⟨d, run, shared, done, kept⟩ := ih fun i mem => each i (.tail _ mem)
    by_cases again : first ∈ rest
    · refine ⟨d, run, shared, fun i mem => ?_, fun i absent => kept i fun mem =>
        absent (.tail _ mem)⟩
      rcases mem_cons.mp mem with rfl | mem
      · exact done _ again
      · exact done i mem
    have last := each first mem_cons_self d shared (kept first again)
    refine ⟨_, run.trans last, shared, fun i mem => ?_, fun i absent => ?_⟩
    · by_cases eq : i = first
      · subst eq
        exact update_self ..
      exact (update_of_ne eq ..).trans (done i ((mem_cons.mp mem).resolve_left eq))
    obtain ⟨other, later⟩ := not_or.mp fun mem => absent (mem_cons.mpr mem)
    exact (update_of_ne other ..).trans (kept i later)

end Program
