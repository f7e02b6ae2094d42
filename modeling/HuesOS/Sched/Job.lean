import Mathlib
import HuesOS.Lib.Runs

namespace HuesOS.Sched
open Finset Function

structure JobCpuLoad where
  runnable : Nat := 0
  demandWeight : Nat := 0
  serviceNs : Nat := 0

structure JobState (CPUS : Nat) where
  id : Nat
  weight : Nat
  perCpu : Fin CPUS → JobCpuLoad
  serviceTotalNs : Nat
  runnableTotal : Nat
  capNsPerPeriod : Nat
  capPeriodStartNs : Nat

inductive JobError
  | cpuOutOfRange | overflow | zeroWeight

abbrev JobOutcome (CPUS : Nat) := Except JobError Unit × JobState CPUS

inductive JobCall
  | threadReady (cpu weight : Nat)
  | threadBlocked (cpu weight : Nat)
  | charge (cpu ns : Nat)

namespace JobState
variable {CPUS : Nat}

def new (CPUS id weight capNsPerPeriod : Nat) : Except JobError (JobState CPUS) :=
  if weight = 0 then .error .zeroWeight
  else .ok ⟨id, weight, fun _ => {}, 0, 0, capNsPerPeriod, 0⟩

def onCpu (job : JobState CPUS) (cpu : Nat) (act : Fin CPUS → JobOutcome CPUS) : JobOutcome CPUS :=
  if inside : cpu < CPUS then act ⟨cpu, inside⟩ else (.error .cpuOutOfRange, job)

def setLoad (job : JobState CPUS) (c : Fin CPUS) (load : JobCpuLoad) : JobState CPUS :=
  { job with perCpu := update job.perCpu c load }

-- Fields are written one after the other, so an error leaves those before it changed.
def threadReady (job : JobState CPUS) (cpu weight : Nat) : JobOutcome CPUS :=
  job.onCpu cpu fun c =>
    let load := job.perCpu c
    if 2 ^ 32 ≤ load.runnable + 1 then (.error .overflow, job)
    else
      let load := { load with runnable := load.runnable + 1 }
      if 2 ^ 64 ≤ load.demandWeight + weight then (.error .overflow, job.setLoad c load)
      else
        let job := job.setLoad c { load with demandWeight := load.demandWeight + weight }
        if 2 ^ 32 ≤ job.runnableTotal + 1 then (.error .overflow, job)
        else (.ok (), { job with runnableTotal := job.runnableTotal + 1 })

def threadBlocked (job : JobState CPUS) (cpu weight : Nat) : JobOutcome CPUS :=
  job.onCpu cpu fun c =>
    let load := job.perCpu c
    let job := job.setLoad c
      { load with runnable := load.runnable - 1, demandWeight := load.demandWeight - weight }
    (.ok (), { job with runnableTotal := job.runnableTotal - 1 })

def charge (job : JobState CPUS) (cpu ns : Nat) : JobOutcome CPUS :=
  job.onCpu cpu fun c =>
    let load := job.perCpu c
    if 2 ^ 64 ≤ load.serviceNs + ns then (.error .overflow, job)
    else
      let job := job.setLoad c { load with serviceNs := load.serviceNs + ns }
      if 2 ^ 64 ≤ job.serviceTotalNs + ns then (.error .overflow, job)
      else (.ok (), { job with serviceTotalNs := job.serviceTotalNs + ns })

def call (job : JobState CPUS) : JobCall → JobOutcome CPUS
  | .threadReady cpu weight => job.threadReady cpu weight
  | .threadBlocked cpu weight => job.threadBlocked cpu weight
  | .charge cpu ns => job.charge cpu ns

def Balanced (job : JobState CPUS) : Prop :=
  job.runnableTotal = ∑ c, (job.perCpu c).runnable ∧
    job.serviceTotalNs = ∑ c, (job.perCpu c).serviceNs

/-- The totals can follow the call: they do not overflow once a count was raised, and a count
that is already zero is not lowered while others are not. -/
def Follows : JobCall → JobState CPUS → Prop
  | .threadReady cpu weight, job => ∀ c : Fin CPUS, c.val = cpu →
    (job.perCpu c).runnable + 1 < 2 ^ 32 →
      (job.perCpu c).demandWeight + weight < 2 ^ 64 ∧ job.runnableTotal + 1 < 2 ^ 32
  | .threadBlocked cpu _, job => ∀ c : Fin CPUS, c.val = cpu →
    (job.perCpu c).runnable = 0 → job.runnableTotal = 0
  | .charge cpu ns, job => ∀ c : Fin CPUS, c.val = cpu →
    (job.perCpu c).serviceNs + ns < 2 ^ 64 → ns = 0 ∨ job.serviceTotalNs + ns < 2 ^ 64

variable {job start : JobState CPUS} {id weight cap : Nat}

theorem sum_setLoad (g : JobCpuLoad → Nat) (c : Fin CPUS) (load : JobCpuLoad) :
    ∑ i, g ((job.setLoad c load).perCpu i) + g (job.perCpu c) = ∑ i, g (job.perCpu i) + g load := by
  have moved : (fun i => g ((job.setLoad c load).perCpu i)) =
      update (fun i => g (job.perCpu i)) c (g load) := comp_update g job.perCpu c load
  rw [moved, sum_update_of_mem (mem_univ c), sdiff_singleton_eq_erase, ← add_sum_erase _ _ (mem_univ c)]
  omega

namespace Balanced
variable (balanced : job.Balanced)
include balanced

theorem setLoad_iff (c : Fin CPUS) (load : JobCpuLoad) (service runnable : Nat) :
    { job.setLoad c load with serviceTotalNs := service, runnableTotal := runnable }.Balanced ↔
      runnable + (job.perCpu c).runnable = job.runnableTotal + load.runnable ∧
        service + (job.perCpu c).serviceNs = job.serviceTotalNs + load.serviceNs := by
  have counts := @sum_setLoad _ job JobCpuLoad.runnable c load
  have services := @sum_setLoad _ job JobCpuLoad.serviceNs c load
  obtain ⟨ready, served⟩ := balanced
  show (runnable = ∑ i, ((job.setLoad c load).perCpu i).runnable ∧
    service = ∑ i, ((job.setLoad c load).perCpu i).serviceNs) ↔ _
  omega

theorem runnable_le (c : Fin CPUS) : (job.perCpu c).runnable ≤ job.runnableTotal := by
  rw [balanced.1]
  exact single_le_sum (fun i _ => Nat.zero_le (job.perCpu i).runnable) (mem_univ c)

theorem onCpu_iff {cpu : Nat} {act : Fin CPUS → JobOutcome CPUS}
    {P : Fin CPUS → Prop} (acts : ∀ c, (act c).2.Balanced ↔ P c) :
    (job.onCpu cpu act).2.Balanced ↔ ∀ c : Fin CPUS, c.val = cpu → P c := by
  unfold onCpu
  split
  next inside =>
    rw [acts]
    exact ⟨fun holds c eq => (Fin.ext eq : c = ⟨cpu, inside⟩) ▸ holds, fun all => all _ rfl⟩
  next out => exact ⟨fun _ c eq => absurd c.isLt (eq ▸ out), fun _ => balanced⟩

theorem call_iff (k : JobCall) : (job.call k).2.Balanced ↔ Follows k job := by
  have changed := balanced.setLoad_iff
  cases k with
  | threadReady cpu weight =>
    refine balanced.onCpu_iff fun c => ?_
    dsimp only
    split
    · exact iff_of_true balanced (by omega)
    split
    · refine (changed c _ _ _).trans ?_
      dsimp only
      omega
    split
    all_goals
      refine (changed c _ _ _).trans ?_
      dsimp only [setLoad] at *
      omega
  | threadBlocked cpu weight =>
    refine balanced.onCpu_iff fun c => (changed c _ _ _).trans ?_
    have below := balanced.runnable_le c
    dsimp only [setLoad]
    omega
  | charge cpu ns =>
    refine balanced.onCpu_iff fun c => ?_
    dsimp only
    split
    · exact iff_of_true balanced (by omega)
    split
    all_goals
      refine (changed c _ _ _).trans ?_
      dsimp only [setLoad] at *
      omega

end Balanced

/-- The totals are right in every run whose calls let them follow, and the next call keeps them
so exactly when it does as well. -/
theorem totals_follow_iff (made : new CPUS id weight cap = .ok start)
    (run : Runs (fun k s t => (call s k).2 = t) Follows start job) :
    job.Balanced ∧ ∀ k, (job.call k).2.Balanced ↔ Follows k job := by
  have initial : start.Balanced := by
    unfold new at made
    split at made
    · cases made
    · cases made
      simp [Balanced]
  have balanced : job.Balanced := by
    refine run.invariant initial fun balanced follows taken => ?_
    rw [← taken]
    exact (Balanced.call_iff balanced _).mpr follows
  exact ⟨balanced, balanced.call_iff⟩

def idleJob : JobState 2 := ⟨0, 1, fun _ => {}, 0, 0, 0, 0⟩

/-- Threads become ready on both processors, one blocks, and of two charges the second overflows. -/
theorem totals_follow_mixed : ∃ job : JobState 2, job.runnableTotal = 1 ∧ job.serviceTotalNs = 5 ∧
    job.Balanced ∧ ¬ (job.call (.threadBlocked 0 1)).2.Balanced := by
  have begun : Runs (fun k s t => (call s k).2 = t) Follows idleJob _ := .start
  have first := begun.next (k := .threadReady 0 3) (by unfold Follows; decide) rfl
  have second := first.next (k := .threadReady 1 4) (by unfold Follows; decide) rfl
  have third := second.next (k := .threadBlocked 0 3) (by unfold Follows; decide) rfl
  have fourth := third.next (k := .charge 1 5) (by unfold Follows; decide) rfl
  have fifth := fourth.next (k := .charge 1 (2 ^ 64 - 1)) (by unfold Follows; decide) rfl
  obtain ⟨balanced, next⟩ := @totals_follow_iff 2 _ idleJob 0 1 0 rfl fifth
  exact ⟨_, rfl, rfl, balanced, fun after => absurd ((next _).mp after) (by unfold Follows; decide)⟩

/-- A thread becomes ready on one processor and is reported as blocked on the other. -/
theorem blocked_elsewhere : new 2 0 1 0 = .ok idleJob ∧
    ¬ ((idleJob.call (.threadReady 0 1)).2.call (.threadBlocked 1 1)).2.Balanced :=
  ⟨rfl, fun balanced => absurd balanced.1 (by decide)⟩

end JobState
end HuesOS.Sched
