import Mathlib.Algebra.BigOperators.Fin
import Mathlib.Algebra.Order.BigOperators.Group.Finset
import HuesOS.Lib.Exec
import HuesOS.Sched.TaskId

namespace HuesOS.Sched
open Exec
open Finset

inductive BandwidthError
  | invalidConfiguration | cpuOutOfRange | arithmetic | insufficientLocalRuntime
  deriving DecidableEq

structure JobBandwidth (cpus : Nat) where
  quotaNs : Nat
  periodNs : Nat
  periodStartNs : Nat
  generation : Nat
  unissuedNs : Nat
  localNs : Fin cpus → Nat
  chargedNs : Nat

abbrev BandwidthM (cpus : Nat) := Exec (JobBandwidth cpus) BandwidthError

namespace JobBandwidth
variable {cpus : Nat}

def new (cpus : Nat) (quotaNs periodNs startNs : UInt64) :
    Except BandwidthError (JobBandwidth cpus) :=
  if 2 ^ 128 ≤ periodNs.toNat * cpus then .error .arithmetic
  else if cpus = 0 ∨ maxCpus < cpus ∨ quotaNs = 0 ∨ periodNs = 0 ∨ periodNs.toNat * cpus < quotaNs.toNat then
    .error .invalidConfiguration
  else .ok ⟨quotaNs.toNat, periodNs.toNat, startNs.toNat, 1, quotaNs.toNat, fun _ => 0, 0⟩

def cpuAt (cpu : Nat) : BandwidthM cpus (Fin cpus) :=
  if h : cpu < cpus then pure ⟨cpu, h⟩ else stop .cpuOutOfRange

def setLocal (cpu : Fin cpus) (value : Nat) : BandwidthM cpus Unit :=
  modify fun b => { b with localNs := Function.update b.localNs cpu value }

def reserveLocal (cpu sliceNs : Nat) : BandwidthM cpus Nat := do
  let cpu ← cpuAt cpu
  let granted := min sliceNs (← gets (·.unissuedNs))
  setLocal cpu (← below (2 ^ 64) ((← gets (·.localNs cpu)) + granted) .arithmetic)
  modify fun b => { b with unissuedNs := b.unissuedNs - granted }
  return granted

/-- Charge runtime to the slice of a processor. The slice is reduced before the total is checked. -/
def chargeLocal (cpu runtimeNs : Nat) : BandwidthM cpus Unit := do
  let cpu ← cpuAt cpu
  let available ← gets (·.localNs cpu)
  if available < runtimeNs then stop .insufficientLocalRuntime
  setLocal cpu (available - runtimeNs)
  let charged ← below (2 ^ 64) ((← gets (·.chargedNs)) + runtimeNs) .arithmetic
  modify fun b => { b with chargedNs := charged }

def returnLocal (cpu : Nat) : BandwidthM cpus Nat := do
  let cpu ← cpuAt cpu
  let returned ← gets (·.localNs cpu)
  setLocal cpu 0
  let unissued ← below (2 ^ 64) ((← gets (·.unissuedNs)) + returned) .arithmetic
  modify fun b => { b with unissuedNs := unissued }
  return returned

/-- Start the period that contains the given time. Slices of the old period expire. -/
def replenishIfDue (nowNs : Nat) : BandwidthM cpus Bool := do
  let b ← gets fun b => b
  let elapsed := nowNs - b.periodStartNs
  if elapsed < b.periodNs then
    return false
  else
    let span ← below (2 ^ 64) (elapsed / b.periodNs * b.periodNs) .arithmetic
    let start ← below (2 ^ 64) (b.periodStartNs + span) .arithmetic
    modify fun b =>
      { b with
        periodStartNs := start
        generation := max ((b.generation + 1) % 2 ^ 64) 1
        unissuedNs := b.quotaNs
        localNs := fun _ => 0
        chargedNs := 0 }
    return true

end JobBandwidth

inductive BandwidthCall
  | reserve (cpu sliceNs : Nat)
  | charge (cpu runtimeNs : Nat)
  | giveBack (cpu : Nat)
  | replenish (nowNs : Nat)
  deriving DecidableEq

namespace BandwidthCall
open JobBandwidth
variable {cpus : Nat}

/-- Run a call; of its result only what the accounts below need is kept: whether a new period
began. -/
def run : BandwidthCall → BandwidthM cpus Bool
  | reserve cpu sliceNs => do
      let _ ← reserveLocal cpu sliceNs
      return false
  | charge cpu runtimeNs => do
      chargeLocal cpu runtimeNs
      return false
  | giveBack cpu => do
      let _ ← returnLocal cpu
      return false
  | replenish nowNs => replenishIfDue nowNs

def time : BandwidthCall → Option Nat
  | replenish nowNs => some nowNs
  | _ => none

def runtime : BandwidthCall → Nat
  | charge _ runtimeNs => runtimeNs
  | _ => 0

def runAll : List BandwidthCall → JobBandwidth cpus × Nat → JobBandwidth cpus × Nat
  | [], s => s
  | call :: rest, (b, spent) =>
    match call.run b with
    | (.error _, b') => runAll rest (b', spent)
    | (.ok true, b') => runAll rest (b', 0)
    | (.ok false, b') => runAll rest (b', spent + call.runtime)

end BandwidthCall

namespace JobBandwidth
variable {cpus : Nat} {b b' : JobBandwidth cpus} {spent : Nat} {e : BandwidthError}

/-- Nothing of the quota is lost: it is in the pool, with a processor, or was charged. -/
structure Sound (b : JobBandwidth cpus) (spent : Nat) : Prop where
  conserved : b.quotaNs = b.unissuedNs + ∑ cpu, b.localNs cpu + spent
  charged : b.chargedNs = spent
  small : b.quotaNs < 2 ^ 64
  period_pos : 0 < b.periodNs

theorem new_sound {quotaNs periodNs startNs : UInt64}
    (h : new cpus quotaNs periodNs startNs = .ok b) :
    b.Sound 0 ∧ b.quotaNs = quotaNs.toNat ∧ b.periodNs = periodNs.toNat ∧ b.periodStartNs = startNs.toNat := by
  unfold new at h
  split at h
  · cases h
  split at h
  · cases h
  next valid =>
  cases h
  refine ⟨⟨by simp, rfl, quotaNs.toNat_lt, ?_⟩, rfl, rfl, rfl⟩
  have nonzero : periodNs ≠ 0 := fun zero => valid (by simp [zero])
  exact Nat.pos_of_ne_zero fun zero => nonzero (UInt64.toNat_inj.mp zero)

theorem sum_update (f : Fin cpus → Nat) (cpu : Fin cpus) (value : Nat) :
    (∑ i, Function.update f cpu value i) + f cpu = (∑ i, f i) + value := by
  rw [sum_update_of_mem (mem_univ cpu), ← sum_sdiff (subset_univ {cpu}), sum_singleton]
  omega

theorem local_le (f : Fin cpus → Nat) (cpu : Fin cpus) : f cpu ≤ ∑ i, f i :=
  Finset.single_le_sum (fun _ _ => Nat.zero_le _) (mem_univ cpu)

def startFor (b : JobBandwidth cpus) (nowNs : Nat) : Nat :=
  b.periodStartNs + (nowNs - b.periodStartNs) / b.periodNs * b.periodNs

theorem replenishIfDue_run (nowNs : Nat) :
    replenishIfDue nowNs b =
      if nowNs - b.periodStartNs < b.periodNs then (.ok false, b)
      else if 2 ^ 64 ≤ b.startFor nowNs then (.error .arithmetic, b)
      else
        (.ok true,
          { b with
            periodStartNs := b.startFor nowNs
            generation := max ((b.generation + 1) % 2 ^ 64) 1
            unissuedNs := b.quotaNs
            localNs := fun _ => 0
            chargedNs := 0 }) := by
  unfold replenishIfDue startFor
  rw [gets_bind]
  split
  · rfl
  by_cases fits : (nowNs - b.periodStartNs) / b.periodNs * b.periodNs < 2 ^ 64
  · rw [below_bind_of_lt _ fits]
    split
    next large => rw [below_bind_of_le _ large]
    next small =>
    rw [below_bind_of_lt _ (by omega)]
    rfl
  · rw [below_bind_of_le _ (by omega), if_pos (by omega)]

theorem startFor_spec (pos : 0 < b.periodNs) {nowNs : Nat}
    (due : b.periodNs ≤ nowNs - b.periodStartNs) :
    b.periodStartNs + b.periodNs ≤ b.startFor nowNs ∧ b.startFor nowNs ≤ nowNs ∧
      nowNs < b.startFor nowNs + b.periodNs := by
  have whole := Nat.div_add_mod (nowNs - b.periodStartNs) b.periodNs
  have rest := Nat.mod_lt (nowNs - b.periodStartNs) pos
  have first : 1 ≤ (nowNs - b.periodStartNs) / b.periodNs := (Nat.one_le_div_iff pos).mpr due
  have least := Nat.mul_le_mul_right b.periodNs first
  rw [Nat.mul_comm] at whole
  unfold startFor
  omega

end JobBandwidth

namespace BandwidthCall
open JobBandwidth
variable {cpus : Nat} {b b' : JobBandwidth cpus} {spent : Nat} {call : BandwidthCall}

/-- A call within a period: it keeps the configuration, and what it charges is accounted for. -/
structure Within (call : BandwidthCall) (b b' : JobBandwidth cpus) (spent : Nat) : Prop where
  sound : b'.Sound (spent + call.runtime)
  quota : b'.quotaNs = b.quotaNs
  period : b'.periodNs = b.periodNs
  start : b'.periodStartNs = b.periodStartNs
  early : ∀ nowNs, call = .replenish nowNs → nowNs < b.periodStartNs + b.periodNs

structure Renews (nowNs : Nat) (b b' : JobBandwidth cpus) : Prop where
  sound : b'.Sound 0
  quota : b'.quotaNs = b.quotaNs
  period : b'.periodNs = b.periodNs
  later : b.periodStartNs + b.periodNs ≤ b'.periodStartNs
  begun : b'.periodStartNs ≤ nowNs
  running : nowNs < b'.periodStartNs + b'.periodNs

/-- A result that is an error with everything as it was, stays in the period, or begins another
one. -/
def Settled (call : BandwidthCall) (b : JobBandwidth cpus) (spent : Nat)
    (result : Except BandwidthError Bool × JobBandwidth cpus) : Prop :=
  (∃ e, result = (.error e, b)) ∨ (∃ b', result = (.ok false, b') ∧ Within call b b' spent) ∨
    ∃ nowNs b', call = .replenish nowNs ∧ result = (.ok true, b') ∧ Renews nowNs b b'

theorem settled_cpuAt {α : Type} {cpu : Nat} {next : Fin cpus → BandwidthM cpus α}
    {last : α → BandwidthM cpus Bool}
    (settled : ∀ cpu, Settled call b spent ((next cpu >>= last) b)) :
    Settled call b spent ((cpuAt cpu >>= next >>= last) b) := by
  rw [bind_assoc]
  unfold cpuAt
  split
  · exact settled _
  · exact .inl ⟨_, rfl⟩

/-- The slice of a processor changes with the pool, or by what is charged to it. -/
theorem settled_slice (sound : b.Sound spent) (cpu : Fin cpus) {val unissued : Nat}
    {result : Except BandwidthError Bool × JobBandwidth cpus}
    (own : ∀ nowNs, call ≠ .replenish nowNs)
    (balance : unissued + val + call.runtime = b.unissuedNs + b.localNs cpu)
    (ran : result = (.ok false, { b with
      localNs := Function.update b.localNs cpu val
      unissuedNs := unissued
      chargedNs := b.chargedNs + call.runtime })) : Settled call b spent result := by
  refine .inr (.inl ⟨_, ran, ⟨?_, congrArg (· + call.runtime) sound.charged, sound.small,
    sound.period_pos⟩, rfl, rfl, rfl, fun nowNs eq => absurd eq (own nowNs)⟩)
  have moved := sum_update b.localNs cpu val
  have conserved := sound.conserved
  dsimp only
  omega

theorem run_settled (sound : b.Sound spent) (call : BandwidthCall) : Settled call b spent (call.run b) := by
  have conserved := sound.conserved
  have charged := sound.charged
  have small := sound.small
  have held := local_le b.localNs
  cases call with
  | reserve cpu sliceNs =>
    refine settled_cpuAt fun cpu => ?_
    have room := held cpu
    rw [bind_assoc, gets_bind, bind_assoc, gets_bind, bind_assoc, below_bind_of_lt _ (by omega)]
    exact settled_slice sound cpu (by simp) (by dsimp only [runtime]; omega) rfl
  | charge cpu runtimeNs =>
    refine settled_cpuAt fun cpu => ?_
    have room := held cpu
    rw [bind_assoc, gets_bind]
    split
    · exact .inl ⟨_, rfl⟩
    next enough =>
    rw [setLocal, bind_assoc, modify_bind, bind_assoc, gets_bind, bind_assoc,
      below_bind_of_lt _ (by dsimp only; omega)]
    exact settled_slice sound cpu (by simp) (by dsimp only [runtime]; omega) rfl
  | giveBack cpu =>
    refine settled_cpuAt fun cpu => ?_
    have room := held cpu
    rw [bind_assoc, gets_bind, setLocal, bind_assoc, modify_bind, bind_assoc, gets_bind, bind_assoc,
      below_bind_of_lt _ (by dsimp only; omega)]
    exact settled_slice sound cpu (by simp) (by dsimp only [runtime]; omega) rfl
  | replenish nowNs =>
    have ran := replenishIfDue_run (b := b) nowNs
    split at ran
    next early =>
      refine .inr (.inl ⟨_, ran, sound, rfl, rfl, rfl, ?_⟩)
      rintro _ ⟨rfl⟩
      omega
    next due =>
    split at ran
    · exact .inl ⟨_, ran⟩
    obtain ⟨later, begun, run⟩ := startFor_spec sound.period_pos (not_lt.mp due)
    exact .inr (.inr ⟨nowNs, _, rfl, ran, ⟨by simp, rfl, sound.small, sound.period_pos⟩,
      rfl, rfl, later, begun, run⟩)

/-- The accounts at the time `t` of the last call that gave one. -/
structure Accounts (quotaNs periodNs t : Nat) (b : JobBandwidth cpus) (spent : Nat) : Prop where
  sound : b.Sound spent
  quota : b.quotaNs = quotaNs
  period : b.periodNs = periodNs
  begun : b.periodStartNs ≤ t

variable {quotaNs periodNs t : Nat}

theorem Accounts.runAll (accounts : Accounts quotaNs periodNs t b spent)
    (calls : List BandwidthCall) (ordered : (t :: calls.filterMap time).Pairwise (· ≤ ·)) :
    ∃ u ∈ t :: calls.filterMap time,
      Accounts quotaNs periodNs u (runAll calls (b, spent)).1 (runAll calls (b, spent)).2 := by
  induction calls generalizing b spent t with
  | nil => exact ⟨t, List.mem_singleton.mpr rfl, accounts⟩
  | cons call rest ih =>
    have after : (t :: rest.filterMap time).Pairwise (· ≤ ·) :=
      ordered.sublist (((List.sublist_cons_self call rest).filterMap time).cons_cons t)
    have kept : ∀ {u}, u ∈ t :: rest.filterMap time → u ∈ t :: (call :: rest).filterMap time :=
      fun mem => (((List.sublist_cons_self call rest).filterMap time).cons_cons t).subset mem
    rcases run_settled accounts.sound call with ⟨e, ran⟩ | ⟨b', ran, within⟩ |
      ⟨nowNs, b', rfl, ran, renews⟩
    · obtain ⟨u, mem, final⟩ := ih accounts after
      refine ⟨u, kept mem, ?_⟩
      simpa only [runAll, ran] using final
    · have here : Accounts quotaNs periodNs t b' (spent + call.runtime) :=
        ⟨within.sound, within.quota.trans accounts.quota, within.period.trans accounts.period,
          within.start.le.trans accounts.begun⟩
      obtain ⟨u, mem, final⟩ := ih here after
      refine ⟨u, kept mem, ?_⟩
      simpa only [runAll, ran] using final
    have here : Accounts quotaNs periodNs nowNs b' 0 :=
      ⟨renews.sound, renews.quota.trans accounts.quota, renews.period.trans accounts.period, renews.begun⟩
    obtain ⟨u, mem, final⟩ := ih here ordered.tail
    refine ⟨u, List.mem_cons_of_mem _ mem, ?_⟩
    simpa only [runAll, ran] using final

end BandwidthCall

open JobBandwidth BandwidthCall

/-- After any calls with times that do not decrease, the quota is what is in the pool, what the
processors hold and what was charged since the period began; so a period is never charged more
than its quota. A call that is refused changes nothing. The period after a replenishment that
succeeds contains the time it was called with, and one that begins a period leaves the old one
behind. -/
theorem bandwidth_conserved {cpus : Nat} {quotaNs periodNs startNs : UInt64}
    {b₀ b : JobBandwidth cpus} {spent : Nat}
    (created : new cpus quotaNs periodNs startNs = .ok b₀) {calls : List BandwidthCall}
    (ordered : (startNs.toNat :: calls.filterMap time).Pairwise (· ≤ ·))
    (ran : runAll calls (b₀, 0) = (b, spent)) :
    quotaNs.toNat = b.unissuedNs + ∑ cpu, b.localNs cpu + spent ∧ b.chargedNs = spent ∧
      spent ≤ quotaNs.toNat ∧
      (∀ call e b', run call b = (.error e, b') → b' = b) ∧
      ∀ nowNs fired b', (∀ u ∈ startNs.toNat :: calls.filterMap time, u ≤ nowNs) →
        replenishIfDue nowNs b = (.ok fired, b') →
        b'.periodStartNs ≤ nowNs ∧ nowNs < b'.periodStartNs + periodNs.toNat ∧
          (fired = true → b.periodStartNs + periodNs.toNat ≤ b'.periodStartNs) := by
  obtain ⟨sound, quota, period, start⟩ := new_sound created
  obtain ⟨u, seen, accounts⟩ := Accounts.runAll ⟨sound, quota, period, start.le⟩ calls ordered
  rw [ran] at accounts
  have conserved := accounts.sound.conserved
  rw [accounts.quota] at conserved
  refine ⟨conserved, accounts.sound.charged, by omega, ?_, ?_⟩
  · intro call e b' refused
    rcases run_settled accounts.sound call with ⟨e', same⟩ | ⟨b'', other, _⟩ |
      ⟨_, b'', _, other, _⟩
    · exact (Prod.mk.inj (refused.symm.trans same)).2
    · cases refused.symm.trans other
    · cases refused.symm.trans other
  intro nowNs fired b' reached replenished
  have begun := accounts.begun.trans (reached u seen)
  have len := accounts.period
  rcases run_settled accounts.sound (.replenish nowNs) with ⟨e, other⟩ | ⟨b'', same, within⟩ |
    ⟨_, b'', ⟨rfl⟩, same, renews⟩
  · cases replenished.symm.trans other
  · obtain ⟨⟨rfl⟩, rfl⟩ := Prod.mk.inj (replenished.symm.trans same)
    have early := within.early nowNs rfl
    refine ⟨within.start.le.trans begun, ?_, fun fired => by cases fired⟩
    rw [within.start, ← len]
    exact early
  obtain ⟨⟨rfl⟩, rfl⟩ := Prod.mk.inj (replenished.symm.trans same)
  have running := renews.running
  have later := renews.later
  rw [renews.period, len] at running
  rw [len] at later
  exact ⟨renews.begun, running, fun _ => later⟩

/-- Two processors share a quota over two periods; the second gets less than it asks for. -/
theorem bandwidth_conserved_two_cpus :
    let b₀ : JobBandwidth 2 := ⟨60, 100, 7, 1, 60, fun _ => 0, 0⟩
    let calls : List BandwidthCall := [.reserve 0 40, .charge 0 10, .reserve 1 40, .charge 1 30,
      .charge 1 10, .replenish 350, .reserve 1 5, .charge 1 5]
    new 2 60 100 7 = .ok b₀ ∧
      60 = (runAll calls (b₀, 0)).1.unissuedNs + ∑ cpu, (runAll calls (b₀, 0)).1.localNs cpu +
        (runAll calls (b₀, 0)).2 := by
  intro b₀ calls
  have created : new 2 60 100 7 = .ok b₀ := rfl
  exact ⟨created, (@bandwidth_conserved 2 60 100 7 b₀ _ _ created calls (by decide) rfl).1⟩

end HuesOS.Sched
