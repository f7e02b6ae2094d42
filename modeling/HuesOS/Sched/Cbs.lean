import Mathlib.Algebra.Order.BigOperators.Group.List
import Mathlib.Data.List.Pairwise
import HuesOS.Lib.Exec
import HuesOS.Lib.Slots
import HuesOS.Sched.TaskId

/-! The budget of a constant bandwidth server: runtime that is charged comes back one period later,
through a table of refills of fixed size. -/

namespace HuesOS.Sched
open List Exec Slots

structure CbsReservation where
  capacityNs : Nat
  deadlineNs : Nat
  periodNs : Nat
  capacity_pos : 0 < capacityNs
  capacity_le : capacityNs ≤ deadlineNs
  deadline_le : deadlineNs ≤ periodNs
  period_lt : periodNs < 2 ^ 64

structure Refill where
  eligibleNs : Nat
  amountNs : Nat
  deriving DecidableEq

inductive RefillError
  | invalidConfiguration | zeroAmount | arithmetic
  deriving DecidableEq

abbrev RefillRing := Slots Refill

namespace RefillRing

def latestIndex (ring : RefillRing) : Option Nat :=
  let key (entry : Option Refill) : Nat := (entry.map (·.eligibleNs)).getD 0
  (ring.zipIdx.foldl (fun (best : Option (Nat × Nat)) slot =>
    match best with
    | none => some (key slot.1, slot.2)
    | some (latest, index) =>
      if latest ≤ key slot.1 then some (key slot.1, slot.2) else some (latest, index)) none).map
    (·.2)

def schedule (refill : Refill) : Exec RefillRing RefillError Unit := do
  let ring ← gets fun ring => ring
  if ring.length = 0 then stop .invalidConfiguration
  else if refill.amountNs = 0 then stop .zeroAmount
  else
    match ring.put refill with
    | some after => modify fun _ => after
    | none =>
      match latestIndex ring with
      | none => stop .invalidConfiguration
      | some index =>
        match ring[index]?.join with
        | none => stop .invalidConfiguration
        | some latest => do
            let amount ← below (2 ^ 64) (latest.amountNs + refill.amountNs) .arithmetic
            modify fun ring =>
              ring.set index (some ⟨max latest.eligibleNs refill.eligibleNs, amount⟩)

/-- Take out what is eligible, slot after slot, and add it up. An overflow of the sum stops the
walk, with the slots before it emptied. -/
def takeFrom (nowNs total : Nat) : RefillRing → Except RefillError Nat × RefillRing
  | [] => (.ok total, [])
  | none :: rest =>
    let (result, rest) := takeFrom nowNs total rest
    (result, none :: rest)
  | some refill :: rest =>
    if refill.eligibleNs ≤ nowNs then
      if total + refill.amountNs < 2 ^ 64 then
        let (result, rest) := takeFrom nowNs (total + refill.amountNs) rest
        (result, none :: rest)
      else (.error .arithmetic, none :: rest)
    else
      let (result, rest) := takeFrom nowNs total rest
      (result, some refill :: rest)

def takeEligible (nowNs : Nat) : Exec RefillRing RefillError Nat := takeFrom nowNs 0

end RefillRing

open RefillRing

inductive CbsRuntimeError
  | budgetExhausted | arithmetic | refill (error : RefillError)
  deriving DecidableEq

structure CbsRuntime where
  reservation : CbsReservation
  remainingNs : Nat
  absoluteDeadlineNs : Nat
  refills : RefillRing

abbrev CbsM := Exec CbsRuntime CbsRuntimeError

namespace CbsRuntime

def new (refills : Nat) (reservation : CbsReservation) (nowNs : Nat) :
    Except CbsRuntimeError CbsRuntime :=
  if refills = 0 then .error (.refill .invalidConfiguration)
  else if nowNs + reservation.deadlineNs < 2 ^ 64 then
    .ok ⟨reservation, reservation.capacityNs, nowNs + reservation.deadlineNs, Slots.empty refills⟩
  else .error .arithmetic

def onRefills {α : Type} (x : Exec RefillRing RefillError α) : CbsM α := fun c =>
  match x c.refills with
  | (.ok a, refills) => (.ok a, { c with refills })
  | (.error e, refills) => (.error (.refill e), { c with refills })

/-- Charge runtime, to be refilled one period later. The budget is reduced first. -/
def charge (nowNs runtimeNs : Nat) : CbsM Unit := do
  if (← gets (·.remainingNs)) < runtimeNs then stop .budgetExhausted
  else if runtimeNs = 0 then pure ()
  else
    modify fun c => { c with remainingNs := c.remainingNs - runtimeNs }
    let periodNs ← gets (·.reservation.periodNs)
    let eligibleNs ← below (2 ^ 64) (nowNs + periodNs) .arithmetic
    onRefills (schedule ⟨eligibleNs, runtimeNs⟩)

/-- A server with budget whose deadline has come gets a later one, by whole periods. -/
def renewDeadline (nowNs : Nat) : CbsM Unit := do
  let c ← gets fun c => c
  if c.absoluteDeadlineNs ≤ nowNs ∧ c.remainingNs ≠ 0 then
    let periodNs := c.reservation.periodNs
    let periods := (nowNs - c.absoluteDeadlineNs) / periodNs + 1
    let span ← below (2 ^ 64) (periods * periodNs) .arithmetic
    let deadline ← below (2 ^ 64) (c.absoluteDeadlineNs + span) .arithmetic
    modify fun c => { c with absoluteDeadlineNs := deadline }

def replenish (nowNs : Nat) : CbsM Nat := do
  let available ← onRefills (takeEligible nowNs)
  let previous ← gets (·.remainingNs)
  let budget ← below (2 ^ 64) (previous + available) .arithmetic
  modify fun c => { c with remainingNs := min budget c.reservation.capacityNs }
  renewDeadline nowNs
  gets fun c => c.remainingNs - previous

end CbsRuntime

open CbsRuntime

inductive CbsCall
  | charge (nowNs runtimeNs : Nat)
  | replenish (nowNs : Nat)
  deriving DecidableEq

namespace CbsCall

def time : CbsCall → Nat
  | charge nowNs _ => nowNs
  | replenish nowNs => nowNs

def after : CbsCall → CbsRuntime → CbsRuntime
  | charge nowNs runtimeNs, c => (CbsRuntime.charge nowNs runtimeNs c).2
  | replenish nowNs, c => (CbsRuntime.replenish nowNs c).2

def charged : CbsCall → CbsRuntime → Nat
  | charge _ runtimeNs, c => if c.remainingNs < runtimeNs then 0 else runtimeNs
  | replenish _, _ => 0

def ledger : List CbsCall → CbsRuntime → List (Nat × Nat)
  | [], _ => []
  | call :: rest, c => (call.time, call.charged c) :: ledger rest (call.after c)

end CbsCall

open CbsCall

def chargedWithin (ledger : List (Nat × Nat)) (startNs lengthNs : Nat) : Nat :=
  ((ledger.filter fun entry => startNs ≤ entry.1 ∧ entry.1 < startNs + lengthNs).map (·.2)).sum

namespace RefillRing

def worth (value : Refill → Nat) (ring : RefillRing) : Nat := ((live ring).map value).sum

def dueBefore (boundNs : Nat) : RefillRing → Nat :=
  worth fun refill => if refill.eligibleNs < boundNs then refill.amountNs else 0

def scheduled : RefillRing → Nat := worth (·.amountNs)

variable {nowNs : Nat} {ring after : RefillRing} {refill latest : Refill} {value : Refill → Nat}

theorem worth_of_perm {gone : List Refill}
    (eq : (live ring).Perm (gone ++ live after)) :
    worth value ring = (gone.map value).sum + worth value after := by
  rw [worth, (eq.map value).sum_eq, map_append, sum_append, worth]

theorem latestIndex_lt (some_slot : ring ≠ []) : ∃ idx, latestIndex ring = some idx ∧ idx < ring.length := by
  obtain ⟨entry, rest, rfl⟩ := exists_cons_of_ne_nil some_slot
  rw [latestIndex, zipIdx_cons, foldl_cons]
  refine foldlRecOn (motive := fun best : Option (Nat × Nat) =>
    ∃ idx, best.map (·.2) = some idx ∧ idx < rest.length + 1) _ _ ?_ ?_
  · exact ⟨0, rfl, Nat.succ_pos _⟩
  rintro _ ⟨idx, chosen, inside⟩ slot mem
  obtain ⟨⟨latest, _⟩, rfl, rfl⟩ := Option.map_eq_some_iff.mp chosen
  dsimp only
  split
  · exact ⟨slot.2, rfl, by have := snd_lt_of_mem_zipIdx mem; omega⟩
  · exact ⟨_, rfl, inside⟩

def Gains (refill : Refill) (ring after : RefillRing) : Prop :=
  (live after).Perm (refill :: live ring) ∨ ∃ latest others,
    (live ring).Perm (latest :: others) ∧ (live after).Perm
      (⟨max latest.eligibleNs refill.eligibleNs, latest.amountNs + refill.amountNs⟩ :: others)

theorem Gains.worth_add (gains : Gains refill ring after) (value : Refill → Nat) :
    worth value after = worth value ring + value refill ∨ ∃ latest : Refill,
      worth value after + value latest = worth value ring +
        value ⟨max latest.eligibleNs refill.eligibleNs, latest.amountNs + refill.amountNs⟩ := by
  unfold worth
  rcases gains with added | ⟨latest, others, before, changed⟩
  · rw [(added.map value).sum_eq, map_cons, sum_cons, Nat.add_comm]
    exact .inl rfl
  rw [(before.map value).sum_eq, (changed.map value).sum_eq, map_cons, map_cons, sum_cons, sum_cons]
  exact .inr ⟨latest, by omega⟩

/-- Scheduling keeps the table when it is refused, which takes a table without slots, an empty
refill or a sum out of range. -/
theorem schedule_cases (refill : Refill) (ring : RefillRing) :
    (schedule refill ring).2.length = ring.length ∧ (Gains refill ring (schedule refill ring).2 ∨
      (schedule refill ring).2 = ring ∧ (ring = [] ∨ refill.amountNs = 0 ∨
        ∃ latest ∈ live ring, 2 ^ 64 ≤ latest.amountNs + refill.amountNs)) := by
  unfold schedule
  rw [gets_bind]
  by_cases bare : ring = []
  · rw [if_pos (by rw [bare]; rfl)]
    exact ⟨rfl, .inr ⟨rfl, .inl bare⟩⟩
  rw [if_neg (by simpa using bare)]
  by_cases nothing : refill.amountNs = 0
  · rw [if_pos nothing]
    exact ⟨rfl, .inr ⟨rfl, .inr (.inl nothing)⟩⟩
  rw [if_neg nothing]
  cases stored : put refill ring with
  | some filled => exact ⟨Slots.length_put stored, .inl (.inl (Slots.live_put stored))⟩
  | none =>
    obtain ⟨idx, position, inside⟩ := latestIndex_lt bare
    -- the table is full, so the slot that comes last holds a refill
    obtain ⟨latest, found⟩ : ∃ latest, ring[idx] = some latest := by
      refine Option.ne_none_iff_exists'.mp fun vacant => Slots.put_eq_none.mp stored ?_
      exact vacant ▸ getElem_mem inside
    simp only [position, getElem?_eq_getElem inside, found, Option.join_some]
    by_cases fits : latest.amountNs + refill.amountNs < 2 ^ 64
    · rw [below_bind_of_lt _ fits]
      obtain ⟨others, before, changed⟩ := Slots.live_set inside found
      exact ⟨length_set, .inl (.inr ⟨latest, others, before, changed _⟩)⟩
    rw [below_bind_of_le _ (not_lt.mp fits)]
    exact ⟨rfl, .inr ⟨rfl, .inr (.inr ⟨latest, Slots.mem_live.mpr (found ▸ getElem_mem inside),
      not_lt.mp fits⟩)⟩⟩

theorem schedule_due (boundNs : Nat) (refill : Refill) (ring : RefillRing) :
    dueBefore boundNs (schedule refill ring).2 ≤
      dueBefore boundNs ring + if refill.eligibleNs < boundNs then refill.amountNs else 0 := by
  rcases (schedule_cases refill ring).2 with gains | ⟨eq, -⟩
  · rcases gains.worth_add _ with added | ⟨latest, merged⟩
    · exact added.le
    unfold dueBefore
    dsimp only at merged
    split_ifs at merged ⊢ <;> omega
  rw [eq]
  exact Nat.le_add_right _ _

theorem takeFrom_cases {total : Nat} (small : total < 2 ^ 64) (ring : RefillRing) :
    (takeFrom nowNs total ring).2.length = ring.length ∧
    ∃ gone, (live ring).Perm (gone ++ live (takeFrom nowNs total ring).2) ∧
      (∀ refill ∈ gone, refill.eligibleNs ≤ nowNs) ∧ (takeFrom nowNs total ring).1 =
        if total + (gone.map (·.amountNs)).sum < 2 ^ 64 then
          .ok (total + (gone.map (·.amountNs)).sum)
        else .error .arithmetic := by
  induction ring generalizing total with
  | nil => exact ⟨rfl, [], .refl _, nofun, (if_pos small).symm⟩
  | cons entry rest ih =>
    cases entry with
    | none =>
      obtain ⟨len, gone, perm, due, res⟩ := ih small
      exact ⟨congrArg (· + 1) len, gone, perm, due, res⟩
    | some refill =>
      rw [takeFrom]
      by_cases early : refill.eligibleNs ≤ nowNs
      · rw [if_pos early]
        by_cases fits : total + refill.amountNs < 2 ^ 64
        · obtain ⟨len, gone, perm, due, res⟩ := ih fits
          rw [if_pos fits]
          refine ⟨congrArg (· + 1) len, refill :: gone, perm.cons refill, forall_mem_cons.mpr ⟨early, due⟩, ?_⟩
          rw [map_cons, sum_cons, ← Nat.add_assoc]
          exact res
        rw [if_neg fits]
        refine ⟨rfl, [refill], .refl _, forall_mem_singleton.mpr early, ?_⟩
        exact (if_neg (by simpa using fits)).symm
      obtain ⟨len, gone, perm, due, res⟩ := ih small
      rw [if_neg early]
      exact ⟨congrArg (· + 1) len, gone, (perm.cons refill).trans perm_middle.symm, due, res⟩

end RefillRing

namespace CbsRuntime

/-- The budget that can be used before a time: what is there, and what comes back by then. -/
def budgetBefore (boundNs : Nat) (c : CbsRuntime) : Nat :=
  c.remainingNs + dueBefore boundNs c.refills

variable {c c' : CbsRuntime} {boundNs nowNs : Nat}

section Refills
variable {α : Type} {x : Exec RefillRing RefillError α} {ring : RefillRing}

theorem onRefills_ok {a : α} (h : x c.refills = (.ok a, ring)) :
    onRefills x c = (.ok a, { c with refills := ring }) := by
  rw [onRefills, h]

theorem onRefills_error {e : RefillError} (h : x c.refills = (.error e, ring)) :
    onRefills x c = (.error (.refill e), { c with refills := ring }) := by
  rw [onRefills, h]

theorem onRefills_state : (onRefills x c).2 = { c with refills := (x c.refills).2 } := by
  unfold onRefills
  rcases x c.refills with ⟨_ | a, refills⟩ <;> rfl

end Refills

theorem charge_state (nowNs runtimeNs : Nat) (c : CbsRuntime) :
    (charge nowNs runtimeNs c).2 = if c.remainingNs < runtimeNs ∨ runtimeNs = 0 then c else
      { c with
        remainingNs := c.remainingNs - runtimeNs
        refills := if nowNs + c.reservation.periodNs < 2 ^ 64 then
          (schedule ⟨nowNs + c.reservation.periodNs, runtimeNs⟩ c.refills).2
          else c.refills } := by
  unfold charge
  rw [gets_bind]
  by_cases exhausted : c.remainingNs < runtimeNs
  · rw [if_pos exhausted, if_pos (.inl exhausted)]
    rfl
  by_cases nothing : runtimeNs = 0
  · rw [if_neg exhausted, if_pos nothing, if_pos (.inr nothing)]
    rfl
  rw [if_neg exhausted, if_neg nothing, if_neg (by omega), modify_bind, gets_bind]
  by_cases fits : nowNs + c.reservation.periodNs < 2 ^ 64
  · rw [below_bind_of_lt _ fits, onRefills_state, if_pos fits]
  · rw [below_bind_of_le _ (not_lt.mp fits), if_neg fits]

theorem charge_budget (runtimeNs : Nat) (c : CbsRuntime) :
    (charge nowNs runtimeNs c).2.reservation = c.reservation ∧
      (charge nowNs runtimeNs c).2.budgetBefore boundNs +
        (if boundNs ≤ nowNs + c.reservation.periodNs then
          if c.remainingNs < runtimeNs then 0 else runtimeNs else 0) ≤ c.budgetBefore boundNs := by
  rw [charge_state]
  by_cases none_taken : c.remainingNs < runtimeNs ∨ runtimeNs = 0
  · rw [if_pos none_taken]
    refine ⟨rfl, ?_⟩
    split_ifs <;> omega
  rw [if_neg none_taken]
  refine ⟨rfl, ?_⟩
  have due := schedule_due boundNs ⟨nowNs + c.reservation.periodNs, runtimeNs⟩ c.refills
  unfold budgetBefore
  dsimp only at due ⊢
  split_ifs at due ⊢ <;> omega

def sameBudget : Exec.Frame CbsRuntime where
  rel c c' := c'.reservation = c.reservation ∧ c'.remainingNs = c.remainingNs ∧
    c'.refills = c.refills
  refl _ := ⟨rfl, rfl, rfl⟩
  trans first second := ⟨second.1.trans first.1, second.2.1.trans first.2.1,
    second.2.2.trans first.2.2⟩

theorem renewDeadline_respects (nowNs : Nat) : (renewDeadline nowNs).Respects sameBudget := by
  refine respects_bind (respects_gets _) fun c => respects_ite ?_ ?_
  · refine respects_bind (respects_below _ _ _) fun span => ?_
    refine respects_bind (respects_below _ _ _) fun deadline => ?_
    exact respects_modify fun _ => ⟨rfl, rfl, rfl⟩
  · exact respects_pure ()

/-- What a replenishment takes out of the table goes into the budget, up to the capacity, unless
a sum is out of range. -/
theorem replenish_state (nowNs : Nat) (c : CbsRuntime) :
    (replenish nowNs c).2.reservation = c.reservation ∧
      (replenish nowNs c).2.refills.length = c.refills.length ∧
      ∃ gone, (live c.refills).Perm (gone ++ live (replenish nowNs c).2.refills) ∧
        (∀ refill ∈ gone, refill.eligibleNs ≤ nowNs) ∧ (replenish nowNs c).2.remainingNs =
          if c.remainingNs + (gone.map (·.amountNs)).sum < 2 ^ 64 then
            min (c.remainingNs + (gone.map (·.amountNs)).sum) c.reservation.capacityNs
          else c.remainingNs := by
  obtain ⟨length, gone, perm, due, res⟩ := @RefillRing.takeFrom_cases nowNs 0 (Nat.two_pow_pos 64) c.refills
  rw [Nat.zero_add] at res
  rcases taken : takeFrom nowNs 0 c.refills with ⟨answer, ring⟩
  rw [taken] at length perm res
  unfold replenish takeEligible
  by_cases sum : (gone.map (·.amountNs)).sum < 2 ^ 64
  · rw [if_pos sum] at res
    subst res
    rw [bind_of_ok (onRefills_ok taken), gets_bind]
    by_cases fits : c.remainingNs + (gone.map (·.amountNs)).sum < 2 ^ 64
    · rw [below_bind_of_lt _ fits, modify_bind]
      have rest : Exec.Respects (do
          renewDeadline nowNs
          gets fun d : CbsRuntime => d.remainingNs - c.remainingNs) sameBudget :=
        respects_bind (renewDeadline_respects nowNs) fun _ => respects_gets _
      obtain ⟨reservation, remaining, refills⟩ := rest ⟨c.reservation,
        min (c.remainingNs + (gone.map (·.amountNs)).sum) c.reservation.capacityNs,
        c.absoluteDeadlineNs, ring⟩
      rw [refills]
      exact ⟨reservation, length, gone, perm, due, by rw [if_pos fits]; exact remaining⟩
    rw [below_bind_of_le _ (not_lt.mp fits)]
    exact ⟨rfl, length, gone, perm, due, (if_neg fits).symm⟩
  rw [if_neg sum] at res
  subst res
  rw [bind_of_error (onRefills_error taken)]
  exact ⟨rfl, length, gone, perm, due, (if_neg (by omega)).symm⟩

theorem replenish_budget (early : nowNs < boundNs) (c : CbsRuntime) :
    (replenish nowNs c).2.reservation = c.reservation ∧
      (replenish nowNs c).2.budgetBefore boundNs ≤ c.budgetBefore boundNs := by
  obtain ⟨eq, -, gone, perm, due, remaining⟩ := replenish_state nowNs c
  refine ⟨eq, ?_⟩
  have counted : (gone.map fun refill => if refill.eligibleNs < boundNs then refill.amountNs else 0) =
      gone.map (·.amountNs) :=
    map_congr_left fun refill mem => if_pos ((due refill mem).trans_lt early)
  rw [budgetBefore, budgetBefore, remaining, dueBefore, worth_of_perm perm, counted]
  split_ifs <;> omega

end CbsRuntime

namespace CbsCall
variable {boundNs startNs : Nat}

theorem after_budget (call : CbsCall) (c : CbsRuntime)
    (early : call.time < startNs + c.reservation.periodNs) :
    (call.after c).reservation = c.reservation ∧
      (call.after c).budgetBefore (startNs + c.reservation.periodNs) +
        (if startNs ≤ call.time then call.charged c else 0) ≤
      c.budgetBefore (startNs + c.reservation.periodNs) := by
  cases call with
  | charge nowNs runtimeNs =>
    obtain ⟨eq, less⟩ := @CbsRuntime.charge_budget (startNs + c.reservation.periodNs) nowNs runtimeNs c
    refine ⟨eq, ?_⟩
    by_cases inside : startNs ≤ (charge nowNs runtimeNs).time
    · rw [if_pos (Nat.add_le_add_right (show startNs ≤ nowNs from inside) _)] at less
      rw [if_pos inside]
      exact less
    have pre : ¬startNs ≤ nowNs := inside
    rw [if_neg (by omega)] at less
    rw [if_neg inside]
    exact less
  | replenish nowNs =>
    obtain ⟨eq, less⟩ := CbsRuntime.replenish_budget early c
    refine ⟨eq, ?_⟩
    dsimp only [charged]
    rw [ite_self]
    exact less

theorem chargedWithin_cons (entry : Nat × Nat) (entries : List (Nat × Nat)) (lengthNs : Nat) :
    chargedWithin (entry :: entries) startNs lengthNs =
      (if startNs ≤ entry.1 ∧ entry.1 < startNs + lengthNs then entry.2 else 0) +
        chargedWithin entries startNs lengthNs := by
  unfold chargedWithin
  by_cases inside : startNs ≤ entry.1 ∧ entry.1 < startNs + lengthNs
  · rw [filter_cons_of_pos (by simpa using inside), if_pos inside, map_cons, sum_cons]
  · rw [filter_cons_of_neg (by simpa using inside), if_neg inside, Nat.zero_add]

theorem chargedWithin_of_late {lengthNs : Nat} {entries : List (Nat × Nat)}
    (late : ∀ entry ∈ entries, startNs + lengthNs ≤ entry.1) :
    chargedWithin entries startNs lengthNs = 0 := by
  unfold chargedWithin
  rw [filter_eq_nil_iff.mpr fun entry mem => ?_]
  · rfl
  have := late entry mem
  simp
  omega

theorem ledger_times {calls : List CbsCall} {c : CbsRuntime} {entry : Nat × Nat}
    (mem : entry ∈ ledger calls c) : ∃ call ∈ calls, call.time = entry.1 := by
  induction calls generalizing c with
  | nil => cases mem
  | cons call rest ih =>
    rcases mem_cons.mp mem with rfl | later
    · exact ⟨call, mem_cons_self, rfl⟩
    obtain ⟨other, among, eq⟩ := ih later
    exact ⟨other, mem_cons_of_mem _ among, eq⟩

/-- What is charged in a window of one period was in the budget of the window. -/
theorem ledger_within {calls : List CbsCall} (ordered : (calls.map time).Pairwise (· ≤ ·))
    (c : CbsRuntime) (startNs : Nat) :
    chargedWithin (ledger calls c) startNs c.reservation.periodNs ≤
      c.budgetBefore (startNs + c.reservation.periodNs) := by
  induction calls generalizing c with
  | nil => exact Nat.zero_le _
  | cons call rest ih =>
    obtain ⟨first, tail⟩ := pairwise_cons.mp ordered
    by_cases early : call.time < startNs + c.reservation.periodNs
    · obtain ⟨eq, less⟩ := after_budget call c early
      have later := ih tail (call.after c)
      rw [eq] at later
      rw [ledger, chargedWithin_cons]
      simp only [early, and_true]
      omega
    rw [chargedWithin_of_late fun entry mem => ?_]
    · exact Nat.zero_le _
    obtain ⟨other, among, eq⟩ := ledger_times mem
    rcases mem_cons.mp among with rfl | after
    · omega
    have := first other.time (mem_map_of_mem after)
    omega

end CbsCall

/-- Whatever the calls, at times that do not decrease, what is charged in any window as long as
the period stays within the capacity of the reservation. -/
theorem cbs_window {refills : Nat} {reservation : CbsReservation} {bootNs : Nat} {c : CbsRuntime}
    (created : new refills reservation bootNs = .ok c) {calls : List CbsCall}
    (ordered : (calls.map time).Pairwise (· ≤ ·)) (startNs : Nat) :
    chargedWithin (ledger calls c) startNs reservation.periodNs ≤ reservation.capacityNs := by
  unfold new at created
  split at created
  · cases created
  split at created
  · cases created
    have bound := ledger_within ordered
      ⟨reservation, reservation.capacityNs, bootNs + reservation.deadlineNs, Slots.empty refills⟩ startNs
    simpa [budgetBefore, dueBefore, worth] using bound
  · cases created

/-- A ring of one slot, so that the second charge merges its refill into the first. -/
theorem cbs_window_merged :
    let reservation : CbsReservation := ⟨40, 80, 100, by decide, by decide, by decide, by decide⟩
    let calls : List CbsCall := [.charge 5 30, .charge 50 10, .replenish 105, .charge 105 1,
      .replenish 150, .charge 150 40]
    ∃ c, new 1 reservation 0 = .ok c ∧
      chargedWithin (ledger calls c) 51 100 = 40 ∧
      chargedWithin (ledger calls c) 51 100 ≤ 40 := by
  intro reservation calls
  exact ⟨_, rfl, by decide +kernel, @cbs_window 1 reservation 0 _ rfl calls (by decide) 51⟩

namespace CbsRuntime

def heldNs (c : CbsRuntime) : Nat := c.remainingNs + scheduled c.refills

structure Whole (reservation : CbsReservation) (c : CbsRuntime) : Prop where
  same : c.reservation = reservation
  slots : 0 < c.refills.length
  held : c.heldNs = reservation.capacityNs

end CbsRuntime

namespace CbsCall

/-- A charge that takes budget gets a refill time in range. -/
def Refillable (c : CbsRuntime) : CbsCall → Prop
  | charge nowNs runtimeNs => runtimeNs ≠ 0 → runtimeNs ≤ c.remainingNs →
      nowNs + c.reservation.periodNs < 2 ^ 64
  | replenish _ => True

/-- After every call, the budget and the refills make up the capacity. -/
def Conserves (capacityNs : Nat) : List CbsCall → CbsRuntime → Prop
  | [], _ => True
  | call :: rest, c => (call.after c).heldNs = capacityNs ∧ Conserves capacityNs rest (call.after c)

def AllRefillable : List CbsCall → CbsRuntime → Prop
  | [], _ => True
  | call :: rest, c => call.Refillable c ∧ AllRefillable rest (call.after c)

variable {reservation : CbsReservation} {c : CbsRuntime} {call : CbsCall}

theorem after_whole (whole : c.Whole reservation) (fits : call.Refillable c) :
    (call.after c).Whole reservation := by
  have held := whole.held
  have lt : reservation.capacityNs < 2 ^ 64 :=
    (reservation.capacity_le.trans reservation.deadline_le).trans_lt reservation.period_lt
  unfold CbsRuntime.heldNs scheduled at held
  cases call with
  | charge nowNs runtimeNs =>
    rw [after, charge_state]
    by_cases none_taken : c.remainingNs < runtimeNs ∨ runtimeNs = 0
    · rw [if_pos none_taken]
      exact whole
    rw [if_neg none_taken, if_pos (fits (by omega) (by omega))]
    have res := schedule_cases ⟨nowNs + c.reservation.periodNs, runtimeNs⟩ c.refills
    generalize (schedule _ c.refills).2 = ring at res ⊢
    obtain ⟨length, gains | ⟨-, refused⟩⟩ := res
    · refine ⟨whole.same, length ▸ whole.slots, ?_⟩
      unfold CbsRuntime.heldNs scheduled
      rcases gains.worth_add (·.amountNs) with added | ⟨latest, merged⟩
      · dsimp only at added ⊢
        omega
      · dsimp only at merged ⊢
        omega
    -- a refill is no larger than the capacity, so none is refused
    exfalso
    rcases refused with bare | nothing | ⟨latest, mem, large⟩
    · exact absurd whole.slots (by simp [bare])
    · exact none_taken (.inr nothing)
    have among : latest.amountNs ≤ worth (·.amountNs) c.refills := le_sum_of_mem (mem_map_of_mem mem)
    dsimp only at large
    omega
  | replenish nowNs =>
    obtain ⟨eq, length, gone, perm, -, remaining⟩ := CbsRuntime.replenish_state nowNs c
    have split : worth (·.amountNs) c.refills = _ := worth_of_perm perm
    refine ⟨eq.trans whole.same, length.symm ▸ whole.slots, ?_⟩
    rw [after, CbsRuntime.heldNs, remaining, if_pos (by omega), whole.same, scheduled]
    omega

theorem after_lost (whole : c.Whole reservation) (misses : ¬call.Refillable c) :
    (call.after c).heldNs < reservation.capacityNs := by
  cases call with
  | replenish => exact absurd trivial misses
  | charge nowNs runtimeNs =>
    simp only [Refillable, Classical.not_imp] at misses
    obtain ⟨some_time, enough, late⟩ := misses
    rw [after, charge_state, if_neg (by omega), if_neg late, ← whole.held]
    dsimp only [CbsRuntime.heldNs]
    omega

end CbsCall

/-- The capacity is kept by every call exactly when every charge that takes budget is made at a
time that leaves room for its refill. -/
theorem cbs_conserves_iff {refills bootNs : Nat} {reservation : CbsReservation} {c : CbsRuntime}
    (created : new refills reservation bootNs = .ok c) (calls : List CbsCall) :
    CbsCall.Conserves reservation.capacityNs calls c ↔ CbsCall.AllRefillable calls c := by
  have start : c.Whole reservation := by
    unfold new at created
    split at created
    · cases created
    rename_i some_slot
    split at created <;> cases created
    refine ⟨rfl, ?_, ?_⟩
    · rw [Slots.empty, length_replicate]
      omega
    · simp [CbsRuntime.heldNs, scheduled, worth]
  clear created
  induction calls generalizing c with
  | nil => exact Iff.rfl
  | cons call rest ih =>
    by_cases fits : call.Refillable c
    · have whole := after_whole start fits
      exact and_congr (iff_of_true whole.held fits) (ih whole)
    have lost := after_lost start fits
    exact iff_of_false (fun kept => absurd kept.1 (ne_of_lt lost)) fun all => fits all.1

def smallReservation : CbsReservation := ⟨40, 80, 100, by decide, by decide, by decide, by decide⟩

theorem cbs_conserves_smallReservation :
    ∃ c, new 1 smallReservation 0 = .ok c ∧
      (CbsCall.Conserves 40 [.charge 5 30, .charge 50 10, .replenish 105] c ↔
        CbsCall.AllRefillable [.charge 5 30, .charge 50 10, .replenish 105] c) :=
  ⟨_, rfl, @cbs_conserves_iff 1 0 smallReservation _ rfl _⟩

/-- A charge at the end of time fails and takes its runtime for good. -/
theorem late_charge_loses_budget :
    ∃ c, new 1 smallReservation 0 = .ok c ∧
      (CbsRuntime.charge (2 ^ 64 - 1) 10 c).1 = .error .arithmetic ∧
      (CbsRuntime.charge (2 ^ 64 - 1) 10 c).2.heldNs = 30 ∧ smallReservation.capacityNs = 40 :=
  ⟨_, rfl, by decide, by decide, rfl⟩

end HuesOS.Sched
