import HuesOS.Lib.Lists
import HuesOS.Sched.DirectoryMachine
import Mathlib

namespace HuesOS.Sched
open List ClientChoice
variable {slot : Nat} {id : SlotId slot} {w w' b : Nat}

def Held (w : Nat) (id : SlotId slot) (b : Nat) : Prop :=
  generationOf w = id.1.generation ∧ w.testBit b = true ∧ b < taskIndexBits

variable {operations : Nat} {log later : List (DirectoryEvent slot)}

theorem validOperations_bit (valid : validOperations operations = true)
    (flag : operations.testBit b = true) : b < taskIndexBits := by
  have masked : operations &&& allOperations = operations := of_decide_eq_true valid
  have both : (operations &&& allOperations).testBit b = true := by rw [masked]; exact flag
  rw [Nat.testBit_and, flag, Bool.true_and] at both
  by_contra high
  have lt : allOperations < 2 ^ b :=
    lt_of_lt_of_le (by decide : allOperations < 2 ^ taskIndexBits) (Nat.pow_le_pow_right (by decide) (by omega))
  rw [Nat.testBit_lt_two_pow lt] at both
  cases both

theorem generationOf_or (valid : validOperations operations = true) :
    generationOf (w ||| operations) = generationOf w := by
  have none_above : operations >>> taskIndexBits = 0 := by
    apply Nat.eq_of_testBit_eq
    intro i
    rw [Nat.testBit_shiftRight, Nat.zero_testBit]
    by_contra set_
    have := validOperations_bit valid (b := taskIndexBits + i) (by simpa using set_)
    omega
  rw [generationOf, generationOf, ← Nat.shiftRight_eq_div_pow, Nat.shiftRight_or_distrib,
    none_above, Nat.or_zero, Nat.shiftRight_eq_div_pow]

theorem flagsOf_testBit (low : b < taskIndexBits) : (flagsOf w).testBit b = w.testBit b := by
  rw [flagsOf, Nat.testBit_mod_two_pow, decide_eq_true low, Bool.true_and]

theorem flagsOf_bit_low (flag : (flagsOf w).testBit b = true) : b < taskIndexBits := by
  rw [flagsOf, Nat.testBit_mod_two_pow, Bool.and_eq_true] at flag
  exact of_decide_eq_true flag.1

theorem tagged_testBit (gen : Nat) (low : b < taskIndexBits) : (tagged gen).testBit b = false := by
  have := flagsOf_testBit (w := tagged gen) low
  rw [flagsOf_tagged, Nat.zero_testBit] at this
  exact this.symm

theorem operationUpdate_post (update : operationUpdate w id operations false = some w') :
    generationOf w = id.1.generation ∧ w' = w ||| operations := by
  unfold operationUpdate at update
  split at update
  · cases update
  next eq =>
  cases update
  exact ⟨not_not.mp eq, rfl⟩

theorem operationUpdate_take (update : operationUpdate w id 0 true = some w') :
    generationOf w = id.1.generation ∧ w' = tagged (generationOf w) := by
  unfold operationUpdate at update
  split at update
  · cases update
  next eq =>
  cases update
  exact ⟨not_not.mp eq, rfl⟩

theorem unpublishUpdate_some {discardPending : Bool}
    (update : unpublishUpdate w id discardPending = some w') :
    generationOf w = id.1.generation ∧ w' = 0 ∧ (discardPending = true ∨ flagsOf w = 0) := by
  unfold unpublishUpdate at update
  split at update
  · cases update
  next passed =>
  cases update
  simp only [not_or, not_not, not_and, Bool.not_eq_true', ne_eq] at passed
  refine ⟨passed.1, rfl, ?_⟩
  cases discardPending with
  | true => exact .inl rfl
  | false => exact .inr (passed.2 rfl)

/-- The event ends the time in which a flag posted for the identity is pending. Clearing the
location is not such an event. -/
def DirectoryEvent.Removes (id : SlotId slot) (b : Nat) : DirectoryEvent slot → Prop
  | .taken id' flags => id' = id ∧ flags.testBit b = true
  | .retired id' => id' = id
  | .adopted id' => id' ≠ id
  | _ => False

inductive Tracked : List (DirectoryEvent slot) → Nat → Prop
  | start : Tracked [] 0
  | published {log : List (DirectoryEvent slot)} {w : Nat} {p : Placement slot}
      (before : Tracked log w) : Tracked (.published p :: log) w
  | located {log : List (DirectoryEvent slot)} {w : Nat} {id : SlotId slot}
      {location : TaskLocation} (before : Tracked log w) : Tracked (.located id location :: log) w
  | adopted {log : List (DirectoryEvent slot)} {w : Nat} {id : SlotId slot}
      (before : Tracked log w) : Tracked (.adopted id :: log) (adoptUpdate w id)
  | dropped {log : List (DirectoryEvent slot)} {w w' : Nat} {id : SlotId slot} {discard : Bool}
      (before : Tracked log w) (update : unpublishUpdate w id discard = some w') :
      Tracked (dropEvent id discard :: log) w'
  | posted {log : List (DirectoryEvent slot)} {w w' : Nat} {id : SlotId slot}
      {operations : Operations} (before : Tracked log w)
      (update : operationUpdate w id operations false = some w') :
      Tracked (.posted id operations :: log) w'
  | taken {log : List (DirectoryEvent slot)} {w w' : Nat} {id : SlotId slot}
      (before : Tracked log w) (update : operationUpdate w id 0 true = some w') :
      Tracked (.taken id (flagsOf w) :: log) w'

section Held
variable {other : SlotId slot}

namespace Held
variable (held : Held w id b)
include held

theorem same (current : generationOf w = other.1.generation) :
    other = id := SlotId.eq_of_generation (current.symm.trans held.1)

theorem adopted (kept : ¬other ≠ id) : Held (adoptUpdate w other) id b := by
  have here : other = id := not_not.mp kept
  subst here
  have unchanged : adoptUpdate w other = w := by rw [adoptUpdate, held.1, if_pos rfl]
  rwa [unchanged]

theorem posted {operations : Operations}
    (update : operationUpdate w other operations false = some w') : Held w' id b := by
  obtain ⟨-, rfl⟩ := operationUpdate_post update
  refine ⟨(generationOf_or operations.2).trans held.1, ?_, held.2.2⟩
  rw [Nat.testBit_or, held.2.1, Bool.true_or]

theorem dropped {discard : Bool}
    (update : unpublishUpdate w other discard = some w') :
    (dropEvent other discard).Removes id b := by
  obtain ⟨current, -, discarded | empty⟩ := unpublishUpdate_some update
  · rw [dropEvent, discarded, if_pos rfl]
    exact held.same current
  have bit := flagsOf_testBit (w := w) held.2.2
  rw [empty, Nat.zero_testBit, held.2.1] at bit
  cases bit

theorem taken (update : operationUpdate w other 0 true = some w') :
    DirectoryEvent.Removes id b (.taken other (flagsOf w)) :=
  ⟨held.same (operationUpdate_take update).1, (flagsOf_testBit held.2.2).trans held.2.1⟩

end Held
end Held

theorem held_of_posted {operations : Operations} (flag : operations.1.testBit b = true)
    (update : operationUpdate w id operations false = some w') : Held w' id b := by
  obtain ⟨current, rfl⟩ := operationUpdate_post update
  refine ⟨(generationOf_or operations.2).trans current, ?_, validOperations_bit operations.2 flag⟩
  rw [Nat.testBit_or, flag, Bool.or_true]

theorem Tracked.held {old : List (DirectoryEvent slot)} {operations : Operations}
    (tracked : Tracked log w) (split : log = later ++ .posted id operations :: old)
    (flag : operations.1.testBit b = true) (kept : ∀ e ∈ later, ¬e.Removes id b) :
    Held w id b := by
  induction tracked generalizing later with
  | start => cases later <;> cases split
  | published _ ih | located _ ih =>
    cases later with
    | nil => cases split
    | cons e rest =>
      cases split
      exact ih rfl fun x mem => kept x (.tail _ mem)
  | adopted _ ih =>
    cases later with
    | nil => cases split
    | cons e rest =>
      cases split
      exact (ih rfl fun x mem => kept x (.tail _ mem)).adopted (kept _ mem_cons_self)
  | dropped _ update ih =>
    cases later with
    | nil =>
      rw [nil_append, List.cons.injEq, dropEvent] at split
      split at split <;> cases split.1
    | cons e rest =>
      cases split
      exact absurd
        ((ih rfl fun x mem => kept x (.tail _ mem)).dropped update)
        (kept _ mem_cons_self)
  | posted _ update ih =>
    cases later with
    | nil =>
      cases split
      exact held_of_posted flag update
    | cons e rest =>
      cases split
      exact (ih rfl fun x mem => kept x (.tail _ mem)).posted update
  | taken _ update ih =>
    cases later with
    | nil => cases split
    | cons e rest =>
      cases split
      exact absurd
        ((ih rfl fun x mem => kept x (.tail _ mem)).taken update)
        (kept _ mem_cons_self)

/-- The flag was posted for the identity, and nothing has removed it since. -/
def PostedIn (log : List (DirectoryEvent slot)) (id : SlotId slot) (b : Nat) : Prop :=
  ∃ between before operations, log = between ++ .posted id operations :: before ∧
    operations.1.testBit b = true ∧ ∀ e ∈ between, ¬e.Removes id b

theorem PostedIn.afterwards {e : DirectoryEvent slot}
    (posted : PostedIn log id b) (kept : ¬e.Removes id b) : PostedIn (e :: log) id b := by
  obtain ⟨between, before, operations, rfl, flag, none_removed⟩ := posted
  exact ⟨e :: between, before, operations, rfl, flag, forall_mem_cons.mpr ⟨kept, none_removed⟩⟩

theorem Tracked.origin (tracked : Tracked log w)
    (flag : w.testBit b = true) (low : b < taskIndexBits) :
    ∃ id : SlotId slot, generationOf w = id.1.generation ∧ PostedIn log id b := by
  induction tracked with
  | start =>
    rw [Nat.zero_testBit] at flag
    cases flag
  | published _ ih | located _ ih =>
    obtain ⟨id, current, posted⟩ := ih flag
    exact ⟨id, current, posted.afterwards fun removed => removed⟩
  | @adopted log w id' _ ih =>
    unfold adoptUpdate at flag
    split at flag
    next same =>
      obtain ⟨id, current, posted⟩ := ih flag
      have here : id' = id := SlotId.eq_of_generation ((tagged_injective same).symm.trans current)
      exact ⟨id, by rw [generationOf_adoptUpdate, here], posted.afterwards fun other => other here⟩
    rw [tagged_testBit _ low] at flag
    cases flag
  | dropped _ update _ =>
    rw [(unpublishUpdate_some update).2.1, Nat.zero_testBit] at flag
    cases flag
  | @posted log w w' id' operations _ update ih =>
    obtain ⟨current, rfl⟩ := operationUpdate_post update
    rw [Nat.testBit_or, Bool.or_eq_true] at flag
    rw [generationOf_or operations.2]
    rcases flag with old | new
    · obtain ⟨id, same, posted⟩ := ih old
      exact ⟨id, same, posted.afterwards fun removed => removed⟩
    · exact ⟨id', current, [], log, operations, rfl, new, fun _ mem => absurd mem not_mem_nil⟩
  | taken _ update _ =>
    rw [(operationUpdate_take update).2, tagged_testBit _ low] at flag
    cases flag

theorem Tracked.suffix (tracked : Tracked (later ++ log) w) : ∃ v, Tracked log v := by
  induction later generalizing w with
  | nil => exact ⟨w, tracked⟩
  | cons e rest ih =>
    rw [cons_append] at tracked
    generalize rest ++ log = tail at tracked ih
    cases tracked with
    | published pre | located pre | adopted pre => exact ih pre
    | dropped pre _ | posted pre _ | taken pre _ => exact ih pre

theorem Tracked.taken_posted {old : List (DirectoryEvent slot)} {flags : Nat}
    (tracked : Tracked (later ++ .taken id flags :: old) w) (flag : flags.testBit b = true) :
    PostedIn old id b := by
  obtain ⟨v, here⟩ := tracked.suffix
  generalize event : DirectoryEvent.taken id flags = e at here
  cases here with
  | dropped pre update =>
    rw [dropEvent] at event
    split at event <;> cases event
  | taken pre update =>
    cases event
    have low := flagsOf_bit_low flag
    obtain ⟨id', current, posted⟩ := pre.origin ((flagsOf_testBit low).symm.trans flag) low
    have eq := (operationUpdate_take update).1
    rwa [SlotId.eq_of_generation (eq.symm.trans current)]
  | _ => cases event

variable {ι : Type} [DecidableEq ι]

/-- Along every run the pending word is the one that the events have left. -/
theorem pending_tracked {c : Config DirectoryShared (@DirectoryPoint slot ι) (DirectoryEvent slot)}
    (run : Runs (Program.Step (directoryProgram slot ι)) (fun _ _ => True) (directoryStart slot ι) c) :
    Tracked c.log c.shared.entry.pendingOperations := by
  refine Runs.invariant (P := fun c => Tracked c.log c.shared.entry.pendingOperations) .start ?_ run
  rintro ⟨i, k⟩ c c' pre - ⟨t, s, events, taken, rfl⟩
  cases i with
  | none =>
    have effect : OwnerEffect (c.threads none) c.shared s events := ownerStep_effect taken
    cases effect with
    | nothing | bumps | writes => exact pre
    | begins => exact pre.published
    | adopts => exact pre.adopted
    | drops update => exact pre.dropped update
  | some i =>
    obtain ⟨p, effect⟩ : ∃ p, ClientEffect c.shared p s events := ⟨_, clientStep_effect taken⟩
    cases effect with
    | nothing => exact pre
    | posts update => exact pre.posted update
    | takes update => exact pre.taken update
    | locates =>
      rw [locatedEvent]
      split
      · exact pre.located
      · exact pre

/-- Under every interleaving, a flag posted for an identity is still pending for it, or the first
event that ended this is a take of that identity that returned it, the retirement of that
identity or the publication of another; and a take returns only flags that were posted for its
own identity and that no such event has removed since. -/
theorem posted_flags_delivered
    {c : Config DirectoryShared (@DirectoryPoint slot ι) (DirectoryEvent slot)}
    (run : Runs (Program.Step (directoryProgram slot ι)) (fun _ _ => True) (directoryStart slot ι) c) :
    (∀ later earlier id operations b, c.log = later ++ .posted id operations :: earlier →
      operations.1.testBit b = true →
      (Held c.shared.entry.pendingOperations id b ∧ ∀ e ∈ later, ¬e.Removes id b) ∨
      ∃ after e between, later = after ++ e :: between ∧ e.Removes id b ∧ ∀ x ∈ between, ¬x.Removes id b) ∧
    ∀ later earlier id flags b, c.log = later ++ .taken id flags :: earlier →
      flags.testBit b = true → PostedIn earlier id b := by
  have tracked := pending_tracked run
  constructor
  · intro later earlier id operations b split flag
    rcases Lists.first_or_none (DirectoryEvent.Removes id b) later with kept | removed
    · exact .inl ⟨tracked.held split flag kept, kept⟩
    · exact .inr removed
  intro later earlier id flags b split flag
  rw [split] at tracked
  exact tracked.taken_posted flag

/-! A task is published, one client posts an operation and takes it. -/

def slotFivePlace : Placement 5 := ⟨slotFiveTask, ⟨0, zero_lt_maxCpus⟩, 1, validLocalIndex_one⟩

def wake : Operations := ⟨1, by decide⟩

def postAndTakeSchedule : List (Σ i : Option Unit, DirectoryChoice 5 i) :=
  ⟨none, OwnerChoice.publish slotFivePlace⟩ :: List.replicate 8 ⟨none, OwnerChoice.step false⟩ ++
  ⟨some (), post slotFiveTask wake⟩ :: List.replicate 3 ⟨some (), step false⟩ ++
  ⟨some (), take slotFiveTask⟩ :: List.replicate 3 ⟨some (), step false⟩

theorem posted_flags_delivered_wake :
    PostedIn [.posted slotFiveTask wake, .adopted slotFiveTask, .published slotFivePlace] slotFiveTask 0 := by
  have ran : ∃ c, (directoryProgram 5 Unit).run postAndTakeSchedule (directoryStart 5 Unit) = some c ∧
      c.log = [.taken slotFiveTask 1, .posted slotFiveTask wake, .adopted slotFiveTask, .published slotFivePlace] :=
    ⟨_, rfl, rfl⟩
  obtain ⟨c, run, log⟩ := ran
  exact (posted_flags_delivered (Program.run_runs run)).2 [] _ slotFiveTask 1 0 log rfl

end HuesOS.Sched
