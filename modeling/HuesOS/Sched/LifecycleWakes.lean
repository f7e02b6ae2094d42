import HuesOS.Sched.Lifecycle

namespace HuesOS.Sched
open Option TaskState
open LifecycleCall

def TaskState.hasOwner : TaskState → Bool
  | .embryo | .deferredReady | .reaped => false
  | _ => true

/-- Where a task is going to. A task that falls asleep has a place to wake up at once a wake is
pending. -/
def TaskState.hasTarget (pending : Bool) : TaskState → Bool
  | .deferredReady | .waking | .migrating => true
  | .blocking => pending
  | _ => false

/-- A wake stays pending only from the moment the task starts to fall asleep until it is up. -/
def TaskState.mayPend : TaskState → Bool
  | .blocking | .waking => true
  | _ => false

namespace TaskLifecycle

@[mk_iff] structure Fits (s : TaskLifecycle) : Prop where
  owner : s.owner.isSome = s.state.hasOwner
  target : s.target.isSome = s.state.hasTarget s.wakePending
  source : s.migrationSource.isSome = decide (s.state = .migrating)
  pending : s.wakePending = true → s.state.mayPend = true

theorem new_fits : new.Fits := ⟨rfl, rfl, rfl, fun h => by cases h⟩

variable {s t : TaskLifecycle} {call : LifecycleCall} {r : LifecycleReply}

theorem Fits.move (fits : s.Fits) (move : Moves s call r t) : t.Fits := by
  rw [fits_iff] at fits ⊢
  cases move
  -- what a migration keeps decides the state it ends in
  case beginMigration at_ _ =>
    rcases at_ with ⟨state, _⟩ | ⟨state, _⟩ <;> simp_all [hasOwner, hasTarget, mayPend]
  case commitMigration source _ _ _ =>
    cases source <;> simp_all [hasOwner, hasTarget, mayPend]
  case rollbackMigration source _ _ =>
    cases source <;> simp_all [hasOwner, hasTarget, mayPend]
  case beginDying at_ =>
    rcases at_ with state | state | state <;> simp_all [hasOwner, hasTarget, mayPend]
  all_goals simp_all [hasOwner, hasTarget, mayPend]

/-- What holds of a task after an accepted call and what a refused call leaves alone holds after
any call. -/
theorem after_call {P : TaskLifecycle → Prop} (call : LifecycleCall) (here : P s)
    (ok : ∀ {r t}, Moves s call r t → P t) : P (call.run s).2 := by
  rcases ran : call.run s with ⟨_ | r, t⟩
  · rw [run_refused ran]
    exact here
  · exact ok (run_moves ran)

theorem Fits.runAll (fits : s.Fits) (calls : List LifecycleCall) : (runAll calls s).Fits := by
  induction calls generalizing s with
  | nil => exact fits
  | cons call rest ih => exact ih (after_call call fits fits.move)

/-- The task sleeps, moves to another processor in its sleep, or is about to sleep. -/
def Asleep (s : TaskLifecycle) : Prop :=
  s.state = .blocked ∨ s.state = .migrating ∧ s.migrationSource = some .blocked ∨
    s.state = .blocking ∧ s.wakePending = false

/-- A wake has reached the task and is being carried out. -/
def Roused (s : TaskLifecycle) : Prop :=
  s.state = .waking ∨ s.state = .blocking ∧ s.wakePending = true

theorem asleep_move (awake : ¬s.Asleep) (move : Moves s call r t) (asleep : t.Asleep) :
    s.state = .running ∧ ∃ cpu epoch, call = .beginBlock cpu epoch := by
  unfold Asleep at awake asleep
  cases move
  case beginBlock at_ _ => exact ⟨at_, _, _, rfl⟩
  case beginMigration at_ _ => rcases at_ with ⟨state, rfl⟩ | ⟨state, rfl⟩ <;> simp_all
  case commitMigration source _ _ _ => cases source <;> simp_all
  case rollbackMigration source _ _ => cases source <;> simp_all
  all_goals simp_all

theorem asleep_runAll {later : List LifecycleCall} (awake : ¬s.Asleep)
    (asleep : (runAll later s).Asleep) :
    ∃ first cpu epoch second, later = first ++ .beginBlock cpu epoch :: second ∧
      (runAll first s).state = .running := by
  induction later generalizing s with
  | nil => exact absurd asleep awake
  | cons call rest ih =>
    by_cases next : (call.run s).2.Asleep
    · rcases ran : call.run s with ⟨_ | r, t⟩
      · rw [ran, run_refused ran] at next
        exact absurd next awake
      rw [ran] at next
      obtain ⟨run, cpu, epoch, rfl⟩ := asleep_move awake (run_moves ran) next
      exact ⟨[], cpu, epoch, rest, rfl, run⟩
    obtain ⟨first, cpu, epoch, second, rfl, run⟩ := ih next asleep
    exact ⟨call :: first, cpu, epoch, second, rfl, run⟩

/-- A wake that is being carried out goes on, until the task is ready. -/
theorem Roused.move (roused : s.Roused) (move : Moves s call r t) :
    t.state = .ready ∨ t.Roused ∧ t.waitEpoch = s.waitEpoch := by
  unfold Roused at roused ⊢
  cases move
  case beginMigration at_ _ => rcases at_ with ⟨state, _⟩ | ⟨state, _⟩ <;> simp [state] at roused
  case commitMigration source _ _ _ => cases source <;> simp_all
  case rollbackMigration source _ _ => cases source <;> simp_all
  case beginDying at_ => rcases at_ with state | state | state <;> simp [state] at roused
  all_goals simp_all

theorem Roused.runAll (roused : s.Roused) (later : List LifecycleCall) :
    (∃ first second, later = first ++ second ∧ (runAll first s).state = .ready) ∨
      (runAll later s).Roused ∧ (runAll later s).waitEpoch = s.waitEpoch := by
  induction later generalizing s with
  | nil => exact .inr ⟨roused, rfl⟩
  | cons call rest ih =>
    have next : (call.run s).2.state = .ready ∨
        (call.run s).2.Roused ∧ (call.run s).2.waitEpoch = s.waitEpoch :=
      after_call call (.inr ⟨roused, rfl⟩) roused.move
    rcases next with ready | ⟨still, epoch⟩
    · exact .inl ⟨[call], rest, rfl, ready⟩
    rcases ih still with ⟨first, second, rfl, ready⟩ | ⟨last, eq⟩
    · exact .inl ⟨call :: first, second, rfl, ready⟩
    · exact .inr ⟨last, eq.trans epoch⟩

/-- The two calls that carry a wake out are accepted, from wherever it has got to. -/
theorem Roused.finish (fits : s.Fits) (roused : s.Roused) :
    ∃ cpu target, (LifecycleCall.runAll [.completeBlock cpu s.waitEpoch,
      .completeWake target s.waitEpoch] s).state = .ready := by
  obtain ⟨owner, target, _, _⟩ := fits
  rcases roused with waking | ⟨blocking, pending⟩
  · obtain ⟨aim, aimed⟩ : ∃ aim, s.target = some aim := isSome_iff_exists.mp (by rw [target, waking]; rfl)
    refine ⟨aim, aim, ?_⟩
    simp [LifecycleCall.runAll, run, completeBlock, completeWake, require_bind, Exec.map_run, waking, aimed]
  obtain ⟨cpu, owned⟩ : ∃ cpu, s.owner = some cpu := isSome_iff_exists.mp (by rw [owner, blocking]; rfl)
  obtain ⟨aim, aimed⟩ : ∃ aim, s.target = some aim :=
    isSome_iff_exists.mp (by rw [target, blocking, pending]; rfl)
  refine ⟨cpu, aim, ?_⟩
  simp [LifecycleCall.runAll, run, completeBlock, completeWake, require_bind, Exec.map_run,
    blocking, owned, aimed, pending]

theorem wake_accepted {target : CpuIndex} {epoch : UInt32} {woke : Bool}
    (h : (LifecycleCall.wake target epoch).run s = (.ok (.flag woke), t)) :
    ¬t.Asleep ∧ (woke = true → t.Roused ∧ t.waitEpoch = epoch) := by
  unfold Asleep Roused
  cases run_moves h with
  | wakeBlocking at_ => simp [at_]
  | wakeBlocked at_ => simp
  | wakeAwake at_ => rcases at_ with state | state | state <;> simp [state]

end TaskLifecycle

open TaskLifecycle

/-- In every state that calls reach, the data of the task is what its state calls for, and a call
that is refused changes nothing. A wake that is accepted there is not lost, whatever calls come
later: the task sleeps again only after it has run and begun a new wait; and a call that reports
to have woken it has made it ready since, or two calls are still to come, which will be accepted. -/
theorem lifecycle_sound (before : List LifecycleCall) {s : TaskLifecycle}
    (reached : runAll before TaskLifecycle.new = s) :
    s.Fits ∧ (∀ call e t, LifecycleCall.run call s = (.error e, t) → t = s) ∧
      ∀ target epoch woke t, (LifecycleCall.wake target epoch).run s = (.ok (.flag woke), t) →
        ∀ later,
          ((runAll later t).Asleep → ∃ first cpu again second,
            later = first ++ .beginBlock cpu again :: second ∧ (runAll first t).state = .running) ∧
          (woke = true → (∃ first second, later = first ++ second ∧
              (runAll first t).state = .ready) ∨
            (runAll later t).Roused ∧ ∃ cpu aim,
              (runAll (later ++ [.completeBlock cpu epoch, .completeWake aim epoch]) t).state = .ready) := by
  have fits : s.Fits := reached ▸ new_fits.runAll before
  refine ⟨fits, fun call e t => run_refused, ?_⟩
  intro target epoch woke t ok later
  obtain ⟨awake, roused⟩ := wake_accepted ok
  have fitting : t.Fits := fits.move (run_moves ok)
  refine ⟨fun asleep => ?_, fun reported => ?_⟩
  · exact asleep_runAll awake asleep
  obtain ⟨up, rfl⟩ := roused reported
  rcases up.runAll later with ready | ⟨still, eq⟩
  · exact .inl ready
  obtain ⟨cpu, aim, finished⟩ := still.finish (fitting.runAll later)
  rw [eq] at finished
  refine .inr ⟨still, cpu, aim, ?_⟩
  rw [runAll_append]
  exact finished

/-- A task that is woken in its sleep on the first processor, after a migration attempt. -/
theorem lifecycle_sound_migrated :
    let cpu : CpuIndex := ⟨0, by decide⟩
    let other : CpuIndex := ⟨1, by decide⟩
    let asleep := runAll [.deferReady cpu, .enqueueReady cpu, .startRunning cpu, .beginBlock cpu 7,
      .completeBlock cpu 7, .beginMigration other ⟨0, 0⟩, .rollbackMigration 1] TaskLifecycle.new
    ∃ t, (LifecycleCall.wake other 7).run asleep = (.ok (.flag true), t) ∧
      ((runAll [.beginDying] t).Asleep → ∃ first cpu again second,
        [LifecycleCall.beginDying] = first ++ .beginBlock cpu again :: second ∧
          (runAll first t).state = .running) := by
  intro cpu other asleep
  have accepted : (LifecycleCall.wake other 7).run asleep =
      (.ok (.flag true), ((LifecycleCall.wake other 7).run asleep).2) := by
    decide +kernel
  exact ⟨_, accepted, ((lifecycle_sound _ rfl).2.2 _ _ _ _ accepted [.beginDying]).1⟩

end HuesOS.Sched
