import HuesOS.Async.Executor
import Mathlib.Data.Finset.Card
import Mathlib.Data.Finset.Range

namespace HuesOS.Async
open List Function Option BitVec
variable {i : Nat}

theorem getLsbD_bit {j : Nat} (lt : i < 64) : (bit i).getLsbD j = decide (j = i) := by
  rw [bit, ← twoPow_eq, getLsbD_twoPow]
  simp [lt, eq_comm]

theorem trailingZeros_spec {word : BitVec 64} (nonzero : word ≠ 0) :
    word.getLsbD (trailingZeros word) = true ∧ trailingZeros word < 64 := by
  cases found : (List.range 64).find? (word.getLsbD ·) with
  | none =>
    rw [find?_eq_none] at found
    refine absurd (eq_of_getLsbD_eq fun i small => ?_) nonzero
    simpa using found i (mem_range.mpr small)
  | some i =>
    rw [trailingZeros, found, getD_some]
    exact ⟨find?_some found, mem_range.mp (List.mem_of_find?_eq_some found)⟩

def Holds (slots : List Slot) (i future : Nat) : Prop :=
  ∃ slot, slots[i]? = some slot ∧ slot.task = some future

section
variable {slots : List Slot} {future : Nat} {slot old : Slot}

theorem holds_at (there : slots[i]? = some slot) : Holds slots i future ↔ slot.task = some future := by
  simp [Holds, there]

theorem not_holds_of_free (there : slots[i]? = some slot) (free : slot.task = none) :
    ¬Holds slots i future := by
  simp [holds_at there, free]

variable (there : slots[i]? = some old)
include there

theorem holds_set {j : Nat} : Holds (slots.set i slot) j future ↔
    j = i ∧ slot.task = some future ∨ j ≠ i ∧ Holds slots j future := by
  have inside := (List.getElem?_eq_some_iff.mp there).1
  rw [Holds, Holds, List.getElem?_set]
  by_cases eq : i = j
  · subst eq
    simp [inside]
  · simp [eq, Ne.symm eq]

theorem countP_set_task (slot : Slot) :
    (slots.set i slot).countP (·.task.isSome) + (if old.task.isSome then 1 else 0) =
      slots.countP (·.task.isSome) + (if slot.task.isSome then 1 else 0) := by
  obtain ⟨inside, eq⟩ := List.getElem?_eq_some_iff.mp there
  rw [List.countP_set inside, eq]
  have present : old.task.isSome → 0 < slots.countP (·.task.isSome) := fun some =>
    List.countP_pos_iff.mpr ⟨old, List.mem_of_getElem? there, some⟩
  by_cases some : old.task.isSome
  · have := present some
    simp only [some, if_true]
    omega
  · simp [some]

end

/-- Each future is held by at most one slot, and is neither dropped nor completed while it is
held; every other one that was given to `spawn` is dropped once. -/
structure Books (slots : List Slot) (next : Nat) (completed : Nat → Bool) (drops : Nat → Nat) :
    Prop where
  once : ∀ {i j future}, Holds slots i future → Holds slots j future → i = j
  held : ∀ {i future}, Holds slots i future →
    future < next ∧ drops future = 0 ∧ completed future = false
  others : ∀ {future}, future < next → (∃ i, Holds slots i future) ∨ drops future = 1
  fresh : ∀ {future}, next ≤ future → drops future = 0 ∧ completed future = false

section
variable {slots : List Slot} {next : Nat} {completed : Nat → Bool} {drops : Nat → Nat}

namespace Books
variable (books : Books slots next completed drops)
include books

theorem refuse : Books slots (next + 1) completed (update drops next (drops next + 1)) := by
  have unchanged {future : Nat} (other : future ≠ next) :
      update drops next (drops next + 1) future = drops future :=
    update_of_ne other ..
  refine ⟨books.once, fun holds => ?_, fun {future} small => ?_, fun {future} new => ?_⟩
  · obtain ⟨small, rest⟩ := books.held holds
    rw [unchanged (by omega)]
    exact ⟨by omega, rest⟩
  · rcases Nat.lt_succ_iff_lt_or_eq.mp small with pre | rfl
    · rw [unchanged (by omega)]
      exact books.others pre
    rw [update_self, (books.fresh (Nat.le_refl _)).1]
    exact .inr rfl
  rw [unchanged (by omega)]
  exact books.fresh (by omega)

theorem take {i : Nat} {old slot : Slot}
    (there : slots[i]? = some old) (free : old.task = none) (taken : slot.task = some next) :
    Books (slots.set i slot) (next + 1) completed drops := by
  have holds_iff {j future : Nat} : Holds (slots.set i slot) j future ↔
      j = i ∧ next = future ∨ j ≠ i ∧ Holds slots j future := by
    rw [holds_set there, taken, some_inj]
  refine ⟨fun {j k future} one two => ?_, fun {j future} holds => ?_, fun {future} small => ?_,
    fun new => books.fresh (by omega)⟩
  · rcases holds_iff.mp one with ⟨here, new⟩ | ⟨-, pre⟩ <;>
      rcases holds_iff.mp two with ⟨here', new'⟩ | ⟨-, before'⟩
    · exact here.trans here'.symm
    · exact absurd (books.held before').1 (by omega)
    · exact absurd (books.held pre).1 (by omega)
    · exact books.once pre before'
  · rcases holds_iff.mp holds with ⟨rfl, rfl⟩ | ⟨-, pre⟩
    · exact ⟨by omega, books.fresh (Nat.le_refl _)⟩
    · exact ⟨by have := (books.held pre).1; omega, (books.held pre).2⟩
  rcases Nat.lt_succ_iff_lt_or_eq.mp small with pre | rfl
  · refine (books.others pre).imp_left fun ⟨j, holds⟩ => ⟨j, holds_iff.mpr (.inr ⟨?_, holds⟩)⟩
    rintro rfl
    exact not_holds_of_free there free holds
  · exact .inl ⟨i, holds_iff.mpr (.inl ⟨rfl, rfl⟩)⟩

theorem free {i future : Nat} {old slot : Slot}
    (there : slots[i]? = some old) (held : old.task = some future) (freed : slot.task = none)
    {ended : Nat → Bool} (rest : ∀ other, other ≠ future → ended other = completed other) :
    Books (slots.set i slot) next ended (update drops future (drops future + 1)) := by
  have here : Holds slots i future := ⟨old, there, held⟩
  have unchanged {other : Nat} (differs : other ≠ future) :
      update drops future (drops future + 1) other = drops other :=
    update_of_ne differs ..
  have holds_iff {j other : Nat} : Holds (slots.set i slot) j other ↔ Holds slots j other ∧ other ≠ future := by
    rw [holds_set there, freed]
    constructor
    · rintro (⟨-, impossible⟩ | ⟨elsewhere, holds⟩)
      · cases impossible
      · exact ⟨holds, by rintro rfl; exact elsewhere (books.once holds here)⟩
    rintro ⟨holds, differs⟩
    refine .inr ⟨?_, holds⟩
    rintro rfl
    exact differs (Option.some.inj (((holds_at there).mp holds).symm.trans held))
  refine ⟨fun one two => ?_, fun {j other} holds => ?_, fun {other} small => ?_, fun {other} new => ?_⟩
  · exact books.once (holds_iff.mp one).1 (holds_iff.mp two).1
  · obtain ⟨holds, differs⟩ := holds_iff.mp holds
    rw [unchanged differs, rest other differs]
    exact books.held holds
  · by_cases eq : other = future
    · subst eq
      rw [update_self, (books.held here).2.1]
      exact .inr rfl
    rw [unchanged eq]
    exact (books.others small).imp_left fun ⟨j, holds⟩ => ⟨j, holds_iff.mpr ⟨holds, eq⟩⟩
  have differs : other ≠ future := by
    rintro rfl
    have := (books.held here).1
    omega
  rw [unchanged differs, rest other differs]
  exact books.fresh new

end Books
end

def Machine.pending (m : Machine) : BitVec 64 := m.executor.ready ||| m.phase.remaining

def Phase.serving : Phase → Bool
  | .dropping _ => false
  | .gone => false
  | _ => true

def Phase.cleared (total : Nat) : Phase → Nat
  | .dropping i => i
  | .gone => total
  | _ => 0

structure Sound (m : Machine) : Prop where
  books : Books m.executor.slots m.next m.completed m.drops
  bound : m.executor.slots.length ≤ 64
  inside : ∀ i, m.pending.getLsbD i = true → i < m.executor.slots.length
  owes : ∀ i future, Holds m.executor.slots i future → m.owed future = true →
    m.pending.getLsbD i = true
  polled : ∀ i remaining polled, m.phase = .polling i remaining polled →
    ∃ future, Holds m.executor.slots i future
  counted : m.phase.serving = true → m.executor.count = m.executor.slots.countP (·.task.isSome)
  cleared : ∀ i future, i < m.phase.cleared m.executor.slots.length →
    ¬Holds m.executor.slots i future

namespace Sound
variable {m m' : Machine} {i future : Nat} {phase : Phase}

theorem serving_of_user (user : phase.user = true) :
    phase.serving = true ∧ ∀ total, phase.cleared total = 0 := by
  cases phase <;> first | exact ⟨rfl, fun _ => rfl⟩ | cases user

theorem lt_of_holds (holds : Holds m.executor.slots i future) : i < m.executor.slots.length := by
  obtain ⟨slot, there, -⟩ := holds
  exact (List.getElem?_eq_some_iff.mp there).1

theorem getLsbD_added (lt : i < 64) (m : Machine) (j : Nat) :
    (m.executor.ready ||| bit i ||| m.phase.remaining).getLsbD j = (decide (j = i) || m.pending.getLsbD j) := by
  rw [Machine.pending, getLsbD_or, getLsbD_or, getLsbD_or, getLsbD_bit lt, Bool.or_right_comm, Bool.or_comm]

theorem inside_added (sound : Sound m) (known : i < m.executor.slots.length) (j : Nat)
    (set : (m.executor.ready ||| bit i ||| m.phase.remaining).getLsbD j = true) :
    j < m.executor.slots.length := by
  rw [getLsbD_added (by have := sound.bound; omega), Bool.or_eq_true] at set
  rcases set with here | pre
  · exact of_decide_eq_true here ▸ known
  · exact sound.inside j pre

theorem wakeSlot (sound : Sound m) (known : i < m.executor.slots.length) : Sound (m.wakeSlot i) := by
  have added := getLsbD_added (show i < 64 by have := sound.bound; omega) m
  refine ⟨sound.books, sound.bound, sound.inside_added known, fun j future holds owed => ?_,
    sound.polled, sound.counted, sound.cleared⟩
  refine (added j).trans ?_
  by_cases here : j = i
  · rw [decide_eq_true here, Bool.true_or]
  rw [sound.owes j future holds ?_, Bool.or_true]
  -- the future that is woken is held by slot `i`, so it is not this one
  rw [Machine.wakeSlot] at owed
  dsimp only at owed
  cases occupant : m.executor.slots[i]?.bind (·.task) with
  | none => rwa [occupant] at owed
  | some other =>
    rw [occupant, elim_some] at owed
    obtain ⟨slot, there, task⟩ := bind_eq_some_iff.mp occupant
    rwa [update_of_ne] at owed
    rintro rfl
    exact here (sound.books.once holds ⟨slot, there, task⟩)

theorem spawn (sound : Sound m) {capacity size align : Nat} {id : TaskId} {executor : Executor}
    (user : m.phase.user = true)
    (spawned : m.executor.spawn capacity m.next size align = .ok (id, executor)) :
    Sound { m with
      executor := executor
      next := m.next + 1
      owed := update m.owed m.next true } := by
  rw [Executor.spawn] at spawned
  split at spawned
  · cases spawned
  split at spawned
  · cases spawned
  split at spawned
  · cases spawned
  next slot i found =>
  cases spawned
  obtain ⟨serving, uncleared⟩ := serving_of_user user
  have free : slot.task = none := by simpa using find?_some found
  have there : m.executor.slots[i]? = some slot :=
    List.mem_zipIdx_iff_getElem?.mp (List.mem_of_find?_eq_some found)
  have known := (List.getElem?_eq_some_iff.mp there).1
  have added := getLsbD_added (show i < 64 by have := sound.bound; omega) m
  have count := countP_set_task there ⟨some m.next, slot.generation + 1⟩
  refine ⟨sound.books.take there free rfl, ?_, fun j set => ?_, fun j future holds owed => ?_,
    fun j remaining polled polling => ?_, fun _ => ?_, fun j future small => ?_⟩
  · rw [length_set]
    exact sound.bound
  · rw [length_set]
    exact sound.inside_added known j set
  · refine (added j).trans ?_
    rcases (holds_set there).mp holds with ⟨rfl, -⟩ | ⟨-, pre⟩
    · rw [decide_eq_true rfl, Bool.true_or]
    dsimp only at owed
    rw [update_of_ne (Nat.ne_of_lt (sound.books.held pre).1)] at owed
    rw [sound.owes j future pre owed, Bool.or_true]
  · obtain ⟨future, holds⟩ := sound.polled j remaining polled polling
    refine ⟨future, (holds_set there).mpr (.inr ⟨?_, holds⟩)⟩
    rintro rfl
    exact not_holds_of_free there free holds
  · have pre := sound.counted serving
    simp only [free, isSome_none, Bool.false_eq_true, if_false, isSome_some, if_true] at count
    dsimp only
    omega
  dsimp only at small
  rw [uncleared] at small
  omega

/-- The slot whose bit is taken from the rest of the snapshot is no longer pending, unless it was
made ready again; the others are as before. -/
theorem getLsbD_taken {remaining : BitVec 64} {polled : Nat}
    (draining : m.phase = .draining remaining polled) (lt : i < 64) {j : Nat} (other : j ≠ i) :
    (m.executor.ready ||| remaining &&& ~~~bit i).getLsbD j = m.pending.getLsbD j := by
  rw [Machine.pending, draining, Phase.remaining, getLsbD_or, getLsbD_and,
    getLsbD_not, getLsbD_bit lt, decide_eq_false other, getLsbD_or]
  cases set : remaining.getLsbD j with
  | false => rw [Bool.false_and]
  | true =>
    rw [Bool.not_false, Bool.and_true, Bool.true_and, decide_eq_true (lt_of_getLsbD set)]

section
variable (sound : Sound m)
include sound

theorem take {remaining : BitVec 64} {polled : Nat}
    (draining : m.phase = .draining remaining polled) (lt : i < 64)
    {owed : Nat → Bool} (rest : phase.remaining = remaining &&& ~~~bit i)
    (cleared : ∀ total, phase.cleared total = 0)
    (here : ∀ future, Holds m.executor.slots i future → owed future = false)
    (others : ∀ future, owed future = true → m.owed future = true)
    (polled : ∀ j remaining polled, phase = .polling j remaining polled →
      ∃ future, Holds m.executor.slots j future) :
    Sound { m with phase := phase, owed := owed } := by
  have pending (j : Nat) : Machine.pending { m with phase := phase, owed := owed } =
      m.executor.ready ||| remaining &&& ~~~bit i := by rw [Machine.pending, rest]
  refine ⟨sound.books, sound.bound, fun j set => ?_, fun j future holds owes => ?_, polled, ?_, ?_⟩
  · rw [pending j] at set
    refine sound.inside j ?_
    rw [Machine.pending, draining, Phase.remaining, getLsbD_or]
    rw [getLsbD_or, getLsbD_and] at set
    rcases Bool.or_eq_true _ _ |>.mp set with ready | left
    · rw [ready, Bool.true_or]
    · rw [(Bool.and_eq_true _ _ |>.mp left).1, Bool.or_true]
  · have elsewhere : j ≠ i := by
      rintro rfl
      exact absurd ((here future holds).symm.trans owes) (by decide)
    rw [pending j, getLsbD_taken draining lt elsewhere]
    exact sound.owes j future holds (others future owes)
  · intro _
    exact sound.counted (by rw [draining]; rfl)
  intro j future pre
  rw [cleared] at pre
  omega

theorem free {old : Slot} (there : m.executor.slots[i]? = some old)
    (held : old.task = some future) (slot : Slot) (freed : slot.task = none) (ended : Nat → Bool)
    (rest : ∀ other, other ≠ future → ended other = m.completed other) (count : Nat) (phase : Phase)
    (eq : phase.remaining = m.phase.remaining)
    (idle : ∀ j remaining polled, phase ≠ .polling j remaining polled)
    (counted : phase.serving = true → count + 1 = m.executor.slots.countP (·.task.isSome))
    (cleared : ∀ j, j < phase.cleared m.executor.slots.length →
      j = i ∨ j < m.phase.cleared m.executor.slots.length) :
    Sound { m.dropped future with
      executor := ⟨m.executor.ready, count, m.executor.slots.set i slot⟩
      phase := phase
      completed := ended } := by
  have pre {j other : Nat} (holds : Holds (m.executor.slots.set i slot) j other) :
      j ≠ i ∧ Holds m.executor.slots j other := by
    rcases (holds_set there).mp holds with ⟨-, impossible⟩ | kept
    · rw [freed] at impossible
      cases impossible
    · exact kept
  have pending : Machine.pending { m.dropped future with
      executor := ⟨m.executor.ready, count, m.executor.slots.set i slot⟩
      phase := phase
      completed := ended } = m.pending := by rw [Machine.pending, eq]; rfl
  refine ⟨sound.books.free there held freed rest, ?_, fun j set => ?_, fun j other holds owed => ?_,
    fun j remaining polled polling => absurd polling (idle j remaining polled), fun serving => ?_,
    fun j other small holds => ?_⟩
  · rw [length_set]
    exact sound.bound
  · rw [length_set]
    exact sound.inside j (pending ▸ set)
  · rw [pending]
    exact sound.owes j other (pre holds).2 owed
  · have change := countP_set_task there slot
    have total := counted serving
    simp only [held, freed, isSome_some, if_true, isSome_none, Bool.false_eq_true, if_false] at change
    dsimp only
    omega
  dsimp only at small
  rw [length_set] at small
  rcases cleared j small with here | earlier
  · exact (pre holds).1 here
  · exact sound.cleared j other earlier (pre holds).2

theorem rephase (eq : phase.remaining = m.phase.remaining)
    (polled : ∀ j remaining polled, phase ≠ .polling j remaining polled)
    (serving : phase.serving = true → m.phase.serving = true)
    (cleared : ∀ j future, j < phase.cleared m.executor.slots.length → ¬Holds m.executor.slots j future) :
    Sound { m with phase := phase } := by
  have pending : Machine.pending { m with phase := phase } = m.pending := by
    rw [Machine.pending, eq]
    rfl
  refine ⟨sound.books, sound.bound, fun j set => sound.inside j (pending ▸ set),
    fun j future holds owed => ?_, fun j r p polling => absurd polling (polled j r p),
    fun h => sound.counted (serving h), cleared⟩
  rw [pending]
  exact sound.owes j future holds owed

theorem advance (ran : m.advance = some m') : Sound m' := by
  rw [Machine.advance] at ran
  split at ran
  next remaining polled draining =>
    split at ran
    next none =>
      split at ran
      · cases ran
        exact sound.rephase (by rw [draining, none]; rfl) (by simp) (by rw [draining]; exact id)
          (by simp [Phase.cleared])
      cases ran
      -- the snapshot moves from the ready word to the rest of the pass
      have pending : 0 ||| m.executor.ready = m.pending := by
        rw [Machine.pending, draining, none, Phase.remaining]
        exact or_comm ..
      refine ⟨sound.books, sound.bound, fun j set => sound.inside j (pending ▸ set),
        fun j future holds owed => ?_, by simp, fun _ => sound.counted (by rw [draining]; rfl),
        by simp [Phase.cleared]⟩
      exact (congrArg (·.getLsbD j) pending).trans (sound.owes j future holds owed)
    next some =>
    have small := (trailingZeros_spec some).2
    dsimp only at ran
    split at ran
    · cases ran
    next slot there =>
    split at ran
    next free =>
      cases ran
      exact sound.take draining small rfl (fun _ => rfl)
        (fun _ holds => absurd holds (not_holds_of_free there free)) (fun _ => id) (by simp)
    next future held =>
    cases ran
    refine sound.take draining small rfl (fun _ => rfl) ?_ ?_ ?_
    · intro other holds
      cases held.symm.trans ((holds_at there).mp holds)
      exact update_self ..
    · intro other owed
      by_cases eq : other = future
      · rw [eq, update_self] at owed
        cases owed
      · rwa [update_of_ne eq] at owed
    rintro j r p ⟨⟩
    exact ⟨future, slot, there, held⟩
  next i dropping =>
    split at ran
    next past =>
      cases ran
      refine sound.rephase (by rw [dropping]; rfl) (by simp) (by simp [Phase.serving]) ?_
      intro j future small
      refine sound.cleared j future ?_
      rw [dropping]
      exact Nat.lt_of_lt_of_le small (getElem?_eq_none_iff.mp past)
    next slot there =>
    have pre (j : Nat) (small : j < i + 1) : j = i ∨ j < m.phase.cleared m.executor.slots.length := by
      rw [dropping, Phase.cleared]
      omega
    split at ran
    next free =>
      cases ran
      refine sound.rephase (by rw [dropping]; rfl) (by simp) (by simp [Phase.serving]) ?_
      rintro j future small holds
      rcases pre j small with rfl | old
      · exact not_holds_of_free there free holds
      · exact sound.cleared j future old holds
    next future held =>
    cases ran
    exact sound.free there held _ rfl _ (fun _ _ => rfl) _ (.dropping (i + 1))
      (by rw [dropping]; rfl) (by simp) (by simp [Phase.serving]) pre
  · cases ran

theorem finish {done : Bool} (ran : m.finish done = some m') : Sound m' := by
  rw [Machine.finish] at ran
  split at ran
  next i remaining polled polling =>
    obtain ⟨future, slot, there, held⟩ := sound.polled i remaining polled polling
    rw [there] at ran
    cases done with
    | true =>
      cases ran
      have total := sound.counted (by rw [polling]; rfl)
      have occupied : 0 < m.executor.slots.countP (·.task.isSome) :=
        List.countP_pos_iff.mpr ⟨slot, List.mem_of_getElem? there, by rw [held]; rfl⟩
      simp only [held, elim_some]
      exact sound.free there held _ rfl _ (fun other differs => update_of_ne differs ..) _
        (.draining remaining (polled + 1)) (by rw [polling]; rfl) (by simp) (fun _ => by omega)
        (by simp [Phase.cleared])
    | false =>
      cases ran
      exact sound.rephase (by rw [polling]; rfl) (by simp) (by rw [polling]; exact id) (by simp [Phase.cleared])
  · cases ran

theorem step {capacity : Nat} {call : Call} (ran : m.step capacity call = some m') : Sound m' := by
  cases call with
  | spawn size align =>
    rw [Machine.step] at ran
    split at ran
    next user =>
      split at ran
      · cases ran
        exact { sound with books := sound.books.refuse }
      next spawned =>
      cases ran
      exact sound.spawn user spawned
    · cases ran
  | wake task =>
    rw [Machine.step] at ran
    split at ran
    · cases ran
      split
      next named =>
        obtain ⟨slot, there, -⟩ := Option.any_eq_true _ _ |>.mp named
        exact sound.wakeSlot (List.getElem?_eq_some_iff.mp there).1
      · exact sound
    · cases ran
  | wakeByRef i =>
    rw [Machine.step] at ran
    split at ran
    next known =>
      cases ran
      exact sound.wakeSlot known.2
    · cases ran
  | poll =>
    rw [Machine.step] at ran
    split at ran
    next idle =>
      cases ran
      exact sound.rephase (by rw [idle]; rfl) (by simp) (by rw [idle]; exact id) (by simp [Phase.cleared])
    · cases ran
  | drop =>
    rw [Machine.step] at ran
    split at ran
    next idle =>
      cases ran
      exact sound.rephase (by rw [idle]; rfl) (by simp) (by simp [Phase.serving]) (by simp [Phase.cleared])
    · cases ran
  | finish done => exact sound.finish ran
  | advance => exact sound.advance ran

end

theorem new {tasks : Nat} (le : tasks ≤ 64) : Sound (Machine.new tasks) := by
  have free {i future : Nat} : ¬Holds (Machine.new tasks).executor.slots i future := by
    rintro ⟨slot, there, task⟩
    rw [eq_of_mem_replicate (List.mem_of_getElem? there)] at task
    cases task
  refine ⟨⟨fun one => absurd one free, fun holds => absurd holds free, (absurd · (Nat.not_lt_zero _)),
    fun _ => ⟨rfl, rfl⟩⟩, ?_, fun i set => ?_, fun _ _ holds => absurd holds free, nofun, fun _ => ?_,
    fun _ _ small => absurd small (Nat.not_lt_zero _)⟩
  · simpa [Machine.new, Executor.new] using le
  · simp [Machine.new, Executor.new, Machine.pending, Phase.remaining] at set
  · simp [Machine.new, Executor.new, countP_replicate]

end Sound

/-! The loops of `poll` and `drop` come to an end. -/

section Rounds
variable {m m' : Machine} {future capacity : Nat}

def bits (word : BitVec 64) : Finset Nat := (Finset.range 64).filter fun j => word.getLsbD j = true

theorem card_bits_le (word : BitVec 64) : (bits word).card ≤ 64 :=
  (Finset.card_filter_le _ _).trans_eq (Finset.card_range _)

theorem card_bits_taken {word : BitVec 64} (nonzero : word ≠ 0) :
    (bits (word &&& ~~~bit (trailingZeros word))).card < (bits word).card := by
  obtain ⟨set, lt⟩ := trailingZeros_spec nonzero
  refine Finset.card_lt_card ⟨fun j mem => ?_, fun sub => ?_⟩
  · simp only [bits, Finset.mem_filter, getLsbD_and, Bool.and_eq_true] at mem ⊢
    exact ⟨mem.1, mem.2.1⟩
  · have taken := sub (Finset.mem_filter.mpr ⟨Finset.mem_range.mpr lt, set⟩)
    simp [bits, getLsbD_bit lt] at taken

/-- How many rounds of the loop of `poll` it takes at most until slot `i` is polled: its bit is in the
rest of the snapshot, or will be in the next one. -/
def Machine.rounds (m : Machine) (i : Nat) : Nat :=
  (bits m.phase.remaining).card + if m.phase.remaining.getLsbD i then 0 else 65

theorem Machine.rounds_le (m : Machine) (i : Nat) : m.rounds i ≤ 129 := by
  have bound := card_bits_le m.phase.remaining
  rw [rounds]
  split <;> omega

def Call.isAdvance : Call → Bool
  | .advance => true
  | _ => false

/-- `poll` runs, and the future of slot `i` was woken since it was polled last. -/
structure Waiting (m : Machine) (i future : Nat) : Prop where
  running : (∃ remaining polled, m.phase = .draining remaining polled) ∨
    ∃ j remaining polled, m.phase = .polling j remaining polled ∧ j ≠ i
  holds : Holds m.executor.slots i future
  owed : m.owed future = true

def Polls (m : Machine) (i future : Nat) : Prop :=
  ∃ remaining polled, m.phase = .polling i remaining polled ∧ Holds m.executor.slots i future

namespace Waiting
variable (waiting : Waiting m i future)
include waiting

/-- What user code does while a future is polled. -/
theorem user (phase : m'.phase = m.phase)
    (holds : Holds m.executor.slots i future → Holds m'.executor.slots i future)
    (owed : m.owed future = true → m'.owed future = true) :
    Waiting m' i future ∧ m'.rounds i = m.rounds i := by
  obtain ⟨running, held, owes⟩ := waiting
  rw [Machine.rounds, Machine.rounds, phase]
  exact ⟨⟨phase ▸ running, holds held, owed owes⟩, rfl⟩

theorem wakeSlot (j : Nat) :
    Waiting (m.wakeSlot j) i future ∧ (m.wakeSlot j).rounds i = m.rounds i := by
  refine waiting.user rfl id fun owed => ?_
  rw [Machine.wakeSlot]
  cases m.executor.slots[j]?.bind (·.task) with
  | none => exact owed
  | some other =>
    dsimp only
    rw [elim_some, update_apply]
    split
    · rfl
    · exact owed

theorem spawn {size align : Nat} (ran : m.step capacity (.spawn size align) = some m') :
    Waiting m' i future ∧ m'.rounds i = m.rounds i := by
  rw [Machine.step] at ran
  split at ran
  · split at ran
    · cases ran
      exact waiting.user rfl id id
    next spawned =>
    cases ran
    refine waiting.user rfl (fun holds => ?_) fun owed => ?_
    · rw [Executor.spawn] at spawned
      split at spawned
      · cases spawned
      split at spawned
      · cases spawned
      split at spawned
      · cases spawned
      next slot j found =>
      cases spawned
      have free : slot.task = none := by simpa using find?_some found
      have there : m.executor.slots[j]? = some slot :=
        List.mem_zipIdx_iff_getElem?.mp (List.mem_of_find?_eq_some found)
      refine (holds_set there).mpr (.inr ⟨?_, holds⟩)
      rintro rfl
      exact not_holds_of_free there free holds
    · dsimp only
      rw [update_apply]
      split
      · rfl
      · exact owed
  · cases ran

theorem finish {done : Bool} (ran : m.finish done = some m') :
    Waiting m' i future ∧ m'.rounds i = m.rounds i := by
  rw [Machine.finish] at ran
  split at ran
  next j remaining polled polling =>
    have other : j ≠ i := by
      rcases waiting.running with ⟨r, p, draining⟩ | ⟨k, r, p, here, ne⟩
      · cases polling.symm.trans draining
      · cases polling.symm.trans here
        exact ne
    have rounds {m' : Machine} (phase : m'.phase = .draining remaining (polled + 1)) :
        m'.rounds i = m.rounds i := by
      rw [Machine.rounds, Machine.rounds, phase, polling]
      rfl
    split at ran
    · cases ran
    next slot there =>
    split at ran
    · cases ran
      refine ⟨⟨.inl ⟨_, _, rfl⟩, (holds_set there).mpr (.inr ⟨other.symm, waiting.holds⟩), ?_⟩, rounds rfl⟩
      cases slot.task <;> exact waiting.owed
    · cases ran
      exact ⟨⟨.inl ⟨_, _, rfl⟩, waiting.holds, waiting.owed⟩, rounds rfl⟩
  · cases ran

/-- A round of the loop polls slot `i` or comes closer to it. -/
theorem advance (sound : Sound m) (ran : m.advance = some m') :
    Polls m' i future ∨ Waiting m' i future ∧ m'.rounds i < m.rounds i := by
  have pending := sound.owes i future waiting.holds waiting.owed
  have small : i < 64 := by
    have := Sound.lt_of_holds waiting.holds
    have := sound.bound
    omega
  obtain ⟨remaining, polled, draining⟩ | ⟨j, r, p, polling, -⟩ := waiting.running
  · rw [Machine.pending, draining, getLsbD_or] at pending
    rw [Machine.advance, draining] at ran
    rw [Machine.rounds, Machine.rounds, draining]
    dsimp only at ran
    split at ran
    next none =>
      -- the snapshot is empty, so the bit is in the ready word
      have ready : m.executor.ready.getLsbD i = true := by
        rw [none] at pending
        simpa [Phase.remaining] using pending
      split at ran
      next quiet =>
        rw [quiet] at ready
        simp at ready
      · cases ran
        refine .inr ⟨⟨.inl ⟨_, _, rfl⟩, waiting.holds, waiting.owed⟩, ?_⟩
        have bound := card_bits_le m.executor.ready
        simp only [Phase.remaining, ready, none, if_true]
        simp
        omega
    next some =>
    have fewer := card_bits_taken some
    have lt := (trailingZeros_spec some).2
    have rest (other : trailingZeros remaining ≠ i) :
        (remaining &&& ~~~bit (trailingZeros remaining)).getLsbD i = remaining.getLsbD i := by
      rw [getLsbD_and, getLsbD_not, getLsbD_bit lt, decide_eq_false other.symm]
      simp [small]
    split at ran
    · cases ran
    next slot there =>
    by_cases here : trailingZeros remaining = i
    · rw [here] at there
      have held := (holds_at there).mp waiting.holds
      rw [held] at ran
      cases ran
      exact .inl ⟨_, _, by rw [here], waiting.holds⟩
    split at ran
    next free =>
      cases ran
      refine .inr ⟨⟨.inl ⟨_, _, rfl⟩, waiting.holds, waiting.owed⟩, ?_⟩
      simp only [Phase.remaining, rest here]
      exact Nat.add_lt_add_right fewer _
    next occupant held =>
    cases ran
    refine .inr ⟨⟨.inr ⟨_, _, _, rfl, here⟩, waiting.holds, ?_⟩, ?_⟩
    · dsimp only
      rw [update_of_ne]
      · exact waiting.owed
      rintro rfl
      exact here (sound.books.once ⟨slot, there, held⟩ waiting.holds)
    · simp only [Phase.remaining, rest here]
      exact Nat.add_lt_add_right fewer _
  · rw [Machine.advance, polling] at ran
    cases ran

theorem step (sound : Sound m) {call : Call} (ran : m.step capacity call = some m') :
    Polls m' i future ∨
      Waiting m' i future ∧ m'.rounds i + (if call.isAdvance then 1 else 0) ≤ m.rounds i := by
  have user (still : Waiting m' i future ∧ m'.rounds i = m.rounds i) :
      Polls m' i future ∨ Waiting m' i future ∧ m'.rounds i + 0 ≤ m.rounds i :=
    .inr ⟨still.1, Nat.le_of_eq still.2⟩
  have outside : m.phase ≠ .idle := by
    rintro idle
    rcases waiting.running with ⟨r, p, phase⟩ | ⟨j, r, p, phase, -⟩ <;> cases idle.symm.trans phase
  cases call with
  | spawn size align => exact user (waiting.spawn ran)
  | wake task =>
    rw [Machine.step] at ran
    split at ran
    · split at ran <;> cases ran
      · exact user (waiting.wakeSlot _)
      · exact user ⟨waiting, rfl⟩
    · cases ran
  | wakeByRef j =>
    rw [Machine.step] at ran
    split at ran
    · cases ran
      exact user (waiting.wakeSlot j)
    · cases ran
  | poll =>
    rw [Machine.step] at ran
    split at ran
    next idle => exact absurd idle outside
    · cases ran
  | drop =>
    rw [Machine.step] at ran
    split at ran
    next idle => exact absurd idle outside
    · cases ran
  | finish done => exact user (waiting.finish ran)
  | advance => exact waiting.advance sound ran

/-- However the futures behave, slot `i` is polled before the loop has made more rounds than that. -/
theorem run (sound : Sound m) {calls : List Call} (ran : calls.foldlM (Machine.step capacity) m = some m')
    (enough : m.rounds i < calls.countP Call.isAdvance) :
    ∃ done rest mid, calls = done ++ rest ∧ done.foldlM (Machine.step capacity) m = some mid ∧
      Polls mid i future := by
  induction calls generalizing m with
  | nil => exact absurd enough (Nat.not_lt_zero _)
  | cons call calls ih =>
    rw [List.foldlM_cons] at ran
    obtain ⟨m₁, first, rest⟩ := bind_eq_some_iff.mp ran
    rcases waiting.step sound first with polls | ⟨still, closer⟩
    · exact ⟨[call], calls, m₁, rfl, by rw [List.foldlM_cons, first]; rfl, polls⟩
    rw [List.countP_cons] at enough
    obtain ⟨done, tail, mid, rfl, reached, polls⟩ := ih still (sound.step first) rest (by omega)
    exact ⟨call :: done, tail, mid, rfl, by rw [List.foldlM_cons, first]; exact reached, polls⟩

end Waiting

theorem Sound.goesOn (sound : Sound m) :
    (∀ remaining polled, m.phase = .draining remaining polled → (m.advance).isSome = true) ∧
      ∀ i remaining polled done, m.phase = .polling i remaining polled → (m.finish done).isSome = true := by
  constructor
  · intro remaining polled draining
    rw [Machine.advance, draining]
    dsimp only
    split
    · split <;> rfl
    next some =>
    obtain ⟨set, -⟩ := trailingZeros_spec some
    have inside := sound.inside (trailingZeros remaining) (by
      rw [Machine.pending, draining, Phase.remaining, getLsbD_or, set, Bool.or_true])
    rw [List.getElem?_eq_getElem inside]
    dsimp only
    split <;> rfl
  intro i remaining polled done polling
  obtain ⟨future, slot, there, -⟩ := sound.polled i remaining polled polling
  rw [Machine.finish, polling]
  dsimp only
  rw [there]
  dsimp only
  split <;> rfl

theorem Machine.drop_ends {j : Nat} (dropping : m.phase = .dropping j) :
    ∃ m', (List.replicate (m.executor.slots.length - j + 1) Call.advance).foldlM
      (Machine.step capacity) m = some m' ∧ m'.phase = .gone := by
  generalize left : m.executor.slots.length - j = n
  induction n generalizing m j with
  | zero =>
    have past : m.executor.slots[j]? = none := getElem?_eq_none_iff.mpr (by omega)
    have ran : m.step capacity .advance = some { m with phase := .gone } := by
      rw [Machine.step, Machine.advance, dropping]
      dsimp only
      rw [past]
    exact ⟨_, by rw [Nat.zero_add, List.replicate_one, List.foldlM_cons, ran]; rfl, rfl⟩
  | succ n ih =>
    have ran : ∃ m₁, m.step capacity .advance = some m₁ ∧ m₁.phase = .dropping (j + 1) ∧
        m₁.executor.slots.length = m.executor.slots.length := by
      rw [Machine.step, Machine.advance, dropping]
      dsimp only
      rw [List.getElem?_eq_getElem (show j < m.executor.slots.length by omega)]
      dsimp only
      split
      · exact ⟨_, rfl, rfl, rfl⟩
      · exact ⟨_, rfl, rfl, length_set⟩
    obtain ⟨m₁, ran, next, same⟩ := ran
    obtain ⟨m', rest, gone⟩ := ih next (by rw [same]; omega)
    exact ⟨m', by rw [List.replicate_succ, List.foldlM_cons, ran]; exact rest, gone⟩

end Rounds

structure Kept (capacity : Nat) (m : Machine) : Prop where
  /-- When `poll` returns, nobody who holds a slot was woken since the start of its latest poll. -/
  polledAgain : ∀ m', m.advance = some m' → m'.phase = .idle →
    ∀ i future, Holds m'.executor.slots i future → m'.owed future = false
  /-- `poll` never gets stuck while futures come back from their polls. -/
  goesOn : (∀ remaining polled, m.phase = .draining remaining polled → (m.advance).isSome = true) ∧
    ∀ i remaining polled done, m.phase = .polling i remaining polled → (m.finish done).isSome = true
  /-- Inside `poll`, whatever the futures do, one that was woken is polled within 130 rounds. -/
  polledSoon : ∀ i future, Waiting m i future →
    ∀ (calls : List Call) m', calls.foldlM (Machine.step capacity) m = some m' → 129 < calls.countP Call.isAdvance →
      ∃ done rest mid, calls = done ++ rest ∧ done.foldlM (Machine.step capacity) m = some mid ∧
        Polls mid i future
  /-- The loop of `drop` goes once over the slots. -/
  dropEnds : ∀ i, m.phase = .dropping i → ∃ m',
    (List.replicate (m.executor.slots.length - i + 1) Call.advance).foldlM
      (Machine.step capacity) m = some m' ∧ m'.phase = .gone
  /-- A future that is being polled has not completed. -/
  notCompleted : ∀ i remaining polled, m.phase = .polling i remaining polled →
    ∃ future, Holds m.executor.slots i future ∧ m.completed future = false
  /-- A future is dropped once, unless it is still held, and then not at all. -/
  droppedOnce : ∀ future < m.next,
    (∃ i, Holds m.executor.slots i future) ∧ m.drops future = 0 ∨
      (∀ i, ¬Holds m.executor.slots i future) ∧ m.drops future = 1
  /-- Nobody is held any more once the executor is dropped. -/
  allDropped : m.phase = .gone → ∀ future < m.next, m.drops future = 1
  counted : m.phase.serving = true → m.executor.count = m.executor.slots.countP (·.task.isSome)

/-- `poll` returns when no bit is left anywhere. -/
theorem advance_idle {m m' : Machine} (ran : m.advance = some m') (idle : m'.phase = .idle) :
    m.pending = 0 ∧ m' = { m with phase := .idle } := by
  rw [Machine.advance] at ran
  split at ran
  next remaining polled draining =>
    split at ran
    next none =>
      split at ran
      next quiet =>
        cases ran
        rw [Machine.pending, draining, none, quiet]
        exact ⟨or_self, rfl⟩
      cases ran
      cases idle
    dsimp only at ran
    split at ran
    · cases ran
    · split at ran <;> cases ran <;> cases idle
  · split at ran
    · cases ran
      cases idle
    · split at ran <;> cases ran <;> cases idle
  · cases ran

theorem Sound.kept {m : Machine} (capacity : Nat) (sound : Sound m) : Kept capacity m where
  polledAgain m' ran idle i future holds := by
    obtain ⟨none, rfl⟩ := advance_idle ran idle
    by_contra owed
    have pending := sound.owes i future holds (Bool.not_eq_false _ |>.mp owed)
    rw [none] at pending
    simp at pending
  goesOn := sound.goesOn
  polledSoon i future waiting calls m' ran enough :=
    waiting.run sound ran ((m.rounds_le i).trans_lt enough)
  dropEnds i dropping := Machine.drop_ends dropping
  notCompleted i remaining polled polling := by
    obtain ⟨future, holds⟩ := sound.polled i remaining polled polling
    exact ⟨future, holds, (sound.books.held holds).2.2⟩
  droppedOnce future small := by
    by_cases held : ∃ i, Holds m.executor.slots i future
    · obtain ⟨i, holds⟩ := held
      exact .inl ⟨⟨i, holds⟩, (sound.books.held holds).2.1⟩
    · exact .inr ⟨not_exists.mp held, (sound.books.others small).resolve_left held⟩
  allDropped gone future small := by
    refine (sound.books.others small).resolve_left ?_
    rintro ⟨i, holds⟩
    exact sound.cleared i future (by rw [gone]; exact Sound.lt_of_holds holds) holds
  counted := sound.counted

end HuesOS.Async
