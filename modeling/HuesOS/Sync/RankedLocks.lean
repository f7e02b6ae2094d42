import Mathlib.Data.Prod.Lex
import Mathlib.Data.Finset.Max
import HuesOS.Lib.Interleave

/-! Ranked ticket locks. Each CPU records the locks it takes in a rank tracker of its own, which
refuses a lower rank after a higher one, and then waits for its ticket. The tracker is private to
the CPU, so a record is taken together with the atomic operation next to it. -/

namespace HuesOS.Sync
open List Function

def maxHeldLocks : Nat := 16

def maxRankTrackers : Nat := 64

structure HeldLock where
  rank : Nat
  identity : Nat

inductive LockRankError
  | inversion
  | recursiveAcquire
  | nestingLimit
  | unbalancedRelease
  | cpuCapacity

/-- The entries of the array below `depth`, the latest first. -/
structure RankTracker where
  held : List HeldLock

namespace RankTracker

def new : RankTracker := ⟨[]⟩

def enter (tracker : RankTracker) (rank identity : Nat) : Except LockRankError RankTracker :=
  if tracker.held.length = maxHeldLocks then .error .nestingLimit
  else if tracker.held.any (·.identity == identity) then .error .recursiveAcquire
  else if tracker.held.head?.any (rank < ·.rank) then .error .inversion
  else .ok ⟨⟨rank, identity⟩ :: tracker.held⟩

def leave (tracker : RankTracker) (rank identity : Nat) : Except LockRankError RankTracker :=
  match tracker.held with
  | [] => .error .unbalancedRelease
  | top :: below =>
    if top.rank ≠ rank ∨ top.identity ≠ identity then .error .unbalancedRelease else .ok ⟨below⟩

theorem enter_ok {tracker after : RankTracker} {rank identity : Nat}
    (entered : tracker.enter rank identity = .ok after) :
    after.held = ⟨rank, identity⟩ :: tracker.held ∧ ∀ top ∈ tracker.held.head?, top.rank ≤ rank := by
  rw [enter] at entered
  split at entered
  · cases entered
  split at entered
  · cases entered
  split at entered
  · cases entered
  next notBelow =>
  cases entered
  refine ⟨rfl, fun top first => ?_⟩
  rw [Option.mem_def.mp first] at notBelow
  simpa using notBelow

theorem leave_ok {tracker after : RankTracker} {rank identity : Nat}
    (left : tracker.leave rank identity = .ok after) :
    tracker.held = ⟨rank, identity⟩ :: after.held := by
  rw [leave] at left
  split at left
  · cases left
  next top below eq =>
  split at left
  · cases left
  next equal =>
  cases left
  simp only [not_or, not_not] at equal
  rw [eq, ← equal.1, ← equal.2]

end RankTracker

open RankTracker

/-- The tracker operation of one CPU; a CPU beyond the last tracker has none. -/
def withRankTracker (cpu : Nat) (operation : Except LockRankError RankTracker) :
    Except LockRankError RankTracker :=
  if cpu < maxRankTrackers then operation else .error .cpuCapacity

theorem withRankTracker_ok {cpu : Nat} {operation : Except LockRankError RankTracker}
    {tracker : RankTracker} (ok : withRankTracker cpu operation = .ok tracker) :
    operation = .ok tracker := by
  rw [withRankTracker] at ok
  split at ok
  · exact ok
  · cases ok

structure TicketLock where
  nextTicket : BitVec 32
  nowServing : BitVec 32

def TicketLock.new : TicketLock := ⟨0, 0⟩

def TicketLock.unlock (lock : TicketLock) : TicketLock :=
  { lock with nowServing := lock.nowServing + 1 }

/-- Where a CPU stands: between calls, spinning in `lock`, or in `try_lock` between the load of
the served ticket and the compare-and-exchange. -/
inductive Point
  | running
  | spinning (lock : Nat) (ticket : BitVec 32)
  | trying (lock : Nat) (serving : BitVec 32)

def Point.pending : Point → List Nat
  | .running => []
  | .spinning lock _ => [lock]
  | .trying lock _ => [lock]

/-- A CPU: its tracker, and the guards of the locks it has acquired, the latest first. -/
structure Cpu where
  point : Point
  tracker : RankTracker
  guards : List Nat

inductive Action
  | lock (lock : Nat)
  | tryLock (lock : Nat)
  | proceed
  | drop (lock : Nat)

abbrev Locks := Nat → TicketLock

/-- The CPUs that use the locks, each lock with its fixed rank. A step in which the tracker
reports a violation does not exist: the CPU halts there. -/
def ranked (rank : Nat → Nat) : Program (ι := Nat) Locks (fun _ => Cpu) (fun _ => Action) Empty :=
  fun cpu action c locks =>
    match action, c.point with
    | .lock l, .running =>
      match withRankTracker cpu (c.tracker.enter (rank l) l) with
      | .error _ => none
      | .ok tracker =>
        let ticket := (locks l).nextTicket
        some (⟨.spinning l ticket, tracker, c.guards⟩,
          update locks l { locks l with nextTicket := ticket + 1 }, [])
    | .tryLock l, .running =>
      match withRankTracker cpu (c.tracker.enter (rank l) l) with
      | .error _ => none
      | .ok tracker => some (⟨.trying l (locks l).nowServing, tracker, c.guards⟩, locks, [])
    | .proceed, .spinning l ticket =>
      if (locks l).nowServing = ticket then some (⟨.running, c.tracker, l :: c.guards⟩, locks, [])
      else none
    | .proceed, .trying l serving =>
      if (locks l).nextTicket = serving then
        some (⟨.running, c.tracker, l :: c.guards⟩,
          update locks l { locks l with nextTicket := serving + 1 }, [])
      else
        match withRankTracker cpu (c.tracker.leave (rank l) l) with
        | .error _ => none
        | .ok tracker => some (⟨.running, tracker, c.guards⟩, locks, [])
    | .drop l, .running =>
      if l ∈ c.guards then
        match withRankTracker cpu (c.tracker.leave (rank l) l) with
        | .error _ => none
        | .ok tracker =>
          some (⟨.running, tracker, c.guards.erase l⟩, update locks l (locks l).unlock, [])
      else none
    | _, _ => none

abbrev Machine := Config (ι := Nat) Locks (fun _ => Cpu) Empty

def boot : Machine := ⟨fun _ => .new, fun _ => ⟨.running, .new, []⟩, []⟩

/-- CPU `c` waits for a lock, by a ticket that is not served yet. -/
def Waits (m : Machine) (c lock : Nat) (ticket : BitVec 32) : Prop :=
  (m.threads c).point = .spinning lock ticket ∧ (m.shared lock).nowServing ≠ ticket

/-- CPU `c` waits for a lock that `d` holds, or that is promised to `d` by an earlier ticket. -/
def WaitsFor (m : Machine) (c d : Nat) : Prop :=
  ∃ lock ticket, Waits m c lock ticket ∧
    (lock ∈ (m.threads d).guards ∨
      ∃ earlier, (m.threads d).point = .spinning lock earlier ∧
        earlier - (m.shared lock).nowServing < ticket - (m.shared lock).nowServing)

/-- A group of CPUs each of which waits for another one of the group. -/
def Deadlocked (m : Machine) (group : Finset Nat) : Prop :=
  group.Nonempty ∧ ∀ c ∈ group, ∃ d ∈ group, d ≠ c ∧ WaitsFor m c d

/-- Every lock is taken after the locks of its own rank that the CPU holds, in one order fixed for
all CPUs. Taking no two locks of one rank is the special case in which nothing is asked. -/
def InOrder (rank order : Nat → Nat) (act : (_ : Nat) × Action) (m : Machine) : Prop :=
  ∀ l, act.2 = .lock l → ∀ g ∈ (m.threads act.1).guards, rank g = rank l → order g < order l

section
variable {rank order : Nat → Nat}

/-- The place of a lock: its rank, and among the locks of one rank its place in the order. -/
def place (rank order : Nat → Nat) (l : Nat) : Nat ×ₗ Nat := toLex (rank l, order l)

/-- What a CPU knows of itself: its tracker records its guards and the lock it is about to take,
with their ranks, in rank order, and the lock it spins on comes after all its guards. -/
structure Tracked (rank order : Nat → Nat) (c : Cpu) : Prop where
  recorded : c.tracker.held.map (·.identity) = c.point.pending ++ c.guards
  ranks : ∀ h ∈ c.tracker.held, h.rank = rank h.identity
  sorted : c.tracker.held.Pairwise fun later earlier => earlier.rank ≤ later.rank
  last : ∀ l ticket, c.point = .spinning l ticket → ∀ g ∈ c.guards,
    place rank order g < place rank order l

variable {c : Cpu} {l : Nat} {tracker : RankTracker}

namespace Tracked
variable (tracked : Tracked rank order c)
include tracked

theorem guard_rank (run : c.point = .running)
    {g : Nat} (guard : g ∈ c.guards) : ∃ h ∈ c.tracker.held, h.rank = rank g := by
  have known := tracked.recorded
  rw [run, Point.pending, nil_append] at known
  rw [← known] at guard
  obtain ⟨h, mem, rfl⟩ := mem_map.mp guard
  exact ⟨h, mem, tracked.ranks h mem⟩

theorem entered
    (entered : c.tracker.enter (rank l) l = .ok tracker) :
    tracker.held = ⟨rank l, l⟩ :: c.tracker.held ∧ ∀ h ∈ c.tracker.held, h.rank ≤ rank l := by
  obtain ⟨eq, first⟩ := enter_ok entered
  refine ⟨eq, ?_⟩
  have sorted := tracked.sorted
  cases held : c.tracker.held with
  | nil => simp
  | cons top below =>
    rw [held] at first sorted
    have highest : top.rank ≤ rank l := first top rfl
    intro h mem
    rcases mem_cons.mp mem with rfl | deeper
    · exact highest
    · exact ((pairwise_cons.mp sorted).1 h deeper).trans highest

theorem push {point : Point}
    (run : c.point = .running)
    (entered : c.tracker.enter (rank l) l = .ok tracker) (pending : point.pending = [l])
    (last : ∀ ticket, point = .spinning l ticket → ∀ g ∈ c.guards, place rank order g < place rank order l) :
    Tracked rank order ⟨point, tracker, c.guards⟩ := by
  obtain ⟨eq, below⟩ := tracked.entered entered
  have known := tracked.recorded
  rw [run, Point.pending, nil_append] at known
  refine ⟨?_, ?_, ?_, ?_⟩
  · rw [eq, map_cons, known, pending, singleton_append]
  · rw [eq]
    exact forall_mem_cons.mpr ⟨rfl, tracked.ranks⟩
  · rw [eq]
    exact pairwise_cons.mpr ⟨below, tracked.sorted⟩
  rintro l' ticket rfl
  cases pending
  exact last ticket rfl

theorem acquire (pending : c.point.pending = [l]) :
    Tracked rank order ⟨.running, c.tracker, l :: c.guards⟩ where
  recorded := by rw [tracked.recorded, pending]; rfl
  ranks := tracked.ranks
  sorted := tracked.sorted
  last := by simp

theorem pop {guards : List Nat}
    (left : c.tracker.leave (rank l) l = .ok tracker)
    (remaining : c.point.pending ++ c.guards = l :: guards) :
    Tracked rank order ⟨.running, tracker, guards⟩ := by
  have eq := leave_ok left
  have known := tracked.recorded
  rw [eq, map_cons, remaining] at known
  refine ⟨(List.cons.inj known).2, fun h mem => tracked.ranks h ?_, ?_, by simp⟩
  · rw [eq]
    exact .tail _ mem
  have sorted := tracked.sorted
  rw [eq] at sorted
  exact (pairwise_cons.mp sorted).2

theorem place_lt (run : c.point = .running)
    (entered : c.tracker.enter (rank l) l = .ok tracker)
    (inOrder : ∀ g ∈ c.guards, rank g = rank l → order g < order l) {g : Nat} (guard : g ∈ c.guards)
    : place rank order g < place rank order l := by
  obtain ⟨h, mem, eq⟩ := tracked.guard_rank run guard
  have below : rank g ≤ rank l := eq ▸ (tracked.entered entered).2 h mem
  rw [place, place, Prod.Lex.toLex_lt_toLex]
  rcases below.lt_or_eq with lower | equal
  · exact .inl lower
  · exact .inr ⟨equal, inOrder g guard equal⟩

theorem step {cpu : Nat} {action : Action} {c' : Cpu} {locks locks' : Locks}
    {events : List Empty}
    (inOrder : ∀ l, action = .lock l → ∀ g ∈ c.guards, rank g = rank l → order g < order l)
    (taken : ranked rank cpu action c locks = some (c', locks', events)) :
    Tracked rank order c' := by
  unfold ranked at taken
  split at taken
  next l run =>
    split at taken
    · cases taken
    next tracker entered =>
    cases taken
    have entered := withRankTracker_ok entered
    exact tracked.push run entered rfl fun _ _ g guard => tracked.place_lt run entered (inOrder l rfl) guard
  next l run =>
    split at taken
    · cases taken
    next tracker entered =>
    cases taken
    exact tracked.push run (withRankTracker_ok entered) rfl (by simp)
  next l ticket spinning =>
    split at taken
    · cases taken
      exact tracked.acquire (by rw [spinning]; rfl)
    · cases taken
  next l serving trying =>
    split at taken
    · cases taken
      exact tracked.acquire (by rw [trying]; rfl)
    split at taken
    · cases taken
    next tracker left =>
    cases taken
    exact tracked.pop (withRankTracker_ok left) (by rw [trying]; rfl)
  next l run =>
    split at taken
    · split at taken
      · cases taken
      next tracker left =>
      cases taken
      -- the tracker only releases the latest record, so the dropped guard is the latest one
      have left := withRankTracker_ok left
      have known := tracked.recorded
      rw [run, Point.pending, nil_append, leave_ok left, map_cons] at known
      refine tracked.pop left ?_
      rw [run, Point.pending, nil_append, ← known, erase_cons_head]
    · cases taken
  · cases taken

end Tracked

theorem tracked_of_run {m : Machine}
    (run : Runs (Program.Step (ranked rank)) (InOrder rank order) boot m) (cpu : Nat) :
    Tracked rank order (m.threads cpu) := by
  refine Runs.invariant (P := fun m : Machine => ∀ cpu, Tracked rank order (m.threads cpu)) ?_ ?_ run cpu
  · intro cpu
    exact ⟨rfl, by simp [boot, new], .nil, by simp [boot]⟩
  rintro ⟨i, action⟩ m m' tracked inOrder step cpu
  obtain ⟨events, taken, others, -⟩ := step.inversion
  by_cases eq : cpu = i
  · subst eq
    exact (tracked cpu).step inOrder taken
  rw [others cpu eq]
  exact tracked cpu

/-- Along a wait the lock waited for moves on to a later place, or the ticket comes closer. -/
theorem waitsFor_advances {m : Machine} (tracked : ∀ cpu, Tracked rank order (m.threads cpu))
    {c d l' : Nat} {ticket ticket' : BitVec 32} (waits : Waits m c l ticket)
    (next : Waits m d l' ticket') (waitsFor : WaitsFor m c d) :
    place rank order l < place rank order l' ∨
      l = l' ∧ ticket' - (m.shared l).nowServing < ticket - (m.shared l).nowServing := by
  obtain ⟨lock, mine, ⟨point, -⟩, held⟩ := waitsFor
  rw [waits.1] at point
  cases point
  rcases held with guard | ⟨old, spinning, closer⟩
  · exact .inl ((tracked d).last l' ticket' next.1 l guard)
  rw [next.1] at spinning
  cases spinning
  exact .inr ⟨rfl, closer⟩

/-- CPUs that take the locks of each rank in one order never deadlock. -/
theorem ordered_runs_never_deadlock (rank order : Nat → Nat) {m : Machine}
    (run : Runs (Program.Step (ranked rank)) (InOrder rank order) boot m) (group : Finset Nat) :
    ¬Deadlocked m group := by
  rintro ⟨nonempty, blocked⟩
  have tracked := tracked_of_run run
  have waiting : ∀ c ∈ group, ∃ l ticket, Waits m c l ticket := by
    intro c mem
    obtain ⟨d, -, -, l, ticket, waits, -⟩ := blocked c mem
    exact ⟨l, ticket, waits⟩
  -- the member whose lock is placed last, and among those the one whose ticket is closest
  let measure (c : Nat) : (Nat ×ₗ Nat) ×ₗ Nat :=
    match (m.threads c).point with
    | .spinning l ticket =>
      toLex (place rank order l, 2 ^ 32 - (ticket - (m.shared l).nowServing).toNat)
    | _ => toLex (toLex (0, 0), 0)
  obtain ⟨c, mem, greatest⟩ := group.exists_max_image measure nonempty
  obtain ⟨d, other, -, waitsFor⟩ := blocked c mem
  obtain ⟨l, ticket, waits⟩ := waiting c mem
  obtain ⟨l', ticket', next⟩ := waiting d other
  have bound := greatest d other
  simp only [measure, waits.1, next.1] at bound
  rcases waitsFor_advances tracked waits next waitsFor with later | ⟨rfl, closer⟩
  · rcases Prod.Lex.toLex_le_toLex.mp bound with lower | ⟨equal, -⟩
    · exact absurd later lower.asymm
    · exact absurd later equal.symm.not_lt
  rcases Prod.Lex.toLex_le_toLex.mp bound with lower | ⟨-, distance⟩
  · exact lower.false
  have closer : _ < _ := BitVec.lt_def.mp closer
  have small := (ticket - (m.shared l).nowServing).isLt
  dsimp only at distance
  omega

end

theorem ordered_runs_never_deadlock_contended :
    ∃ m : Machine, (∃ ticket, Waits m 1 3 ticket) ∧ ∀ group, ¬Deadlocked m group := by
  refine ⟨_, ?_, ordered_runs_never_deadlock id id
    (.next (k := ⟨1, .lock 3⟩) (.next (k := ⟨0, .proceed⟩) (.one (k := ⟨0, .lock 3⟩)
      (by rintro l - g ⟨⟩) ⟨_, _, _, rfl, rfl⟩) (by rintro l ⟨⟩) ⟨_, _, _, rfl, rfl⟩)
      (by rintro l - g ⟨⟩) ⟨_, _, _, rfl, rfl⟩)⟩
  exact ⟨1, rfl, by decide⟩

/-- Two CPUs take two locks of one rank the other way round; the trackers report nothing. -/
theorem equal_ranks_deadlock :
    ∃ (rank : Nat → Nat) (m : Machine),
      Runs (Program.Step (ranked rank)) (fun _ _ => True) boot m ∧ Deadlocked m {0, 1} := by
  refine ⟨fun _ => 60, _, Program.run_runs (show Program.run _ [⟨0, .lock 0⟩, ⟨0, .proceed⟩,
    ⟨1, .lock 1⟩, ⟨1, .proceed⟩, ⟨0, .lock 1⟩, ⟨1, .lock 0⟩] boot = some _ from rfl), ⟨0, by simp⟩, ?_⟩
  intro c mem
  rcases Finset.mem_insert.mp mem with rfl | second
  · exact ⟨1, by simp, by simp, 1, 1, ⟨rfl, by decide⟩, .inl (by decide)⟩
  cases Finset.mem_singleton.mp second
  exact ⟨0, by simp, by simp, 0, 1, ⟨rfl, by decide⟩, .inl (by decide)⟩

end HuesOS.Sync
