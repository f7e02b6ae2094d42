import HuesOS.Sync.RankedLocks
import Mathlib

/-! Mutual exclusion of the ticket locks. -/

namespace HuesOS.Sync
open List Function RankTracker Finset

/-- The tickets between the one that is served and the next one have been given to the CPUs of
`who`, one to each. -/
structure Served (claims : Nat → BitVec 32 → Prop) (lock : TicketLock) (who : Finset Nat) : Prop where
  few : who ⊆ Finset.range maxRankTrackers
  card : who.card = (lock.nextTicket - lock.nowServing).toNat
  given : ∀ {c t}, claims c t → c ∈ who ∧ t - lock.nowServing < lock.nextTicket - lock.nowServing
  mine : ∀ {c}, c ∈ who → ∃ t, claims c t
  apart : ∀ {c d t}, claims c t → claims d t → c = d

namespace Served
variable {claims claims' : Nat → BitVec 32 → Prop} {lock : TicketLock} {who : Finset Nat} {c : Nat}

theorem outstanding (h : Served claims lock who) : (lock.nextTicket - lock.nowServing).toNat ≤ 64 :=
  h.card ▸ (Finset.card_le_card h.few).trans_eq (Finset.card_range _)

theorem join (h : Served claims lock who) (lt : c < maxRankTrackers) (out : ∀ t, ¬ claims c t)
    (new : ∀ d t, claims' d t ↔ claims d t ∨ d = c ∧ t = lock.nextTicket) :
    Served claims' { lock with nextTicket := lock.nextTicket + 1 } (insert c who) := by
  have bound := h.outstanding
  refine ⟨insert_subset (Finset.mem_range.mpr lt) h.few, ?_, fun {d t} claim => ?_,
    fun {d} mem => ?_, fun {d e t} one two => ?_⟩
  · rw [card_insert_of_notMem fun mem => (h.mine mem).elim out, h.card]
    bv_omega
  · rcases (new d t).mp claim with old | ⟨rfl, rfl⟩
    · have := (h.given old).2
      exact ⟨mem_insert_of_mem (h.given old).1, by bv_omega⟩
    · exact ⟨mem_insert_self .., by bv_omega⟩
  · rcases Finset.mem_insert.mp mem with rfl | mem
    · exact ⟨_, (new d _).mpr (.inr ⟨rfl, rfl⟩)⟩
    · exact (h.mine mem).imp fun t claim => (new d t).mpr (.inl claim)
  · rcases (new d t).mp one with old | ⟨rfl, rfl⟩ <;> rcases (new e _).mp two with old' | ⟨rfl, eq⟩
    · exact h.apart old old'
    · exact absurd (h.given (eq ▸ old)).2 (by bv_omega)
    · exact absurd (h.given old').2 (by bv_omega)
    · rfl

theorem leave (h : Served claims lock who) (served : claims c lock.nowServing)
    (left : ∀ d t, claims' d t ↔ claims d t ∧ d ≠ c) :
    Served claims' lock.unlock (who.erase c) := by
  have bound := h.outstanding
  refine ⟨(Finset.erase_subset ..).trans h.few, ?_, fun {d t} claim => ?_, fun {d} mem => ?_, fun one two => ?_⟩
  · have := (h.given served).2
    rw [card_erase_of_mem (h.given served).1, h.card, TicketLock.unlock]
    bv_omega
  · obtain ⟨claim, other⟩ := (left d t).mp claim
    have later : t ≠ lock.nowServing := fun eq => other (h.apart claim (eq ▸ served))
    have := (h.given claim).2
    exact ⟨mem_erase_of_ne_of_mem other (h.given claim).1, by rw [TicketLock.unlock]; bv_omega⟩
  · obtain ⟨other, mem⟩ := Finset.mem_erase.mp mem
    exact (h.mine mem).imp fun t claim => (left d t).mpr ⟨claim, other⟩
  · exact h.apart ((left _ _).mp one).1 ((left _ _).mp two).1

end Served

/-- The tracker of a CPU has every lock that the CPU has or is about to take, once. -/
structure Recorded (cpu : Nat) (tracker : RankTracker) (locks : List Nat) : Prop where
  held : tracker.held.map (·.identity) = locks
  nodup : locks.Nodup
  tracked : locks ≠ [] → cpu < maxRankTrackers

variable {rank : Nat → Nat} {cpu l : Nat} {tracker tracker' : RankTracker} {locks : List Nat}

theorem Recorded.enter (h : Recorded cpu tracker locks)
    (entered : withRankTracker cpu (tracker.enter (rank l) l) = .ok tracker') :
    Recorded cpu tracker' (l :: locks) := by
  have ok := withRankTracker_ok entered
  refine ⟨by rw [(enter_ok ok).1, List.map_cons, h.held], nodup_cons.mpr ⟨?_, h.nodup⟩, fun _ => ?_⟩
  · rw [RankTracker.enter] at ok
    rw [← h.held]
    grind
  · by_contra ge
    rw [withRankTracker, if_neg ge] at entered
    cases entered

theorem Recorded.leave (h : Recorded cpu tracker locks)
    (left : withRankTracker cpu (tracker.leave (rank l) l) = .ok tracker') :
    ∃ rest, locks = l :: rest ∧ Recorded cpu tracker' rest := by
  obtain ⟨held, nodup, tracked⟩ := h
  rw [leave_ok (withRankTracker_ok left), List.map_cons] at held
  subst held
  exact ⟨_, rfl, rfl, (nodup_cons.mp nodup).2, fun _ => tracked nofun⟩

/-- CPU `c` has the ticket `t` of the lock `l`; a guard stands for the ticket that is served. -/
def Claims (m : Machine) (l c : Nat) (t : BitVec 32) : Prop :=
  l ∈ (m.threads c).guards ∧ t = (m.shared l).nowServing ∨ (m.threads c).point = .spinning l t

/-- The trackers know what the CPUs have, and every lock has given its tickets out one by one. -/
structure Exclusive (m : Machine) : Prop where
  recorded : ∀ c, Recorded c (m.threads c).tracker ((m.threads c).point.pending ++ (m.threads c).guards)
  served : ∀ l, ∃ who, Served (Claims m l) (m.shared l) who

namespace Exclusive
variable {m m' : Machine} (h : Exclusive m) (others : ∀ d, d ≠ cpu → m'.threads d = m.threads d)
include h others

theorem keep (alone : m'.shared l = m.shared l) (same : ∀ t, Claims m' l cpu t ↔ Claims m l cpu t) :
    ∃ who, Served (Claims m' l) (m'.shared l) who := by
  have eq : Claims m' l = Claims m l := by
    funext d t
    by_cases own : d = cpu
    · exact own ▸ propext (same t)
    · rw [Claims, Claims, others d own, alone]
  rw [eq, alone]
  exact h.served l

theorem change {lock : TicketLock} (next : m'.shared = update m.shared l lock)
    (here : ∀ who, Served (Claims m l) (m.shared l) who → ∃ who', Served (Claims m' l) lock who')
    (elsewhere : ∀ l' ≠ l, ∀ t, Claims m' l' cpu t ↔ Claims m l' cpu t) (l' : Nat) :
    ∃ who, Served (Claims m' l') (m'.shared l') who := by
  by_cases same : l' = l
  · subst same
    obtain ⟨who, served⟩ := h.served l'
    rw [next, update_self]
    exact here who served
  · exact h.keep others (by rw [next, update_of_ne same]) (elsewhere l' same)

theorem join (lt : cpu < maxRankTrackers) (out : ∀ t, ¬ Claims m l cpu t)
    (next : m'.shared = update m.shared l { m.shared l with nextTicket := (m.shared l).nextTicket + 1 })
    (mine : ∀ l' t, Claims m' l' cpu t ↔ Claims m l' cpu t ∨ l' = l ∧ t = (m.shared l).nextTicket) :
    ∀ l', ∃ who, Served (Claims m' l') (m'.shared l') who := by
  refine h.change others next (fun who served => ⟨_, served.join lt out fun d t => ?_⟩)
    fun l' other t => by simp [mine, other]
  by_cases own : d = cpu
  · subst own
    simpa using mine l t
  · simp [Claims, others d own, own, next]

theorem release (held : l ∈ (m.threads cpu).guards) (next : m'.shared = update m.shared l (m.shared l).unlock)
    (mine : ∀ l' t, Claims m' l' cpu t ↔ Claims m l' cpu t ∧ l' ≠ l) :
    ∀ l', ∃ who, Served (Claims m' l') (m'.shared l') who := by
  have own : Claims m l cpu (m.shared l).nowServing := .inl ⟨held, rfl⟩
  refine h.change others next (fun who served => ⟨_, served.leave own fun d t => ?_⟩)
    fun l' other t => by simp [mine, other]
  by_cases same : d = cpu
  · subst same
    simpa using mine l t
  · have free : l ∉ (m.threads d).guards := fun held => same (served.apart (.inl ⟨held, rfl⟩) own)
    simp [Claims, others d same, same, free]

end Exclusive

theorem Exclusive.step {m : Machine} {action : Action} {c' : Cpu} {locks' : Locks} {events log : List Empty}
    (h : Exclusive m) (inTime : ∀ l serving, (m.threads cpu).point = .trying l serving →
      (m.shared l).nextTicket = serving → (m.shared l).nowServing = serving)
    (taken : ranked rank cpu action (m.threads cpu) m.shared = some (c', locks', events)) :
    Exclusive ⟨locks', update m.threads cpu c', log⟩ := by
  have others : ∀ d, d ≠ cpu → update m.threads cpu c' d = m.threads d := fun d other => update_of_ne other ..
  have recorded := h.recorded cpu
  suffices both : Recorded cpu c'.tracker (c'.point.pending ++ c'.guards) ∧ ∀ l, ∃ who,
      Served (Claims ⟨locks', update m.threads cpu c', log⟩ l) (locks' l) who by
    refine ⟨fun d => ?_, both.2⟩
    dsimp only
    by_cases own : d = cpu
    · subst own
      rw [update_self]
      exact both.1
    · rw [others d own]
      exact h.recorded d
  unfold ranked at taken
  split at taken
  -- a ticket is drawn
  next l run =>
    split at taken
    · cases taken
    next tracker entered =>
    cases taken
    rw [run] at recorded
    have entering := recorded.enter entered
    have fresh : l ∉ (m.threads cpu).guards := (nodup_cons.mp entering.nodup).1
    refine ⟨entering, h.join others (entering.tracked nofun) (by simp [Claims, run, fresh]) rfl fun l' t => ?_⟩
    simp only [Claims, run, update_self]
    grind
  -- `try_lock` looks at the ticket that is served
  next l run =>
    split at taken
    · cases taken
    next tracker entered =>
    cases taken
    rw [run] at recorded
    exact ⟨recorded.enter entered, fun l => h.keep others rfl fun t => by simp [Claims, run]⟩
  -- the ticket is served
  next l ticket spinning =>
    split at taken
    next served =>
      cases taken
      rw [spinning] at recorded
      refine ⟨recorded, fun l => h.keep others rfl fun t => ?_⟩
      simp only [Claims, spinning, update_self]
      grind
    · cases taken
  -- `try_lock` takes the next ticket, which is served at once, or gives up
  next l serving trying =>
    rw [trying] at recorded
    split at taken
    next next =>
      cases taken
      have fresh : l ∉ (m.threads cpu).guards := (nodup_cons.mp recorded.nodup).1
      have served := inTime l serving trying next
      refine ⟨recorded, h.join (l := l) others (recorded.tracked nofun) (by simp [Claims, trying, fresh])
        (by rw [next]) fun l' t => ?_⟩
      simp only [Claims, trying, update_self]
      grind
    split at taken
    · cases taken
    next tracker left =>
    cases taken
    obtain ⟨rest, eq, leaving⟩ := recorded.leave left
    cases eq
    exact ⟨leaving, fun l => h.keep others rfl fun t => by simp [Claims, trying]⟩
  -- a guard is dropped
  next l run =>
    split at taken
    next mem =>
      split at taken
      · cases taken
      next tracker left =>
      cases taken
      rw [run, Point.pending, nil_append] at recorded
      have nodup := recorded.nodup
      obtain ⟨rest, eq, leaving⟩ := recorded.leave left
      rw [eq] at nodup
      rw [eq, erase_cons_head] at others ⊢
      refine ⟨leaving, h.release others mem rfl fun l' t => ?_⟩
      simp only [Claims, run, eq, update_self]
      grind
    · cases taken
  · cases taken

/-- What one step does to a lock: nothing, or it gives out a ticket, or a guard is dropped. -/
theorem ranked_lock {action : Action} {c c' : Cpu} {locks locks' : Locks} {events : List Empty}
    (taken : ranked rank cpu action c locks = some (c', locks', events)) (l : Nat) :
    locks' l = locks l ∨ locks' l = { locks l with nextTicket := (locks l).nextTicket + 1 } ∨
      l ∈ c.guards ∧ locks' l = (locks l).unlock := by
  unfold ranked at taken
  repeat' split at taken
  all_goals cases taken
  all_goals first | exact .inl rfl | (rw [update_apply]; grind)

/-- A CPU stands before the compare-and-exchange only after the load of the same `try_lock`. -/
theorem ranked_trying {action : Action} {c c' : Cpu} {locks locks' : Locks} {events : List Empty}
    (taken : ranked rank cpu action c locks = some (c', locks', events)) {serving : BitVec 32}
    (trying : c'.point = .trying l serving) :
    action = .tryLock l ∧ serving = (locks l).nowServing ∧ locks' = locks := by
  unfold ranked at taken
  grind

/-- The machine with a count of the tickets that each lock has given out, and for each CPU the count
at the load of its last `try_lock`. -/
structure Watched where
  machine : Machine
  drawn : Nat → Nat
  seen : Nat → Nat

namespace Watched

def boot : Watched := ⟨Sync.boot, fun _ => 0, fun _ => 0⟩

def take (rank : Nat → Nat) (w : Watched) (act : (_ : Nat) × Action) : Option Watched := do
  let (c, locks, events) ← ranked rank act.1 act.2 (w.machine.threads act.1) w.machine.shared
  return {
    machine := ⟨locks, update w.machine.threads act.1 c, events ++ w.machine.log⟩
    drawn := fun l =>
      if (locks l).nextTicket = (w.machine.shared l).nextTicket then w.drawn l else w.drawn l + 1
    seen := match act.2 with
      | .tryLock l => update w.seen act.1 (w.drawn l)
      | _ => w.seen }

/-- Between the load of a `try_lock` and its compare-and-exchange fewer tickets of the lock are given
out than it takes to come round with those that were out at the load. -/
def InTime (act : (_ : Nat) × Action) (w : Watched) : Prop :=
  match (w.machine.threads act.1).point with
  | .trying l _ => w.drawn l - w.seen act.1 < 2 ^ 32 - maxRankTrackers
  | _ => True

instance {act : (_ : Nat) × Action} {w : Watched} : Decidable (InTime act w) := by
  unfold InTime
  split <;> infer_instance

/-- Since the load of a `try_lock`, with `k` tickets out, the next ticket has moved on by those given
out, and no more than these and the `k` are out now. -/
structure Looked (lock : TicketLock) (serving : BitVec 32) (k given : Nat) : Prop where
  few : k ≤ maxRankTrackers
  moved : lock.nextTicket = serving + BitVec.ofNat 32 (k + given)
  out : (lock.nextTicket - lock.nowServing).toNat ≤ k + given

theorem Looked.served {lock : TicketLock} {serving : BitVec 32} {k given : Nat}
    (looked : Looked lock serving k given) (inTime : given < 2 ^ 32 - maxRankTrackers)
    (free : lock.nextTicket = serving) : lock.nowServing = serving := by
  obtain ⟨few, moved, out⟩ := looked
  have zero : k + given = 0 := by
    rw [maxRankTrackers] at few inTime
    rw [free] at moved
    bv_omega
  bv_omega

/-- Every CPU that is before its compare-and-exchange has looked at the lock at its last load. -/
structure Counted (w : Watched) : Prop where
  exclusive : Exclusive w.machine
  seen : ∀ cpu l serving, (w.machine.threads cpu).point = .trying l serving →
    w.seen cpu ≤ w.drawn l ∧ ∃ k, Looked (w.machine.shared l) serving k (w.drawn l - w.seen cpu)

variable {w w' : Watched}

theorem Counted.step {act : (_ : Nat) × Action} (counted : Counted w) (inTime : InTime act w)
    (step : w.take rank act = some w') : Counted w' := by
  obtain ⟨cpu, action⟩ := act
  obtain ⟨⟨c', locks', events⟩, taken, next⟩ := Option.bind_eq_some_iff.mp step
  cases next
  refine ⟨?_, fun d l serving trying => ?_⟩
  · refine counted.exclusive.step (fun l serving trying free => ?_) taken
    obtain ⟨-, k, looked⟩ := counted.seen cpu l serving trying
    rw [InTime, trying] at inTime
    exact looked.served inTime free
  dsimp only at trying taken ⊢
  by_cases own : d = cpu
  -- the load itself: the tickets that are out belong to different CPUs
  · subst own
    rw [update_self] at trying
    obtain ⟨rfl, rfl, same⟩ := ranked_trying taken trying
    obtain ⟨who, served⟩ := counted.exclusive.served l
    dsimp only
    rw [update_self, same, if_pos rfl, Nat.sub_self]
    exact ⟨le_rfl, _, served.outstanding, by bv_omega, le_rfl⟩
  -- a step of another CPU
  rw [update_of_ne own] at trying
  have eqSeen : (match action with
      | .tryLock l => update w.seen cpu (w.drawn l)
      | _ => w.seen) d = w.seen d := by
    split
    · exact update_of_ne own ..
    · rfl
  obtain ⟨le, k, few, moved, out⟩ := counted.seen d l serving trying
  rw [eqSeen]
  rcases ranked_lock taken l with same | given | ⟨held, freed⟩
  · rw [same, if_pos rfl]
    exact ⟨le, k, few, moved, out⟩
  · have ne : (w.machine.shared l).nextTicket + 1 ≠ (w.machine.shared l).nextTicket := by bv_omega
    rw [given, if_neg ne, Nat.sub_add_comm le]
    refine ⟨le.trans (Nat.le_add_right ..), k, few, ?_, ?_⟩
    · dsimp only
      rw [moved, BitVec.add_assoc, ← Nat.add_assoc, BitVec.ofNat_add (k + _)]
      rfl
    · dsimp only
      bv_omega
  · obtain ⟨who, served⟩ := counted.exclusive.served l
    have waiting := (served.given (.inl ⟨held, rfl⟩)).2
    rw [freed, TicketLock.unlock, if_pos rfl]
    refine ⟨le, k, few, moved, ?_⟩
    dsimp only
    bv_omega

end Watched

/-- As long as every `try_lock` is in time, no two CPUs ever have the same lock. -/
theorem mutual_exclusion (rank : Nat → Nat) {w : Watched}
    (run : Runs (fun act w w' => w.take rank act = some w') Watched.InTime Watched.boot w) (c d l : Nat)
    (first : l ∈ (w.machine.threads c).guards) (second : l ∈ (w.machine.threads d).guards) : c = d := by
  have none (l c : Nat) (t : BitVec 32) : ¬ Claims boot l c t := by simp [Claims, boot]
  have start : Exclusive boot := by
    refine ⟨fun _ => ⟨rfl, nodup_nil, fun ne => absurd rfl ne⟩, fun l => ⟨∅, empty_subset _, ?_,
      fun claim => (none _ _ _ claim).elim, fun mem => absurd mem (Finset.notMem_empty _),
      fun claim => (none _ _ _ claim).elim⟩⟩
    simp [boot, TicketLock.new]
  have counted : Watched.Counted w :=
    run.invariant (P := Watched.Counted) ⟨start, by simp [Watched.boot, boot]⟩ Watched.Counted.step
  obtain ⟨who, served⟩ := counted.exclusive.served l
  exact served.apart (.inl ⟨first, rfl⟩) (.inl ⟨second, rfl⟩)

/-- CPU 1 waits for a lock of CPU 0 while CPU 2 tries it in vain; then it has it alone. -/
theorem mutual_exclusion_contended :
    ∃ w : Watched, (w.machine.threads 2).guards = [] ∧ 3 ∈ (w.machine.threads 1).guards ∧
      ∀ d, 3 ∈ (w.machine.threads d).guards → 1 = d :=
  ⟨_, by decide, by decide, fun d => mutual_exclusion id (.of_foldlM_if
    [⟨0, .lock 3⟩, ⟨0, .proceed⟩, ⟨2, .tryLock 3⟩, ⟨1, .lock 3⟩, ⟨2, .proceed⟩, ⟨0, .drop 3⟩,
      ⟨1, .proceed⟩] rfl) 1 d 3 (by decide)⟩

end HuesOS.Sync
