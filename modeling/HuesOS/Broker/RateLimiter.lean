import Mathlib

namespace HuesOS.Broker
open List

structure RateLimiter where
  windowTicks : Nat
  maxEvents : Nat
  windowStart : Nat
  count : Nat

namespace RateLimiter

def new (windowTicks maxEvents : Nat) : RateLimiter := ⟨windowTicks, maxEvents, 0, 0⟩

def windowEnd (l : RateLimiter) : Nat := min (l.windowStart + l.windowTicks) (2 ^ 64 - 1)

def rolled (l : RateLimiter) (now : Nat) : RateLimiter :=
  if l.windowEnd ≤ now then { l with windowStart := now, count := 0 } else l

def tryAcquire (l : RateLimiter) (now : Nat) : Bool × RateLimiter :=
  let l := l.rolled now
  if l.count < l.maxEvents then (true, { l with count := l.count + 1 }) else (false, l)

end RateLimiter

/-- No interval of `w` ticks has more than `m` of the events. -/
def Bounded (w m : Nat) (events : List Nat) : Prop :=
  ∀ t, events.countP (fun e => t ≤ e ∧ e < t + w) ≤ m

/-- A limiter with the clock and the ticks of the events it permitted. -/
structure LimiterRun where
  limiter : RateLimiter
  clock : Nat
  permitted : List Nat

namespace LimiterRun

def start (w m : Nat) : LimiterRun := ⟨.new w m, 0, []⟩

/-- An attempt that comes `delay` ticks after the one before. -/
def attempt (r : LimiterRun) (delay : Nat) : LimiterRun :=
  let now := r.clock + delay
  match r.limiter.tryAcquire now with
  | (true, limiter) => ⟨limiter, now, now :: r.permitted⟩
  | (false, limiter) => ⟨limiter, now, r.permitted⟩

/-- The limits for which a count that starts anew with each window is enough: nothing is permitted,
an interval lies in one window, or no window ends. -/
def Sufficient (w m : Nat) : Prop := m = 0 ∨ w ≤ 1 ∨ 2 ^ 64 - 1 ≤ w

structure Counted (w m : Nat) (l : RateLimiter) (now : Nat) (events : List Nat) : Prop where
  ticks : l.windowTicks = w
  most : l.maxEvents = m
  begun : l.windowStart ≤ now
  soon : ∀ e ∈ events, e < l.windowStart + w
  counted : events.countP (fun e => l.windowStart ≤ e) ≤ l.count
  used : l.count ≤ m
  first : 2 ^ 64 - 1 ≤ w → l.windowStart = 0
  bounded : Sufficient w m → Bounded w m events

variable {w m now later : Nat} {l : RateLimiter} {events : List Nat}

namespace Counted

theorem rolled (h : Counted w m l now events) (nonempty : 0 < w) (le : now ≤ later)
    (lt : later < 2 ^ 64 - 1) : Counted w m (l.rolled later) later events := by
  rw [RateLimiter.rolled]
  split
  next ended =>
    have past : l.windowStart + w ≤ later := by
      rw [RateLimiter.windowEnd, h.ticks] at ended
      omega
    have old : ∀ e ∈ events, e < later := fun e mem => (h.soon e mem).trans_le past
    refine ⟨h.ticks, h.most, le_rfl, fun e mem => (old e mem).trans_le (Nat.le_add_right _ _), ?_,
      Nat.zero_le m, fun large => by omega, h.bounded⟩
    exact (countP_eq_zero.mpr fun e mem => by simpa using old e mem).le
  · exact ⟨h.ticks, h.most, h.begun.trans le, h.soon, h.counted, h.used, h.first, h.bounded⟩

/-- If the limit suffices, the events of an interval with the present tick are of this window. -/
theorem permit (h : Counted w m l now events) (inside : now < l.windowStart + w) (room : l.count < m) :
    Counted w m { l with count := l.count + 1 } now (now :: events) := by
  refine ⟨h.ticks, h.most, h.begun, forall_mem_cons.mpr ⟨inside, h.soon⟩, ?_, room, h.first,
    fun enough t => ?_⟩
  · rw [countP_cons_of_pos (by simpa using h.begun)]
    exact Nat.succ_le_succ h.counted
  by_cases here : t ≤ now ∧ now < t + w
  · rw [countP_cons_of_pos (by simpa using here)]
    have window : events.countP (fun e => t ≤ e ∧ e < t + w) ≤
        events.countP fun e => l.windowStart ≤ e := by
      refine countP_mono_left fun e _ at_ => ?_
      have begun := h.begun
      have first := h.first
      simp only [decide_eq_true_eq] at at_ ⊢
      rcases enough with none | one | large <;> omega
    exact Nat.succ_le_of_lt ((window.trans h.counted).trans_lt room)
  · rw [countP_cons_of_neg (by simpa using here)]
    exact h.bounded enough t

end Counted

theorem Counted.attempt {r : LimiterRun} {delay : Nat}
    (h : Counted w m r.limiter r.clock r.permitted) (nonempty : 0 < w)
    (lt : r.clock + delay < 2 ^ 64 - 1) :
    Counted w m (r.attempt delay).limiter (r.attempt delay).clock (r.attempt delay).permitted := by
  have next := h.rolled nonempty (Nat.le_add_right r.clock delay) lt
  have inside : r.clock + delay < (r.limiter.rolled (r.clock + delay)).windowStart + w := by
    rw [RateLimiter.rolled]
    split
    · exact Nat.lt_add_of_pos_right nonempty
    next open_ =>
      rw [RateLimiter.windowEnd, h.ticks] at open_
      omega
  rw [LimiterRun.attempt, RateLimiter.tryAcquire]
  by_cases room : (r.limiter.rolled (r.clock + delay)).count < (r.limiter.rolled (r.clock + delay)).maxEvents
  · simp only [if_pos room]
    exact next.permit inside (next.most ▸ room)
  · simp only [if_neg room]
    exact next

theorem Counted.run {r : LimiterRun} (delays : List Nat)
    (h : Counted w m r.limiter r.clock r.permitted) (nonempty : 0 < w)
    (lt : r.clock + delays.sum < 2 ^ 64 - 1) :
    Sufficient w m → Bounded w m (delays.foldl LimiterRun.attempt r).permitted := by
  induction delays generalizing r with
  | nil => exact h.bounded
  | cons delay rest ih =>
    rw [sum_cons] at lt
    have clock : (r.attempt delay).clock = r.clock + delay := by
      rw [LimiterRun.attempt]
      split <;> rfl
    exact ih (h.attempt nonempty (by omega)) (by omega)

/-- All the events that the first window allows, at one of its ticks. -/
theorem fill {k used : Nat} (lt : now < w) (early : now < 2 ^ 64 - 1) (room : used + k ≤ m) :
    (replicate k 0).foldl attempt ⟨⟨w, m, 0, used⟩, now, replicate used now⟩ =
      ⟨⟨w, m, 0, used + k⟩, now, replicate (used + k) now⟩ := by
  induction k generalizing used with
  | zero => rfl
  | succ k ih =>
    have stays : (RateLimiter.mk w m 0 used).rolled now = ⟨w, m, 0, used⟩ :=
      if_neg (by simp only [RateLimiter.windowEnd]; omega)
    have one : attempt ⟨⟨w, m, 0, used⟩, now, replicate used now⟩ 0 =
        ⟨⟨w, m, 0, used + 1⟩, now, replicate (used + 1) now⟩ := by
      simp only [attempt, RateLimiter.tryAcquire, Nat.add_zero, stays]
      rw [if_pos (by omega)]
      rfl
    rw [replicate_succ, foldl_cons, one, ih (by omega), Nat.add_right_comm, Nat.add_assoc]

end LimiterRun
end HuesOS.Broker
