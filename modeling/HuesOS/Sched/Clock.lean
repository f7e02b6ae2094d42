import Mathlib

namespace HuesOS.Sched

inductive ClockError
  | frequencyOutOfRange | overflow

structure TscClock where
  frequencyHz : Nat
  multiplier : Nat
  shift : Nat

namespace TscClock

def multiplierFor (frequencyHz shift : Nat) : Nat := (10 ^ 9 * 2 ^ shift) ⌈/⌉ frequencyHz

def chooseShift (frequencyHz : Nat) : Nat → Option Nat
  | 0 => none
  | shift + 1 =>
    if multiplierFor frequencyHz (shift + 1) ≤ 2 ^ 64 - 1 then some (shift + 1)
    else chooseShift frequencyHz shift

def fromFrequency (frequencyHz : Nat) : Except ClockError TscClock :=
  if frequencyHz < 1000000 ∨ 10000000000 < frequencyHz then .error .frequencyOutOfRange
  else
    match chooseShift frequencyHz 64 with
    | none => .error .overflow
    | some shift => .ok ⟨frequencyHz, multiplierFor frequencyHz shift, shift⟩

/-- The product has 128 bits; of the shifted product the low 64 are kept. -/
def cyclesToNs (c : TscClock) (cycles : Nat) : Nat := cycles * c.multiplier / 2 ^ c.shift % 2 ^ 64

def nsToCycles (c : TscClock) (ns : Nat) : Nat := min ((ns * c.frequencyHz) ⌈/⌉ 10 ^ 9) (2 ^ 64 - 1)

variable {frequencyHz a b : Nat} {c : TscClock}

theorem mul_ceilDiv_bounds (a : Nat) (positive : 0 < b) : a ≤ b * (a ⌈/⌉ b) ∧ b * (a ⌈/⌉ b) < a + b := by
  have floor := Nat.mul_div_le (a + b - 1) b
  refine ⟨le_smul_ceilDiv positive, ?_⟩
  rw [Nat.ceilDiv_eq_add_pred_div]
  omega

structure Derived (frequencyHz multiplier unit : Nat) : Prop where
  slowest : 1000000 ≤ frequencyHz
  covers : 10 ^ 9 * unit ≤ frequencyHz * multiplier
  close : frequencyHz * multiplier < 10 ^ 9 * unit + frequencyHz
  fits : multiplier < 2 ^ 64
  fine : 2 ^ 54 ≤ unit

theorem chooseShift_spec {start shift : Nat} (slowest : 1000000 ≤ frequencyHz)
    (chosen : chooseShift frequencyHz start = some shift) (high : 54 ≤ start) :
    multiplierFor frequencyHz shift ≤ 2 ^ 64 - 1 ∧ 54 ≤ shift := by
  induction start with
  | zero => omega
  | succ start ih =>
    rw [chooseShift] at chosen
    split at chosen
    next small =>
      cases chosen
      exact ⟨small, high⟩
    next large =>
      refine ih chosen (not_lt.mp fun low => large ?_)
      obtain rfl : start = 53 := by omega
      refine (ceilDiv_le_iff_le_mul (by omega)).mpr ?_
      exact le_trans (by norm_num) (Nat.mul_le_mul_right _ slowest)

theorem fromFrequency_spec (ok : fromFrequency frequencyHz = .ok c) :
    c.frequencyHz = frequencyHz ∧ Derived frequencyHz c.multiplier (2 ^ c.shift) := by
  unfold fromFrequency at ok
  split at ok
  · cases ok
  split at ok
  · cases ok
  next range shift chosen =>
  cases ok
  have positive : 0 < frequencyHz := by omega
  obtain ⟨small, high⟩ := chooseShift_spec (by omega) chosen (by decide)
  obtain ⟨covers, close⟩ := mul_ceilDiv_bounds (10 ^ 9 * 2 ^ shift) positive
  refine ⟨rfl, by omega, covers, close, ?_, ?_⟩
  · exact lt_of_le_of_lt small (by decide)
  · exact Nat.pow_le_pow_right (by decide) high

variable {f m unit x k : Nat}

theorem narrowed (lt : x < 2 ^ 64 * unit) :
    x / unit % 2 ^ 64 = x / unit :=
  Nat.mod_eq_of_lt (Nat.div_lt_of_lt_mul (mul_comm _ unit ▸ lt))

/-- A conversion that passes the range of the clock starts again from zero. -/
theorem wrapped (positive : 0 < unit) (past : 2 ^ 64 * unit ≤ x)
    (near : x < (2 ^ 64 + k) * unit) (small : k ≤ 2 ^ 64) : x / unit % 2 ^ 64 < k := by
  have high := (Nat.le_div_iff_mul_le positive).mpr past
  have low := (Nat.div_lt_iff_lt_mul positive).mpr near
  omega

theorem Derived.ratio_le (h : Derived f m unit) : m ≤ 1000 * unit := by
  by_contra above
  have step : f * (1000 * unit + 1) ≤ f * m := Nat.mul_le_mul_left f (by omega)
  have slow : 1000000 * (1000 * unit) ≤ f * (1000 * unit) := Nat.mul_le_mul_right _ h.slowest
  have close := h.close
  rw [Nat.mul_add_one] at step
  omega

def NeverBackwards (c : TscClock) : Prop :=
  ∀ a b, a ≤ b → b < 2 ^ 64 → c.cyclesToNs a ≤ c.cyclesToNs b

/-- The clock goes back to zero within the range of the counter unless a cycle takes at most a
nanosecond. -/
theorem neverBackwards_iff (accepted : fromFrequency f = .ok c) :
    c.NeverBackwards ↔ 10 ^ 9 ≤ f := by
  obtain ⟨-, h⟩ := fromFrequency_spec accepted
  have positive : 0 < 2 ^ c.shift := Nat.two_pow_pos _
  have ratio := h.ratio_le
  obtain ⟨slowest, covers, close, -, -⟩ := h
  unfold NeverBackwards cyclesToNs
  generalize 2 ^ c.shift = unit at *
  generalize c.multiplier = m at *
  constructor
  · intro forward
    by_contra slow
    -- The first count past the range, and the count before it.
    have pos : 0 < m := Nat.pos_of_ne_zero fun zero => by simp [zero] at covers; omega
    have reaches : 2 ^ 64 * unit ≤ m * (2 ^ 64 - 1) := by
      have := Nat.mul_le_mul_right m (show f ≤ 999999999 by omega)
      omega
    have last := (ceilDiv_le_iff_le_mul pos).mpr reaches
    obtain ⟨past, near⟩ := mul_ceilDiv_bounds (2 ^ 64 * unit) pos
    generalize (2 ^ 64 * unit) ⌈/⌉ m = count at *
    rw [mul_comm m] at past near
    have back := forward (count - 1) count (by omega) (by omega)
    have restarted : count * m / unit % 2 ^ 64 < 1000 := wrapped positive past (by omega) (by decide)
    have late : 2 ^ 64 - 1000 ≤ (count - 1) * m / unit := by
      rw [Nat.le_div_iff_mul_le positive, Nat.sub_one_mul]
      omega
    rw [narrowed (by rw [Nat.sub_one_mul]; omega)] at back
    omega
  · intro fast a b le inside
    have most : m ≤ unit := by
      by_contra above
      have step : f * (unit + 1) ≤ f * m := Nat.mul_le_mul_left f (by omega)
      have := Nat.mul_le_mul_right unit fast
      rw [Nat.mul_add_one] at step
      omega
    have fits : ∀ n, n < 2 ^ 64 → n * m < 2 ^ 64 * unit := fun n small =>
      Nat.mul_lt_mul_of_lt_of_le small most positive
    rw [narrowed (fits a (by omega)), narrowed (fits b inside)]
    exact Nat.div_le_div_right (Nat.mul_le_mul_right m le)

def megahertz : TscClock := ⟨1000000, 1000 * 2 ^ 54, 54⟩

def gigahertz : TscClock := ⟨1000000000, 2 ^ 63, 63⟩

theorem megahertz_accepted : fromFrequency 1000000 = .ok megahertz := by rfl

theorem gigahertz_accepted : fromFrequency 1000000000 = .ok gigahertz := by rfl

theorem gigahertz_neverBackwards : gigahertz.NeverBackwards :=
  (neverBackwards_iff gigahertz_accepted).mpr (by decide)

theorem megahertz_backwards :
    fromFrequency 1000000 = .ok megahertz ∧ ¬megahertz.NeverBackwards := by
  refine ⟨megahertz_accepted, fun forward => ?_⟩
  exact absurd (forward 18446744073709551 18446744073709552 (by decide) (by decide)) (by decide)

/-- Below one unit of cycles the conversion is off by less than a nanosecond. -/
theorem Derived.accurate (h : Derived f m unit) {cycles : Nat} (low : cycles < unit) :
    |((cycles * m / unit % 2 ^ 64 : Nat) : ℚ) - cycles * 10 ^ 9 / f| < 1 := by
  have slow := h.slowest
  have positive : 0 < unit := by omega
  have lt : cycles * m < 2 ^ 64 * unit := by
    have := Nat.mul_lt_mul_of_lt_of_le low h.fits.le (by decide)
    rwa [mul_comm unit] at this
  rw [narrowed lt]
  have floor := Nat.div_mul_le_self (cycles * m) unit
  have ceil := Nat.lt_div_mul_add (a := cycles * m) positive
  generalize cycles * m / unit = ns at *
  have above : cycles * 10 ^ 9 < ns * f + f := by
    refine Nat.lt_of_mul_lt_mul_right (a := unit) ?_
    calc cycles * 10 ^ 9 * unit = cycles * (10 ^ 9 * unit) := by ring
      _ ≤ cycles * (f * m) := Nat.mul_le_mul_left _ h.covers
      _ = f * (cycles * m) := by ring
      _ < f * (ns * unit + unit) := Nat.mul_lt_mul_of_pos_left ceil (by omega)
      _ = (ns * f + f) * unit := by ring
  have below : ns * f < cycles * 10 ^ 9 + f := by
    refine Nat.lt_of_mul_lt_mul_right (a := unit) ?_
    calc ns * f * unit = f * (ns * unit) := by ring
      _ ≤ f * (cycles * m) := Nat.mul_le_mul_left _ floor
      _ = cycles * (f * m) := by ring
      _ ≤ cycles * (10 ^ 9 * unit + f) := Nat.mul_le_mul_left _ h.close.le
      _ = cycles * 10 ^ 9 * unit + cycles * f := by ring
      _ < cycles * 10 ^ 9 * unit + unit * f :=
        Nat.add_lt_add_left (Nat.mul_lt_mul_of_pos_right low (by omega)) _
      _ = (cycles * 10 ^ 9 + f) * unit := by ring
  have pos : (0 : ℚ) < f := by exact_mod_cast (by omega : 0 < f)
  rw [abs_sub_lt_iff, sub_lt_iff_lt_add, sub_lt_iff_lt_add, div_lt_iff₀ pos, ← sub_lt_iff_lt_add',
    lt_div_iff₀ pos]
  constructor
  · have : (ns * f : ℚ) < cycles * 10 ^ 9 + f := by exact_mod_cast below
    linarith
  · have : (cycles * 10 ^ 9 : ℚ) < ns * f + f := by exact_mod_cast above
    linarith

theorem Derived.deadline (h : Derived f m unit) {ns cycles : Nat} (lt : ns < 2 ^ 64)
    (enough : ns * f ≤ 10 ^ 9 * cycles) (tight : 10 ^ 9 * cycles < ns * f + 10 ^ 9)
    (unsaturated : cycles < 2 ^ 64) :
    ns ≤ cycles * m / unit % 2 ^ 64 ↔ cycles * m < 2 ^ 64 * unit := by
  have fine := h.fine
  have positive : 0 < unit := by omega
  have slow := h.slowest
  have reaches : ns * unit ≤ cycles * m := by
    refine Nat.le_of_mul_le_mul_left (c := 10 ^ 9 * f) ?_ (by omega)
    calc 10 ^ 9 * f * (ns * unit) = ns * f * (10 ^ 9 * unit) := by ring
      _ ≤ 10 ^ 9 * cycles * (f * m) := Nat.mul_le_mul enough h.covers
      _ = 10 ^ 9 * f * (cycles * m) := by ring
  have near : cycles * m ≤ (ns + 2024) * unit := by
    refine Nat.le_of_mul_le_mul_left (c := f) ?_ (by omega)
    calc f * (cycles * m) = cycles * (f * m) := by ring
      _ ≤ cycles * (10 ^ 9 * unit + f) := Nat.mul_le_mul_left _ h.close.le
      _ = 10 ^ 9 * cycles * unit + cycles * f := by ring
      _ ≤ (ns * f + 1000 * f) * unit + 1024 * unit * f :=
        Nat.add_le_add (Nat.mul_le_mul_right _ (by omega)) (Nat.mul_le_mul_right _ (by omega))
      _ = f * ((ns + 2024) * unit) := by ring
  constructor
  · intro kept
    by_contra past
    have below : (ns + 2024) * unit < (2 ^ 64 + 2024) * unit := Nat.mul_lt_mul_of_pos_right (by omega) positive
    have restarted := wrapped positive (not_lt.mp past) (near.trans_lt below) (by decide)
    have early : (ns + 2024) * unit ≤ 4048 * unit := Nat.mul_le_mul_right _ (by omega)
    omega
  · intro fits
    rw [narrowed fits]
    exact (Nat.le_div_iff_mul_le positive).mpr reaches

theorem deadline_kept_iff (accepted : fromFrequency f = .ok c) :
    (∀ cycles < 2 ^ c.shift, |(c.cyclesToNs cycles : ℚ) - cycles * 10 ^ 9 / f| < 1) ∧
      ∀ ns < 2 ^ 64, (ns * f) ⌈/⌉ 10 ^ 9 < 2 ^ 64 →
        (ns ≤ c.cyclesToNs (c.nsToCycles ns) ↔
          (ns * f) ⌈/⌉ 10 ^ 9 * c.multiplier < 2 ^ 64 * 2 ^ c.shift) := by
  obtain ⟨frequency, h⟩ := fromFrequency_spec accepted
  refine ⟨fun cycles low => h.accurate low, fun ns inside unsaturated => ?_⟩
  have cycles_eq : c.nsToCycles ns = (ns * f) ⌈/⌉ 10 ^ 9 := by
    rw [nsToCycles, frequency]
    omega
  obtain ⟨enough, tight⟩ := mul_ceilDiv_bounds (ns * f) (b := 10 ^ 9) (by decide)
  rw [cycles_eq, cyclesToNs]
  exact h.deadline inside enough tight unsaturated

theorem megahertz_deadline : 5 ≤ megahertz.cyclesToNs (megahertz.nsToCycles 5) :=
  ((deadline_kept_iff megahertz_accepted).2 5 (by decide) (by decide)).mpr (by decide)

theorem megahertz_early : fromFrequency 1000000 = .ok megahertz ∧
    ((2 ^ 64 - 1) * 1000000) ⌈/⌉ 10 ^ 9 < 2 ^ 64 ∧
    megahertz.cyclesToNs (megahertz.nsToCycles (2 ^ 64 - 1)) < 2 ^ 64 - 1 :=
  ⟨megahertz_accepted, by decide, by decide⟩

end TscClock
end HuesOS.Sched
