import Mathlib.Data.Nat.Bitwise
import Mathlib.Data.Set.Pairwise.Basic
import Mathlib.Tactic.Ring

namespace Dyadic
open Set

@[ext] structure Block where
  exp : Nat
  start : Nat
  deriving DecidableEq

namespace Block

def Covers (b : Block) (p : Nat) : Prop := b.start ≤ p ∧ p < b.start + 2 ^ b.exp

def Aligned (b : Block) : Prop := 2 ^ b.exp ∣ b.start

def Apart (b c : Block) : Prop := ∀ p, b.Covers p → ¬c.Covers p

def buddy (b : Block) : Block := ⟨b.exp, b.start ^^^ 2 ^ b.exp⟩

variable {b c : Block} {p : Nat}

instance : Std.Symm Apart := ⟨fun _ _ apart p first second => apart p second first⟩

theorem covers_start (b : Block) : b.Covers b.start :=
  ⟨le_rfl, Nat.lt_add_of_pos_right (Nat.two_pow_pos _)⟩

theorem Aligned.start_eq (aligned : b.Aligned) (covers : b.Covers p) :
    b.start = 2 ^ b.exp * (p / 2 ^ b.exp) := by
  obtain ⟨m, start⟩ := aligned
  obtain ⟨low, high⟩ := covers
  rw [start] at low high ⊢
  have quotient : p / 2 ^ b.exp = m := by
    apply Nat.div_eq_of_lt_le
    · rwa [Nat.mul_comm]
    · rwa [Nat.succ_mul, Nat.mul_comm]
  rw [quotient]

theorem Aligned.eq_of_exp (hb : b.Aligned) (hc : c.Aligned) (eq : b.exp = c.exp)
    (inB : b.Covers p) (inC : c.Covers p) : b = c := by
  ext
  · exact eq
  · rw [hb.start_eq inB, hc.start_eq inC, eq]

/-- Of two aligned blocks with a common point, the larger contains the smaller. -/
theorem Aligned.nested (hb : b.Aligned) (hc : c.Aligned) (smaller : b.exp ≤ c.exp)
    (inB : b.Covers p) (inC : c.Covers p) :
    c.start ≤ b.start ∧ b.start + 2 ^ b.exp ≤ c.start + 2 ^ c.exp := by
  obtain ⟨d, larger⟩ := Nat.exists_eq_add_of_le smaller
  have sizes : 2 ^ c.exp = 2 ^ b.exp * 2 ^ d := by rw [larger, pow_add]
  rw [hb.start_eq inB, hc.start_eq inC, sizes, ← Nat.div_div_eq_div_mul, Nat.mul_assoc]
  constructor
  · exact Nat.mul_le_mul_left _ (Nat.mul_div_le _ _)
  rw [← Nat.mul_succ, ← Nat.mul_add]
  apply Nat.mul_le_mul_left
  have := Nat.lt_mul_div_succ (p / 2 ^ b.exp) (Nat.two_pow_pos d)
  rw [Nat.mul_succ] at this
  exact this

theorem Aligned.covers_of (hb : b.Aligned) (hc : c.Aligned) (smaller : b.exp ≤ c.exp)
    (inB : b.Covers p) (inC : c.Covers p) {q : Nat} (inside : b.Covers q) : c.Covers q := by
  obtain ⟨low, high⟩ := hb.nested hc smaller inB inC
  exact ⟨low.trans inside.1, inside.2.trans_le high⟩

/-- A block and its buddy are the two halves of an aligned block. -/
theorem Aligned.halves (aligned : b.Aligned) : ∃ x, 2 ^ (b.exp + 1) ∣ x ∧
    (b.start = x ∧ b.buddy.start = x + 2 ^ b.exp ∨ b.start = x + 2 ^ b.exp ∧ b.buddy.start = x) := by
  obtain ⟨m, start⟩ := aligned
  have flipped : b.buddy.start = 2 ^ b.exp * (m ^^^ 1) := by
    rw [buddy, start, Nat.mul_comm, Nat.mul_comm (2 ^ b.exp), ← Nat.shiftLeft_eq,
      ← Nat.shiftLeft_eq, Nat.shiftLeft_xor_distrib, Nat.one_shiftLeft]
  refine ⟨2 ^ (b.exp + 1) * (m / 2), Dvd.intro _ rfl, ?_⟩
  rw [flipped, start, pow_succ, Nat.mul_assoc]
  rcases Nat.even_or_odd' m with ⟨k, rfl | rfl⟩
  · left
    rw [Nat.xor_one_of_even (even_two_mul k), Nat.mul_div_cancel_left k (by decide)]
    exact ⟨rfl, by ring⟩
  right
  rw [Nat.xor_one_of_odd (odd_two_mul_add_one k), Nat.add_sub_cancel]
  have half : (2 * k + 1) / 2 = k := by omega
  rw [half]
  exact ⟨by ring, rfl⟩

theorem Aligned.buddy (aligned : b.Aligned) : b.buddy.Aligned := by
  obtain ⟨x, ⟨m, rfl⟩, starts⟩ := aligned.halves
  change 2 ^ b.exp ∣ b.buddy.start
  rcases starts with ⟨-, h⟩ | ⟨-, h⟩ <;> rw [h, pow_succ, Nat.mul_assoc]
  · exact Nat.dvd_add (Dvd.intro _ rfl) dvd_rfl
  · exact Dvd.intro _ rfl

@[simp] theorem buddy_buddy (b : Block) : b.buddy.buddy = b := by
  ext
  · rfl
  · simp [buddy]

theorem Aligned.buddy_ne (aligned : b.Aligned) : b.buddy ≠ b := by
  obtain ⟨x, -, starts⟩ := aligned.halves
  have positive := Nat.two_pow_pos b.exp
  intro eq
  rw [eq] at starts
  omega

theorem buddy_lower {e x : Nat} (whole : 2 ^ (e + 1) ∣ x) : (⟨e, x⟩ : Block).buddy = ⟨e, x + 2 ^ e⟩ := by
  have aligned : (⟨e, x⟩ : Block).Aligned := (pow_dvd_pow 2 (Nat.le_succ e)).trans whole
  obtain ⟨y, wholeY, starts⟩ := aligned.halves
  ext
  · rfl
  rcases starts with ⟨rfl, upper⟩ | ⟨shifted, -⟩
  · exact upper
  exfalso
  have half : 2 ^ (e + 1) ∣ 2 ^ e := by
    have := Nat.dvd_sub whole wholeY
    rwa [show x = y + 2 ^ e from shifted, Nat.add_sub_cancel_left] at this
  exact absurd (Nat.le_of_dvd (Nat.two_pow_pos e) half) (by
    rw [pow_succ]
    have := Nat.two_pow_pos e
    omega)

end Block

open Block

structure Tiling (n : Nat) (blocks : Set Block) : Prop where
  aligned : ∀ b ∈ blocks, b.Aligned
  inside : ∀ b ∈ blocks, b.start + 2 ^ b.exp ≤ n
  apart : blocks.Pairwise Apart
  covers : ∀ p < n, ∃ b ∈ blocks, b.Covers p

namespace Tiling
variable {n e x : Nat} {T T' U : Set Block} {b c : Block}

theorem eq_of_covers (tiling : Tiling n T) (hb : b ∈ T) (hc : c ∈ T) {p : Nat} (inB : b.Covers p)
    (inC : c.Covers p) : b = c := by
  by_contra ne
  exact tiling.apart hb hc ne p inB inC

theorem covers_halves (e x p : Nat) : (⟨e + 1, x⟩ : Block).Covers p ↔
    (⟨e, x⟩ : Block).Covers p ∨ (⟨e, x + 2 ^ e⟩ : Block).Covers p := by
  simp only [Covers, pow_succ]
  omega

theorem extend (tiling : Tiling n T) (aligned : 2 ^ e ∣ n) : Tiling (n + 2 ^ e) (insert ⟨e, n⟩ T) := by
  constructor
  · rw [forall_mem_insert]
    exact ⟨aligned, tiling.aligned⟩
  · rw [forall_mem_insert]
    exact ⟨le_rfl, fun b mem => (tiling.inside b mem).trans (Nat.le_add_right _ _)⟩
  · rw [pairwise_insert_of_symm]
    refine ⟨tiling.apart, fun b mem _ p inNew inOld => ?_⟩
    exact absurd (inOld.2.trans_le (tiling.inside b mem)) (not_lt.mpr inNew.1)
  intro p small
  by_cases old : p < n
  · obtain ⟨b, mem, inB⟩ := tiling.covers p old
    exact ⟨b, .inr mem, inB⟩
  · exact ⟨_, .inl rfl, not_lt.mp old, small⟩

theorem split (tiling : Tiling n (insert ⟨e + 1, x⟩ U)) (out : ⟨e + 1, x⟩ ∉ U) :
    Tiling n (insert ⟨e, x⟩ (insert ⟨e, x + 2 ^ e⟩ U)) := by
  obtain ⟨aligned, inside, apart, covers⟩ := tiling
  rw [forall_mem_insert] at aligned inside
  rw [pairwise_insert_of_symm] at apart
  have alone : ∀ c ∈ U, Apart ⟨e + 1, x⟩ c := fun c mem => apart.2 c mem fun eq => out (eq ▸ mem)
  have whole : 2 ^ (e + 1) ∣ x := aligned.1
  have low : 2 ^ e ∣ x := (pow_dvd_pow 2 (Nat.le_succ e)).trans whole
  have room : x + 2 ^ (e + 1) ≤ n := inside.1
  constructor
  · rw [forall_mem_insert, forall_mem_insert]
    exact ⟨low, Nat.dvd_add low dvd_rfl, aligned.2⟩
  · rw [forall_mem_insert, forall_mem_insert]
    rw [pow_succ] at room
    exact ⟨by dsimp only; omega, by dsimp only; omega, inside.2⟩
  · rw [pairwise_insert_of_symm, pairwise_insert_of_symm]
    refine ⟨⟨apart.1, fun c mem _ p inHalf => ?_⟩, fun c mem _ p inHalf => ?_⟩
    · exact alone c mem p ((covers_halves e x p).mpr (.inr inHalf))
    rcases mem with rfl | mem
    · simp only [Covers] at inHalf ⊢
      omega
    · exact alone c mem p ((covers_halves e x p).mpr (.inl inHalf))
  intro p small
  obtain ⟨c, rfl | mem, inC⟩ := covers p small
  · rcases (covers_halves e x p).mp inC with first | second
    · exact ⟨_, .inl rfl, first⟩
    · exact ⟨_, .inr (.inl rfl), second⟩
  · exact ⟨c, .inr (.inr mem), inC⟩

theorem not_mem_of_exp (tiling : Tiling n T) (hb : b ∈ T) {p : Nat} (inB : b.Covers p)
    (inC : c.Covers p) (ne : c.exp ≠ b.exp) : c ∉ T := by
  intro hc
  exact ne (congrArg exp (tiling.eq_of_covers hc hb inC inB))

theorem merge (tiling : Tiling n (insert ⟨e, x⟩ (insert ⟨e, x + 2 ^ e⟩ U)))
    (whole : 2 ^ (e + 1) ∣ x) (first : ⟨e, x⟩ ∉ U) (second : ⟨e, x + 2 ^ e⟩ ∉ U) :
    Tiling n (insert ⟨e + 1, x⟩ U) := by
  obtain ⟨aligned, inside, apart, covers⟩ := tiling
  rw [forall_mem_insert, forall_mem_insert] at aligned inside
  rw [pairwise_insert_of_symm, pairwise_insert_of_symm] at apart
  constructor
  · rw [forall_mem_insert]
    exact ⟨whole, aligned.2.2⟩
  · rw [forall_mem_insert]
    have room : x + 2 ^ e + 2 ^ e ≤ n := inside.2.1
    refine ⟨?_, inside.2.2⟩
    dsimp only
    rw [pow_succ]
    omega
  · rw [pairwise_insert_of_symm]
    refine ⟨apart.1.1, fun c mem _ p inBoth => ?_⟩
    rcases (covers_halves e x p).mp inBoth with inHalf | inHalf
    · exact apart.2 c (.inr mem) (fun eq => first (eq ▸ mem)) p inHalf
    · exact apart.1.2 c mem (fun eq => second (eq ▸ mem)) p inHalf
  intro p small
  obtain ⟨c, rfl | rfl | mem, inC⟩ := covers p small
  · exact ⟨_, .inl rfl, (covers_halves e x p).mpr (.inl inC)⟩
  · exact ⟨_, .inl rfl, (covers_halves e x p).mpr (.inr inC)⟩
  · exact ⟨c, .inr mem, inC⟩

/-- No two buddies below the top stand side by side. -/
def Merged (top : Nat) (T : Set Block) : Prop := ∀ b ∈ T, b.exp < top → b.buddy ∉ T

/-- A merged tiling has no block strictly inside an aligned block of the range. -/
theorem no_smaller {top : Nat} (tiling : Tiling n T) (merged : Merged top T) (hc : c.Aligned)
    (room : c.start + 2 ^ c.exp ≤ n) (bound : c.exp ≤ top) (e : Nat) :
    ∀ b ∈ T, b.exp = e → e < c.exp → ∀ p, b.Covers p → ¬c.Covers p := by
  induction e using Nat.strong_induction_on with
  | _ e ih =>
    intro b hb size smaller p inB inC
    have alignedB := tiling.aligned b hb
    obtain ⟨x, whole, starts⟩ := alignedB.halves
    have parent : (⟨b.exp + 1, x⟩ : Block).Aligned := whole
    -- The parent of `b` lies in `c`, so the buddy does, and something covers it.
    have inParent : (⟨b.exp + 1, x⟩ : Block).Covers p := by
      rw [covers_halves]
      rcases starts with ⟨h, -⟩ | ⟨h, -⟩ <;> simp only [Covers, h] at inB ⊢ <;> omega
    have buddyIn : (⟨b.exp + 1, x⟩ : Block).Covers b.buddy.start := by
      have positive := Nat.two_pow_pos b.exp
      simp only [Covers, pow_succ]
      omega
    have inC' : c.Covers b.buddy.start := parent.covers_of hc (by dsimp only; omega) inParent inC buddyIn
    obtain ⟨d, hd, inD⟩ := tiling.covers b.buddy.start (inC'.2.trans_le room)
    have alignedD := tiling.aligned d hd
    rcases Nat.lt_trichotomy d.exp e with less | equal | more
    · exact ih d.exp less d hd rfl (less.trans smaller) _ inD inC'
    · have isBuddy : d = b.buddy := alignedD.eq_of_exp alignedB.buddy (equal.trans size.symm) inD
        (covers_start _)
      exact merged b hb (by omega) (isBuddy ▸ hd)
    have inD' : d.Covers p := parent.covers_of alignedD (by dsimp only; omega) buddyIn inD inParent
    have eq := tiling.eq_of_covers hd hb inD' inB
    rw [eq] at more
    omega

theorem subset_of_merged {top : Nat} (first : Tiling n T) (merged : Merged top T)
    (boundT : ∀ b ∈ T, b.exp ≤ top) (second : Tiling n T') (merged' : Merged top T')
    (boundT' : ∀ b ∈ T', b.exp ≤ top) : T ⊆ T' := by
  intro b hb
  have room := first.inside b hb
  have inB := covers_start b
  obtain ⟨c, hc, inC⟩ := second.covers b.start (inB.2.trans_le room)
  rcases Nat.lt_trichotomy b.exp c.exp with less | equal | more
  · exact absurd inC (first.no_smaller merged (second.aligned c hc) (second.inside c hc)
      (boundT' c hc) _ b hb rfl less _ inB)
  · rwa [(first.aligned b hb).eq_of_exp (second.aligned c hc) equal inB inC]
  exact absurd inB (second.no_smaller merged' (first.aligned b hb) room (boundT b hb) _ c hc rfl more _ inC)

/-- There is one merged tiling. -/
theorem eq_of_merged {top : Nat} (first : Tiling n T) (merged : Merged top T)
    (boundT : ∀ b ∈ T, b.exp ≤ top) (second : Tiling n T') (merged' : Merged top T')
    (boundT' : ∀ b ∈ T', b.exp ≤ top) : T = T' :=
  Set.Subset.antisymm (first.subset_of_merged merged boundT second merged' boundT')
    (second.subset_of_merged merged' boundT' first merged boundT)

end Tiling
end Dyadic
