import HuesOS.Lib.Bitmap
import Mathlib.Algebra.Order.Group.Nat
import Mathlib.Algebra.Order.Floor.Div
import Mathlib.Data.List.TakeWhile

/-! The physical memory manager: a bitmap of frames, one bit a frame and set while the frame is in
use, with a counter of the free frames. -/

namespace HuesOS.Memory
open List Finset Bitmap

def frameSize : Nat := 4096

def usizeMax : Nat := 2 ^ 64 - 1

inductive PmmError
  | outOfMemory | notInitialized | invalidArgs
  deriving DecidableEq

/-- The allocator behind its lock, with the counter of free frames beside it. -/
structure Pmm where
  bitmapPhys : Nat
  bitmap : Bitmap
  frameCount : Nat
  cursor : Nat
  freeFrames : Nat
  deriving DecidableEq

def fetchSub (counter n : Nat) : Nat := (counter + 2 ^ 64 - n) % 2 ^ 64

def fetchAdd (counter n : Nat) : Nat := (counter + n) % 2 ^ 64

namespace Pmm

def searchOrder (p : Pmm) : List Nat :=
  (List.range p.frameCount).map fun offset => (p.cursor + offset) % p.frameCount

def allocate (p : Pmm) : Option Nat × Pmm :=
  match p.searchOrder.find? fun idx => !p.bitmap.isSet idx with
  | none => (none, p)
  | some idx =>
    (some (idx * frameSize), { p with
      bitmap := p.bitmap.set idx
      cursor := (idx + 1) % p.frameCount
      freeFrames := fetchSub p.freeFrames 1 })

def freeRun (p : Pmm) (idx count : Nat) : Nat :=
  ((List.range count).takeWhile fun run => !p.bitmap.isSet (idx + run)).length

/-- The search for a run. The sums stay below 2^64: the loop ends as soon as the index passes
`maxFrame - count`. -/
def findRun (p : Pmm) (count maxFrame : Nat) {alignment : Nat} (pos : 0 < alignment) (idx : Nat) :
    Option Nat :=
  if idx ≤ maxFrame - count then
    if idx % alignment ≠ 0 then findRun p count maxFrame pos (idx + (alignment - idx % alignment))
    else if p.freeRun idx count = count then some idx
    else findRun p count maxFrame pos (idx + max (p.freeRun idx count) 1)
  else none
termination_by maxFrame - count + 1 - idx
decreasing_by
  · have := Nat.mod_lt idx pos
    omega
  · omega

def allocateContiguous (frameCount alignmentFrames maxExclusive : Nat) (p : Pmm) :
    Option Nat × Pmm :=
  if frameCount = 0 then (none, p)
  else
    let maxFrame := min (maxExclusive ⌈/⌉ frameSize) p.frameCount
    if maxFrame < frameCount then (none, p)
    else
      match findRun p frameCount maxFrame (Nat.le_max_right alignmentFrames 1) 0 with
      | none => (none, p)
      | some idx =>
        (some (idx * frameSize), { p with
          bitmap := (List.range' idx frameCount).foldl set p.bitmap
          cursor := (idx + frameCount) % p.frameCount
          freeFrames := fetchSub p.freeFrames frameCount })

def allocContiguousAligned (length alignment maxExclusive : Nat) (p : Pmm) :
    Except PmmError Nat × Pmm :=
  if length = 0 ∨ alignment = 0 ∨ length % frameSize ≠ 0 ∨ alignment % frameSize ≠ 0 then
    (.error .invalidArgs, p)
  else
    let cap := if maxExclusive = 0 then usizeMax else maxExclusive
    match allocateContiguous (length / frameSize) (alignment / frameSize) cap p with
    | (none, p) => (.error .outOfMemory, p)
    | (some addr, p) => (.ok addr, p)

def deallocate (physAddr : Nat) (p : Pmm) : Pmm :=
  let idx := physAddr / frameSize
  if idx < p.frameCount ∧ p.bitmap.isSet idx then
    { p with bitmap := p.bitmap.clear idx, freeFrames := fetchAdd p.freeFrames 1 }
  else p

def reserveFrame (p : Pmm) (f : Nat) : Pmm :=
  if f < p.frameCount ∧ ¬ p.bitmap.isSet f then
    { p with bitmap := p.bitmap.set f, freeFrames := fetchSub p.freeFrames 1 }
  else p

def reserveRange (base length : Nat) (p : Pmm) : Pmm :=
  let start := base / frameSize
  let endFrame := min (min (base + length) usizeMax ⌈/⌉ frameSize) p.frameCount
  (List.range' start (endFrame - start)).foldl reserveFrame p

def free (p : Pmm) : Finset Nat := p.bitmap.zeros

/-- The counter is the number of clear bits; the bits beyond the last frame are set, and the
frames are those of a 64-bit address space. -/
structure Consistent (p : Pmm) : Prop where
  counter : p.freeFrames = p.free.card
  covered : p.frameCount ≤ 8 * p.bitmap.length
  frames : ∀ f ∈ p.free, f < p.frameCount
  addresses : p.frameCount ≤ 2 ^ 52

variable {p : Pmm} {f : Nat}

theorem Consistent.free_card_le (c : Consistent p) : p.free.card ≤ 2 ^ 52 := by
  have subset : p.free ⊆ Finset.range p.frameCount := fun f mem => Finset.mem_range.mpr (c.frames f mem)
  have card := card_le_card subset
  rw [card_range] at card
  exact le_trans card c.addresses

theorem Consistent.take {q : Pmm} (c : Consistent p) (taken : Finset Nat)
    (eq : q.frameCount = p.frameCount ∧ q.bitmap.length = p.bitmap.length)
    (subset : taken ⊆ p.free) (left : q.free = p.free \ taken)
    (counter : q.freeFrames = fetchSub p.freeFrames taken.card) : Consistent q := by
  have cards := card_sdiff_add_card_eq_card subset
  have bound := c.free_card_le
  refine ⟨?_, by rw [eq.1, eq.2]; exact c.covered, fun f mem => ?_, eq.1 ▸ c.addresses⟩
  · rw [counter, left, c.counter, fetchSub]
    omega
  rw [left] at mem
  rw [eq.1]
  exact c.frames f (mem_sdiff.mp mem).1

theorem mem_free (c : Consistent p) : f ∈ p.free ↔ f < p.frameCount ∧ p.bitmap.isSet f = false := by
  constructor
  · exact fun mem => ⟨c.frames f mem, (mem_zeros.mp mem).2⟩
  · exact fun ⟨inside, clear⟩ => mem_zeros.mpr ⟨lt_of_lt_of_le inside c.covered, clear⟩

theorem Consistent.setOne (c : Consistent p) {cursor : Nat} (isFree : f ∈ p.free) :
    Consistent { p with
      bitmap := p.bitmap.set f, cursor := cursor, freeFrames := fetchSub p.freeFrames 1 } := by
  refine c.take {f} ⟨rfl, length_set _ _⟩ (singleton_subset_iff.mpr isFree) ?_ rfl
  change (p.bitmap.set f).zeros = p.bitmap.zeros \ {f}
  rw [zeros_set (mem_zeros.mp isFree).1, Finset.erase_eq]

theorem mem_searchOrder : f ∈ p.searchOrder ↔ f < p.frameCount := by
  rw [searchOrder, List.mem_map]
  constructor
  · rintro ⟨off, inside, rfl⟩
    exact Nat.mod_lt _ (lt_of_le_of_lt (Nat.zero_le _) (List.mem_range.mp inside))
  intro inside
  have start := Nat.mod_lt p.cursor (lt_of_le_of_lt (Nat.zero_le f) inside)
  refine ⟨(f + p.frameCount - p.cursor % p.frameCount) % p.frameCount,
    List.mem_range.mpr (Nat.mod_lt _ (by omega)), ?_⟩
  rw [Nat.add_mod_mod, ← Nat.mod_add_mod, Nat.add_sub_cancel' (by omega), Nat.add_mod_right,
    Nat.mod_eq_of_lt inside]

theorem allocate_cases (c : Consistent p) :
    p.free = ∅ ∧ p.allocate = (none, p) ∨
      ∃ f ∈ p.free, ∃ q, p.allocate = (some (f * frameSize), q) ∧ Consistent q ∧ q.free = p.free \ {f} := by
  unfold allocate
  cases scan : p.searchOrder.find? fun idx => !p.bitmap.isSet idx with
  | none =>
    left
    refine ⟨eq_empty_iff_forall_notMem.mpr fun f mem => ?_, rfl⟩
    obtain ⟨inside, clear⟩ := (mem_free c).mp mem
    have missed := find?_eq_none.mp scan f (mem_searchOrder.mpr inside)
    simp [clear] at missed
  | some f =>
    right
    have clear := find?_some scan
    rw [Bool.not_eq_true'] at clear
    have isFree : f ∈ p.free := (mem_free c).mpr ⟨mem_searchOrder.mp (mem_of_find?_eq_some scan), clear⟩
    refine ⟨f, isFree, _, rfl, c.setOne isFree, ?_⟩
    change (p.bitmap.set f).zeros = _
    rw [zeros_set (mem_zeros.mp isFree).1, Finset.erase_eq]
    rfl

theorem freeRun_eq {idx count : Nat} (full : p.freeRun idx count = count) :
    ∀ run < count, p.bitmap.isSet (idx + run) = false := by
  intro run inside
  have all : (List.range count).takeWhile (fun run => !p.bitmap.isSet (idx + run)) = List.range count := by
    apply (List.takeWhile_prefix _).eq_of_length
    rw [length_range]
    exact full
  have clear := List.takeWhile_eq_self_iff.mp all run (List.mem_range.mpr inside)
  rwa [Bool.not_eq_true'] at clear

theorem findRun_some {count maxFrame alignment : Nat} (pos : 0 < alignment) (idx : Nat)
    {found : Nat} (res : findRun p count maxFrame pos idx = some found) :
    found ≤ maxFrame - count ∧ found % alignment = 0 ∧ ∀ run < count, p.bitmap.isSet (found + run) = false := by
  fun_induction findRun p count maxFrame pos idx with
  | case1 idx inside misaligned ih => exact ih res
  | case2 idx inside aligned full =>
    cases res
    exact ⟨inside, not_not.mp aligned, freeRun_eq full⟩
  | case3 idx inside aligned partial_ ih => exact ih res
  | case4 => cases res

/-- A contiguous allocation that succeeds takes an aligned run of free frames. -/
theorem allocateContiguous_cases (c : Consistent p) (count alignment limit : Nat) :
    allocateContiguous count alignment limit p = (none, p) ∨
      ∃ idx q, allocateContiguous count alignment limit p = (some (idx * frameSize), q) ∧
        idx % max alignment 1 = 0 ∧ Finset.Ico idx (idx + count) ⊆ p.free ∧ Consistent q ∧
        q.free = p.free \ Finset.Ico idx (idx + count) := by
  unfold allocateContiguous
  by_cases empty : count = 0
  · exact .inl (if_pos empty)
  rw [if_neg empty]
  by_cases small : min (limit ⌈/⌉ frameSize) p.frameCount < count
  · exact .inl (if_pos small)
  simp only [if_neg small]
  cases scan : findRun p count (min (limit ⌈/⌉ frameSize) p.frameCount)
      (Nat.le_max_right alignment 1) 0 with
  | none => exact .inl rfl
  | some idx =>
    right
    obtain ⟨inside, aligned, clear⟩ := findRun_some _ _ scan
    have le : idx + count ≤ p.frameCount := by omega
    have isFree : Finset.Ico idx (idx + count) ⊆ p.free := by
      intro f mem
      rw [mem_Ico] at mem
      have bit := clear (f - idx) (by omega)
      rw [Nat.add_sub_cancel' mem.1] at bit
      exact (mem_free c).mpr ⟨by omega, bit⟩
    obtain ⟨len, left⟩ := zeros_foldl_set idx count (b := p.bitmap) (le_trans le c.covered)
    refine ⟨idx, _, rfl, aligned, isFree, ?_, left⟩
    refine c.take (Finset.Ico idx (idx + count)) ⟨rfl, len⟩ isFree left ?_
    rw [Nat.card_Ico, Nat.add_sub_cancel_left]

theorem allocContiguousAligned_cases (c : Consistent p) (len alignment limit : Nat) :
    (∃ e, allocContiguousAligned len alignment limit p = (.error e, p)) ∨
      ∃ idx q, allocContiguousAligned len alignment limit p = (.ok (idx * frameSize), q) ∧
        idx * frameSize % alignment = 0 ∧
        Finset.Ico idx (idx + len / frameSize) ⊆ p.free ∧ Consistent q ∧
        q.free = p.free \ Finset.Ico idx (idx + len / frameSize) := by
  simp only [allocContiguousAligned]
  split
  · exact .inl ⟨_, rfl⟩
  rename_i shape
  simp only [not_or, not_not] at shape
  rcases allocateContiguous_cases c (len / frameSize) (alignment / frameSize)
    (if limit = 0 then usizeMax else limit) with failed | ⟨idx, q, done, aligned, rest⟩
  · rw [failed]
    exact .inl ⟨_, rfl⟩
  rw [done]
  refine .inr ⟨idx, q, rfl, ?_, rest⟩
  have frames : alignment / frameSize * frameSize = alignment :=
    Nat.div_mul_cancel (Nat.dvd_of_mod_eq_zero shape.2.2.2)
  have some_ : 1 ≤ alignment / frameSize := by
    rw [Nat.one_le_iff_ne_zero]
    intro zero
    rw [zero, Nat.zero_mul] at frames
    exact shape.2.1 frames.symm
  rw [max_eq_left some_] at aligned
  rw [← frames, Nat.mul_mod_mul_right, aligned, Nat.zero_mul]

theorem Consistent.deallocate (c : Consistent p) (addr : Nat) :
    Consistent (p.deallocate addr) ∧ (p.deallocate addr).free ⊆ insert (addr / frameSize) p.free := by
  simp only [Pmm.deallocate]
  split
  · rename_i used
    have inside := lt_of_lt_of_le used.1 c.covered
    have fresh : addr / frameSize ∉ p.free := fun mem => by
      rw [(mem_zeros.mp mem).2] at used
      exact Bool.false_ne_true used.2
    have frees : (p.bitmap.clear (addr / frameSize)).zeros = insert (addr / frameSize) p.free :=
      zeros_clear inside
    have card := c.free_card_le
    refine ⟨⟨?_, ?_, ?_, c.addresses⟩, frees.subset⟩
    · change fetchAdd p.freeFrames 1 = (p.bitmap.clear _).zeros.card
      rw [frees, card_insert_of_notMem fresh, c.counter, fetchAdd]
      omega
    · rw [length_clear]
      exact c.covered
    intro f mem
    rcases mem_insert.mp (frees.subset mem) with rfl | pre
    · exact used.1
    · exact c.frames f pre
  · exact ⟨c, Finset.subset_insert _ _⟩

theorem Consistent.reserveRange (c : Consistent p) (base len : Nat) :
    Consistent (p.reserveRange base len) ∧ (p.reserveRange base len).free ⊆ p.free := by
  have one {q : Pmm} (c : Consistent q) (f : Nat) :
      Consistent (q.reserveFrame f) ∧ (q.reserveFrame f).free ⊆ q.free := by
    unfold reserveFrame
    split
    · rename_i clear
      have isFree := (mem_free c).mpr ⟨clear.1, Bool.eq_false_iff.mpr clear.2⟩
      refine ⟨c.setOne isFree, ?_⟩
      change (q.bitmap.set f).zeros ⊆ q.bitmap.zeros
      rw [zeros_set (mem_zeros.mp isFree).1]
      exact erase_subset _ _
    · exact ⟨c, Finset.Subset.refl _⟩
  simp only [Pmm.reserveRange]
  generalize List.range' _ _ = frames
  induction frames generalizing p with
  | nil => exact ⟨c, Finset.Subset.refl _⟩
  | cons f rest ih =>
    obtain ⟨consistent, fewer⟩ := one c f
    obtain ⟨last, least⟩ := ih consistent
    exact ⟨last, least.trans fewer⟩

end Pmm

inductive PmmCall
  | allocate
  | allocateContiguous (frameCount alignmentFrames maxExclusive : Nat)
  | allocContiguousAligned (length alignment maxExclusive : Nat)
  | reserveRange (base length : Nat)
  | deallocate (physAddr : Nat)

namespace PmmCall

def run (p : Pmm) : PmmCall → Option Nat × Pmm
  | allocate => p.allocate
  | allocateContiguous count alignment limit => p.allocateContiguous count alignment limit
  | allocContiguousAligned length alignment limit =>
    match p.allocContiguousAligned length alignment limit with
    | (.ok addr, q) => (some addr, q)
    | (.error _, q) => (none, q)
  | reserveRange base length => (none, p.reserveRange base length)
  | deallocate addr => (none, p.deallocate addr)

def count : PmmCall → Nat
  | allocate => 1
  | allocateContiguous count _ _ => count
  | allocContiguousAligned length _ _ => length / frameSize
  | _ => 0

def alignment : PmmCall → Nat
  | allocateContiguous _ alignment _ => max alignment 1 * frameSize
  | allocContiguousAligned _ alignment _ => alignment
  | _ => frameSize

def handed (call : PmmCall) : Option Nat → Finset Nat
  | none => ∅
  | some addr => Finset.Ico (addr / frameSize) (addr / frameSize + call.count)

/-- The frames that are live after the call: handed out and not given back since. -/
def live (call : PmmCall) (p : Pmm) (before : Finset Nat) : Finset Nat :=
  match call with
  | deallocate addr => before.erase (addr / frameSize)
  | _ => before ∪ call.handed (call.run p).1

end PmmCall

structure PmmLedger where
  pmm : Pmm
  live : Finset Nat

namespace PmmLedger

def step (l : PmmLedger) (call : PmmCall) : PmmLedger :=
  ⟨(call.run l.pmm).2, call.live l.pmm l.live⟩

structure Sound (l : PmmLedger) : Prop where
  consistent : l.pmm.Consistent
  apart : Disjoint l.live l.pmm.free

/-- What a call answers: frames that were free and not live, aligned as asked; a single frame is
refused only when none is free. -/
structure Serves (l : PmmLedger) (call : PmmCall) : Prop where
  handed : ∀ addr, (call.run l.pmm).1 = some addr →
    call.handed (some addr) ⊆ l.pmm.free ∧ Disjoint (call.handed (some addr)) l.live ∧ addr % call.alignment = 0
  refused : call = .allocate → (call.run l.pmm).1 = none → l.pmm.free = ∅

theorem Sound.outcome {l : PmmLedger} (sound : Sound l) {call : PmmCall}
    (plain : ∀ addr, call ≠ .deallocate addr)
    (cases_ : call.run l.pmm = (none, l.pmm) ∨
      ∃ idx q, call.run l.pmm = (some (idx * frameSize), q) ∧
        idx * frameSize % call.alignment = 0 ∧
        Finset.Ico idx (idx + call.count) ⊆ l.pmm.free ∧ q.Consistent ∧
        q.free = l.pmm.free \ Finset.Ico idx (idx + call.count))
    (refused : call = .allocate → (call.run l.pmm).1 = none → l.pmm.free = ∅) :
    Sound (l.step call) ∧ Serves l call := by
  have live : call.live l.pmm l.live = l.live ∪ call.handed (call.run l.pmm).1 := by
    cases call with
    | deallocate addr => exact absurd rfl (plain addr)
    | _ => rfl
  rcases cases_ with failed | ⟨idx, q, done, aligned, isFree, consistent, left⟩
  · refine ⟨⟨?_, ?_⟩, fun addr some_ => ?_, refused⟩
    · rw [step, failed]
      exact sound.consistent
    · rw [step, live, failed]
      simpa [PmmCall.handed] using sound.apart
    rw [failed] at some_
    cases some_
  have frames : call.handed (some (idx * frameSize)) = Finset.Ico idx (idx + call.count) := by
    rw [PmmCall.handed, Nat.mul_div_cancel _ (by decide)]
  refine ⟨⟨?_, ?_⟩, fun addr some_ => ?_, refused⟩
  · rw [step, done]
    exact consistent
  · rw [step, live, done, frames, left, disjoint_union_left]
    exact ⟨sound.apart.mono_right sdiff_subset, disjoint_sdiff⟩
  rw [done] at some_
  cases some_
  rw [frames]
  exact ⟨isFree, (sound.apart.mono_right isFree).symm, aligned⟩

theorem Sound.step {l : PmmLedger} (sound : Sound l) (call : PmmCall) :
    Sound (l.step call) ∧ Serves l call := by
  have c := sound.consistent
  cases call with
  | allocate =>
    rcases Pmm.allocate_cases c with ⟨none_, failed⟩ | ⟨f, isFree, q, done, consistent, left⟩
    · exact sound.outcome (by simp) (.inl failed) (fun _ _ => none_)
    refine sound.outcome (by simp) (.inr ⟨f, q, done, Nat.mul_mod_left _ _, ?_, consistent, ?_⟩)
      (fun _ refused => ?_)
    · rw [PmmCall.count, Nat.Ico_succ_singleton]
      exact singleton_subset_iff.mpr isFree
    · rw [PmmCall.count, Nat.Ico_succ_singleton]
      exact left
    rw [PmmCall.run, done] at refused
    cases refused
  | allocateContiguous count alignment limit =>
    refine sound.outcome (by simp) ?_ (by simp)
    refine (Pmm.allocateContiguous_cases c count alignment limit).imp_right ?_
    rintro ⟨idx, q, done, aligned, rest⟩
    refine ⟨idx, q, done, ?_, rest⟩
    rw [PmmCall.alignment, Nat.mul_mod_mul_right, aligned, Nat.zero_mul]
  | allocContiguousAligned len alignment limit =>
    refine sound.outcome (by simp) ?_ (by simp)
    rcases Pmm.allocContiguousAligned_cases c len alignment limit with ⟨e, failed⟩ |
      ⟨idx, q, done, rest⟩
    · exact .inl (by rw [PmmCall.run, failed])
    · exact .inr ⟨idx, q, by rw [PmmCall.run, done], rest⟩
  | reserveRange base len =>
    obtain ⟨consistent, fewer⟩ := c.reserveRange base len
    refine ⟨⟨consistent, ?_⟩, ⟨fun _ some_ => (by cases some_), nofun⟩⟩
    simpa [PmmLedger.step, PmmCall.live, PmmCall.handed, PmmCall.run] using sound.apart.mono_right fewer
  | deallocate addr =>
    obtain ⟨consistent, frees⟩ := c.deallocate addr
    refine ⟨⟨consistent, ?_⟩, ⟨fun _ some_ => (by cases some_), nofun⟩⟩
    refine Disjoint.mono_right frees ?_
    rw [disjoint_insert_right]
    exact ⟨notMem_erase _ _, sound.apart.mono_left (erase_subset _ _)⟩

/-- From any consistent state, after any calls: the counter is the number of clear bits, no live
frame is free, and the next call is served as it should be. -/
theorem calls_keep_frames (pmm : Pmm) (live : Finset Nat) (consistent : pmm.Consistent)
    (apart : Disjoint live pmm.free) (calls : List PmmCall) :
    Sound (calls.foldl step ⟨pmm, live⟩) ∧ ∀ call, Serves (calls.foldl step ⟨pmm, live⟩) call := by
  have start : Sound ⟨pmm, live⟩ := ⟨consistent, apart⟩
  have last : Sound (calls.foldl step ⟨pmm, live⟩) := by
    generalize (⟨pmm, live⟩ : PmmLedger) = l at start
    induction calls generalizing l with
    | nil => exact start
    | cons call rest ih => exact ih _ (start.step call).1
  exact ⟨last, fun call => (last.step call).2⟩

def twoFree : Pmm := ⟨0, [0xFA#8], 8, 1, 2⟩

theorem twoFree_consistent : twoFree.Consistent := ⟨by decide, by decide, by decide, by decide⟩

/-- Frame 1 is live; one frame is taken and frame 1 given back. -/
theorem calls_keep_frames_twoFree :
    (twoFree.Consistent ∧ Disjoint {1} twoFree.free) ∧
      Sound ([PmmCall.allocate, .deallocate 4096].foldl step ⟨twoFree, {1}⟩) :=
  ⟨⟨twoFree_consistent, by decide⟩,
    (calls_keep_frames twoFree {1} twoFree_consistent (by decide) _).1⟩

end PmmLedger
end HuesOS.Memory
