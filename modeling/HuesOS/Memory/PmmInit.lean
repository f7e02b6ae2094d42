import HuesOS.Memory.Pmm
import Mathlib

namespace HuesOS.Memory
open List Finset Bitmap Pmm

structure MemoryRegion where
  base : Fin (2 ^ 64)
  length : Fin (2 ^ 64)
  usable : Bool
  deriving DecidableEq

inductive PmmInitError
  | noUsableRegion
  deriving DecidableEq

namespace MemoryRegion

def end_ (r : MemoryRegion) : Nat := min (r.base.val + r.length.val) usizeMax

def startFrame (r : MemoryRegion) : Nat := r.base / frameSize

def endFrame (frameCount : Nat) (r : MemoryRegion) : Nat := min (r.end_ / frameSize) frameCount

end MemoryRegion

open MemoryRegion

def highest (regions : List MemoryRegion) : Nat := (regions.map (·.end_)).foldl max 0

def trackedFrames (regions : List MemoryRegion) : Nat := highest regions ⌈/⌉ frameSize

def bitmapBytes (regions : List MemoryRegion) : Nat := trackedFrames regions ⌈/⌉ 8

def bitmapFrames (regions : List MemoryRegion) : Nat := bitmapBytes regions ⌈/⌉ frameSize

def bitmapRegion (regions : List MemoryRegion) : Option MemoryRegion :=
  regions.find? fun r => r.usable && bitmapFrames regions * frameSize ≤ r.length

/-- The bitmap under construction, with the count of free frames. -/
abbrev Marking := Bitmap × Nat

def freeFrame (s : Marking) (f : Nat) : Marking := (s.1.clear f, min (s.2 + 1) usizeMax)

def freeRegion (frameCount : Nat) (s : Marking) (r : MemoryRegion) : Marking :=
  if r.usable then
    (List.range' r.startFrame (r.endFrame frameCount - r.startFrame)).foldl freeFrame s
  else s

def reserveOwn (s : Marking) (f : Nat) : Marking :=
  (s.1.set f, if s.1.isSet f then s.2 else s.2 - 1)

def init (regions : List MemoryRegion) : Except PmmInitError Pmm :=
  match bitmapRegion regions with
  | none => .error .noUsableRegion
  | some r =>
    let frameCount := trackedFrames regions
    let freed := regions.foldl (freeRegion frameCount)
      (List.replicate (bitmapBytes regions) 0xFF#8, 0)
    let bmpStart := r.base / frameSize
    let bmpEnd := min (min (bmpStart + bitmapFrames regions) usizeMax) frameCount
    let done := (List.range' bmpStart (bmpEnd - bmpStart)).foldl reserveOwn freed
    .ok ⟨r.base, done.1, frameCount, 0, done.2⟩

theorem foldl_freeFrame (start count : Nat) (s : Marking) (inside : start + count ≤ 8 * s.1.length)
    (small : s.2 ≤ usizeMax) :
    ((List.range' start count).foldl freeFrame s).1.length = s.1.length ∧
      ((List.range' start count).foldl freeFrame s).1.zeros = s.1.zeros ∪ Finset.Ico start (start + count) ∧
      ((List.range' start count).foldl freeFrame s).2 = min (s.2 + count) usizeMax := by
  induction count generalizing start s with
  | zero => simpa using small
  | succ count ih =>
    have len : (freeFrame s start).1.length = s.1.length := length_clear _ _
    obtain ⟨lengths, zeros, counts⟩ := ih (start + 1) (freeFrame s start) (by omega) (Nat.min_le_right _ _)
    rw [List.range'_succ, foldl_cons]
    refine ⟨lengths.trans len, ?_, ?_⟩
    · rw [zeros, freeFrame, zeros_clear (by omega)]
      ext f
      simp only [Finset.mem_union, mem_insert, mem_Ico]
      rw [or_comm (a := f = start), or_assoc]
      exact or_congr_right (by omega)
    rw [counts, freeFrame]
    generalize usizeMax = top
    omega

theorem foldl_reserveOwn (start count : Nat) (s : Marking)
    (inside : 0 < count → start + count ≤ 8 * s.1.length) :
    ((List.range' start count).foldl reserveOwn s).1.length = s.1.length ∧
      ((List.range' start count).foldl reserveOwn s).1.zeros = s.1.zeros \ Finset.Ico start (start + count) ∧
      ((List.range' start count).foldl reserveOwn s).2 =
        s.2 - (s.1.zeros ∩ Finset.Ico start (start + count)).card := by
  induction count generalizing start s with
  | zero => simp
  | succ count ih =>
    have inside := inside (Nat.succ_pos count)
    have len : (reserveOwn s start).1.length = s.1.length := length_set _ _
    have first : (reserveOwn s start).1.zeros = s.1.zeros.erase start := zeros_set (by omega)
    obtain ⟨lengths, zeros, counts⟩ := ih (start + 1) (reserveOwn s start) (fun _ => by omega)
    rw [List.range'_succ, foldl_cons]
    refine ⟨lengths.trans len, ?_, ?_⟩
    · rw [zeros, first]
      ext f
      simp only [mem_sdiff, mem_erase, mem_Ico]
      constructor
      · rintro ⟨⟨other, clear⟩, out⟩
        exact ⟨clear, by omega⟩
      rintro ⟨clear, out⟩
      exact ⟨⟨by omega, clear⟩, by omega⟩
    rw [counts, first]
    have rest : (s.1.zeros ∩ Finset.Ico start (start + (count + 1))).erase start =
        s.1.zeros.erase start ∩ Finset.Ico (start + 1) (start + 1 + count) := by
      ext f
      simp only [mem_inter, mem_erase, mem_Ico]
      constructor
      · rintro ⟨other, clear, range⟩
        exact ⟨⟨other, clear⟩, by omega⟩
      rintro ⟨⟨other, clear⟩, range⟩
      exact ⟨other, clear, by omega⟩
    rw [← rest, reserveOwn]
    cases bit : s.1.isSet start with
    | true =>
      have absent : start ∉ s.1.zeros ∩ Finset.Ico start (start + (count + 1)) := by
        simp [bit]
      rw [erase_eq_of_notMem absent]
      rfl
    | false =>
      have present : start ∈ s.1.zeros ∩ Finset.Ico start (start + (count + 1)) := by
        simp only [mem_inter, mem_zeros, mem_Ico]
        exact ⟨⟨by omega, bit⟩, by omega⟩
      rw [card_erase_of_mem present]
      have some_ := card_pos.mpr ⟨start, present⟩
      change s.2 - 1 - _ = _
      omega

def regionFrames (frameCount : Nat) (r : MemoryRegion) : Finset Nat :=
  if r.usable then Finset.Ico r.startFrame (r.endFrame frameCount) else ∅

def freedFrames (frameCount : Nat) (regions : List MemoryRegion) : Finset Nat :=
  regions.foldr (fun r rest => regionFrames frameCount r ∪ rest) ∅

variable {frameCount f : Nat} {regions : List MemoryRegion}

theorem mem_freedFrames :
    f ∈ freedFrames frameCount regions ↔ ∃ r ∈ regions, f ∈ regionFrames frameCount r := by
  induction regions with
  | nil => simp [freedFrames]
  | cons r rest ih =>
    rw [freedFrames, List.foldr_cons, Finset.mem_union]
    simp only [List.mem_cons, or_and_right, exists_or, exists_eq_left]
    exact or_congr_right ih

theorem freedFrames_lt (freed : f ∈ freedFrames frameCount regions) : f < frameCount := by
  obtain ⟨r, _, mem⟩ := mem_freedFrames.mp freed
  unfold regionFrames at mem
  split at mem
  · exact lt_of_lt_of_le (mem_Ico.mp mem).2 (Nat.min_le_right _ _)
  · cases mem

theorem foldl_freeRegion (frameCount : Nat) (regions : List MemoryRegion) (s : Marking)
    (inside : frameCount ≤ 8 * s.1.length) (small : s.2 ≤ usizeMax) :
    (regions.foldl (freeRegion frameCount) s).1.length = s.1.length ∧
      (regions.foldl (freeRegion frameCount) s).1.zeros = s.1.zeros ∪ freedFrames frameCount regions ∧
      (regions.foldl (freeRegion frameCount) s).2 =
        min (s.2 + (regions.map fun r => (regionFrames frameCount r).card).sum) usizeMax := by
  induction regions generalizing s with
  | nil => simpa [freedFrames] using small
  | cons r rest ih =>
    have first : (freeRegion frameCount s r).1.length = s.1.length ∧
        (freeRegion frameCount s r).1.zeros = s.1.zeros ∪ regionFrames frameCount r ∧
        (freeRegion frameCount s r).2 = min (s.2 + (regionFrames frameCount r).card) usizeMax := by
      unfold freeRegion regionFrames
      split
      · have bound : r.endFrame frameCount ≤ frameCount := Nat.min_le_right _ _
        rcases Nat.le_total r.startFrame (r.endFrame frameCount) with order | order
        · have spec := foldl_freeFrame r.startFrame (r.endFrame frameCount - r.startFrame) s (by omega) small
          rw [Nat.add_sub_cancel' order] at spec
          rwa [Nat.card_Ico]
        · simp [Nat.sub_eq_zero_of_le order, Finset.Ico_eq_empty_of_le order, small]
      · simpa using small
    obtain ⟨len, zeros, count⟩ := first
    obtain ⟨lengths, allZeros, counts⟩ := ih (freeRegion frameCount s r) (by omega)
      (count ▸ Nat.min_le_right _ _)
    rw [foldl_cons]
    refine ⟨lengths.trans len, ?_, ?_⟩
    · rw [allZeros, zeros, union_assoc]
      rfl
    rw [counts, List.map_cons, List.sum_cons]
    generalize usizeMax = top at count ⊢
    omega

theorem card_freedFrames (frameCount : Nat) (regions : List MemoryRegion) :
    (freedFrames frameCount regions).card ≤
        (regions.map fun r => (regionFrames frameCount r).card).sum ∧
      ((freedFrames frameCount regions).card =
          (regions.map fun r => (regionFrames frameCount r).card).sum ↔
        regions.Pairwise fun r r' =>
          Disjoint (regionFrames frameCount r) (regionFrames frameCount r')) := by
  induction regions with
  | nil => simp [freedFrames]
  | cons r rest ih =>
    have split := card_union_le (regionFrames frameCount r) (freedFrames frameCount rest)
    have apart : Disjoint (regionFrames frameCount r) (freedFrames frameCount rest) ↔
        ∀ r' ∈ rest, Disjoint (regionFrames frameCount r) (regionFrames frameCount r') := by
      simp only [Finset.disjoint_left, mem_freedFrames, not_exists, not_and]
      exact ⟨fun h r' mem f mine => h mine r' mem, fun h f mine r' mem => h r' mem mine⟩
    rw [List.map_cons, List.sum_cons, List.pairwise_cons, ← apart, ← ih.2, ← Finset.card_union_eq_card_add_card]
    change (regionFrames frameCount r ∪ freedFrames frameCount rest).card ≤ _ ∧
      ((regionFrames frameCount r ∪ freedFrames frameCount rest).card = _ ↔ _)
    constructor
    · omega
    · omega

theorem highest_le (regions : List MemoryRegion) : highest regions ≤ usizeMax := by
  have scan : ∀ (ends : List Nat) (n : Nat), (∀ e ∈ ends, e ≤ usizeMax) → n ≤ usizeMax →
      ends.foldl max n ≤ usizeMax := by
    intro ends
    induction ends with
    | nil => exact fun n _ start => start
    | cons e rest ih =>
      intro n all start
      exact ih _ (fun e' mem => all e' (.tail _ mem)) (max_le start (all e mem_cons_self))
  refine scan _ 0 (fun e mem => ?_) (Nat.zero_le _)
  obtain ⟨r, _, rfl⟩ := mem_map.mp mem
  exact Nat.min_le_right _ _

theorem trackedFrames_le (regions : List MemoryRegion) : trackedFrames regions ≤ 2 ^ 52 := by
  have top := highest_le regions
  rw [trackedFrames, Nat.ceilDiv_eq_add_pred_div]
  unfold frameSize
  unfold usizeMax at top
  omega

theorem zeros_replicate (n : Nat) : Bitmap.zeros (List.replicate n 0xFF#8) = ∅ := by
  have full : ∀ k < 8, (0xFF#8).getLsbD k = true := by decide
  rw [eq_empty_iff_forall_notMem]
  intro i mem
  obtain ⟨inside, clear⟩ := mem_zeros.mp mem
  rw [length_replicate] at inside
  rw [isSet_eq, getD_replicate _ (by omega), full _ (Nat.mod_lt _ (by decide))] at clear
  cases clear

/-- The frames that the bitmap's memory is taken to fill, from the frame of its first byte on. -/
def reservedFrames (regions : List MemoryRegion) (r : MemoryRegion) : Finset Nat :=
  Finset.Ico r.startFrame (r.startFrame + bitmapFrames regions)

theorem init_ok {r : MemoryRegion} {p : Pmm}
    (place : bitmapRegion regions = some r) (done : init regions = .ok p) :
    p.bitmapPhys = r.base ∧ p.bitmap.length = bitmapBytes regions ∧
      p.free = freedFrames (trackedFrames regions) regions \ reservedFrames regions r ∧
      p.freeFrames = min (regions.map fun r =>
          (regionFrames (trackedFrames regions) r).card).sum usizeMax -
        (freedFrames (trackedFrames regions) regions ∩ reservedFrames regions r).card := by
  have covered : trackedFrames regions ≤ 8 * bitmapBytes regions := by
    rw [bitmapBytes, Nat.ceilDiv_eq_add_pred_div]
    omega
  obtain ⟨len, zeros, count⟩ := foldl_freeRegion (trackedFrames regions) regions
    (List.replicate (bitmapBytes regions) 0xFF#8, 0) (by rwa [length_replicate])
    (Nat.zero_le _)
  rw [zeros_replicate, empty_union] at zeros
  rw [length_replicate] at len
  rw [Nat.zero_add] at count
  -- the loop stops at the last tracked frame, and no frame after it was freed
  have range (f : Nat) (freed : f ∈ freedFrames (trackedFrames regions) regions) :
      f ∈ Finset.Ico r.startFrame (r.startFrame + (min (min (r.startFrame + bitmapFrames regions)
        usizeMax) (trackedFrames regions) - r.startFrame)) ↔ f ∈ reservedFrames regions r := by
    have inside := freedFrames_lt freed
    have tracked := trackedFrames_le regions
    have base := r.base.isLt
    rw [reservedFrames, mem_Ico, mem_Ico]
    simp only [bitmapFrames, bitmapBytes, Nat.ceilDiv_eq_add_pred_div]
    unfold startFrame frameSize usizeMax
    omega
  obtain ⟨lengths, left, counts⟩ := foldl_reserveOwn r.startFrame (min (min (r.startFrame +
    bitmapFrames regions) usizeMax) (trackedFrames regions) - r.startFrame) (regions.foldl
    (freeRegion (trackedFrames regions)) (List.replicate (bitmapBytes regions) 0xFF#8, 0)) (by
      rw [len]
      omega)
  unfold init at done
  rw [place] at done
  cases done
  refine ⟨rfl, lengths.trans len, ?_, ?_⟩
  · refine left.trans ?_
    rw [zeros]
    ext f
    simp only [mem_sdiff]
    exact and_congr_right fun freed => not_congr (range f freed)
  refine counts.trans ?_
  rw [zeros, count]
  congr 2
  ext f
  simp only [mem_inter]
  exact and_congr_right fun freed => range f freed

structure InitSound (regions : List MemoryRegion) (p : Pmm) : Prop where
  counter : p.freeFrames = p.free.card
  usable : ∀ f ∈ p.free, ∃ r ∈ regions, r.usable = true ∧ r.base.val ≤ f * frameSize ∧
    (f + 1) * frameSize ≤ r.base.val + r.length.val
  outside : ∀ f ∈ p.free, (f + 1) * frameSize ≤ p.bitmapPhys ∨
    p.bitmapPhys + p.bitmap.length ≤ f * frameSize

/-- A memory map on which init is right, where `r` is the region that gets the bitmap. -/
structure Tidy (regions : List MemoryRegion) (r : MemoryRegion) : Prop where
  /-- no frame is freed for two regions -/
  apart : regions.Pairwise fun a b => Disjoint (regionFrames (trackedFrames regions) a)
    (regionFrames (trackedFrames regions) b)
  /-- a region that frees frames starts on a frame, or in the frames reserved for the bitmap -/
  aligned : ∀ a ∈ regions, (regionFrames (trackedFrames regions) a).Nonempty →
    a.base.val % frameSize = 0 ∨ a.startFrame ∈ reservedFrames regions r
  /-- the bitmap ends in the frames reserved for it, or no region frees the frame after them -/
  tail : r.base.val % frameSize + bitmapBytes regions ≤ bitmapFrames regions * frameSize ∨
    r.startFrame + bitmapFrames regions ∉ freedFrames (trackedFrames regions) regions

theorem mem_regionFrames {r : MemoryRegion} :
    f ∈ regionFrames frameCount r ↔ r.usable = true ∧ r.startFrame ≤ f ∧ f < r.endFrame frameCount := by
  unfold regionFrames
  split <;> simp_all

/-- Init is right on exactly the tidy memory maps. -/
theorem init_sound_iff_tidy (regions : List MemoryRegion) (r : MemoryRegion) (p : Pmm)
    (place : bitmapRegion regions = some r) (done : init regions = .ok p) :
    InitSound regions p ↔ Tidy regions r := by
  obtain ⟨phys, length, free, count⟩ := init_ok place done
  have isFree (f : Nat) : f ∈ p.free ↔ f ∈ freedFrames (trackedFrames regions) regions ∧
      f ∉ reservedFrames regions r := by rw [free, mem_sdiff]
  have counter : p.freeFrames = p.free.card ↔ regions.Pairwise fun a b =>
      Disjoint (regionFrames (trackedFrames regions) a) (regionFrames (trackedFrames regions) b) := by
    obtain ⟨most, exact_⟩ := card_freedFrames (trackedFrames regions) regions
    have tracked := trackedFrames_le regions
    have few : (freedFrames (trackedFrames regions) regions).card ≤ trackedFrames regions := by
      refine (card_le_card (t := Finset.range (trackedFrames regions)) ?_).trans_eq (card_range _)
      exact fun f freed => Finset.mem_range.mpr (freedFrames_lt freed)
    have parts := card_sdiff_add_card_inter (freedFrames (trackedFrames regions) regions)
      (reservedFrames regions r)
    rw [← exact_, count, free]
    unfold usizeMax
    omega
  constructor
  · intro sound
    have apart := counter.mp sound.counter
    refine ⟨apart, fun a mem some_ => ?_, ?_⟩
    · by_contra neither
      rw [not_or] at neither
      obtain ⟨f, inside⟩ := some_
      obtain ⟨usable, low, high⟩ := mem_regionFrames.mp inside
      have start : a.startFrame ∈ regionFrames (trackedFrames regions) a :=
        mem_regionFrames.mpr ⟨usable, le_rfl, by omega⟩
      obtain ⟨b, memberB, usableB, lowB, highB⟩ := sound.usable a.startFrame
        ((isFree _).mpr ⟨mem_freedFrames.mpr ⟨a, mem, start⟩, neither.2⟩)
      have startB : a.startFrame ∈ regionFrames (trackedFrames regions) b := by
        refine mem_regionFrames.mpr ⟨usableB, ?_, ?_⟩
        all_goals
          unfold startFrame endFrame end_ frameSize usizeMax at *
          omega
      have other : a ≠ b := by
        rintro rfl
        have unaligned := neither.1
        unfold startFrame frameSize at lowB
        unfold frameSize at unaligned
        omega
      have symmetric : Std.Symm fun a b => Disjoint (regionFrames (trackedFrames regions) a)
          (regionFrames (trackedFrames regions) b) := ⟨fun _ _ h => h.symm⟩
      have disjoint := apart.forall mem memberB other
      exact Finset.disjoint_left.mp disjoint start startB
    by_contra neither
    rw [not_or, not_not] at neither
    have out := sound.outside _ ((isFree _).mpr ⟨neither.2, by simp [reservedFrames]⟩)
    rw [phys, length] at out
    have over_ := neither.1
    unfold startFrame frameSize at out
    unfold frameSize at over_
    omega
  intro tidy
  refine ⟨counter.mpr tidy.apart, fun f mem => ?_, fun f mem => ?_⟩
  · obtain ⟨freed, unreserved⟩ := (isFree f).mp mem
    obtain ⟨a, memberA, inside⟩ := mem_freedFrames.mp freed
    obtain ⟨usable, low, high⟩ := mem_regionFrames.mp inside
    refine ⟨a, memberA, usable, ?_, ?_⟩
    · rcases tidy.aligned a memberA ⟨f, inside⟩ with aligned | reserved
      · unfold startFrame frameSize at low
        unfold frameSize at aligned ⊢
        omega
      have later : a.startFrame ≠ f := fun eq => unreserved (eq ▸ reserved)
      unfold startFrame frameSize at low later
      unfold frameSize
      omega
    unfold endFrame end_ frameSize at high
    unfold frameSize
    omega
  obtain ⟨freed, unreserved⟩ := (isFree f).mp mem
  rw [reservedFrames, mem_Ico] at unreserved
  rw [phys, length]
  have le : bitmapBytes regions ≤ bitmapFrames regions * 4096 := by
    rw [bitmapFrames, Nat.ceilDiv_eq_add_pred_div]
    unfold frameSize
    omega
  by_cases next : f = r.startFrame + bitmapFrames regions
  · rcases tidy.tail with ends | unfreed
    · subst next
      unfold startFrame frameSize
      unfold frameSize at ends
      omega
    · exact absurd (next ▸ freed) unfreed
  unfold startFrame frameSize at *
  omega

def plainMap : List MemoryRegion := [⟨0, 0x8000, true⟩]

theorem init_sound_iff_tidy_plainMap :
    bitmapRegion plainMap = some ⟨0, 0x8000, true⟩ ∧ init plainMap = .ok ⟨0, [1#8], 8, 0, 7⟩ ∧
      (InitSound plainMap ⟨0, [1#8], 8, 0, 7⟩ ↔ Tidy plainMap ⟨0, 0x8000, true⟩) :=
  ⟨by decide, by decide, init_sound_iff_tidy plainMap _ _ (by decide) (by decide)⟩

/-- Usable memory from 0x4800 on; the frame at 0x4000 begins below it. -/
def unalignedMap : List MemoryRegion := [⟨0, 0x4000, true⟩, ⟨0x4800, 0x3800, true⟩]

def overlappingMap : List MemoryRegion := [⟨0, 0x4000, true⟩, ⟨0x2000, 0x2000, true⟩]

def straddlingMap : List MemoryRegion := [⟨0xFFF, 0x10001, true⟩]

/-- Frame 4 is free although it is not wholly usable; three frames are free and five are counted;
the second byte of the bitmap lies in the free frame 1. -/
theorem init_marks_wrong_frames :
    (∃ p, init unalignedMap = .ok p ∧ 4 ∈ p.free ∧
      ∀ r ∈ unalignedMap, ¬ (r.base.val ≤ 4 * frameSize ∧ 5 * frameSize ≤ r.base.val + r.length.val)) ∧
    (∃ p, init overlappingMap = .ok p ∧ p.freeFrames = 5 ∧ p.free.card = 3) ∧
    ∃ p, init straddlingMap = .ok p ∧ 1 ∈ p.free ∧ p.bitmapPhys < 2 * frameSize ∧
      1 * frameSize < p.bitmapPhys + p.bitmap.length := by
  refine ⟨⟨⟨0, [1#8], 8, 0, 7⟩, by decide, by decide, by decide⟩,
    ⟨⟨0, [0xF1#8], 4, 0, 5⟩, by decide, by decide, by decide⟩,
    ⟨0xFFF, [1#8, 0#8, 0xFE#8], 17, 0, 16⟩, by decide, by decide, by decide, by decide⟩

end HuesOS.Memory
