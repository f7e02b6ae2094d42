import Mathlib

namespace HuesOS.Fault
open List

structure FixupRange where
  startRip : Nat
  endRip : Nat
  fixupRip : Nat

def FixupRange.contains (e : FixupRange) (rip : Nat) : Bool := e.startRip ≤ rip && rip < e.endRip

def FixupRange.isValid (e : FixupRange) : Bool := e.startRip < e.endRip

def Follows (a b : FixupRange) : Prop := ¬ a.startRip ≥ b.startRip ∧ ¬ a.endRip > b.startRip

instance decidableFollows : DecidableRel Follows := fun _ _ => instDecidableAnd

structure Extable where
  entries : List FixupRange
  valid : ∀ e ∈ entries, e.isValid = true
  sorted : entries.IsChain Follows

def newSorted (entries : List FixupRange) : Option Extable :=
  if h : (∀ e ∈ entries, e.isValid = true) ∧ entries.IsChain Follows then
    some ⟨entries, h.1, h.2⟩
  else none

/-- The loop of the standard library's binary search. -/
def narrow (below : Nat → Bool) (base size : Nat) : Nat :=
  if 1 < size then
    narrow below (if below (base + size / 2) then base + size / 2 else base) (size - size / 2)
  else base
termination_by size
decreasing_by omega

def startsBelow (entries : List FixupRange) (key i : Nat) : Bool :=
  entries[i]?.any (·.startRip ≤ key)

def binarySearchByKey (entries : List FixupRange) (key : Nat) : Except Nat Nat :=
  let base := narrow (startsBelow entries key) 0 entries.length
  match entries[base]? with
  | none => .error 0
  | some e =>
    if e.startRip = key then .ok base else .error (if e.startRip < key then base + 1 else base)

def Extable.find (t : Extable) (faultRip : Nat) : Option Nat :=
  match binarySearchByKey t.entries faultRip with
  | .error 0 => none
  | .ok i | .error (i + 1) =>
    t.entries[i]?.bind fun e => if faultRip < e.endRip then some e.fixupRip else none

/-- The loop ends at the last place below, or where it began. -/
theorem narrow_spec {below : Nat → Bool} (closed : ∀ {i j}, i ≤ j → below j → below i)
    {base size b : Nat} (pos : 0 < size) (found : narrow below base size = b) :
    base ≤ b ∧ b < base + size ∧ (b = base ∨ below b) ∧ ∀ j, b < j → j < base + size → below j = false := by
  induction size using Nat.strong_induction_on generalizing base with
  | _ size ih =>
    rw [narrow] at found
    split_ifs at found with more here
    · obtain ⟨low, high, last, rest⟩ := ih (size - size / 2) (by omega) (by omega) found
      refine ⟨by omega, by omega, .inr ?_, fun j after lt => rest j after (by omega)⟩
      rcases last with rfl | there
      · exact here
      · exact there
    · obtain ⟨low, high, last, rest⟩ := ih (size - size / 2) (by omega) (by omega) found
      refine ⟨low, by omega, last, fun j after lt => ?_⟩
      by_cases early : j < base + (size - size / 2)
      · exact rest j after early
      · exact Bool.eq_false_iff.mpr fun there => here (closed (by omega) there)
    · exact ⟨found.le, by omega, .inl found.symm, by omega⟩

instance transFollows : IsTrans FixupRange Follows := ⟨fun a b c ab bc => by
  unfold Follows at *
  omega⟩

namespace Extable
variable (t : Extable) {i j : Nat} {a b : FixupRange}

theorem follows (here : t.entries[i]? = some a) (there : t.entries[j]? = some b) (lt : i < j) :
    a.startRip < b.startRip ∧ a.endRip ≤ b.startRip := by
  obtain ⟨inside, rfl⟩ := List.getElem?_eq_some_iff.mp here
  obtain ⟨inside', rfl⟩ := List.getElem?_eq_some_iff.mp there
  have ordered := pairwise_iff_getElem.mp (isChain_iff_pairwise.mp t.sorted) i j inside inside' lt
  exact ⟨not_le.mp ordered.1, not_lt.mp ordered.2⟩

theorem startsBelow_iff {rip : Nat} : startsBelow t.entries rip i = true ↔
    ∃ e, t.entries[i]? = some e ∧ e.startRip ≤ rip := by
  rw [startsBelow]
  cases t.entries[i]? <;> simp

theorem startsBelow_mono (rip : Nat) (le : i ≤ j) (there : startsBelow t.entries rip j = true) :
    startsBelow t.entries rip i = true := by
  rcases Nat.eq_or_lt_of_le le with rfl | lt
  · exact there
  obtain ⟨b, found, low⟩ := t.startsBelow_iff.mp there
  have here := List.getElem?_eq_getElem (lt.trans (List.getElem?_eq_some_iff.mp found).1)
  exact t.startsBelow_iff.mpr ⟨_, here, (t.follows here found lt).1.le.trans low⟩

/-- A table is one that `new_sorted` accepts, and the search finds what a scan of it finds. -/
theorem find_eq_scan (rip : Nat) : newSorted t.entries = some t ∧
    t.find rip = (t.entries.find? (·.contains rip)).map (·.fixupRip) := by
  refine ⟨dif_pos ⟨t.valid, t.sorted⟩, ?_⟩
  rw [find, binarySearchByKey]
  rcases t.entries.length.eq_zero_or_pos with none | pos
  · simp [length_eq_zero_iff.mp none]
  obtain ⟨-, lt, last, rest⟩ := narrow_spec (t.startsBelow_mono rip) pos rfl
  generalize narrow (startsBelow t.entries rip) 0 t.entries.length = i at lt last rest ⊢
  obtain ⟨e, here⟩ : ∃ e, t.entries[i]? = some e := ⟨_, List.getElem?_eq_getElem (by omega)⟩
  -- entries before the one found end too early, those after it start too late
  have only : ∀ a ∈ t.entries, a.contains rip = true → a = e := by
    intro a mem contains
    obtain ⟨k, there⟩ := mem_iff_getElem?.mp mem
    simp only [FixupRange.contains, Bool.and_eq_true, decide_eq_true_eq] at contains
    have reached : ¬ i < k := fun after => by
      have late := rest k after (by have := (List.getElem?_eq_some_iff.mp there).1; omega)
      rw [t.startsBelow_iff.mpr ⟨a, there, contains.1⟩] at late
      cases late
    rcases Nat.eq_or_lt_of_le (not_lt.mp reached) with rfl | pre
    · cases here.symm.trans there
      rfl
    · have low := t.startsBelow_iff.mp (last.resolve_left (by omega))
      have := t.follows there here pre
      simp only [here, Option.some.injEq, exists_eq_left'] at low
      omega
  have scan : t.entries.find? (·.contains rip) = if e.contains rip then some e else none := by
    cases found : t.entries.find? (·.contains rip) with
    | none => exact (if_neg (find?_eq_none.mp found e (mem_of_getElem? here))).symm
    | some a =>
      have holds : a.contains rip = true := by simpa using find?_some found
      obtain rfl := only a (mem_of_find?_eq_some found) holds
      exact (if_pos holds).symm
  rw [scan, here]
  simp only [FixupRange.contains]
  rcases lt_trichotomy e.startRip rip with less | eq | more
  · simp [less, less.le, less.ne, here]
  · simp [eq, here]
  · obtain rfl : i = 0 := last.resolve_right fun below => by
      obtain ⟨a, there, low⟩ := t.startsBelow_iff.mp below
      cases here.symm.trans there
      omega
    simp [more.ne', not_lt.mpr more.le, not_le.mpr more]

end Extable

/-- What an unstable sort by the starts may leave. -/
def SortRanges (entries sorted : List FixupRange) : Prop :=
  sorted.Perm entries ∧ sorted.Pairwise (·.startRip ≤ ·.startRip)

/-- Sorted ranges are accepted exactly when they are valid and no address lies in two of them,
although only neighbours are compared. -/
theorem sorted_accepted_iff {entries sorted : List FixupRange} (sorts : SortRanges entries sorted) :
    (newSorted sorted).isSome ↔ (∀ e ∈ entries, e.isValid = true) ∧
      entries.Pairwise fun a b => ∀ rip, ¬ (a.contains rip = true ∧ b.contains rip = true) := by
  have accepted : (newSorted sorted).isSome ↔
      (∀ e ∈ sorted, e.isValid = true) ∧ sorted.IsChain Follows := by
    rw [newSorted]
    split <;> simp_all
  rw [accepted, isChain_iff_pairwise, ← sorts.1.pairwise_iff fun apart rip => mt And.symm (apart rip)]
  simp only [← sorts.1.mem_iff]
  refine and_congr_right fun valid => ⟨fun chain => chain.imp fun {a b} follows rip => ?_, fun apart => ?_⟩
  · simp only [FixupRange.contains, Follows, decide_eq_true_eq, Bool.and_eq_true] at *
    omega
  · refine (apart.and sorts.2).imp_of_mem fun {a b} ha hb ⟨apart, le⟩ => ?_
    have := valid a ha
    have := valid b hb
    have := apart b.startRip
    simp only [FixupRange.isValid, FixupRange.contains, Follows, decide_eq_true_eq, Bool.and_eq_true] at *
    omega

theorem sorted_accepted_iff_two : (newSorted [⟨0x10, 0x20, 1⟩, ⟨0x20, 0x21, 2⟩]).isSome = true := by
  have sorts : SortRanges [⟨0x20, 0x21, 2⟩, ⟨0x10, 0x20, 1⟩] [⟨0x10, 0x20, 1⟩, ⟨0x20, 0x21, 2⟩] :=
    ⟨.swap .., by decide⟩
  exact (sorted_accepted_iff sorts).mpr ⟨by decide, by simp [FixupRange.contains]; omega⟩

end HuesOS.Fault
