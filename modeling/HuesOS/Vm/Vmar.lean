import HuesOS.Lib.Lists
import HuesOS.Vm.Flags

namespace HuesOS.Vm
open List Lists

abbrev Koid := Nat

inductive VmarError
  | invalidRange | overlap
  deriving DecidableEq

structure VmarMapping where
  base : Nat
  size : Nat
  vmo : Koid
  vmoOffset : Nat
  flags : VmarFlags
  deriving DecidableEq

structure VmarChild where
  koid : Koid
  base : Nat
  size : Nat
  deriving DecidableEq

/-- A region. A child is created after its parent, so its koid is greater. -/
structure Vmar where
  koid : Koid
  process : Koid
  parent : Option Koid
  parent_lt : ∀ q ∈ parent, q < koid
  base : Nat
  size : Nat
  mappings : List VmarMapping
  children : List VmarChild

/-- The region with other records. -/
def Vmar.withMappings (v : Vmar) (mappings : List VmarMapping) : Vmar :=
  { v with mappings := mappings }

/-- The end of a range, if it is a 64-bit number. -/
def checkedEnd (base size : Nat) : Option Nat :=
  if base + size < u64Limit then some (base + size) else none

def rangesOverlap (aBase aSize bBase bSize : Nat) : Bool :=
  if aSize = 0 ∨ bSize = 0 then false
  else
    match checkedEnd aBase aSize, checkedEnd bBase bSize with
    | some aEnd, some bEnd => aBase < bEnd && bBase < aEnd
    | _, _ => true

namespace Vmar

def containsRange (v : Vmar) (base size : Nat) : Bool :=
  match checkedEnd base size, checkedEnd v.base v.size with
  | some stop, some vmarStop => 0 < size && v.base ≤ base && stop ≤ vmarStop
  | _, _ => false

def overlapsExisting (v : Vmar) (base size : Nat) : Bool :=
  v.mappings.any (fun m => rangesOverlap base size m.base m.size) ||
    v.children.any (fun c => rangesOverlap base size c.base c.size)

def recordMapping (v : Vmar) (m : VmarMapping) : Except VmarError Vmar :=
  if !v.containsRange m.base m.size then .error .invalidRange
  else if v.overlapsExisting m.base m.size then .error .overlap
  else .ok (v.withMappings (v.mappings ++ [m]))

def recordChild (v : Vmar) (c : VmarChild) : Except VmarError Vmar :=
  if !v.containsRange c.base c.size then .error .invalidRange
  else if v.overlapsExisting c.base c.size then .error .overlap
  else .ok { v with children := v.children ++ [c] }

def removeChild (v : Vmar) (koid : Koid) : Vmar :=
  match v.children.find? (fun c => c.koid = koid) with
  | some c => { v with children := (swapRemoveOf c v.children).getD v.children }
  | none => v

/-- The mapping covers a range that is asked for. -/
def covering (base size : Nat) (m : VmarMapping) : Bool :=
  match checkedEnd base size, checkedEnd m.base m.size with
  | some stop, some mappingStop => 0 < size && m.base ≤ base && stop ≤ mappingStop
  | _, _ => false

def mappingCovering (v : Vmar) (base size : Nat) : Option VmarMapping :=
  v.mappings.find? (covering base size)

/-- Some of the ranges overlap each other. -/
def clash : List VmarMapping → Bool
  | [] => false
  | m :: rest => rest.any (fun other => rangesOverlap m.base m.size other.base other.size) || clash rest

def replaceMapping (v : Vmar) (old : VmarMapping) (replacements : List VmarMapping) :
    Except VmarError Vmar :=
  if replacements.any (fun m => !v.containsRange m.base m.size || m.vmo != old.vmo) then
    .error .invalidRange
  else if clash replacements then .error .overlap
  else
    match swapRemoveOf old v.mappings with
    | none => .error .invalidRange
    | some rest =>
      if v.children.any (fun c =>
          replacements.any fun m => rangesOverlap m.base m.size c.base c.size) then
        .error .overlap
      else .ok (v.withMappings (rest ++ replacements))

def removeMapping (v : Vmar) (m : VmarMapping) : Option Vmar :=
  (swapRemoveOf m v.mappings).map v.withMappings

end Vmar

open Vmar

/-- The part of a mapping from one address up to another. -/
def VmarMapping.part (m : VmarMapping) (from_ to_ : Nat) (flags : VmarFlags) : VmarMapping where
  base := from_
  size := to_ - from_
  vmo := m.vmo
  vmoOffset := m.vmoOffset + (from_ - m.base)
  flags := flags

def splitMappingForUnmap (m : VmarMapping) (addr len : Nat) : List VmarMapping :=
  (if m.base < addr then [m.part m.base addr m.flags] else []) ++
    if addr + len < m.base + m.size then [m.part (addr + len) (m.base + m.size) m.flags] else []

def splitMappingForProtect (m : VmarMapping) (addr len : Nat) (flags : VmarFlags) :
    List VmarMapping :=
  (if m.base < addr then [m.part m.base addr m.flags] else []) ++
    m.part addr (addr + len) flags ::
    if addr + len < m.base + m.size then [m.part (addr + len) (m.base + m.size) m.flags] else []

/-- The ranges have no byte in common. -/
def Apart (aBase aSize bBase bSize : Nat) : Prop := aBase + aSize ≤ bBase ∨ bBase + bSize ≤ aBase

/-- The page lies in the range. -/
def Covers (base size page : Nat) : Prop := base ≤ page * pageSize ∧ page * pageSize < base + size

variable {aBase aSize bBase bSize : Nat}

theorem Apart.symm (apart : Apart aBase aSize bBase bSize) : Apart bBase bSize aBase aSize := Or.symm apart

theorem Apart.mono {base size : Nat} (apart : Apart aBase aSize bBase bSize)
    (low : bBase ≤ base) (high : base + size ≤ bBase + bSize) : Apart aBase aSize base size := by
  unfold Apart at *
  omega

theorem checkedEnd_eq_some {base size stop : Nat} :
    checkedEnd base size = some stop ↔ base + size < u64Limit ∧ stop = base + size := by
  unfold checkedEnd
  split <;> simp_all [eq_comm]

theorem apart_of_not_overlap (aPos : 0 < aSize) (bPos : 0 < bSize)
    (clear : rangesOverlap aBase aSize bBase bSize = false) : Apart aBase aSize bBase bSize := by
  have nonempty : ¬ (aSize = 0 ∨ bSize = 0) := by omega
  simp only [rangesOverlap, if_neg nonempty, checkedEnd] at clear
  unfold Apart
  split at clear
  next aStop bStop aFits bFits =>
    split at aFits <;> split at bFits <;> simp_all
    omega
  · cases clear

/-- A range that starts and ends on page boundaries. -/
def Aligned (base size : Nat) : Prop := base % pageSize = 0 ∧ size % pageSize = 0

theorem Aligned.covers_iff {base size page : Nat} (aligned : Aligned base size) :
    Covers base size page ↔ base / pageSize ≤ page ∧ page < base / pageSize + size / pageSize := by
  obtain ⟨low, wide⟩ := aligned
  unfold Covers pageSize at *
  omega

/-- The mapping lies within a range, on page boundaries. -/
structure VmarMapping.Within (m : VmarMapping) (base size : Nat) : Prop where
  nonempty : 0 < m.size
  low : base ≤ m.base
  high : m.base + m.size ≤ base + size
  aligned : Aligned m.base m.size

def VmarMapping.Apart (m m' : VmarMapping) : Prop := Vm.Apart m.base m.size m'.base m'.size

structure Vmar.WellFormed (v : Vmar) : Prop where
  fits : v.base + v.size < u64Limit
  within : ∀ m ∈ v.mappings, m.Within v.base v.size
  apart : v.mappings.Pairwise VmarMapping.Apart
  child : ∀ c ∈ v.children, 0 < c.size ∧ c.base + c.size < u64Limit
  children : ∀ m ∈ v.mappings, ∀ c ∈ v.children, Vm.Apart m.base m.size c.base c.size

variable {v v' : Vmar} {m : VmarMapping} {base size : Nat}

theorem Vmar.containsRange_iff (fits : v.base + v.size < u64Limit) :
    v.containsRange base size = true ↔ 0 < size ∧ v.base ≤ base ∧ base + size ≤ v.base + v.size := by
  simp only [containsRange, checkedEnd, if_pos fits]
  by_cases inner : base + size < u64Limit
  · simp only [if_pos inner, Bool.and_eq_true, decide_eq_true_eq, and_assoc]
  simp only [if_neg inner]
  constructor
  · nofun
  · omega

theorem Vmar.WellFormed.clear (wf : v.WellFormed) (nonempty : 0 < size)
    (clear : v.overlapsExisting base size = false) :
    (∀ m ∈ v.mappings, Vm.Apart base size m.base m.size) ∧
      ∀ c ∈ v.children, Vm.Apart base size c.base c.size := by
  simp only [overlapsExisting, Bool.or_eq_false_iff, any_eq_false, Bool.not_eq_true] at clear
  exact ⟨fun m mem => apart_of_not_overlap nonempty (wf.within m mem).nonempty
      (clear.1 m mem),
    fun c mem => apart_of_not_overlap nonempty (wf.child c mem).1 (clear.2 c mem)⟩

theorem Vmar.recordMapping_ok (recorded : v.recordMapping m = .ok v') :
    v.containsRange m.base m.size = true ∧ v.overlapsExisting m.base m.size = false ∧
      v' = v.withMappings (v.mappings ++ [m]) := by
  rw [recordMapping] at recorded
  split at recorded
  · cases recorded
  next inside =>
  split at recorded
  · cases recorded
  next clear =>
  cases recorded
  exact ⟨by simpa using inside, by simpa using clear, rfl⟩

theorem Vmar.WellFormed.record (wf : v.WellFormed) (aligned : Aligned m.base m.size)
    (recorded : v.recordMapping m = .ok v') : v'.WellFormed := by
  obtain ⟨inside, clear, rfl⟩ := recordMapping_ok recorded
  obtain ⟨nonempty, low, high⟩ := (containsRange_iff wf.fits).mp inside
  obtain ⟨mappings, children⟩ := wf.clear nonempty clear
  refine ⟨wf.fits, ?_, ?_, wf.child, ?_⟩
  · exact forall_mem_append.mpr ⟨wf.within, forall_mem_singleton.mpr ⟨nonempty, low, high, aligned⟩⟩
  · refine pairwise_append.mpr ⟨wf.apart, pairwise_singleton _ _, ?_⟩
    intro other mem last here
    rw [mem_singleton.mp here]
    exact (mappings other mem).symm
  · exact forall_mem_append.mpr ⟨wf.children, forall_mem_singleton.mpr children⟩

theorem Vmar.mappingCovering_some (found : v.mappingCovering base size = some m) :
    m ∈ v.mappings ∧ 0 < size ∧ m.base ≤ base ∧ base + size ≤ m.base + m.size := by
  refine ⟨mem_of_find?_eq_some found, ?_⟩
  have covers := find?_some found
  simp only [covering, checkedEnd] at covers
  split at covers
  next stop mappingStop inner outer =>
    split at inner <;> split at outer <;> simp_all
  · cases covers

def VmarMapping.Covers (m : VmarMapping) (page : Nat) : Prop := Vm.Covers m.base m.size page

/-- The page of the backing object that a page of the mapping shows. -/
def VmarMapping.index (m : VmarMapping) (page : Nat) : Nat :=
  (m.vmoOffset + (page * pageSize - m.base)) / pageSize

namespace Vmar.WellFormed
variable (wf : v.WellFormed)
include wf

theorem remove (removed : v.removeMapping m = some v') :
    ∃ rest, v' = v.withMappings rest ∧ v.mappings.Perm (m :: rest) ∧ v'.WellFormed := by
  obtain ⟨rest, left, rfl⟩ := Option.map_eq_some_iff.mp removed
  have perm := swapRemoveOf_perm left
  have old : ∀ other ∈ rest, other ∈ v.mappings := fun other there =>
    perm.mem_iff.mpr (.tail _ there)
  have pairwise := (perm.pairwise_iff fun apart => Vm.Apart.symm apart).mp wf.apart
  exact ⟨rest, rfl, perm, wf.fits, fun other there => wf.within other (old other there),
    (pairwise_cons.mp pairwise).2, wf.child,
    fun other there => wf.children other (old other there)⟩

end Vmar.WellFormed

theorem Vmar.recordChild_ok {c : VmarChild} (recorded : v.recordChild c = .ok v') :
    v.containsRange c.base c.size = true ∧ v.overlapsExisting c.base c.size = false ∧
      v' = { v with children := v.children ++ [c] } := by
  rw [recordChild] at recorded
  split at recorded
  · cases recorded
  next inside =>
  split at recorded
  · cases recorded
  next clear =>
  cases recorded
  exact ⟨by simpa using inside, by simpa using clear, rfl⟩

theorem Vmar.WellFormed.addChild (wf : v.WellFormed) {c : VmarChild}
    (recorded : v.recordChild c = .ok v') : v'.WellFormed := by
  obtain ⟨inside, clear, rfl⟩ := recordChild_ok recorded
  obtain ⟨nonempty, low, high⟩ := (containsRange_iff wf.fits).mp inside
  obtain ⟨mappings, -⟩ := wf.clear nonempty clear
  refine ⟨wf.fits, wf.within, wf.apart, ?_, fun other there => ?_⟩
  · exact forall_mem_append.mpr ⟨wf.child, forall_mem_singleton.mpr ⟨nonempty, high.trans_lt wf.fits⟩⟩
  exact forall_mem_append.mpr ⟨wf.children other there, forall_mem_singleton.mpr (mappings other there).symm⟩

theorem Vmar.removeChild_eq (v : Vmar) (koid : Koid) :
    ∃ children, v.removeChild koid = { v with children := children } ∧ ∀ c ∈ children, c ∈ v.children := by
  rw [removeChild]
  split
  next c found =>
    obtain ⟨rest, removed⟩ := swapRemoveOf_isSome (mem_of_find?_eq_some found)
    rw [removed]
    exact ⟨rest, rfl, fun other there =>
      (swapRemoveOf_perm removed).mem_iff.mpr (.tail _ there)⟩
  · exact ⟨v.children, rfl, fun _ there => there⟩

theorem Vmar.WellFormed.dropChild (wf : v.WellFormed) (koid : Koid) : (v.removeChild koid).WellFormed := by
  obtain ⟨children, same, old⟩ := v.removeChild_eq koid
  rw [same]
  exact ⟨wf.fits, wf.within, wf.apart, fun c there => wf.child c (old c there),
    fun m mem c there => wf.children m mem c (old c there)⟩

end HuesOS.Vm
