import HuesOS.Sync.RankedLocks
import HuesOS.Vm.Vmar

namespace HuesOS.Vm
open Function Sync

inductive UserPageError
  | outOfMemory | alreadyMapped | notMapped
  deriving DecidableEq

def UserPageError.toErrorCode : UserPageError → ErrorCode
  | .outOfMemory => .noMemory
  | .alreadyMapped => .busy
  | .notMapped => .invalidArgs

structure PageEntry where
  frame : Nat
  flags : PageTableFlags

/-- What a page was mapped for: the rights of the handle to the memory object, or the kind of
the device resource. -/
inductive Source
  | vmo (rights : Rights)
  | resource (kind : ResourceKind)
  deriving DecidableEq

/-- The region whose record the mapping was made under, and what it was made for. -/
structure Origin where
  holder : Koid
  source : Source

/-- The page tables. Where a page came from is not part of the code. -/
@[ext]
structure AddressSpace where
  pages : Nat → Option PageEntry
  origin : Nat → Option Origin

/-- The ranks of `HHDM_OFFSET` and of `VMAR_MUTATION_LOCK`, and a name for each. -/
def hhdmOffset : HeldLock := ⟨10, 0⟩

def vmarMutationLock : HeldLock := ⟨40, 1⟩

/-- What a CPU holds in a call that unmaps or protects a range; a call that maps holds nothing. -/
def mutating : RankTracker := ⟨[vmarMutationLock]⟩

namespace AddressSpace

def tryMapUserPage (a : AddressSpace) (room : Bool) (page frame : Nat) (flags : PageTableFlags) :
    Except UserPageError AddressSpace :=
  match a.pages page with
  | some _ => .error .alreadyMapped
  | none =>
    if room then .ok { a with pages := update a.pages page (some ⟨frame, flags⟩) }
    else .error .outOfMemory

def unmapUserPage (a : AddressSpace) (page : Nat) : Except UserPageError AddressSpace :=
  match a.pages page with
  | none => .error .notMapped
  | some _ => .ok { a with pages := update a.pages page none }

def protectUserPage (a : AddressSpace) (page : Nat) (flags : PageTableFlags) :
    Except UserPageError AddressSpace :=
  match a.pages page with
  | none => .error .notMapped
  | some entry =>
    .ok { a with pages := update a.pages page (some { entry with flags := flags }) }

/-- Map the pages from `index` on; the number of pages mapped in all, and how it ended. -/
def mapPages (room : Nat → Bool) (frameAt : Nat → Option Nat) (first : Nat)
    (flags : PageTableFlags) : (left index : Nat) → AddressSpace →
    Nat × Except ErrorCode Unit × AddressSpace
  | 0, index, a => (index, .ok (), a)
  | left + 1, index, a =>
    match frameAt index with
    | none => (index, .error .invalidArgs, a)
    | some frame =>
      match a.tryMapUserPage (room index) (first + index) frame flags with
      | .error error => (index, .error error.toErrorCode, a)
      | .ok a => mapPages room frameAt first flags left (index + 1) a

def unmapBack (first : Nat) : Nat → AddressSpace → AddressSpace
  | 0, a => a
  | count + 1, a =>
    unmapBack first count <|
      match a.unmapUserPage (first + count) with
      | .ok a => a
      | .error _ => a

/-- Before it touches a page, `phys_to_virt` takes the lock of the offset of physical memory; there is
no result when its rank forbids that. -/
def unmapPages (held : RankTracker) (first : Nat) : (left index : Nat) → AddressSpace →
    Option (Nat × Bool × AddressSpace)
  | 0, index, a => some (index, true, a)
  | left + 1, index, a =>
    match held.enter hhdmOffset.rank hhdmOffset.identity with
    | .error _ => none
    | .ok _ =>
      match a.unmapUserPage (first + index) with
      | .error _ => some (index, false, a)
      | .ok a => unmapPages held first left (index + 1) a

def protectPages (held : RankTracker) (first : Nat) (flags : PageTableFlags) :
    (left index : Nat) → AddressSpace → Option (Nat × Bool × AddressSpace)
  | 0, index, a => some (index, true, a)
  | left + 1, index, a =>
    match held.enter hhdmOffset.rank hhdmOffset.identity with
    | .error _ => none
    | .ok _ =>
      match a.protectUserPage (first + index) flags with
      | .error _ => some (index, false, a)
      | .ok a => protectPages held first flags left (index + 1) a

def noted (a : AddressSpace) (first count : Nat) (origin : Origin) : AddressSpace :=
  { a with origin := fun page =>
      if first ≤ page ∧ page < first + count then some origin else a.origin page }

def cleared (a : AddressSpace) (first count : Nat) : AddressSpace :=
  { a with pages := fun page =>
      if first ≤ page ∧ page < first + count then none else a.pages page }

/-- What a loop that maps has done: the pages were free and show the frames they should; the
others are as before. -/
structure Mapped (frameAt : Nat → Option Nat) (first count : Nat) (flags : PageTableFlags)
    (a a' : AddressSpace) : Prop where
  origin : a'.origin = a.origin
  free : ∀ page, first ≤ page → page < first + count → a.pages page = none
  shown : ∀ page, first ≤ page → page < first + count →
    ∃ frame, frameAt (page - first) = some frame ∧ a'.pages page = some ⟨frame, flags⟩
  other : ∀ page, ¬ (first ≤ page ∧ page < first + count) → a'.pages page = a.pages page

variable {a a' : AddressSpace} {room : Nat → Bool} {frameAt : Nat → Option Nat} {first count : Nat}
  {flags : PageTableFlags}

theorem Mapped.none : Mapped frameAt first 0 flags a a := ⟨rfl, by omega, by omega, fun _ _ => rfl⟩

theorem Mapped.snoc {b : AddressSpace} {frame : Nat} (mapped : Mapped frameAt first count flags a a')
    (found : frameAt count = some frame) {roomy : Bool}
    (next : a'.tryMapUserPage roomy (first + count) frame flags = .ok b) :
    Mapped frameAt first (count + 1) flags a b := by
  rw [tryMapUserPage] at next
  split at next
  · cases next
  next absent =>
  split at next
  · cases next
    have last : a.pages (first + count) = Option.none := (mapped.other _ (by omega)).symm.trans absent
    refine ⟨mapped.origin, fun page low high => ?_, fun page low high => ?_, fun page out => ?_⟩
    · by_cases eq : page = first + count
      · rw [eq, last]
      · exact mapped.free page low (by omega)
    · by_cases eq : page = first + count
      · subst eq
        refine ⟨frame, by rwa [Nat.add_sub_cancel_left], ?_⟩
        exact update_self ..
      obtain ⟨frame', found', shows⟩ := mapped.shown page low (by omega)
      exact ⟨frame', found', (update_of_ne eq ..).trans shows⟩
    · exact (update_of_ne (by omega) ..).trans (mapped.other page (by omega))
  · cases next

theorem mapPages_mapped {left idx n : Nat} {start : AddressSpace} {result : Except ErrorCode Unit}
    (pre : Mapped frameAt first idx flags start a)
    (ran : mapPages room frameAt first flags left idx a = (n, result, a')) :
    Mapped frameAt first n flags start a' ∧ (result = .ok () → n = idx + left) := by
  induction left generalizing idx a with
  | zero =>
    cases ran
    exact ⟨pre, fun _ => rfl⟩
  | succ left ih =>
    rw [mapPages] at ran
    split at ran
    · cases ran
      exact ⟨pre, nofun⟩
    next frame found =>
    split at ran
    · cases ran
      exact ⟨pre, nofun⟩
    next b taken =>
    obtain ⟨mapped, all⟩ := ih (pre.snoc found taken) ran
    exact ⟨mapped, fun ok => (all ok).trans (by omega)⟩

theorem unmapBack_eq (first count : Nat) (a : AddressSpace) :
    unmapBack first count a = a.cleared first count := by
  induction count generalizing a with
  | zero =>
    refine AddressSpace.ext (funext fun page => ?_) rfl
    exact (if_neg (by omega)).symm
  | succ count ih =>
    rw [unmapBack, ih, unmapUserPage]
    cases here : a.pages (first + count) with
    | none =>
      refine AddressSpace.ext (funext fun page => ?_) rfl
      simp only [cleared]
      grind
    | some entry =>
      refine AddressSpace.ext (funext fun page => ?_) rfl
      simp only [cleared, update_apply]
      grind

theorem Mapped.undone (mapped : Mapped frameAt first count flags a a') : unmapBack first count a' = a := by
  rw [unmapBack_eq]
  refine AddressSpace.ext (funext fun page => ?_) mapped.origin
  dsimp only [cleared]
  split
  next inside => exact (mapped.free page inside.1 inside.2).symm
  next out => exact mapped.other page out

/-- No page can be unmapped or protected while the lock of a higher rank is held. -/
theorem unmapPages_mutating {len : Nat} (pages : 0 < len) (first idx : Nat) :
    unmapPages mutating first len idx a = Option.none := by
  obtain ⟨left, rfl⟩ := Nat.exists_eq_succ_of_ne_zero pages.ne'
  rfl

theorem protectPages_mutating {len : Nat} (pages : 0 < len) (first idx : Nat) :
    protectPages mutating first flags len idx a = Option.none := by
  obtain ⟨left, rfl⟩ := Nat.exists_eq_succ_of_ne_zero pages.ne'
  rfl

end AddressSpace
end HuesOS.Vm
