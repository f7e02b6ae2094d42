import HuesOS.Object.Registry

/-! Grants of physical ranges. -/

namespace HuesOS.Object

inductive ResourceKind
  | ioPort | mmio | irq | powerControl | dmaPool | frameDraw | systemControl | volumeKey
  deriving DecidableEq

inductive ResourceError
  | invalidRange | conflict
  deriving DecidableEq

/-- A grant as its constructor admits it: the range is not empty, and its end is a 64-bit word. -/
structure Resource where
  kind : ResourceKind
  base : UInt64
  len : UInt64
  exclusive : Bool
  len_pos : 0 < len.toNat
  fits : base.toNat + len.toNat < 2 ^ 64

namespace Resource

def checkedEnd (base len : UInt64) : Option Nat :=
  if base.toNat + len.toNat < 2 ^ 64 then some (base.toNat + len.toNat) else none

def saturatingEnd (base len : UInt64) : Nat := min (base.toNat + len.toNat) (2 ^ 64 - 1)

def intersects (r : Resource) (base len : UInt64) : Bool :=
  if len = 0 then false
  else match checkedEnd base len with
    | none => false
    | some otherEnd => base.toNat < saturatingEnd r.base r.len && r.base.toNat < otherEnd

def range (r : Resource) : Set Nat := Set.Ico r.base.toNat (r.base.toNat + r.len.toNat)

theorem intersects_iff (r other : Resource) :
    r.intersects other.base other.len = true ↔ ¬Disjoint r.range other.range := by
  have mine := r.fits
  have theirs := other.fits
  have some_len := other.len_pos
  have own_len := r.len_pos
  have nonzero : other.len ≠ 0 := by
    intro zero
    simp [zero] at some_len
  unfold intersects checkedEnd saturatingEnd range
  rw [if_neg nonzero, if_pos theirs, Set.Ico_disjoint_Ico]
  simp only [Bool.and_eq_true, decide_eq_true_eq]
  omega

end Resource

inductive KernelObject
  | resource (r : Resource)
  | other

namespace Registry

def conflicts (candidate : Resource) : KernelObject → Bool
  | .other => false
  | .resource existing =>
    existing.kind = candidate.kind && existing.intersects candidate.base candidate.len &&
      (candidate.exclusive || existing.exclusive)

def tryRegisterResourceLocked (koid : Koid) (candidate : Resource) (s : Registry KernelObject) :
    Except ResourceError Unit × Registry KernelObject :=
  if s.objects.entries.any fun entry => conflicts candidate entry.2 then (.error .conflict, s)
  else (.ok (), s.registerObject koid (.resource candidate))

def tryCreate (koid : Koid) (kind : ResourceKind) (base len : UInt64) (exclusive : Bool)
    (s : Registry KernelObject) : Except ResourceError Unit × Registry KernelObject :=
  if empty : len = 0 then (.error .invalidRange, s)
  else if fits : base.toNat + len.toNat < 2 ^ 64 then
    s.tryRegisterResourceLocked koid
      { kind, base, len, exclusive, fits
        len_pos := Nat.pos_of_ne_zero fun zero => empty (UInt64.toNat_inj.mp zero) }
  else (.error .invalidRange, s)

end Registry

/-- Registrations, references and destructions. No identifier is assumed to be new. -/
inductive RegistryOp
  | create (koid : Koid) (kind : ResourceKind) (base len : UInt64) (exclusive : Bool)
  | registerOther (koid : Koid)
  | handleOpen (koid : Koid)
  | handleClose (koid : Koid)
  | acquireKernelRef (koid : Koid)
  | kernelRefOpen (koid : Koid)
  | kernelRefClose (koid : Koid)
  | unregister (koid : Koid)

namespace RegistryOp

def run : RegistryOp → Registry KernelObject → Registry KernelObject
  | .create koid kind base len exclusive, s => (s.tryCreate koid kind base len exclusive).2
  | .registerOther koid, s => s.registerObject koid .other
  | .handleOpen koid, s => s.noteHandleOpen koid
  | .handleClose koid, s => (s.noteHandleClose koid).2
  | .acquireKernelRef koid, s => (s.acquireKernelRef koid).2
  | .kernelRefOpen koid, s => s.noteKernelRefOpen koid
  | .kernelRefClose koid, s => (s.noteKernelRefClose koid).2
  | .unregister koid, s => s.unregisterObject koid

def runAll (ops : List RegistryOp) (s : Registry KernelObject) : Registry KernelObject :=
  ops.foldl (fun s op => op.run s) s

end RegistryOp

namespace Registry
variable {s t : Registry KernelObject} {koid : Koid} {candidate : Resource}

/-- No exclusive resource overlaps another live one of its kind. -/
def Exclusive (s : Registry KernelObject) : Prop :=
  ∀ koid koid' r r', s.object koid = some (.resource r) → s.object koid' = some (.resource r') →
    koid ≠ koid' → r.kind = r'.kind → r.exclusive = true → Disjoint r.range r'.range

theorem Exclusive.mono (h : s.Exclusive)
    (fewer : ∀ koid r, t.object koid = some (.resource r) → s.object koid = some (.resource r)) :
    t.Exclusive := by
  intro koid koid' r r' here there
  exact h koid koid' r r' (fewer koid r here) (fewer koid' r' there)

theorem apart_of_walk {r : Resource}
    (walk : ¬(s.objects.entries.any fun entry => conflicts candidate entry.2))
    (found : s.object koid = some (.resource r)) (same : r.kind = candidate.kind)
    (exclusive : candidate.exclusive = true ∨ r.exclusive = true) :
    Disjoint r.range candidate.range := by
  by_contra overlap
  apply walk
  rw [List.any_eq_true]
  refine ⟨⟨koid, .resource r⟩, AList.mem_lookup_iff.mp found, ?_⟩
  simp only [conflicts, same, decide_true, Bool.true_and, Bool.and_eq_true, Bool.or_eq_true]
  exact ⟨(r.intersects_iff candidate).mpr overlap, exclusive⟩

theorem Exclusive.tryRegister (h : s.Exclusive) :
    (s.tryRegisterResourceLocked koid candidate).2.Exclusive := by
  unfold tryRegisterResourceLocked
  split
  · exact h
  next walk =>
  intro here there r r' first second ne kind exclusive
  simp only [object_registerObject] at first second
  split at first
  next old =>
    cases first
    rw [if_neg (fun new => ne (old.trans new.symm))] at second
    exact (apart_of_walk walk second kind.symm (.inl exclusive)).symm
  split at second
  · cases second
    exact apart_of_walk walk first kind (.inr exclusive)
  · exact h here there r r' first second ne kind exclusive

theorem Exclusive.tryCreate (h : s.Exclusive) (koid : Koid) (kind : ResourceKind)
    (base len : UInt64) (exclusive : Bool) :
    (s.tryCreate koid kind base len exclusive).2.Exclusive := by
  unfold Registry.tryCreate
  split
  · exact h
  split
  · exact h.tryRegister
  · exact h

theorem Exclusive.run (h : s.Exclusive) (op : RegistryOp) : (op.run s).Exclusive := by
  cases op with
  | create koid kind base len exclusive => exact h.tryCreate koid kind base len exclusive
  | registerOther koid =>
    apply h.mono
    intro other r found
    simp only [RegistryOp.run, object_registerObject] at found
    split at found
    · cases found
    · exact found
  | handleOpen koid =>
    apply h.mono
    intro other r found
    rwa [RegistryOp.run, object_noteHandleOpen] at found
  | handleClose koid => exact h.mono fun _ _ => object_noteHandleClose
  | acquireKernelRef koid =>
    apply h.mono
    intro other r found
    rwa [RegistryOp.run, object_acquireKernelRef] at found
  | kernelRefOpen koid =>
    apply h.mono
    intro other r found
    rwa [RegistryOp.run, object_noteKernelRefOpen] at found
  | kernelRefClose koid => exact h.mono fun _ _ => object_noteKernelRefClose
  | unregister koid => exact h.mono fun _ _ => object_unregisterObject

theorem exclusive_new : (new : Registry KernelObject).Exclusive := by
  intro koid koid' r r' found
  cases found

/-- After every history of registrations and destructions the exclusive resources overlap no other
live resource of their kind. -/
theorem exclusive_resources_apart (ops : List RegistryOp) :
    (RegistryOp.runAll ops new).Exclusive := by
  suffices kept : ∀ s : Registry KernelObject, s.Exclusive → (RegistryOp.runAll ops s).Exclusive by
    exact kept new exclusive_new
  intro s h
  induction ops generalizing s with
  | nil => exact h
  | cons op rest ih => exact ih (op.run s) (h.run op)

/-- A range that would end at the top of the address space is refused, one word below it is
granted. -/
example : (new.tryCreate 1 .mmio 0xfffffffffffff000 0x1000 true).1 = .error .invalidRange ∧
    (new.tryCreate 1 .mmio 0xfffffffffffff000 0xfff true).1 = .ok () := by decide

end Registry
end HuesOS.Object
