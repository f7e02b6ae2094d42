import HuesOS.Vm.Flags

/-! The registry of kernel objects. -/

namespace HuesOS.Object
open Option

/-- Identifiers of kernel objects; zero is invalid. -/
abbrev Koid := Nat

structure Handle where
  koid : Koid
  rights : Vm.Rights
  deriving DecidableEq

/-- What keeps an object alive: handles, in process tables or in flight, and kernel references. The
counters of the source saturate at the largest 64-bit word, which no run reaches one reference at a
time; here they have no limit. -/
structure RefAccount where
  handleRefs : Nat
  kernelRefs : Nat
  registered : Bool
  collected : Bool
  deriving DecidableEq

namespace RefAccount

def new : RefAccount := ⟨0, 0, true, false⟩

def mayCollect (a : RefAccount) : Bool :=
  a.registered && !a.collected && a.handleRefs = 0 && a.kernelRefs = 0

def openHandles (n : Nat) (a : RefAccount) : RefAccount :=
  if a.collected then a else { a with handleRefs := a.handleRefs + n }

def closeHandles (n : Nat) (a : RefAccount) : RefAccount :=
  { a with handleRefs := a.handleRefs - n }

def openKernelRefs (n : Nat) (a : RefAccount) : RefAccount :=
  if a.collected then a else { a with kernelRefs := a.kernelRefs + n }

def closeKernelRefs (n : Nat) (a : RefAccount) : RefAccount :=
  { a with kernelRefs := a.kernelRefs - n }

end RefAccount

open RefAccount

/-- The two maps of the registry. The indexes of processes and interrupts are left out. -/
structure Registry (α : Type) where
  objects : AList fun _ : Koid => α
  accounts : AList fun _ : Koid => RefAccount

namespace Registry
variable {α : Type} {s : Registry α} {koid other : Koid}

def new : Registry α := ⟨∅, ∅⟩

def object (s : Registry α) (koid : Koid) : Option α := s.objects.lookup koid

def account (s : Registry α) (koid : Koid) : Option RefAccount := s.accounts.lookup koid

def registerObject (koid : Koid) (object : α) (s : Registry α) : Registry α :=
  ⟨s.objects.insert koid object, s.accounts.insert koid .new⟩

def updateAccount (koid : Koid) (f : RefAccount → RefAccount) (s : Registry α) : Registry α :=
  match s.account koid with
  | none => s
  | some account => { s with accounts := s.accounts.insert koid (f account) }

/-- Give up an object that nothing keeps alive; the answer is the object to drop. -/
def collectObject (koid : Koid) (s : Registry α) : Option α × Registry α :=
  match s.account koid with
  | none => (none, s)
  | some account =>
    if account.mayCollect then
      (s.object koid, ⟨s.objects.erase koid, s.accounts.erase koid⟩)
    else (none, s)

def noteHandleOpen (koid : Koid) (s : Registry α) : Registry α :=
  if koid = 0 then s else s.updateAccount koid (openHandles 1)

def noteHandleClose (koid : Koid) (s : Registry α) : Option α × Registry α :=
  if koid = 0 then (none, s)
  else (s.updateAccount koid (closeHandles 1)).collectObject koid

def acquireKernelRef (koid : Koid) (s : Registry α) : Option α × Registry α :=
  if koid = 0 then (none, s)
  else match s.object koid, s.account koid with
    | some object, some _ => (some object, s.updateAccount koid (openKernelRefs 1))
    | _, _ => (none, s)

def noteKernelRefOpen (koid : Koid) (s : Registry α) : Registry α :=
  if koid = 0 then s else s.updateAccount koid (openKernelRefs 1)

def noteKernelRefClose (koid : Koid) (s : Registry α) : Option α × Registry α :=
  if koid = 0 then (none, s)
  else (s.updateAccount koid (closeKernelRefs 1)).collectObject koid

def unregisterObject (koid : Koid) (s : Registry α) : Registry α :=
  ⟨s.objects.erase koid, s.accounts.erase koid⟩

theorem object_registerObject {obj : α} :
    (s.registerObject koid obj).object other = if other = koid then some obj else s.object other := by
  unfold Registry.object registerObject
  by_cases eq : other = koid
  · subst eq
    simp
  · simp [eq]

@[simp] theorem object_updateAccount (f : RefAccount → RefAccount) :
    (s.updateAccount koid f).object = s.object := by
  unfold updateAccount
  split <;> rfl

theorem object_collectObject {o : α} (found : (s.collectObject koid).2.object other = some o) :
    s.object other = some o := by
  unfold collectObject at found
  split at found
  · exact found
  split at found
  · unfold Registry.object at found ⊢
    by_cases eq : other = koid
    · subst eq
      simp at found
    · simpa [eq] using found
  · exact found

theorem object_noteHandleOpen : (s.noteHandleOpen koid).object = s.object := by
  unfold noteHandleOpen
  split <;> simp

theorem object_noteHandleClose {o : α} (found : (s.noteHandleClose koid).2.object other = some o) :
    s.object other = some o := by
  unfold noteHandleClose at found
  split at found
  · exact found
  · simpa using object_collectObject found

theorem object_acquireKernelRef : (s.acquireKernelRef koid).2.object = s.object := by
  unfold acquireKernelRef
  split
  · rfl
  · split <;> simp

theorem object_noteKernelRefOpen : (s.noteKernelRefOpen koid).object = s.object := by
  unfold noteKernelRefOpen
  split <;> simp

theorem object_noteKernelRefClose {o : α}
    (found : (s.noteKernelRefClose koid).2.object other = some o) : s.object other = some o := by
  unfold noteKernelRefClose at found
  split at found
  · exact found
  · simpa using object_collectObject found

theorem object_unregisterObject {o : α} (found : (s.unregisterObject koid).object other = some o) :
    s.object other = some o := by
  unfold Registry.object unregisterObject at *
  by_cases eq : other = koid
  · subst eq
    simp at found
  · simpa [eq] using found

theorem account_registerObject {obj : α} :
    (s.registerObject koid obj).account other = if other = koid then some .new else s.account other := by
  unfold Registry.account registerObject
  by_cases eq : other = koid
  · subst eq
    simp
  · simp [eq]

theorem account_updateAccount (f : RefAccount → RefAccount) :
    (s.updateAccount koid f).account other =
      if other = koid then (s.account koid).map f else s.account other := by
  unfold updateAccount
  split
  next none =>
    by_cases same : other = koid
    · rw [if_pos same, same, none]
      rfl
    · rw [if_neg same]
  next a found =>
  by_cases same : other = koid
  · rw [if_pos same, same, found, map_some]
    simp [Registry.account]
  rw [if_neg same]
  simp [Registry.account, same]

theorem isSome_account_noteHandleOpen :
    ((s.noteHandleOpen koid).account other).isSome = (s.account other).isSome := by
  unfold noteHandleOpen
  split
  · rfl
  rw [account_updateAccount]
  split
  next eq => rw [eq, isSome_map]
  · rfl

theorem account_unregisterObject :
    (s.unregisterObject koid).account other = if other = koid then none else s.account other := by
  unfold Registry.account unregisterObject
  by_cases eq : other = koid
  · subst eq
    simp
  · simp [eq]

theorem collectObject_eq : s.collectObject koid =
    if (s.account koid).any mayCollect then (s.object koid, s.unregisterObject koid)
    else (none, s) := by
  unfold collectObject
  cases found : s.account koid with
  | none => simp
  | some a => cases may : a.mayCollect <;> simp [may, unregisterObject]

theorem object_unregisterObject_eq :
    (s.unregisterObject koid).object other = if other = koid then none else s.object other := by
  unfold Registry.object unregisterObject
  by_cases eq : other = koid
  · subst eq
    simp
  · simp [eq]

end Registry
end HuesOS.Object
