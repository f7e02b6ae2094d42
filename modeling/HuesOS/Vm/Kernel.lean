import HuesOS.Vm.AddressSpace

/-! The objects of the kernel and who keeps them alive: the registry with its two reference counts
per object, the handles of the processes, and what happens when an object is collected. -/

namespace HuesOS.Vm
open Function

structure Vmo where
  size : Nat
  frames : List Nat

def Vmo.frameAt (v : Vmo) (index : Nat) : Option Nat := v.frames[index]?

structure Resource where
  kind : ResourceKind
  base : Nat
  len : Nat

def Resource.contains (r : Resource) (kind : ResourceKind) (addr width : Nat) : Bool :=
  if r.kind ≠ kind ∨ width = 0 then false
  else
    match checkedEnd addr width with
    | none => false
    | some stop => r.base ≤ addr && stop ≤ min (r.base + r.len) (u64Limit - 1)

structure Handle where
  koid : Koid
  rights : Rights

abbrev HandleTable := List (Option Handle)

namespace HandleTable

def get (t : HandleTable) (value : Nat) : Option Handle :=
  if value = 0 then none else (t[value]?).join

def addExisting (t : HandleTable) (handle : Handle) : Nat × HandleTable :=
  match t with
  | [] => (1, [none, some handle])
  | first :: rest =>
    match rest.findIdx? Option.isNone with
    | some i => (i + 1, first :: rest.set i (some handle))
    | none => (rest.length + 1, first :: rest ++ [some handle])

def without (t : HandleTable) (value : Nat) : HandleTable := t.set value none

end HandleTable

/-- The address space of a process, the frames it allocated itself, and its root region, which it
keeps alive. -/
structure Runtime where
  rootVmar : Koid
  space : AddressSpace
  owned : List Nat

/-- A process: whether its first thread has started, whether it has exited, and whether the index
of processes still lists it. -/
structure Process where
  handles : HandleTable
  started : Bool
  exited : Bool
  indexed : Bool
  runtime : Option Runtime

def Process.withHandles (p : Process) (handles : HandleTable) : Process :=
  { p with handles := handles }

def Process.stripped (p : Process) : Process := { p with runtime := none }

def Process.hasStarted (p : Process) : Bool := p.started && !p.exited

structure RefAccount where
  handleRefs : Nat
  kernelRefs : Nat
  deriving DecidableEq

/-- The objects that are alive, the accounts of those that are registered, the handles that are
on their way between processes, the free frames, and the next koid. -/
structure Kernel where
  accounts : Koid → Option RefAccount
  vmos : Koid → Option Vmo
  vmars : Koid → Option Vmar
  resources : Koid → Option Resource
  processes : Koid → Option Process
  inFlight : List Handle
  free : List Nat
  nextKoid : Koid

namespace Kernel

def adjust (s : Kernel) (k : Koid) (f : RefAccount → RefAccount) : Kernel :=
  { s with accounts := update s.accounts k ((s.accounts k).map f) }

def noteHandleOpen (s : Kernel) (k : Koid) : Kernel :=
  s.adjust k fun a => { a with handleRefs := a.handleRefs + 1 }

def closeHandleRef (s : Kernel) (k : Koid) : Kernel :=
  s.adjust k fun a => { a with handleRefs := a.handleRefs - 1 }

def closeKernelRef (s : Kernel) (k : Koid) : Kernel :=
  s.adjust k fun a => { a with kernelRefs := a.kernelRefs - 1 }

def acquireKernelRef (s : Kernel) (k : Koid) : Option Kernel :=
  match s.accounts k with
  | none => none
  | some _ => some (s.adjust k fun a => { a with kernelRefs := a.kernelRefs + 1 })

def holdsRoot (s : Kernel) (k : Koid) (v : Vmar) : Bool :=
  match s.processes v.process with
  | some p => p.runtime.any fun runtime => runtime.rootVmar = k
  | none => false

def unregister (s : Kernel) (k : Koid) : Kernel := { s with accounts := update s.accounts k none }

def dropVmo (s : Kernel) (k : Koid) : Kernel :=
  match s.vmos k with
  | none => s
  | some v => { s with vmos := update s.vmos k none, free := v.frames ++ s.free }

def dropResource (s : Kernel) (k : Koid) : Kernel :=
  { s with resources := update s.resources k none }

def forgetProcess (s : Kernel) (k : Koid) : Kernel :=
  match s.processes k with
  | some p =>
    if p.exited then
      { s with processes := update s.processes k (some { p with indexed := false }) }
    else s
  | none => s

def eraseVmar (s : Kernel) (k : Koid) : Kernel := { s with vmars := update s.vmars k none }

def removeChildOf (s : Kernel) (parent k : Koid) : Kernel :=
  match s.accounts parent, s.vmars parent with
  | some _, some v => { s with vmars := update s.vmars parent (some (v.removeChild k)) }
  | _, _ => s

/-- Collect an object that nothing refers to. A region that goes gives back the references to
what it maps and to its parent; its pages stay mapped. The recursion climbs to the parent, whose
koid is smaller. -/
def collectFrom : Nat → Koid → Kernel → Kernel
  | 0, _, s => s
  | depth + 1, k, s =>
    match s.accounts k with
    | some ⟨0, 0⟩ =>
      let s := (((s.unregister k).dropVmo k).dropResource k).forgetProcess k
      match s.vmars k with
      | none => s
      | some v =>
        if s.holdsRoot k v then s
        else
          let s := v.mappings.foldl
            (fun s m => collectFrom depth m.vmo (s.closeKernelRef m.vmo)) (s.eraseVmar k)
          match v.parent with
          | none => s
          | some q => collectFrom depth q ((s.removeChildOf q k).closeKernelRef q)
    | _ => s

def collect (s : Kernel) (k : Koid) : Kernel := collectFrom (k + 1) k s

def noteKernelRefClose (s : Kernel) (k : Koid) : Kernel := (s.closeKernelRef k).collect k

def noteHandleClose (s : Kernel) (k : Koid) : Kernel := (s.closeHandleRef k).collect k

def releaseMappings (s : Kernel) (mappings : List VmarMapping) : Kernel :=
  mappings.foldl (fun s m => s.noteKernelRefClose m.vmo) s

def lookupVmo (s : Kernel) (k : Koid) : Except ErrorCode Vmo :=
  match s.accounts k, s.vmos k with
  | none, _ => .error .badHandle
  | some _, some v => .ok v
  | some _, none => .error .wrongType

def lookupVmar (s : Kernel) (k : Koid) : Except ErrorCode Vmar :=
  match s.accounts k, s.vmars k with
  | none, _ => .error .badHandle
  | some _, some v => .ok v
  | some _, none => .error .wrongType

def lookupResource (s : Kernel) (k : Koid) : Except ErrorCode Resource :=
  match s.accounts k, s.resources k with
  | none, _ => .error .badHandle
  | some _, some r => .ok r
  | some _, none => .error .wrongType

def lookupProcess (s : Kernel) (k : Koid) : Option Process :=
  match s.processes k with
  | some p => if p.indexed then some p else none
  | none => none

def setProcess (s : Kernel) (k : Koid) (p : Process) : Kernel :=
  { s with processes := update s.processes k (some p) }

def setVmar (s : Kernel) (k : Koid) (v : Vmar) : Kernel :=
  { s with vmars := update s.vmars k (some v) }

def freeFrames (s : Kernel) (frames : List Nat) : Kernel := { s with free := frames ++ s.free }

def setInFlight (s : Kernel) (handles : List Handle) : Kernel := { s with inFlight := handles }

def register (s : Kernel) (k : Koid) : Kernel :=
  { s with accounts := update s.accounts k (some ⟨0, 0⟩), nextKoid := k + 1 }

/-- A koid that is not used after all. -/
def skipKoid (s : Kernel) : Kernel := { s with nextKoid := s.nextKoid + 1 }

def addVmo (s : Kernel) (o : Vmo) : Kernel :=
  { s.register s.nextKoid with
    vmos := update s.vmos s.nextKoid (some o)
    free := s.free.filter fun f => f ∉ o.frames }

end Kernel
end HuesOS.Vm
