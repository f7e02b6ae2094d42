import HuesOS.Lib.Exec
import HuesOS.Vm.Kernel

/-! The kernel calls that change what is mapped: map a memory object or a device resource, unmap or
protect a range. -/

namespace HuesOS.Vm
open AddressSpace

structure VmarMapArgs where
  vmar : Nat
  vmo : Nat
  vmoOffset : Nat
  addr : Nat
  len : Nat
  flags : VmarFlags

structure VmarOpArgs where
  vmar : Nat
  addr : Nat
  len : Nat
  flags : VmarFlags

structure ResourceMapArgs where
  resource : Nat
  resourceOffset : Nat
  addr : Nat
  len : Nat
  flags : VmarFlags

structure ResourceUnmapArgs where
  resource : Nat
  addr : Nat
  len : Nat

abbrev Call := Exec Kernel ErrorCode Nat

def VmarError.toErrorCode : VmarError → ErrorCode
  | .invalidRange => .invalidArgs
  | .overlap => .busy

def lookupProcessObject (s : Kernel) (k : Koid) : Except ErrorCode Process :=
  match s.accounts k, s.processes k with
  | none, _ => .error .badHandle
  | some _, none => .error .wrongType
  | some _, some p => .ok p

def callerRuntime (s : Kernel) (caller : Koid) : Except ErrorCode (Process × Runtime) :=
  match s.processes caller with
  | none => .error .accessDenied
  | some p =>
    match p.runtime with
    | none => .error .badHandle
    | some runtime => .ok (p, runtime)

def setSpace (s : Kernel) (owner : Koid) (p : Process) (runtime : Runtime) (space : AddressSpace) :
    Kernel :=
  s.setProcess owner { p with runtime := some { runtime with space := space } }

/-- Flags that no mapping may have, or that every mapping must have. -/
def badMapFlags (flags : VmarFlags) : Bool :=
  (flags &&& ~~~VmarFlags.all) != 0#32 || !flags.has .user || !flags.has .specific

def validateVmarMapArgs (v : Vmar) (o : Vmo) (args : VmarMapArgs) : Except ErrorCode Unit :=
  if args.len = 0 ∨ args.addr % pageSize ≠ 0 ∨ args.len % pageSize ≠ 0 ∨
      args.vmoOffset % pageSize ≠ 0 then .error .invalidArgs
  else if badMapFlags args.flags || !args.flags.has (.read ||| .write ||| .execute) then
    .error .invalidArgs
  else if args.flags.has .write && args.flags.has .execute then .error .invalidArgs
  else
    match checkedEnd args.vmoOffset args.len with
    | none => .error .invalidArgs
    | some endOffset =>
      if o.size < endOffset then .error .invalidArgs
      else if !v.containsRange args.addr args.len then .error .invalidArgs
      else if v.overlapsExisting args.addr args.len then .error .busy
      else .ok ()

/-- The transaction that both kinds of mapping share: take a reference to the backing object,
record the mapping, map the pages, and undo all of it when a page cannot be mapped. -/
def installMapping (room : Nat → Bool) (frameAt : Nat → Option Nat) (r : Koid) (v : Vmar)
    (p : Process) (runtime : Runtime) (m : VmarMapping) (flags : PageTableFlags) : Call := fun s =>
  match s.acquireKernelRef m.vmo with
  | none => (.error .badHandle, s)
  | some s =>
    match v.recordMapping m with
    | .error error => (.error error.toErrorCode, s.noteKernelRefClose m.vmo)
    | .ok v' =>
      let first := m.base / pageSize
      match mapPages room frameAt first flags (m.size / pageSize) 0
          runtime.space with
      | (_, .ok (), space) =>
        (.ok m.base, setSpace (s.setVmar r v') v.process p runtime space)
      | (mapped, .error error, space) =>
        let s := setSpace s v.process p runtime (space.unmapBack first mapped)
        (.error error, (s.setVmar r ((v'.removeMapping m).getD v')).noteKernelRefClose m.vmo)

def mapVmoIntoVmar (room : Nat → Bool) (r : Koid) (v : Vmar) (vmo : Koid) (o : Vmo)
    (args : VmarMapArgs) : Call := fun s =>
  match validateVmarMapArgs v o args with
  | .error error => (.error error, s)
  | .ok () =>
    match lookupProcessObject s v.process with
    | .error error => (.error error, s)
    | .ok p =>
      match p.runtime with
      | none => (.error .badHandle, s)
      | some runtime =>
        let firstVmoPage := args.vmoOffset / pageSize
        let pageCount := args.len / pageSize
        if (List.range pageCount).any fun i => (o.frameAt (firstVmoPage + i)).isNone then
          (.error .invalidArgs, s)
        else
          installMapping room (fun i => o.frameAt (firstVmoPage + i)) r v p runtime
            ⟨args.addr, args.len, vmo, args.vmoOffset, args.flags⟩
            (pageFlagsFromVmarFlags args.flags) s

def mappable (kind : ResourceKind) : Bool := kind = .mmio || kind = .dmaPool

def validateResourceMapArgs (res : Resource) (args : ResourceMapArgs) : Except ErrorCode Unit :=
  if args.len = 0 ∨ args.addr % pageSize ≠ 0 ∨ args.len % pageSize ≠ 0 ∨
      args.resourceOffset % pageSize ≠ 0 then .error .invalidArgs
  else if badMapFlags args.flags || !args.flags.has (.read ||| .write) ||
      args.flags.has .execute then .error .invalidArgs
  else if !mappable res.kind then .error .wrongType
  else
    match checkedEnd res.base args.resourceOffset with
    | none => .error .invalidArgs
    | some phys =>
      if !res.contains res.kind phys args.len then .error .accessDenied else .ok ()

def mapResourceIntoCurrent (room : Nat → Bool) (caller resource : Koid) (res : Resource)
    (args : ResourceMapArgs) : Call := fun s =>
  match validateResourceMapArgs res args with
  | .error error => (.error error, s)
  | .ok () =>
    match callerRuntime s caller with
    | .error error => (.error error, s)
    | .ok (p, runtime) =>
      match s.vmars runtime.rootVmar with
      | none => (.error .badHandle, s)
      | some root =>
        if root.process ≠ caller then (.error .accessDenied, s)
        else if root.overlapsExisting args.addr args.len then (.error .busy, s)
        else
          let physBase := res.base + args.resourceOffset
          installMapping room (fun i => some ((physBase + i * pageSize) / pageSize))
            runtime.rootVmar root p runtime
            ⟨args.addr, args.len, resource, args.resourceOffset, args.flags⟩
            (resourcePageFlags res.kind args.flags) s

def processRuntimeForVmar (s : Kernel) (v : Vmar) : Except ErrorCode Process :=
  match lookupProcessObject s v.process with
  | .error error => .error error
  | .ok _ =>
    match s.lookupProcess v.process with
    | none => .error .badHandle
    | some p => .ok p

def validateVmarOpArgs (v : Vmar) (args : VmarOpArgs) (protect : Bool) :
    Except ErrorCode VmarMapping :=
  if args.len = 0 ∨ args.addr % pageSize ≠ 0 ∨ args.len % pageSize ≠ 0 then .error .invalidArgs
  else if protect && (badMapFlags args.flags || !args.flags.has (.read ||| .write ||| .execute) ||
      (args.flags.has .write && args.flags.has .execute)) then .error .invalidArgs
  else if !protect && args.flags != 0#32 then .error .invalidArgs
  else if !v.containsRange args.addr args.len then .error .invalidArgs
  else
    match v.mappingCovering args.addr args.len with
    | none => .error .notFound
    | some m => .ok m

/-- Take kernel references for the pieces that a mapping falls into; one of them keeps the
reference of the whole. -/
def acquireRefs (vmo : Koid) : Nat → Kernel → Option Kernel
  | 0, s => some s
  | extra + 1, s =>
    match s.acquireKernelRef vmo with
    | none => none
    | some s => acquireRefs vmo extra s

def releaseExtraMappingRefs (vmo : Koid) : Nat → Kernel → Kernel
  | 0, s => s
  | extra + 1, s => releaseExtraMappingRefs vmo extra (s.noteKernelRefClose vmo)

def remapMappingPages (space : AddressSpace) (o : Vmo) (m : VmarMapping) (count : Nat) :
    AddressSpace :=
  (mapPages (fun _ => true) (fun i => o.frameAt (m.vmoOffset / pageSize + i))
    (m.base / pageSize) (pageFlagsFromVmarFlags m.flags) count 0 space).2.2

def unmapVmarMapping (r : Koid) (v : Vmar) (args : VmarOpArgs) : Call := fun s =>
  match processRuntimeForVmar s v with
  | .error error => (.error error, s)
  | .ok p =>
    match validateVmarOpArgs v args false with
    | .error error => (.error error, s)
    | .ok m =>
      match s.lookupVmo m.vmo with
      | .error error => (.error error, s)
      | .ok o =>
        match p.runtime with
        | none => (.error .badHandle, s)
        | some runtime =>
          let replacements := splitMappingForUnmap m args.addr args.len
          let extra := replacements.length - 1
          match acquireRefs m.vmo extra s with
          | none => (.error .badHandle, s)
          | some s =>
            let first := args.addr / pageSize
            let sub := m.part args.addr (args.addr + args.len) m.flags
            match unmapPages mutating first (args.len / pageSize) 0 runtime.space with
            | none => (.error .failStop, s)
            | some (unmapped, false, space) =>
              let space := remapMappingPages space o sub unmapped
              (.error .internal, releaseExtraMappingRefs m.vmo extra (setSpace s v.process p runtime space))
            | some (unmapped, true, space) =>
              match v.replaceMapping m replacements with
              | .error _ =>
                let space := remapMappingPages space o sub unmapped
                (.error .internal, releaseExtraMappingRefs m.vmo extra (setSpace s v.process p runtime space))
              | .ok v' =>
                let s := setSpace (s.setVmar r v') v.process p runtime space
                (.ok args.addr, if replacements.length = 0 then s.noteKernelRefClose m.vmo else s)

def reprotect (space : AddressSpace) (first : Nat) (flags : PageTableFlags) (count : Nat) :
    AddressSpace :=
  (List.range count).foldl (fun space i =>
    match space.protectUserPage (first + i) flags with
    | .ok space => space
    | .error _ => space) space

/-- Change the permissions of a range of a mapping. What backs the mapping is not looked at. -/
def protectVmarMapping (r : Koid) (v : Vmar) (args : VmarOpArgs) : Call := fun s =>
  match processRuntimeForVmar s v with
  | .error error => (.error error, s)
  | .ok p =>
    match validateVmarOpArgs v args true with
    | .error error => (.error error, s)
    | .ok m =>
      match p.runtime with
      | none => (.error .badHandle, s)
      | some runtime =>
        let replacements := splitMappingForProtect m args.addr args.len args.flags
        let extra := replacements.length - 1
        match acquireRefs m.vmo extra s with
        | none => (.error .badHandle, s)
        | some s =>
          let first := args.addr / pageSize
          let oldFlags := pageFlagsFromVmarFlags m.flags
          match protectPages mutating first (pageFlagsFromVmarFlags args.flags)
              (args.len / pageSize) 0 runtime.space with
          | none => (.error .failStop, s)
          | some (changed, false, space) =>
            (.error .internal, releaseExtraMappingRefs m.vmo extra
              (setSpace s v.process p runtime (reprotect space first oldFlags changed)))
          | some (changed, true, space) =>
            match v.replaceMapping m replacements with
            | .error _ =>
              (.error .internal, releaseExtraMappingRefs m.vmo extra
                (setSpace s v.process p runtime (reprotect space first oldFlags changed)))
            | .ok v' =>
              (.ok args.addr, setSpace (s.setVmar r v') v.process p runtime space)

def validateResourceUnmapArgs (res : Resource) (args : ResourceUnmapArgs) : Except ErrorCode Unit :=
  if args.len = 0 ∨ args.addr % pageSize ≠ 0 ∨ args.len % pageSize ≠ 0 then .error .invalidArgs
  else if !mappable res.kind then .error .wrongType
  else .ok ()

def remapResourcePages (space : AddressSpace) (first physBase : Nat) (flags : PageTableFlags)
    (count : Nat) : AddressSpace :=
  (mapPages (fun _ => true) (fun i => some ((physBase + i * pageSize) / pageSize)) first
    flags count 0 space).2.2

def unmapResourceFromCurrent (caller resource : Koid) (res : Resource) (args : ResourceUnmapArgs) :
    Call := fun s =>
  match validateResourceUnmapArgs res args with
  | .error error => (.error error, s)
  | .ok () =>
    match callerRuntime s caller with
    | .error error => (.error error, s)
    | .ok (p, runtime) =>
      match s.vmars runtime.rootVmar with
      | none => (.error .badHandle, s)
      | some root =>
        if root.process ≠ caller then (.error .accessDenied, s)
        else
          match root.mappingCovering args.addr args.len with
          | none => (.error .notFound, s)
          | some m =>
            if m.base ≠ args.addr ∨ m.size ≠ args.len ∨ m.vmo ≠ resource then
              (.error .notFound, s)
            else
              let first := args.addr / pageSize
              let physBase := res.base + m.vmoOffset + (args.addr - m.base)
              let flags := resourcePageFlags res.kind m.flags
              match unmapPages mutating first (args.len / pageSize) 0 runtime.space with
              | none => (.error .failStop, s)
              | some (unmapped, false, space) =>
                (.error .internal, setSpace s caller p runtime
                  (remapResourcePages space first physBase flags unmapped))
              | some (unmapped, true, space) =>
                match root.removeMapping m with
                | none =>
                  (.error .internal, setSpace s caller p runtime
                    (remapResourcePages space first physBase flags unmapped))
                | some root' =>
                  let s := setSpace (s.setVmar runtime.rootVmar root') caller p runtime
                    space
                  (.ok args.addr, s.noteKernelRefClose resource)

end HuesOS.Vm
