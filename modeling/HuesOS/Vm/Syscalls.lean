import HuesOS.Vm.Mappings

/-! The system calls on memory, regions and handles, each made by some process, and the events of
the kernel that end the life of a process. What userspace memory and the frame allocator do is
part of the call: whether a result could be copied out, which frames the allocator hands out, and
for which pages it has frames for page tables. -/

namespace HuesOS.Vm
open HandleTable Rights

inductive Syscall
  | vmoCreate (size : Nat) (executable : Bool) (frames : List Nat) (copied : Bool)
  | vmarCreateChild (parent addr len : Nat) (copied : Bool)
  | vmarMap (args : VmarMapArgs) (room : Nat → Bool)
  | vmarUnmap (args : VmarOpArgs)
  | vmarProtect (args : VmarOpArgs)
  | resourceMap (args : ResourceMapArgs) (room : Nat → Bool)
  | resourceUnmap (args : ResourceUnmapArgs)
  | handleDuplicate (handle : Nat) (rights : Rights) (copied : Bool)
  | handleClose (handle : Nat)
  /-- Move a handle into a message. -/
  | handleSend (handle : Nat)
  /-- Take a handle out of a message. -/
  | handleReceive (index : Nat)
  | processExit

def Handle.hasRights (h : Handle) (required : Rights) : Bool := decide (h.rights.Contains required)

def addWithCommit (caller : Koid) (p : Process) (handle : Handle) (copied : Bool) : Call := fun s =>
  let s := s.noteHandleOpen handle.koid
  let (value, handles) := addExisting p.handles handle
  if copied then (.ok value, s.setProcess caller (p.withHandles handles))
  else
    (.error .invalidArgs,
      (s.setProcess caller (p.withHandles (without handles value))).noteHandleClose handle.koid)

def maxVmoSize : Nat := 4 * 1024 * 1024 * 1024

def sysVmoCreate (caller : Koid) (p : Process) (size : Nat) (executable : Bool)
    (frames : List Nat) (copied : Bool) : Call := fun s =>
  if size = 0 then (.error .invalidArgs, s)
  else if maxVmoSize < size then (.error .noMemory, s)
  else if frames.length = (size + pageSize - 1) / pageSize ∧ frames.Nodup ∧ ∀ f ∈ frames, f ∈ s.free then
    let rights := if executable then defaultVmo ||| execute else defaultVmo
    addWithCommit caller p ⟨s.nextKoid, rights⟩ copied (s.addVmo ⟨size, frames⟩)
  else (.error .noMemory, s)

def sysVmarCreateChild (caller : Koid) (p : Process) (parent addr len : Nat) (copied : Bool) :
    Call := fun s =>
  if len = 0 ∨ addr % pageSize ≠ 0 ∨ len % pageSize ≠ 0 then (.error .invalidArgs, s)
  else
    match get p.handles parent with
    | none => (.error .badHandle, s)
    | some handle =>
      if !handle.hasRights .write then (.error .accessDenied, s)
      else
        match s.lookupVmar handle.koid with
        | .error error => (.error error, s)
        | .ok v =>
          if v.process ≠ caller then (.error .accessDenied, s)
          else
            match s.acquireKernelRef handle.koid with
            | none => (.error .badHandle, s)
            | some s =>
              let koid := s.nextKoid
              -- koids are handed out in order
              if older : handle.koid < koid then
                match v.recordChild ⟨koid, addr, len⟩ with
                | .error error =>
                  (.error error.toErrorCode, s.skipKoid.noteKernelRefClose handle.koid)
                | .ok v' =>
                  let child : Vmar :=
                    { koid := koid, process := v.process, parent := some handle.koid
                      parent_lt := by simpa using older
                      base := addr, size := len, mappings := [], children := [] }
                  let s := ((s.setVmar handle.koid v').register koid).setVmar koid child
                  addWithCommit caller p ⟨koid, handle.rights⟩ copied s
              else (.error .internal, s)

/-- Who may map into a region: its process, or anyone until that process has started. -/
def vmarMapAuthorize (s : Kernel) (v : Vmar) (caller : Koid) : Except ErrorCode Unit :=
  if v.process = caller then .ok ()
  else
    match s.lookupProcess v.process with
    | none => .error .badHandle
    | some owner => if owner.hasStarted then .error .accessDenied else .ok ()

def noteOrigin (owner : Koid) (addr len : Nat) (origin : Origin) (s : Kernel) : Kernel :=
  match s.processes owner with
  | none => s
  | some p =>
    match p.runtime with
    | none => s
    | some runtime =>
      setSpace s owner p runtime (runtime.space.noted (addr / pageSize) (len / pageSize) origin)

def noting (owner : Koid) (addr len : Nat) (origin : Origin) (call : Call) : Call := fun s =>
  match call s with
  | (.ok mapped, s) => (.ok mapped, noteOrigin owner addr len origin s)
  | (.error error, s) => (.error error, s)

def sysVmarMap (caller : Koid) (p : Process) (args : VmarMapArgs) (room : Nat → Bool) : Call :=
  fun s =>
  match get p.handles args.vmar with
  | none => (.error .badHandle, s)
  | some vmarHandle =>
    if !vmarHandle.hasRights .write then (.error .accessDenied, s)
    else
      match get p.handles args.vmo with
      | none => (.error .badHandle, s)
      | some vmoHandle =>
        if !vmoHandle.hasRights (mappingRequired args.flags) then (.error .accessDenied, s)
        else
          match s.lookupVmar vmarHandle.koid with
          | .error error => (.error error, s)
          | .ok v =>
            match vmarMapAuthorize s v caller with
            | .error error => (.error error, s)
            | .ok () =>
              match s.lookupVmo vmoHandle.koid with
              | .error error => (.error error, s)
              | .ok o =>
                noting v.process args.addr args.len
                  ⟨vmarHandle.koid, .vmo vmoHandle.rights⟩
                  (mapVmoIntoVmar room vmarHandle.koid v vmoHandle.koid o args) s

/-- Unmap and protect share their checks; they need different rights on the region. -/
def sysVmarOp (caller : Koid) (p : Process) (args : VmarOpArgs) (required : Rights)
    (callback : Koid → Vmar → VmarOpArgs → Call) : Call := fun s =>
  match get p.handles args.vmar with
  | none => (.error .badHandle, s)
  | some handle =>
    if !handle.hasRights required then (.error .accessDenied, s)
    else
      match s.lookupVmar handle.koid with
      | .error error => (.error error, s)
      | .ok v =>
        if v.process ≠ caller then (.error .accessDenied, s)
        else callback handle.koid v args s

def sysVmarUnmap (caller : Koid) (p : Process) (args : VmarOpArgs) : Call :=
  sysVmarOp caller p args .write unmapVmarMapping

def sysVmarProtect (caller : Koid) (p : Process) (args : VmarOpArgs) : Call :=
  sysVmarOp caller p args .setProperty protectVmarMapping

def resourceRequired (flags : VmarFlags) : Rights :=
  if flags.has .write then read ||| write else read

def sysResourceMap (caller : Koid) (p : Process) (args : ResourceMapArgs) (room : Nat → Bool) :
    Call := fun s =>
  match get p.handles args.resource with
  | none => (.error .badHandle, s)
  | some handle =>
    if !handle.hasRights (resourceRequired args.flags) then (.error .accessDenied, s)
    else
      match s.lookupResource handle.koid with
      | .error error => (.error error, s)
      | .ok res =>
        noting caller args.addr args.len
          ⟨(p.runtime.map Runtime.rootVmar).getD 0, .resource res.kind⟩
          (mapResourceIntoCurrent room caller handle.koid res args) s

def sysResourceUnmap (caller : Koid) (p : Process) (args : ResourceUnmapArgs) : Call := fun s =>
  match get p.handles args.resource with
  | none => (.error .badHandle, s)
  | some handle =>
    if !handle.hasRights .read then (.error .accessDenied, s)
    else
      match s.lookupResource handle.koid with
      | .error error => (.error error, s)
      | .ok res => unmapResourceFromCurrent caller handle.koid res args s

def sysHandleDuplicate (caller : Koid) (p : Process) (handle : Nat) (rights : Rights)
    (copied : Bool) : Call := fun s =>
  if handle = 0 then (.error .invalidArgs, s)
  else
    match get p.handles handle with
    | none => (.error .badHandle, s)
    | some h =>
      if !h.hasRights .duplicate then (.error .accessDenied, s)
      else if rights = .sameRights then addWithCommit caller p h copied s
      else if (rights &&& ~~~all) != 0#32 then (.error .invalidArgs, s)
      else if !h.hasRights rights then (.error .accessDenied, s)
      else addWithCommit caller p ⟨h.koid, rights⟩ copied s

def sysHandleClose (caller : Koid) (p : Process) (handle : Nat) : Call := fun s =>
  match get p.handles handle with
  | none => (.error .badHandle, s)
  | some h =>
    (.ok 0, (s.setProcess caller (p.withHandles (without p.handles handle)))
      |>.noteHandleClose h.koid)

/-- A handle that moves into a message keeps its reference. -/
def sysHandleSend (caller : Koid) (p : Process) (handle : Nat) : Call := fun s =>
  match get p.handles handle with
  | none => (.error .badHandle, s)
  | some h =>
    if !h.hasRights .transfer then (.error .accessDenied, s)
    else
      (.ok 0, (s.setProcess caller (p.withHandles (without p.handles handle)))
        |>.setInFlight (s.inFlight ++ [h]))

/-- Which of the handles under way a process receives is left open. -/
def sysHandleReceive (caller : Koid) (p : Process) (index : Nat) : Call := fun s =>
  match s.inFlight[index]? with
  | none => (.error .badHandle, s)
  | some h =>
    let (value, handles) := addExisting p.handles h
    (.ok value, (s.setProcess caller (p.withHandles handles))
      |>.setInFlight (s.inFlight.eraseIdx index))

def collectExitedProcess (k : Koid) (s : Kernel) : Kernel :=
  let s :=
    match s.accounts k with
    | none => s.forgetProcess k
    | some ⟨0, 0⟩ => s.forgetProcess k
    | some _ => s
  s.collect k

def sysProcessExit (caller : Koid) (p : Process) : Call := fun s =>
  (.ok 0, collectExitedProcess caller (s.setProcess caller { p with exited := true }))

/-- The page tables of a process go, with the frames it allocated itself, and then its root region
with the references it holds. -/
def dropRuntime (k : Koid) (p : Process) (s : Kernel) : Kernel :=
  match p.runtime with
  | none => s
  | some runtime =>
    let s := (s.setProcess k p.stripped).freeFrames runtime.owned
    match s.vmars runtime.rootVmar with
    | none => s
    | some root =>
      ((s.unregister runtime.rootVmar).eraseVmar runtime.rootVmar).releaseMappings root.mappings

def clearHandles (k : Koid) (s : Kernel) : Kernel :=
  match s.processes k with
  | none => s
  | some p =>
    p.handles.reduceOption.foldl (fun s h => s.noteHandleClose h.koid)
      (s.setProcess k (p.withHandles (p.handles.map fun _ => none)))

def teardownProcess (k : Koid) (p : Process) (s : Kernel) : Kernel :=
  clearHandles k (dropRuntime k p s)

/-- What may happen next: a call of a process, the start of its first thread, the end of an
exited process, or the loss of a handle whose message is dropped. -/
inductive Event
  | syscall (caller : Koid) (call : Syscall)
  | start (k : Koid)
  | teardown (k : Koid)
  | discard (index : Nat)

def Syscall.run (caller : Koid) (p : Process) : Syscall → Call
  | .vmoCreate size executable frames copied => sysVmoCreate caller p size executable frames copied
  | .vmarCreateChild parent addr len copied => sysVmarCreateChild caller p parent addr len copied
  | .vmarMap args room => sysVmarMap caller p args room
  | .vmarUnmap args => sysVmarUnmap caller p args
  | .vmarProtect args => sysVmarProtect caller p args
  | .resourceMap args room => sysResourceMap caller p args room
  | .resourceUnmap args => sysResourceUnmap caller p args
  | .handleDuplicate handle rights copied => sysHandleDuplicate caller p handle rights copied
  | .handleClose handle => sysHandleClose caller p handle
  | .handleSend handle => sysHandleSend caller p handle
  | .handleReceive index => sysHandleReceive caller p index
  | .processExit => sysProcessExit caller p

def Event.run : Event → Call
  | .syscall caller call => fun s =>
    match s.processes caller with
    | none => (.error .badHandle, s)
    | some p => if p.exited then (.error .badHandle, s) else call.run caller p s
  | .start k => fun s =>
    match s.processes k with
    | none => (.error .badHandle, s)
    | some p => (.ok 0, s.setProcess k { p with started := true })
  | .teardown k => fun s =>
    match s.processes k with
    | none => (.error .badHandle, s)
    | some p => if p.exited then (.ok 0, teardownProcess k p s) else (.error .badHandle, s)
  | .discard index => fun s =>
    match s.inFlight[index]? with
    | none => (.error .badHandle, s)
    | some h =>
      (.ok 0, (s.setInFlight (s.inFlight.eraseIdx index)).noteHandleClose h.koid)

def EventStep (e : Event) (s t : Kernel) : Prop := t = (e.run s).2

end HuesOS.Vm
