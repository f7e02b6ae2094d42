import HuesOS.Lib.Interleave
import HuesOS.Object.Registry
import HuesOS.Quota.Tree

/-! Ports that are told when a process exits. Calls run side by side, and each step is one critical
section. -/

namespace HuesOS.Object
open Quotas

inductive ProcState
  | created | running | exited | reaped
  deriving DecidableEq

def canTransition : ProcState → ProcState → Bool
  | .created, .running => true
  | .created, .exited => true
  | .running, .exited => true
  | .exited, .reaped => true
  | _, _ => false

structure ExitInfo where
  koid : UInt64
  generation : UInt64
  exitCode : Int64

/-- A process that has exited has an exit code. -/
structure ProcessLifecycle where
  koid : UInt64
  generation : UInt64
  state : ProcState
  exitCode : Option Int64
  waiters : Nat
  coded : canTransition state .exited = false → exitCode.isSome

namespace ProcessLifecycle

def new (koid generation : UInt64) : ProcessLifecycle :=
  ⟨koid, generation, .created, none, 0, nofun⟩

def start (l : ProcessLifecycle) : ProcessLifecycle :=
  if l.state = .created then { l with state := .running, coded := nofun } else l

/-- Whether the exit happened, and the record after it. The first exit code stays. -/
def exit (code : Int64) (l : ProcessLifecycle) : Bool × ProcessLifecycle :=
  if canTransition l.state .exited then
    (true, { l with state := .exited, exitCode := some code, coded := fun _ => rfl })
  else (false, l)

def addWaiter (l : ProcessLifecycle) : ProcessLifecycle :=
  if canTransition l.state .exited then { l with waiters := l.waiters + 1 } else l

def removeWaiter (l : ProcessLifecycle) : ProcessLifecycle := { l with waiters := l.waiters - 1 }

def reap (l : ProcessLifecycle) : ProcessLifecycle :=
  if h : l.state = .exited ∧ l.waiters = 0 then
    { l with state := .reaped, coded := fun _ => l.coded (by rw [h.1]; rfl) }
  else l

def exitInfo (l : ProcessLifecycle) : Option ExitInfo :=
  if l.state = .exited ∨ l.state = .reaped then l.exitCode.map (⟨l.koid, l.generation, ·⟩)
  else none

end ProcessLifecycle

structure PortPacket where
  key : UInt64
  packetType : UInt32
  status : Int32
  data : Vector UInt64 4

def maxPortPackets : Nat := 256

def portPacketBytes : UInt64 := 48

/-- The storage of a port is reserved when it is made. -/
structure Port where
  packets : List PortPacket
  capacity : Nat
  quota : Quota

namespace Port

def new (capacity : Nat) : Port :=
  ⟨[], capacity, .new fun
    | .memory => portPacketBytes * 256
    | _ => unlimited⟩

def queue (packet : PortPacket) (p : Port) : Bool × Port :=
  if maxPortPackets ≤ p.packets.length ∨ p.quota.fits .memory portPacketBytes = false then
    (false, p)
  else if p.capacity ≤ p.packets.length then (false, p)
  else (true, { p with
    packets := p.packets ++ [packet]
    quota := (p.quota.tryAcquire .memory portPacketBytes).2 })

def take (p : Port) : Option PortPacket × Port :=
  (p.packets.head?, { p with packets := p.packets.tail })

def release (p : Port) : Port := { p with quota := p.quota.release .memory portPacketBytes }

end Port

def portPacketProcessExit : UInt32 := 2

def exitPacket (key : UInt64) (info : ExitInfo) : PortPacket :=
  ⟨key, portPacketProcessExit, 0, #v[info.koid, info.generation, info.exitCode.toUInt64, 0]⟩

structure ExitPortBinding where
  port : Koid
  key : UInt64
  deriving DecidableEq

inductive ProcessExitPortError
  | full | outOfMemory
  deriving DecidableEq

def maxExitPorts : Nat := 8

structure ExitShared where
  lifecycle : ProcessLifecycle
  exitPorts : List ExitPortBinding
  ports : Koid → Port

inductive ExitEvent
  /-- A binding call succeeded by recording the port. -/
  | recorded (binding : ExitPortBinding)
  /-- A binding call succeeded on a process that had exited. -/
  | late (binding : ExitPortBinding)
  | refused (binding : ExitPortBinding) (error : ProcessExitPortError)
  /-- The port took the exit packet. -/
  | queued (binding : ExitPortBinding)
  /-- The port had no room for the exit packet. -/
  | dropped (binding : ExitPortBinding)
  /-- The exit has read which ports are recorded. -/
  | snapshot
  | exitReturned (exited : Bool)
  deriving DecidableEq

def ExitShared.setPort (koid : Koid) (port : Port) (s : ExitShared) : ExitShared :=
  { s with ports := Function.update s.ports koid port }

def ExitShared.deliver (b : ExitPortBinding) (info : ExitInfo) (s : ExitShared) :
    ExitEvent × ExitShared :=
  let (accepted, port) := (s.ports b.port).queue (exitPacket b.key info)
  (if accepted then .queued b else .dropped b, s.setPort b.port port)

inductive BinderPoint
  | idle
  | late (binding : ExitPortBinding) (info : ExitInfo)
  | record (binding : ExitPortBinding)

/-- Recording may find no memory, or a port that is no longer registered. -/
inductive BinderChoice
  | bindExitPort (binding : ExitPortBinding)
  | queue
  | record (memory registered : Bool)

def binderStep : BinderChoice → BinderPoint → ExitShared →
    Option (BinderPoint × ExitShared × List ExitEvent)
  | .bindExitPort b, .idle, s =>
    match s.lifecycle.exitInfo with
    | some info => some (.late b info, s, [])
    | none => some (.record b, s, [])
  | .queue, .late b info, s => some (.idle, (s.deliver b info).2, [.late b, (s.deliver b info).1])
  | .record memory registered, .record b, s =>
    if maxExitPorts ≤ s.exitPorts.length then some (.idle, s, [.refused b .full])
    else if memory = false then some (.idle, s, [.refused b .outOfMemory])
    else if registered = false then some (.idle, s, [.refused b .outOfMemory])
    else some (.idle, { s with exitPorts := s.exitPorts ++ [b] }, [.recorded b])
  | _, _, _ => none

inductive ExiterPoint
  | idle
  | exited
  | informed (info : ExitInfo)
  | walking (info : ExitInfo) (rest : List ExitPortBinding)

inductive ExiterChoice
  | setExitCode (code : Int64)
  | step

def exiterStep : ExiterChoice → ExiterPoint → ExitShared →
    Option (ExiterPoint × ExitShared × List ExitEvent)
  | .setExitCode code, .idle, s =>
    match s.lifecycle.exit code with
    | (true, l) => some (.exited, { s with lifecycle := l.reap }, [])
    | (false, _) => some (.idle, s, [.exitReturned false])
  | .step, .exited, s =>
    match s.lifecycle.exitInfo with
    | some info => some (.informed info, s, [])
    | none => some (.idle, s, [.exitReturned true])
  | .step, .informed info, s =>
    some (.walking info (s.exitPorts.take maxExitPorts), s, [.snapshot])
  | .step, .walking info (b :: rest), s =>
    some (.walking info rest, (s.deliver b info).2, [(s.deliver b info).1])
  | .step, .walking _ [], s => some (.idle, s, [.exitReturned true])
  | _, _, _ => none

/-- The rest of the system starts the process, waits for it, and uses the ports. -/
inductive OtherPoint
  | idle
  | releasing (port : Koid)

inductive OtherChoice
  | start
  | addWaiter
  | removeWaiter
  | queue (port : Koid) (packet : PortPacket)
  | read (port : Koid)
  | release

def otherStep : OtherChoice → OtherPoint → ExitShared →
    Option (OtherPoint × ExitShared × List ExitEvent)
  | .start, .idle, s => some (.idle, { s with lifecycle := s.lifecycle.start }, [])
  | .addWaiter, .idle, s => some (.idle, { s with lifecycle := s.lifecycle.addWaiter }, [])
  | .removeWaiter, .idle, s =>
    some (.idle, { s with lifecycle := s.lifecycle.removeWaiter.reap }, [])
  | .queue port packet, .idle, s => some (.idle, s.setPort port ((s.ports port).queue packet).2, [])
  | .read port, .idle, s =>
    match (s.ports port).take with
    | (none, _) => some (.idle, s, [])
    | (some _, p) => some (.releasing port, s.setPort port p, [])
  | .release, .releasing port, s => some (.idle, s.setPort port (s.ports port).release, [])
  | _, _, _ => none

inductive ExitThread
  | binder (i : Nat)
  | exiter (i : Nat)
  | other (i : Nat)
  deriving DecidableEq

def ExitPoint : ExitThread → Type
  | .binder _ => BinderPoint
  | .exiter _ => ExiterPoint
  | .other _ => OtherPoint

def ExitChoice : ExitThread → Type
  | .binder _ => BinderChoice
  | .exiter _ => ExiterChoice
  | .other _ => OtherChoice

def exitProgram : Program ExitShared ExitPoint ExitChoice ExitEvent
  | .binder _, k, t, s => binderStep k t s
  | .exiter _, k, t, s => exiterStep k t s
  | .other _, k, t, s => otherStep k t s

/-- A new process without bindings; the ports may hold anything. -/
def exitStart (koid generation : UInt64) (ports : Koid → Port) :
    Config ExitShared ExitPoint ExitEvent :=
  { shared := ⟨.new koid generation, [], ports⟩
    threads := fun
      | .binder _ => .idle
      | .exiter _ => .idle
      | .other _ => .idle
    log := [] }

end HuesOS.Object
