import HuesOS.Ipc.MessageQueue

/-! Handles in the tables of processes and in the messages of channels. -/

namespace HuesOS.Ipc
open Object

abbrev HandleValue := Nat

/-- The slots of a table. The first one is never used. -/
abbrev HandleTable := List (Option Handle)

inductive HandleTableError
  | missing | outOfMemory | duplicate
  deriving DecidableEq

namespace HandleTable

def reserved (t : HandleTable) : HandleTable := if t.isEmpty then [none] else t

def addExisting (handle : Handle) (t : HandleTable) : HandleValue × HandleTable :=
  match (t.reserved.drop 1).findIdx? Option.isNone with
  | some relative => (relative + 1, t.reserved.set (relative + 1) (some handle))
  | none => (t.reserved.length, t.reserved ++ [some handle])

def get (t : HandleTable) (value : HandleValue) : Option Handle :=
  if value = 0 then none else t[value]?.join

def vacate (value : HandleValue) (t : HandleTable) : HandleTable := t.set value none

def restoreExistingAt (value : HandleValue) (handle : Handle) (t : HandleTable) :
    Except Handle Unit × HandleTable :=
  if value = 0 then (.error handle, t)
  else
    let t := t ++ List.replicate (value + 1 - t.length) none
    match t.get value with
    | some _ => (.error handle, t)
    | none => (.ok (), t.set value (some handle))

def checkMany (t : HandleTable) : List HandleValue → List HandleValue → Except HandleTableError Unit
  | _, [] => .ok ()
  | before, value :: rest =>
    if value ∈ before then .error .duplicate
    else if (t.get value).isNone then .error .missing
    else checkMany t (value :: before) rest

def takeMany : (values : List HandleValue) → HandleTable →
    Except HandleTableError { handles : List Handle // handles.length = values.length } × HandleTable
  | [], t => (.ok ⟨[], rfl⟩, t)
  | value :: rest, t =>
    match t.get value with
    | none => (.error .missing, t)
    | some handle =>
      match takeMany rest (t.vacate value) with
      | (.ok handles, t) => (.ok ⟨handle :: handles.1, congrArg (· + 1) handles.2⟩, t)
      | (.error e, t) => (.error e, t)

def removeManyKeepAlive (values : List HandleValue) (storage : Bool) (t : HandleTable) :
    Except HandleTableError { handles : List Handle // handles.length = values.length } × HandleTable :=
  match t.checkMany [] values with
  | .error e => (.error e, t)
  | .ok () => if storage then t.takeMany values else (.error .outOfMemory, t)

def addExistingMany : List Handle → HandleTable → List HandleValue × HandleTable
  | [], t => ([], t)
  | handle :: rest, t =>
    let added := t.addExisting handle
    let more := addExistingMany rest added.2
    (added.1 :: more.1, more.2)

def takeBack : List HandleValue → HandleTable → List Koid × HandleTable
  | [], t => ([], t)
  | value :: rest, t =>
    match t[value]?.join with
    | none => takeBack rest t
    | some handle =>
      let more := takeBack rest (t.vacate value)
      (handle.koid :: more.1, more.2)

def koids (t : HandleTable) : List Koid := t.filterMap (Option.map Handle.koid)

def clear (t : HandleTable) : HandleTable := t.map fun _ => none

end HandleTable

def ChannelMessage.koids (m : ChannelMessage) : List Koid := m.handles.asList.map Handle.koid

def MessageQueue.recvIfFits (byteCapacity handleCapacity : Nat) (q : MessageQueue) :
    Except ChannelRecvError (Option ChannelMessage) × MessageQueue :=
  match q.messages.head? with
  | none => (.ok none, q)
  | some front =>
    if byteCapacity < front.dataLen then (.error .bytesTooSmall, q)
    else if handleCapacity < front.handleCount then (.error .handlesTooSmall, q)
    else (.ok q.dequeue.1, q.dequeue.2)

def MessageQueue.koids (q : MessageQueue) : List Koid := q.messages.flatMap ChannelMessage.koids

/-- Both ends of a channel share the two queues, so the messages stay until both are gone. -/
structure ChannelPair where
  toFirst : MessageQueue
  toSecond : MessageQueue
  firstAlive : Bool
  secondAlive : Bool

abbrev QueueStorage := { capacity // maxChannelQueueMessages ≤ capacity }

namespace ChannelPair

def new (storage : QueueStorage × QueueStorage) : ChannelPair :=
  ⟨.new storage.1, .new storage.2, true, true⟩

def inbox (c : ChannelPair) (second : Bool) : MessageQueue :=
  if second then c.toSecond else c.toFirst

def setInbox (second : Bool) (q : MessageQueue) (c : ChannelPair) : ChannelPair :=
  if second then { c with toSecond := q } else { c with toFirst := q }

def alive (c : ChannelPair) (second : Bool) : Bool := if second then c.secondAlive else c.firstAlive

def kill (second : Bool) (c : ChannelPair) : ChannelPair :=
  if second then { c with secondAlive := false } else { c with firstAlive := false }

end ChannelPair

inductive ObjectKind
  | endpoint (pair : Nat) (second : Bool)
  | process (pid : Nat)
  | job
  | plain
  deriving DecidableEq

/-- A process. Its root region is there as long as its runtime. -/
structure HandleProcess where
  koid : Koid
  table : HandleTable
  job : Koid
  rootVmar : Option Koid

/-- An object is removed when it leaves the registry with references. -/
inductive RegistryEvent
  | opened (koid : Koid)
  | collected (koid : Koid)
  | removed (koid : Koid)
  deriving DecidableEq

/-- The registry, the processes with their tables, and the channels. Objects may be held by others
than the registry; those that it has given up go away when nobody holds them any more. The kernel's
counted references are listed, and so are the handles that are out of their table or message and
about to be closed, and the events at the registry, latest first. -/
structure HandleWorld where
  registry : Registry ObjectKind
  processes : List HandleProcess
  channels : List ChannelPair
  nextKoid : Koid
  held : List Koid
  orphans : List (Koid × ObjectKind)
  kernelRefs : List Koid
  closing : List Koid
  log : List RegistryEvent

namespace HandleWorld

def setTable (pid : Nat) (t : HandleTable) (w : HandleWorld) : HandleWorld :=
  { w with processes := w.processes.modify pid fun p => { p with table := t } }

def setChannel (pair : Nat) (c : ChannelPair) (w : HandleWorld) : HandleWorld :=
  { w with channels := w.channels.set pair c }

def closeAll (koids : List Koid) (w : HandleWorld) : HandleWorld :=
  { w with closing := koids ++ w.closing }

/-- The last reference to an object is gone. A process closes the handles of its table, and the
last end of a channel those of the messages in its inbox and its outbox. -/
def dropObject (kind : ObjectKind) (w : HandleWorld) : HandleWorld :=
  match kind with
  | .endpoint pair second =>
    match w.channels[pair]? with
    | none => w
    | some c =>
      let c := c.kill second
      if c.alive (!second) then w.setChannel pair c
      else (w.setChannel pair { c with
          toFirst := { c.toFirst with messages := [] }
          toSecond := { c.toSecond with messages := [] } }).closeAll
        ((c.inbox second).koids ++ (c.inbox !second).koids)
  | .process pid =>
    match w.processes[pid]? with
    | none => w
    | some p => (w.setTable pid p.table.clear).closeAll p.table.koids
  | .job => w
  | .plain => w

def giveUp (koid : Koid) (removed : Option ObjectKind) (w : HandleWorld) : HandleWorld :=
  match removed with
  | none => w
  | some kind =>
    let w := { w with log := .collected koid :: w.log }
    if koid ∈ w.held then { w with orphans := (koid, kind) :: w.orphans } else w.dropObject kind

def closeNext (w : HandleWorld) : HandleWorld :=
  match w.closing with
  | [] => w
  | koid :: rest =>
    let closed := w.registry.noteHandleClose koid
    { w with registry := closed.2, closing := rest }.giveUp koid closed.1

def inTables (w : HandleWorld) : List Koid := w.processes.flatMap fun p => p.table.koids

def inFlight (w : HandleWorld) : List Koid :=
  w.channels.flatMap fun c => c.toFirst.koids ++ c.toSecond.koids

def named (w : HandleWorld) : List Koid := w.inTables ++ w.inFlight ++ w.closing

/-- Close handles until none is left to be closed; every one of them was in the world before. -/
def settle (w : HandleWorld) : HandleWorld := closeNext^[w.named.length] w

inductive HandleError
  | badHandle | accessDenied | wrongType | invalidArgs | busy | noMemory | shouldWait | peerClosed
  deriving DecidableEq

def noteHandleOpen (koid : Koid) (w : HandleWorld) : HandleWorld :=
  let log := if (w.registry.account koid).isSome then .opened koid :: w.log else w.log
  { w with registry := w.registry.noteHandleOpen koid, log }

/-- Add a handle and copy its value out; if that fails the handle is taken back and closed. -/
def addWithCommit (pid : Nat) (handle : Handle) (commit : Bool) (w : HandleWorld) :
    Except HandleError HandleValue × HandleWorld :=
  match w.processes[pid]? with
  | none => (.error .badHandle, w)
  | some p =>
    let w := w.noteHandleOpen handle.koid
    let added := p.table.addExisting handle
    if commit then (.ok added.1, w.setTable pid added.2)
    else (.error .invalidArgs, (w.setTable pid (added.2.vacate added.1)).closeAll [handle.koid])

def addPairWithCommit (pid : Nat) (first second : Handle) (commit : Bool) (w : HandleWorld) :
    Except HandleError (HandleValue × HandleValue) × HandleWorld :=
  match w.processes[pid]? with
  | none => (.error .badHandle, w)
  | some p =>
    let w := (w.noteHandleOpen first.koid).noteHandleOpen second.koid
    let one := p.table.addExisting first
    let two := one.2.addExisting second
    if commit then (.ok (one.1, two.1), w.setTable pid two.2)
    else (.error .invalidArgs,
      (w.setTable pid ((two.2.vacate one.1).vacate two.1)).closeAll [first.koid, second.koid])

def insertAt (pid : Nat) (value : HandleValue) (handle : Handle) (w : HandleWorld) :
    Except Handle Unit × HandleWorld :=
  match w.processes[pid]? with
  | none => (.error handle, w)
  | some p =>
    match p.table.restoreExistingAt value handle with
    | (.error handle, t) => (.error handle, w.setTable pid t)
    | (.ok (), t) => (.ok (), (w.noteHandleOpen handle.koid).setTable pid t)

def remove (pid : Nat) (value : HandleValue) (w : HandleWorld) :
    Option Handle × HandleWorld :=
  match w.processes[pid]? with
  | none => (none, w)
  | some p =>
    match p.table.get value with
    | none => (none, w)
    | some handle => (some handle, (w.setTable pid (p.table.vacate value)).closeAll [handle.koid])

def defaultRights : Vm.Rights :=
  Vm.Rights.read ||| Vm.Rights.write ||| Vm.Rights.duplicate ||| Vm.Rights.transfer

def jobRights : Vm.Rights :=
  Vm.Rights.read ||| Vm.Rights.getProperty ||| Vm.Rights.duplicate ||| Vm.Rights.transfer

def registerObject (kind : ObjectKind) (w : HandleWorld) : HandleWorld :=
  { w with
    registry := w.registry.registerObject w.nextKoid kind
    nextKoid := w.nextKoid + 1 }

def unregisterObject (koid : Koid) (w : HandleWorld) : HandleWorld :=
  { w with registry := w.registry.unregisterObject koid }

def createObject (pid : Nat) (kind : ObjectKind) (rights : Vm.Rights) (commit : Bool)
    (w : HandleWorld) : Except HandleError HandleValue × HandleWorld :=
  (w.registerObject kind).addWithCommit pid ⟨w.nextKoid, rights⟩ commit

/-- A new job in the job that a handle names. The limits may not fit in it. -/
def jobCreate (pid : Nat) (parent : HandleValue) (fits commit : Bool) (w : HandleWorld) :
    Except HandleError HandleValue × HandleWorld :=
  match w.processes[pid]?.bind fun p => p.table.get parent with
  | none => (.error .badHandle, w)
  | some handle =>
    if ¬handle.rights.Contains .write then (.error .accessDenied, w)
    else match w.registry.object handle.koid with
      | none => (.error .badHandle, w)
      | some .job =>
        if fits then
          w.createObject pid .job (defaultRights ||| Vm.Rights.setProperty) commit
        else (.error .invalidArgs, w)
      | some _ => (.error .wrongType, w)

def newChannel (storage : QueueStorage × QueueStorage) (w : HandleWorld) : HandleWorld :=
  let pair := w.channels.length
  let w := { w with channels := w.channels ++ [ChannelPair.new storage] }
  (w.registerObject (.endpoint pair false)).registerObject (.endpoint pair true)

def channelCreate (pid : Nat) (storage : QueueStorage × QueueStorage) (commit : Bool)
    (w : HandleWorld) : Except HandleError (HandleValue × HandleValue) × HandleWorld :=
  (w.newChannel storage).addPairWithCommit pid ⟨w.nextKoid, defaultRights⟩
    ⟨w.nextKoid + 1, defaultRights⟩ commit

/-- A new process with its root region. The index of processes holds it. -/
def newProcess (pid : Nat) (job : Koid) (commit : Bool) (w : HandleWorld) :
    Except HandleError (HandleValue × HandleValue) × HandleWorld :=
  let koid := w.nextKoid
  let vmar := w.nextKoid + 1
  let w := (w.registerObject (.process w.processes.length)).registerObject .plain
  let w := { w with
    processes := w.processes ++ [HandleProcess.mk koid [] job (some vmar)]
    held := if commit then koid :: w.held else w.held }
  w.addPairWithCommit pid ⟨koid, defaultRights⟩ ⟨vmar, defaultRights ||| Vm.Rights.setProperty⟩
    commit

def rootJob : Koid := 1

def processCreate (pid : Nat) (commit : Bool) (w : HandleWorld) :
    Except HandleError (HandleValue × HandleValue) × HandleWorld :=
  w.newProcess pid rootJob commit

def processCreateInJob (pid : Nat) (job : HandleValue) (commit : Bool) (w : HandleWorld) :
    Except HandleError (HandleValue × HandleValue) × HandleWorld :=
  match w.processes[pid]?.bind fun p => p.table.get job with
  | none => (.error .badHandle, w)
  | some handle =>
    if ¬handle.rights.Contains .write then (.error .accessDenied, w)
    else match w.registry.object handle.koid with
      | none => (.error .badHandle, w)
      | some .job => w.newProcess pid handle.koid commit
      | some _ => (.error .wrongType, w)

def jobDefault (pid : Nat) (commit : Bool) (w : HandleWorld) :
    Except HandleError HandleValue × HandleWorld :=
  match w.processes[pid]? with
  | none => (.error .badHandle, w)
  | some p => w.addWithCommit pid ⟨p.job, jobRights⟩ commit

def bootstrapHandle : HandleValue := 1

def threadStart (pid child : Nat) (storage : QueueStorage × QueueStorage) (commit started : Bool)
    (w : HandleWorld) : Except HandleError Unit × HandleWorld :=
  let parentEnd := w.nextKoid
  let childEnd := w.nextKoid + 1
  match (w.newChannel storage).insertAt child bootstrapHandle ⟨childEnd, defaultRights⟩ with
  | (.error _, w) => (.error .busy, (w.unregisterObject parentEnd).unregisterObject childEnd)
  | (.ok (), w) =>
    match w.addWithCommit pid ⟨parentEnd, defaultRights⟩ commit with
    | (.error e, w) => (.error e, (w.remove child bootstrapHandle).2)
    | (.ok value, w) =>
      if started then (.ok (), w)
      else (.error .noMemory, ((w.remove child bootstrapHandle).2.remove pid value).2)

def handleDuplicate (pid : Nat) (value : HandleValue) (rights : Vm.Rights) (commit : Bool)
    (w : HandleWorld) : Except HandleError HandleValue × HandleWorld :=
  if value = 0 then (.error .invalidArgs, w)
  else match w.processes[pid]?.bind fun p => p.table.get value with
    | none => (.error .badHandle, w)
    | some handle =>
      if ¬handle.rights.Contains .duplicate then (.error .accessDenied, w)
      else if rights = Vm.Rights.sameRights then
        w.addWithCommit pid ⟨handle.koid, handle.rights⟩ commit
      else if ¬Vm.Rights.all.Contains rights then (.error .invalidArgs, w)
      else if ¬handle.rights.Contains rights then (.error .accessDenied, w)
      else w.addWithCommit pid ⟨handle.koid, rights⟩ commit

def handleClose (pid : Nat) (value : HandleValue) (w : HandleWorld) :
    Except HandleError Unit × HandleWorld :=
  match w.remove pid value with
  | (none, w) => (.error .badHandle, w)
  | (some _, w) => (.ok (), w)

def maxChannelBytes : Nat := 64 * 1024
def maxChannelHandles : Nat := 64

def channelEnd (pid : Nat) (value : HandleValue) (required : Vm.Rights) (w : HandleWorld) :
    Except HandleError (HandleTable × Nat × Bool × ChannelPair) :=
  match w.processes[pid]? with
  | none => .error .badHandle
  | some p =>
    match p.table.get value with
    | none => .error .badHandle
    | some handle =>
      if ¬handle.rights.Contains required then .error .accessDenied
      else match w.registry.object handle.koid with
        | none => .error .badHandle
        | some (.endpoint pair second) =>
          match w.channels[pair]? with
          | none => .error .badHandle
          | some c => .ok (p.table, pair, second, c)
        | some _ => .error .wrongType

def validateMoveDispositions (t : HandleTable) (values : List HandleValue) :
    Except HandleError Unit :=
  if values.any fun value => (t.get value).isNone then .error .badHandle
  else if ¬values.Nodup then .error .invalidArgs
  else if values.any fun value => (t.get value).any fun h => ¬h.rights.Contains .transfer then
    .error .accessDenied
  else .ok ()

def ofTableError : HandleTableError → HandleError
  | .missing => .badHandle
  | .duplicate => .invalidArgs
  | .outOfMemory => .noMemory

def ofSendFailure : ChannelSendFailure → HandleError
  | .peerClosed => .peerClosed
  | .quotaExceeded => .noMemory
  | .outOfMemory => .noMemory

/-- Put the handles of a message that was not sent back in their slots; one whose slot has been
taken meanwhile is closed. -/
def restoreAll (pid : Nat) : List (HandleValue × Handle) → HandleTable → HandleWorld → HandleWorld
  | [], t, w => w.setTable pid t
  | (value, handle) :: rest, t, w =>
    match t.restoreExistingAt value handle with
    | (.ok (), t) => restoreAll pid rest t w
    | (.error lost, t) => restoreAll pid rest t { w with closing := w.closing ++ [lost.koid] }

def sendOrRestore (pid pair : Nat) (second : Bool) (c : ChannelPair) (values : List HandleValue)
    (message : ChannelMessage) (t : HandleTable) (w : HandleWorld) :
    Except HandleError Unit × HandleWorld :=
  let restored := w.restoreAll pid (values.zip message.handles.asList) t
  if ¬c.alive (!second) then (.error .peerClosed, restored)
  else match (c.inbox (!second)).enqueue message with
    | (.ok (), q) => (.ok (), (w.setTable pid t).setChannel pair (c.setInbox (!second) q))
    | (.error (_, reason), _) => (.error (ofSendFailure reason), restored)

theorem few_handles {values : List HandleValue} {handles : List Handle}
    (few : values.length ≤ maxChannelHandles) (eq : handles.length = values.length) :
    handles.length < 2 ^ 63 := by
  unfold maxChannelHandles at few
  omega

def channelWrite (pid : Nat) (channel : HandleValue) (data : Vec UInt8)
    (values : List HandleValue) (storage : Bool) (w : HandleWorld) :
    Except HandleError Unit × HandleWorld :=
  if maxChannelBytes < data.1.length then (.error .invalidArgs, w)
  else if few : values.length ≤ maxChannelHandles then
    match w.channelEnd pid channel .write with
    | .error e => (.error e, w)
    | .ok (t, pair, second, c) =>
      match validateMoveDispositions t values with
      | .error e => (.error e, w)
      | .ok () =>
        match t.removeManyKeepAlive values storage with
        | (.error e, t) => (.error (ofTableError e), w.setTable pid t)
        | (.ok handles, t) =>
          let message := ChannelMessage.new data ⟨handles.1, few_handles few handles.2⟩
          w.sendOrRestore pid pair second c values message t
  else (.error .invalidArgs, w)

def fetch (cookie : Option UInt64) (byteCapacity handleCapacity : Nat) (q : MessageQueue) :
    Except ChannelRecvError (Option ChannelMessage) × MessageQueue :=
  match cookie with
  | none => q.recvIfFits byteCapacity handleCapacity
  | some cookie => q.consumeIfFits cookie byteCapacity handleCapacity

/-- Receive a message with its handles. The bytes are copied out first; if that fails the message
is dropped. If the values of the handles cannot be copied out, the handles are closed again. -/
def channelRead (pid : Nat) (channel : HandleValue) (cookie : Option UInt64)
    (byteCapacity handleCapacity : Nat) (copied commit : Bool) (w : HandleWorld) :
    Except HandleError Unit × HandleWorld :=
  if maxChannelBytes < byteCapacity ∨ maxChannelHandles < handleCapacity then
    (.error .invalidArgs, w)
  else match w.channelEnd pid channel .read with
    | .error e => (.error e, w)
    | .ok (t, pair, second, c) =>
      match fetch cookie byteCapacity handleCapacity (c.inbox second) with
      | (.error _, _) => (.error .invalidArgs, w)
      | (.ok none, _) =>
        if cookie.isSome then (.error .invalidArgs, w)
        else if c.alive (!second) then (.error .shouldWait, w)
        else (.error .peerClosed, w)
      | (.ok (some message), q) =>
        let w := w.setChannel pair (c.setInbox second q)
        if ¬copied then (.error .invalidArgs, w.closeAll message.koids)
        else
          let added := t.addExistingMany message.handles.asList
          if commit then (.ok (), w.setTable pid added.2)
          else
            -- The koids are kept in an array of 64.
            let back := added.2.takeBack added.1
            (.error .invalidArgs, (w.setTable pid back.2).closeAll (back.1.take 64))

def hold (koid : Koid) (w : HandleWorld) : HandleWorld :=
  if (w.registry.object koid).isSome then { w with held := koid :: w.held } else w

/-- Somebody gives up a reference; an object that the registry has given up may go away now. -/
def release (koid : Koid) (w : HandleWorld) : HandleWorld :=
  let w := { w with held := w.held.erase koid }
  if koid ∈ w.held then w
  else match w.orphans.find? fun o => o.1 = koid with
    | none => w
    | some orphan => { w with orphans := w.orphans.filter fun o => o.1 ≠ koid }.dropObject orphan.2

def kernelRefOpen (koid : Koid) (w : HandleWorld) : HandleWorld :=
  let opened := w.registry.acquireKernelRef koid
  match opened.1 with
  | none => w
  | some _ => { w with
      registry := opened.2
      kernelRefs := koid :: w.kernelRefs
      log := .opened koid :: w.log }

def kernelRefClose (koid : Koid) (w : HandleWorld) : HandleWorld :=
  let closed := w.registry.noteKernelRefClose koid
  { w with registry := closed.2, kernelRefs := w.kernelRefs.erase koid }.giveUp koid closed.1

/-- What unregistering an object means to its references. -/
def removal (koid : Koid) (w : HandleWorld) : List RegistryEvent :=
  match w.registry.account koid with
  | none => []
  | some a => if a.handleRefs = 0 ∧ a.kernelRefs = 0 then [.collected koid] else [.removed koid]

/-- The runtime of a process is dropped, and its root region unregistered whatever its references. -/
def dropRuntime (pid : Nat) (p : HandleProcess) (w : HandleWorld) : HandleWorld :=
  match p.rootVmar with
  | none => w
  | some vmar => { w.unregisterObject vmar with
      processes := w.processes.modify pid fun p => { p with rootVmar := none }
      log := w.removal vmar ++ w.log }

def exit (pid : Nat) (w : HandleWorld) : HandleWorld :=
  match w.processes[pid]? with
  | none => w
  | some p =>
    let w := (((w.dropRuntime pid p).setTable pid p.table.clear).closeAll p.table.koids).release p.koid
    let collected := w.registry.collectObject p.koid
    { w with registry := collected.2 }.giveUp p.koid collected.1

end HandleWorld

inductive HandleOp
  | jobCreate (pid : Nat) (parent : HandleValue) (fits commit : Bool)
  | createObject (pid : Nat) (rights : Vm.Rights) (commit : Bool)
  | channelCreate (pid : Nat) (storage : QueueStorage × QueueStorage) (commit : Bool)
  | processCreate (pid : Nat) (commit : Bool)
  | processCreateInJob (pid : Nat) (job : HandleValue) (commit : Bool)
  | jobDefault (pid : Nat) (commit : Bool)
  | threadStart (pid child : Nat) (storage : QueueStorage × QueueStorage) (commit started : Bool)
  | duplicate (pid : Nat) (value : HandleValue) (rights : Vm.Rights) (commit : Bool)
  | close (pid : Nat) (value : HandleValue)
  | channelWrite (pid : Nat) (channel : HandleValue) (data : Vec UInt8)
      (values : List HandleValue) (storage : Bool)
  | channelRead (pid : Nat) (channel : HandleValue) (cookie : Option UInt64)
      (byteCapacity handleCapacity : Nat) (copied commit : Bool)
  | kernelRefOpen (koid : Koid)
  | kernelRefClose (koid : Koid)
  | hold (koid : Koid)
  | release (koid : Koid)
  | exit (pid : Nat)

def HandleOp.start : HandleOp → HandleWorld → HandleWorld
  | .jobCreate pid parent fits commit, w => (w.jobCreate pid parent fits commit).2
  | .createObject pid rights commit, w => (w.createObject pid .plain rights commit).2
  | .channelCreate pid storage commit, w => (w.channelCreate pid storage commit).2
  | .processCreate pid commit, w => (w.processCreate pid commit).2
  | .processCreateInJob pid job commit, w => (w.processCreateInJob pid job commit).2
  | .jobDefault pid commit, w => (w.jobDefault pid commit).2
  | .threadStart pid child storage commit started, w =>
    (w.threadStart pid child storage commit started).2
  | .duplicate pid value rights commit, w => (w.handleDuplicate pid value rights commit).2
  | .close pid value, w => (w.handleClose pid value).2
  | .channelWrite pid channel data values storage, w =>
    (w.channelWrite pid channel data values storage).2
  | .channelRead pid channel cookie byteCapacity handleCapacity copied commit, w =>
    (w.channelRead pid channel cookie byteCapacity handleCapacity copied commit).2
  | .kernelRefOpen koid, w => w.kernelRefOpen koid
  | .kernelRefClose koid, w => w.kernelRefClose koid
  | .hold koid, w => w.hold koid
  | .release koid, w => w.release koid
  | .exit pid, w => w.exit pid

def HandleOp.run (op : HandleOp) (w : HandleWorld) : HandleWorld := (op.start w).settle

/-- After the start of the system: the root job is registered, and the first process runs in it. -/
def HandleWorld.boot : HandleWorld where
  registry := ((Registry.new.registerObject rootJob .job).registerObject 2
    (.process 0)).registerObject 3 .plain
  processes := [⟨2, [], rootJob, some 3⟩]
  channels := []
  nextKoid := 4
  held := [2]
  orphans := []
  kernelRefs := []
  closing := []
  log := []

end HuesOS.Ipc
