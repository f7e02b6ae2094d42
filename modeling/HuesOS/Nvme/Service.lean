import HuesOS.Lib.Runs
import Mathlib

/-! The NVMe block service: requests cut into transfers of at most a page, each run as one command
over the single transfer buffer, with a retry and a controller reset when it times out; and the
device, which carries out submitted commands in any order. A transfer starts at the page aligned
transfer buffer and is at most 4096 bytes long, so it has one PRP entry and no list. -/

namespace HuesOS.Nvme

inductive NvmeError
  | notReady
  | commandFailed (sct sc : Nat)
  | timeout
  | invalidArgs
  | outOfRange
  deriving DecidableEq

/-- What the controller was identified with: blocks of the namespace, bytes of a block and bytes of
the largest transfer. -/
structure Geometry where
  nsze : Nat
  lbaSize : Nat
  mdts : Nat

def checkedIoBytes (g : Geometry) (lba nlb : Nat) : Except NvmeError Nat :=
  if g.lbaSize = 0 ∨ g.nsze = 0 then .error .notReady
  else if nlb = 0 then .error .invalidArgs
  else if 2 ^ 64 ≤ lba + nlb ∨ g.nsze < lba + nlb then .error .outOfRange
  else if g.mdts < nlb * g.lbaSize then .error .invalidArgs
  else .ok (nlb * g.lbaSize)

inductive ResetState
  | online
  | timedOut (requestId : Nat)
  | resetting (startedTick : Nat)
  | reidentify
  | failed
  deriving DecidableEq

def maxResetTicks : Nat := 16

namespace ResetState

def commandTimedOut (requestId : Nat) : ResetState → ResetState
  | .online => .timedOut requestId
  | state => state

/-- `none` when no timeout was recorded. -/
def beginReset (nowTick : Nat) : ResetState → Option ResetState
  | .timedOut _ => some (.resetting nowTick)
  | _ => none

def pollReset (nowTick : Nat) (hardwareReady : Bool) : ResetState → ResetState
  | .resetting startedTick =>
    if hardwareReady then .reidentify
    else if nowTick - startedTick > maxResetTicks then .failed
    else .resetting startedTick
  | state => state

def reidentifyComplete : ResetState → ResetState
  | .reidentify => .online
  | state => state

end ResetState

def tickAdd (tick n : Nat) : Nat := min (tick + n) (2 ^ 64 - 1)

/-- One call of the controller. A write carries the blocks to be written. -/
inductive Op (B : Type)
  | read (lba nlb : Nat)
  | write (lba : Nat) (data : List B)
  | flush
  deriving DecidableEq

inductive Request (B : Type)
  | read (lba blockCount : Nat)
  | write (lba : Nat) (data : List B)
  | flush
  deriving DecidableEq

inductive Answer (B : Type)
  | ok (blocks : List B)
  | ioError
  | invalidArgs
  deriving DecidableEq

def transferChunkBytes : Nat := 4096

structure Job (B : Type) where
  request : Request B
  blockSize : Nat
  doneBlocks : Nat
  blocks : List B

variable {B : Type}

def Job.chunkBlocks (job : Job B) (blockCount : Nat) : Nat :=
  min (max (transferChunkBytes / job.blockSize) 1) (blockCount - job.doneBlocks)

def Job.next (job : Job B) : Option (Op B) :=
  match job.request with
  | .read lba blockCount =>
    if job.doneBlocks < blockCount then
      some (.read (lba + job.doneBlocks) (job.chunkBlocks blockCount))
    else none
  | .write lba data =>
    if job.doneBlocks < data.length then
      some (.write (lba + job.doneBlocks) ((data.drop job.doneBlocks).take (job.chunkBlocks data.length)))
    else none
  | .flush => if job.doneBlocks = 0 then some .flush else none

def Job.advance (job : Job B) (op : Op B) (blocks : List B) : Job B :=
  match op with
  | .read _ nlb =>
    { job with doneBlocks := job.doneBlocks + nlb, blocks := job.blocks ++ blocks }
  | .write _ data => { job with doneBlocks := job.doneBlocks + data.length }
  | .flush => { job with doneBlocks := job.doneBlocks + 1 }

def Request.blockCount : Request B → Nat
  | .read _ blockCount => blockCount
  | .write _ data => data.length
  | .flush => 0

structure Command (B : Type) where
  cid : Nat
  op : Op B

/-- A completion entry: `failed` is the status type and code of a failure. -/
structure Completion where
  cid : Nat
  failed : Option (Nat × Nat)
  deriving DecidableEq

inductive Attempt
  | first
  | retry
  | final
  deriving DecidableEq

inductive Phase (B : Type)
  | idle
  | looping (job : Job B)
  | polling (job : Job B) (op : Op B) (attempt : Attempt) (cid budget : Nat)
  | copying (job : Job B) (op : Op B)
  | resetting (job : Job B) (op : Op B)

/-- `buffer` is the transfer buffer in logical blocks. Of the device, `outstanding` are the
commands not carried out, `performed` the completions not posted, `cq` those not read. -/
structure Service (B : Type) where
  cid : Nat
  buffer : Nat → B
  resetState : ResetState
  tick : Nat
  phase : Phase B
  answers : List (Request B × Answer B)
  medium : Nat → B
  outstanding : List (Command B)
  performed : List Completion
  cq : List Completion

def ioPollBudget : Nat := 50000000

namespace Service
variable (s : Service B) (g : Geometry)

def answer (job : Job B) (a : Answer B) : Service B :=
  { s with phase := .idle, answers := s.answers ++ [(job.request, a)] }

def opBlocks : Op B → Option (Nat × Nat)
  | .read lba nlb => some (lba, nlb)
  | .write lba data => some (lba, data.length)
  | .flush => none

def load (op : Op B) : Nat → B :=
  match op with
  | .write _ data => fun i => data.getD i (s.buffer i)
  | _ => s.buffer

def submit (job : Job B) (op : Op B) (attempt : Attempt) : Service B :=
  match opBlocks op with
  | some (lba, nlb) =>
    match checkedIoBytes g lba nlb with
    | .error _ => s.answer job .ioError
    | .ok _ => send
  | none => send
where
  send : Service B :=
    { s with
      buffer := s.load op
      outstanding := s.outstanding ++ [⟨s.cid, op⟩]
      cid := (s.cid + 1) % 2 ^ 16
      phase := .polling job op attempt s.cid ioPollBudget }

def finishRead (nlb : Nat) : List B := (List.range nlb).map s.buffer

def controllerOp (job : Job B) (op : Op B) : Service B :=
  let s := { s with tick := tickAdd s.tick 1 }
  if s.resetState = .failed then s.answer job .ioError else s.submit g job op .first

def timedOut (job : Job B) (op : Op B) : Attempt → Service B
  | .first => s.submit g job op .retry
  | .retry =>
    let state := s.resetState.commandTimedOut s.tick
    match state.beginReset s.tick with
    | none => { s with resetState := state }.answer job .ioError
    | some state => { s with resetState := state, phase := .resetting job op }
  | .final => s.answer job .ioError

def completed (job : Job B) (op : Op B) (c : Completion) : Service B :=
  match c.failed, op with
  | some _, _ => s.answer job .ioError
  | none, .read _ _ => { s with phase := .copying job op }
  | none, _ => { s with phase := .looping (job.advance op []) }

def pollIo (job : Job B) (op : Op B) (attempt : Attempt) (cid budget : Nat) : Service B :=
  match budget, s.cq with
  | 0, _ => s.timedOut g job op attempt
  | budget + 1, [] => { s with phase := .polling job op attempt cid budget }
  | budget + 1, c :: rest =>
    if c.cid = cid then { s with cq := rest }.completed job op c
    else { s with cq := rest, phase := .polling job op attempt cid budget }

def hostStep : Option (Service B) :=
  match s.phase with
  | .idle => none
  | .looping job =>
    match job.next with
    | none => some (s.answer job (.ok job.blocks))
    | some op => some (s.controllerOp g job op)
  | .polling job op attempt cid budget => some (s.pollIo g job op attempt cid budget)
  | .copying job op =>
    match opBlocks op with
    | some (_, nlb) => some { s with phase := .looping (job.advance op (s.finishRead nlb)) }
    | none => none
  | .resetting _ _ => none

def accept (request : Request B) : Service B :=
  let job : Job B := { request, blockSize := g.lbaSize, doneBlocks := 0, blocks := [] }
  match request with
  | .flush => { s with phase := .looping job }
  | _ =>
    if g.lbaSize = 0 ∨ transferChunkBytes < g.lbaSize then s.answer job .invalidArgs
    else if g.mdts < request.blockCount * g.lbaSize then s.answer job .invalidArgs
    else { s with phase := .looping job }

/-- The controller reset ends: commands of the device are gone, memory is zeroed, and ids restart
after the commands of the initialisation. `none` is a reset that failed. -/
def endReset [Inhabited B] (queues : Option Nat) : Option (Service B) :=
  match s.phase with
  | .resetting job op =>
    let s := { s with outstanding := [], performed := [], cq := [], buffer := fun _ => default }
    match queues with
    | some queues =>
      let tick := tickAdd s.tick 1
      some ({ s with
        tick
        resetState := (s.resetState.pollReset tick true).reidentifyComplete
        cid := (3 + 2 * queues) % 2 ^ 16 }.submit g job op .final)
    | none =>
      let tick := tickAdd s.tick (maxResetTicks + 1)
      some ({ s with tick, resetState := s.resetState.pollReset tick false }.answer job .ioError)
  | _ => none

def perform (i : Nat) (failed : Option (Nat × Nat)) : Option (Service B) :=
  match s.outstanding[i]? with
  | none => none
  | some c =>
    let done := { s with
      outstanding := s.outstanding.eraseIdx i
      performed := s.performed ++ [⟨c.cid, failed⟩] }
    match failed, c.op with
    | none, .read lba nlb =>
      some { done with
        buffer := fun j => if j < nlb then s.medium (lba + j) else s.buffer j }
    | none, .write lba data =>
      some { done with
        medium := fun at_ =>
          if lba ≤ at_ ∧ at_ < lba + data.length then s.buffer (at_ - lba) else s.medium at_ }
    | _, _ => some done

def post (i : Nat) : Option (Service B) :=
  match s.performed[i]? with
  | none => none
  | some c => some { s with performed := s.performed.eraseIdx i, cq := s.cq ++ [c] }

end Service

inductive Action (B : Type)
  | request (r : Request B)
  | host
  | endReset (queues : Option Nat)
  | perform (i : Nat) (failed : Option (Nat × Nat))
  | post (i : Nat)

def step [Inhabited B] (g : Geometry) (s : Service B) : Action B → Option (Service B)
  | .request r =>
    match s.phase with
    | .idle => some (s.accept g r)
    | _ => none
  | .host => s.hostStep g
  | .endReset queues => s.endReset g queues
  | .perform i failed => s.perform i failed
  | .post i => s.post i

structure Service.Fresh (s : Service B) : Prop where
  phase : s.phase = .idle
  online : s.resetState = .online
  outstanding : s.outstanding = []
  performed : s.performed = []
  cq : s.cq = []

end HuesOS.Nvme
