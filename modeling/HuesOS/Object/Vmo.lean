import HuesOS.Object.Registry
import HuesOS.Quota.Tree
import Mathlib.Algebra.Order.Floor.Div

/-! Memory objects: how their frames come from the frame allocator and are charged to a job. Other
parts of the kernel take and give back frames at any time. -/

namespace HuesOS.Object
open Quotas

/-- The bitmap of frames, by frame number. Physical addresses have 52 bits at most. -/
structure Pmm where
  frameCount : Nat
  used : Nat → Bool
  cursor : Nat
  addressable : frameCount ≤ 2 ^ 40

namespace Pmm

def allocate (p : Pmm) : Option (Nat × Pmm) :=
  match ((List.range p.frameCount).map fun offset => (p.cursor + offset) % p.frameCount).find?
      fun frame => !p.used frame with
  | none => none
  | some frame => some (frame, { p with
      used := Function.update p.used frame true
      cursor := (frame + 1) % p.frameCount })

def deallocate (frame : Nat) (p : Pmm) : Pmm :=
  if frame < p.frameCount ∧ p.used frame then
    { p with used := Function.update p.used frame false }
  else p

end Pmm

structure FramePool where
  pmm : Pmm
  elsewhere : List Nat

inductive OtherUse
  | take
  | giveBack (frame : Nat)

namespace FramePool

def use (m : FramePool) : OtherUse → FramePool
  | .take =>
    match m.pmm.allocate with
    | none => m
    | some (frame, pmm) => ⟨pmm, frame :: m.elsewhere⟩
  | .giveBack frame =>
    if frame ∈ m.elsewhere then ⟨m.pmm.deallocate frame, m.elsewhere.erase frame⟩ else m

def freeAll (frames : List Nat) (m : FramePool) : FramePool :=
  { m with pmm := frames.foldl (fun pmm frame => pmm.deallocate frame) m.pmm }

/-- Add a number of frames to those at hand, until the allocator fails. Before each frame the rest
of the kernel may use the allocator. -/
def fill (meanwhile : Nat → List OtherUse) :
    Nat → List Nat → FramePool → Bool × List Nat × FramePool
  | 0, frames, m => (true, frames, m)
  | count + 1, frames, m =>
    let m := (meanwhile frames.length).foldl use m
    match m.pmm.allocate with
    | none => (false, frames, m)
    | some (frame, pmm) => fill meanwhile count (frames ++ [frame]) { m with pmm }

end FramePool

def vmoPageSize : Nat := 4096

def maxVmoSize : Nat := 4 * 1024 * 1024 * 1024

structure Vmo where
  koid : Koid
  size : Nat
  frames : List Nat
  job : Option NodeId

inductive VmoError
  | outOfMemory
  deriving DecidableEq

structure VmoWorld where
  pool : FramePool
  tree : QuotaTree
  vmos : List Vmo
  nextKoid : Koid

def pageBytes (pages : Nat) : UInt64 := UInt64.ofNat (pages * vmoPageSize)

def pagesFor (size : Nat) : Nat := size ⌈/⌉ vmoPageSize

def chargePages (job : Option NodeId) (pages : Nat) (t : QuotaTree) : Option (Bool × QuotaTree) :=
  match job with
  | none => some (true, t)
  | some node => t.tryAcquire node .memory (pageBytes pages)

def refundPages (job : Option NodeId) (pages : Nat) (t : QuotaTree) : QuotaTree :=
  match job with
  | none => t
  | some node => (t.release node .memory (pageBytes pages)).2

namespace VmoWorld

def newInJob (size : Nat) (job : Option NodeId) (storage : Bool)
    (meanwhile : Nat → List OtherUse) (w : VmoWorld) :
    Option (Except VmoError Koid × VmoWorld) :=
  if size = 0 ∨ maxVmoSize < size then some (.error .outOfMemory, w)
  else do
    let koid := w.nextKoid
    let w := { w with nextKoid := koid + 1 }
    let pageCount := max (pagesFor size) 1
    let (charged, tree) ← chargePages job pageCount w.tree
    if charged = false then return (.error .outOfMemory, { w with tree })
    else if storage = false then
      return (.error .outOfMemory, { w with tree := refundPages job pageCount tree })
    else
      match w.pool.fill meanwhile pageCount [] with
      | (false, frames, pool) => return (.error .outOfMemory, { w with
          pool := pool.freeAll frames
          tree := refundPages job pageCount tree })
      | (true, frames, pool) => return (.ok koid, { w with
          pool, tree
          vmos := w.vmos ++ [⟨koid, size, frames, job⟩] })

def setVmo (v : Vmo) (w : VmoWorld) : VmoWorld :=
  { w with vmos := w.vmos.map fun other => if other.koid = v.koid then v else other }

/-- Objects only grow. A growth that runs out of frames keeps those it got. -/
def setSize (v : Vmo) (newSize : Nat) (meanwhile : Nat → List OtherUse) (w : VmoWorld) :
    Option (Except VmoError Unit × VmoWorld) :=
  if newSize ≤ v.size then some (.ok (), w)
  else if maxVmoSize < newSize then some (.error .outOfMemory, w)
  else do
    let neededPages := pagesFor newSize
    let additionalPages := neededPages - v.frames.length
    let (charged, tree) ← chargePages v.job additionalPages w.tree
    if charged = false then return (.error .outOfMemory, { w with tree })
    else
      match w.pool.fill meanwhile (neededPages - v.frames.length) v.frames with
      | (false, frames, pool) =>
        let allocated := frames.length - (neededPages - additionalPages)
        let unallocated := additionalPages - allocated
        return (.error .outOfMemory, setVmo
          { v with frames, size := frames.length * vmoPageSize }
          { w with pool, tree := refundPages v.job unallocated tree })
      | (true, frames, pool) =>
        return (.ok (), setVmo { v with frames, size := newSize } { w with pool, tree })

def drop (v : Vmo) (w : VmoWorld) : VmoWorld :=
  { w with
    pool := w.pool.freeAll v.frames
    tree := refundPages v.job v.frames.length w.tree
    vmos := w.vmos.filter fun other => other.koid ≠ v.koid }

def find (w : VmoWorld) (koid : Koid) : Option Vmo := w.vmos.find? fun v => v.koid = koid

end VmoWorld

/-- Only memory objects charge memory; jobs are changed by the rest of the system in every other
way. -/
def sparesMemory : QuotaOp → Bool
  | .charge _ res _ => res ≠ .memory
  | .release _ res _ => res ≠ .memory
  | _ => true

inductive VmoOp
  | create (size : Nat) (job : Option NodeId) (storage : Bool) (meanwhile : Nat → List OtherUse)
  | setSize (koid : Koid) (newSize : Nat) (meanwhile : Nat → List OtherUse)
  | drop (koid : Koid)
  | elsewhere (use : OtherUse)
  | quota (op : { op : QuotaOp // sparesMemory op = true })

/-- The world after an operation; nothing if the operation does not return. -/
def VmoOp.run : VmoOp → VmoWorld → Option VmoWorld
  | .create size job storage meanwhile, w => (w.newInJob size job storage meanwhile).map Prod.snd
  | .setSize koid newSize meanwhile, w =>
    match w.find koid with
    | none => some w
    | some v => (w.setSize v newSize meanwhile).map Prod.snd
  | .drop koid, w =>
    match w.find koid with
    | none => some w
    | some v => some (w.drop v)
  | .elsewhere use, w => some { w with pool := w.pool.use use }
  | .quota op, w => (op.1.run w.tree).map fun r => { w with tree := r.2 }

def VmoOp.runAll : List VmoOp → VmoWorld → Option VmoWorld
  | [], w => some w
  | op :: rest, w => do
      let w' ← op.run w
      runAll rest w'

/-- No memory objects yet; the allocator may have any frames in use. -/
def VmoWorld.start (pmm : Pmm) (treeId : Nat) (limits : Limits) : VmoWorld :=
  ⟨⟨pmm, []⟩, .withRoot treeId limits, [], 1⟩

end HuesOS.Object
