import Mathlib.Tactic.Common
import Mathlib.Data.Fintype.Pi

/-! Resource quotas: what one owner may use, and the tree of jobs in which a limit bounds the usage
of a whole subtree. -/

namespace HuesOS.Quotas

inductive Resource
  | memory | handles | cpuTicks
  deriving DecidableEq

instance : Fintype Resource := ⟨{.memory, .handles, .cpuTicks}, fun r => by cases r <;> decide⟩

abbrev Limits := Resource → UInt64

abbrev Usage := Resource → UInt64

def unlimited : UInt64 := 0xffffffffffffffff

def saturatingAdd (a b : UInt64) : UInt64 := if a.toNat + b.toNat < 2 ^ 64 then a + b else unlimited

def saturatingSub (a b : UInt64) : UInt64 := if b ≤ a then a - b else 0

theorem toNat_saturatingAdd (a b : UInt64) :
    (saturatingAdd a b).toNat = min (a.toNat + b.toNat) (2 ^ 64 - 1) := by
  unfold saturatingAdd
  split
  · rw [UInt64.toNat_add]
    omega
  have : unlimited.toNat = 2 ^ 64 - 1 := rfl
  omega

theorem toNat_saturatingSub (a b : UInt64) : (saturatingSub a b).toNat = a.toNat - b.toNat := by
  unfold saturatingSub
  split
  next le => rw [UInt64.toNat_sub_of_le a b le]
  next more =>
  have : a.toNat < b.toNat := UInt64.lt_iff_toNat_lt.mp (UInt64.not_le.mp more)
  rw [UInt64.toNat_zero]
  omega

namespace Usage

def none : Usage := fun _ => 0

def add (res : Resource) (amount : UInt64) (u : Usage) : Usage :=
  Function.update u res (saturatingAdd (u res) amount)

def sub (res : Resource) (amount : UInt64) (u : Usage) : Usage :=
  Function.update u res (saturatingSub (u res) amount)

def addUsage (u other : Usage) : Usage := fun res => saturatingAdd (u res) (other res)

end Usage

structure Quota where
  limits : Limits
  used : Usage

namespace Quota

def new (limits : Limits) : Quota := ⟨limits, .none⟩

def fits (q : Quota) (res : Resource) (amount : UInt64) : Bool :=
  q.limits res = unlimited || saturatingAdd (q.used res) amount ≤ q.limits res

def tryAcquire (res : Resource) (amount : UInt64) (q : Quota) : Bool × Quota :=
  if q.fits res amount then (true, { q with used := q.used.add res amount }) else (false, q)

def release (res : Resource) (amount : UInt64) (q : Quota) : Quota :=
  { q with used := q.used.sub res amount }

end Quota

/-- A node of one tree; identifiers of other trees are refused. -/
structure NodeId where
  index : Nat
  treeId : Nat
  deriving DecidableEq

inductive QuotaTreeError
  | invalidNode
  deriving DecidableEq

structure Node where
  parent : Option Nat
  children : List Nat
  limits : Limits
  used : Usage
  active : Bool

structure QuotaTree where
  nodes : List Node
  treeId : Nat

namespace QuotaTree

def withRoot (treeId : Nat) (limits : Limits) : QuotaTree :=
  { nodes := [{ parent := none, children := [], limits, used := .none, active := true }], treeId }

def indexOf (t : QuotaTree) (node : NodeId) : Except QuotaTreeError Nat :=
  if node.treeId ≠ t.treeId then .error .invalidNode
  else match t.nodes[node.index]? with
    | none => .error .invalidNode
    | some found => if found.active then .ok node.index else .error .invalidNode

def modifyNode (t : QuotaTree) (index : Nat) (f : Node → Node) : QuotaTree :=
  { t with nodes := t.nodes.modify index f }

def addChild (parent : NodeId) (limits : Limits) (t : QuotaTree) :
    Except QuotaTreeError NodeId × QuotaTree :=
  match t.indexOf parent with
  | .error e => (.error e, t)
  | .ok above =>
    let id := t.nodes.length
    let node : Node := { parent := some above, children := [], limits, used := .none, active := true }
    let grown : QuotaTree := { t with nodes := t.nodes ++ [node] }
    (.ok ⟨id, t.treeId⟩, grown.modifyNode above fun n => { n with children := n.children ++ [id] })

def removeLeaf (node : NodeId) (t : QuotaTree) : Except QuotaTreeError Unit × QuotaTree :=
  match t.indexOf node with
  | .error e => (.error e, t)
  | .ok index =>
    match t.nodes[index]? with
    | none => (.error .invalidNode, t)
    | some found =>
      match found.parent with
      | none => (.error .invalidNode, t)
      | some above =>
        if found.children ≠ [] ∨ found.used ≠ .none then (.error .invalidNode, t)
        else
          let cut := t.modifyNode above fun n =>
            { n with children := n.children.filter (· ≠ index) }
          (.ok (), cut.modifyNode index fun n =>
            { n with active := false, parent := none, limits := fun _ => unlimited })

/-- The usage of a node and everything below it. The recursion follows the children and has no
bound in the source; here it gives no answer when it goes deeper than the fuel or leaves the
tree. -/
def subtreeUsageIndex (t : QuotaTree) : Nat → Nat → Option Usage
  | 0, _ => none
  | fuel + 1, index => do
      let node ← t.nodes[index]?
      node.children.foldlM (fun total child => do
        let below ← t.subtreeUsageIndex fuel child
        return Usage.addUsage total below) node.used

def subtreeUsage (t : QuotaTree) (index : Nat) : Option Usage :=
  t.subtreeUsageIndex t.nodes.length index

/-- The walk from a node to its root: whether every node on it has room. -/
def hasRoom (t : QuotaTree) (res : Resource) (amount : UInt64) : Nat → Option Nat → Option Bool
  | _, none => some true
  | 0, some _ => none
  | fuel + 1, some index => do
      let node ← t.nodes[index]?
      let subtree ← t.subtreeUsage index
      if node.limits res ≠ unlimited ∧ saturatingAdd (subtree res) amount > node.limits res then
        return false
      else t.hasRoom res amount fuel node.parent

def tryAcquire (node : NodeId) (res : Resource) (amount : UInt64) (t : QuotaTree) :
    Option (Bool × QuotaTree) :=
  match t.indexOf node with
  | .error _ => some (false, t)
  | .ok index => do
      if ← t.hasRoom res amount t.nodes.length (some index) then
        return (true, t.modifyNode index fun n => { n with used := n.used.add res amount })
      else return (false, t)

def release (node : NodeId) (res : Resource) (amount : UInt64) (t : QuotaTree) :
    Bool × QuotaTree :=
  match t.indexOf node with
  | .error _ => (false, t)
  | .ok index => (true, t.modifyNode index fun n => { n with used := n.used.sub res amount })

def setLimits (node : NodeId) (limits : Limits) (t : QuotaTree) : Option (Bool × QuotaTree) :=
  match t.indexOf node with
  | .error _ => some (false, t)
  | .ok index => do
      let usage ← t.subtreeUsage index
      if ∃ res, limits res ≠ unlimited ∧ usage res > limits res then return (false, t)
      else return (true, t.modifyNode index fun n => { n with limits })

end QuotaTree

/-- A rollback of an unpublished job is a removal of its leaf. -/
inductive QuotaOp
  | child (parent : NodeId) (limits : Limits)
  | charge (node : NodeId) (res : Resource) (amount : UInt64)
  | release (node : NodeId) (res : Resource) (amount : UInt64)
  | setLimits (node : NodeId) (limits : Limits)
  | removeLeaf (node : NodeId)

/-- Whether an operation succeeds, and the tree it leaves; nothing for one that never returns. -/
def QuotaOp.run : QuotaOp → QuotaTree → Option (Bool × QuotaTree)
  | .child parent limits, t =>
    match t.addChild parent limits with
    | (.ok _, t') => some (true, t')
    | (.error _, t') => some (false, t')
  | .charge node res amount, t => t.tryAcquire node res amount
  | .release node res amount, t => some (t.release node res amount)
  | .setLimits node limits, t => t.setLimits node limits
  | .removeLeaf node, t =>
    match t.removeLeaf node with
    | (.ok (), t') => some (true, t')
    | (.error _, t') => some (false, t')

def QuotaOp.runAll : List QuotaOp → QuotaTree → Option QuotaTree
  | [], t => some t
  | op :: rest, t => do
      let (_, t') ← op.run t
      runAll rest t'

end HuesOS.Quotas
