import HuesOS.Lib.Exec
import Mathlib.Data.Prod.Lex
import Mathlib.Data.List.FinRange
import Mathlib.Order.Defs.LinearOrder

/-! The fair run queue: a search tree over `(virtual_start, task_id)` in a fixed arena of nodes
that are linked by indices, each node with the least virtual finish of its subtree. -/

namespace HuesOS.Sched
open Function Exec

structure EevdfKey where
  virtualStart : Nat
  taskId : Nat
  deriving DecidableEq

namespace EevdfKey

def lex (k : EevdfKey) : Nat ×ₗ Nat := toLex (k.virtualStart, k.taskId)

theorem lex_injective : Function.Injective lex := by
  rintro ⟨s, i⟩ ⟨s', i'⟩ eq
  cases eq
  rfl

/-- Keys are compared by their start, then by the task. -/
instance : LinearOrder EevdfKey := LinearOrder.lift' lex lex_injective

end EevdfKey

inductive EevdfTreeError
  | full | notFound | invariantBroken
  deriving DecidableEq

/-- Why a call does not return normally: the error it reports, or a loop that is still running
after as many turns as the arena has slots. -/
inductive TreeStop
  | error (e : EevdfTreeError)
  | unfinished
  deriving DecidableEq

/-- Ranks are bytes; `UInt8` wraps where the source would. -/
structure Node (N : Nat) where
  parent : Option (Fin N)
  left : Option (Fin N)
  right : Option (Fin N)
  rank : UInt8
  key : EevdfKey
  minFinish : Nat
  finish : Nat
  deriving DecidableEq

def Node.new {N : Nat} (key : EevdfKey) (finish : Nat) : Node N :=
  { parent := none, left := none, right := none, rank := 0, key, minFinish := finish, finish }

/-- The free array and its length are a stack, its top first. -/
structure EevdfTree (N : Nat) where
  nodes : Fin N → Option (Node N)
  free : List (Fin N)
  root : Option (Fin N)
  len : Nat

namespace EevdfTree
variable {N : Nat}

def new (N : Nat) : EevdfTree N :=
  { nodes := fun _ => none, free := (List.finRange N).reverse, root := none, len := 0 }

abbrev TreeM (N : Nat) := Exec (EevdfTree N) TreeStop

def fail {α : Type} (e : EevdfTreeError) : TreeM N α := stop (.error e)

/-- Every loop follows links, so it takes at most one turn for each slot. -/
def turns (N : Nat) : Nat := N + 1

def nodeRef (idx : Fin N) : TreeM N (Node N) := fun t =>
  match t.nodes idx with
  | some node => (.ok node, t)
  | none => (.error (.error .invariantBroken), t)

def setNode (t : EevdfTree N) (idx : Fin N) (node : Option (Node N)) : EevdfTree N :=
  { t with nodes := update t.nodes idx node }

def nodeMutRef (idx : Fin N) (f : Node N → Node N) : TreeM N Unit := fun t =>
  match t.nodes idx with
  | some node => (.ok (), t.setNode idx (some (f node)))
  | none => (.error (.error .invariantBroken), t)

def setRoot (root : Option (Fin N)) : TreeM N Unit := modify fun t => { t with root }

def minFinishOf (link : Option (Fin N)) : TreeM N (Option Nat) :=
  match link with
  | none => pure none
  | some idx => do
      let node ← nodeRef idx
      return some node.minFinish

def refreshNode (idx : Fin N) : TreeM N Unit := do
  let node ← nodeRef idx
  let leftMin ← minFinishOf node.left
  let rightMin ← minFinishOf node.right
  let m := match leftMin with
    | some l => if l < node.finish then l else node.finish
    | none => node.finish
  let m := match rightMin with
    | some r => if r < m then r else m
    | none => m
  nodeMutRef idx fun n => { n with minFinish := m }

def refreshAncestors : Nat → Option (Fin N) → TreeM N Unit
  | _, none => pure ()
  | 0, some _ => stop .unfinished
  | fuel + 1, some idx => do
      refreshNode idx
      let node ← nodeRef idx
      refreshAncestors fuel node.parent

def replaceChild (parent : Option (Fin N)) (old : Fin N) (new : Option (Fin N)) : TreeM N Unit :=
  match parent with
  | none => setRoot new
  | some p => do
      let node ← nodeRef p
      if node.left = some old then nodeMutRef p fun n => { n with left := new }
      else nodeMutRef p fun n => { n with right := new }

def setParent (link : Option (Fin N)) (parent : Option (Fin N)) : TreeM N Unit :=
  match link with
  | none => pure ()
  | some idx => nodeMutRef idx fun n => { n with parent }

def rotateRight (y : Fin N) : TreeM N Unit := do
  let yNode ← nodeRef y
  match yNode.left with
  | none => fail .invariantBroken
  | some x => do
      let xNode ← nodeRef x
      nodeMutRef x fun n => { n with right := some y }
      nodeMutRef y fun n => { n with parent := some x }
      nodeMutRef y fun n => { n with left := xNode.right }
      setParent xNode.right (some y)
      nodeMutRef x fun n => { n with parent := yNode.parent }
      replaceChild yNode.parent y (some x)
      refreshNode y
      refreshNode x

def rotateLeft (x : Fin N) : TreeM N Unit := do
  let xNode ← nodeRef x
  match xNode.right with
  | none => fail .invariantBroken
  | some y => do
      let yNode ← nodeRef y
      nodeMutRef y fun n => { n with left := some x }
      nodeMutRef x fun n => { n with parent := some y }
      nodeMutRef x fun n => { n with right := yNode.left }
      setParent yNode.left (some x)
      nodeMutRef y fun n => { n with parent := xNode.parent }
      replaceChild xNode.parent x (some y)
      refreshNode x
      refreshNode y

def rebalanceAfterInsert : Nat → Fin N → TreeM N Unit
  | 0, _ => stop .unfinished
  | fuel + 1, idx => do
      let node ← nodeRef idx
      match node.parent with
      | none => pure ()
      | some parent => do
          let parentNode ← nodeRef parent
          if parentNode.rank > node.rank + 1 then
            if parentNode.left = some idx then
              match node.right with
              | some grand => do
                  rotateLeft idx
                  rotateRight parent
                  nodeMutRef grand fun n => { n with rank := n.rank + 1 }
                  nodeMutRef idx fun n => { n with rank := n.rank - 1 }
                  rebalanceAfterInsert fuel grand
              | none => do
                  rotateRight parent
                  rebalanceAfterInsert fuel parent
            else match node.left with
              | some grand => do
                  rotateRight idx
                  rotateLeft parent
                  nodeMutRef grand fun n => { n with rank := n.rank + 1 }
                  nodeMutRef idx fun n => { n with rank := n.rank - 1 }
                  rebalanceAfterInsert fuel grand
              | none => do
                  rotateLeft parent
                  rebalanceAfterInsert fuel parent
          else rebalanceAfterInsert fuel parent

def rankOf (link : Option (Fin N)) : TreeM N UInt8 :=
  match link with
  | none => pure 0
  | some idx => do
      let node ← nodeRef idx
      return node.rank

def expectChild (link : Option (Fin N)) : TreeM N (Fin N) :=
  match link with
  | none => fail .invariantBroken
  | some idx => pure idx

def rebalanceAfterErase : Nat → Fin N → TreeM N Unit
  | 0, _ => stop .unfinished
  | fuel + 1, idx => do
      let node ← nodeRef idx
      let leftRank ← rankOf node.left
      let rightRank ← rankOf node.right
      if min leftRank rightRank = 0 ∧ max leftRank rightRank > 1 then
        if leftRank > rightRank then
          let child ← expectChild node.left
          let childNode ← nodeRef child
          let childLeft ← rankOf childNode.left
          let childRight ← rankOf childNode.right
          if childRight > childLeft then
            let grand ← expectChild childNode.right
            rotateLeft child
            rotateRight idx
            nodeMutRef grand fun n => { n with rank := n.rank + 1 }
            nodeMutRef child fun n => { n with rank := n.rank - 1 }
            rebalanceAfterErase fuel grand
          else
            rotateRight idx
            nodeMutRef child fun n => { n with rank := n.rank - 1 }
            rebalanceAfterErase fuel child
        else
          let child ← expectChild node.right
          let childNode ← nodeRef child
          let childLeft ← rankOf childNode.left
          let childRight ← rankOf childNode.right
          if childLeft > childRight then
            let grand ← expectChild childNode.left
            rotateRight child
            rotateLeft idx
            nodeMutRef grand fun n => { n with rank := n.rank + 1 }
            nodeMutRef child fun n => { n with rank := n.rank - 1 }
            rebalanceAfterErase fuel grand
          else
            rotateLeft idx
            nodeMutRef child fun n => { n with rank := n.rank - 1 }
            rebalanceAfterErase fuel child
      else match node.parent with
        | none => pure ()
        | some parent => rebalanceAfterErase fuel parent

def insertionPoint (key : EevdfKey) :
    Nat → Option (Fin N) → Option (Fin N) → TreeM N (Option (Option (Fin N)))
  | _, parent, none => pure (some parent)
  | 0, _, some _ => stop .unfinished
  | fuel + 1, _, some idx => do
      let node ← nodeRef idx
      if key = node.key then return none
      else if key < node.key then insertionPoint key fuel (some idx) node.left
      else insertionPoint key fuel (some idx) node.right

def linkBelow (key : EevdfKey) (slot : Fin N) (parent : Option (Fin N)) : TreeM N Unit := do
  nodeMutRef slot fun n => { n with parent }
  match parent with
  | none => setRoot (some slot)
  | some p => do
      let node ← nodeRef p
      if key < node.key then nodeMutRef p fun n => { n with left := some slot }
      else nodeMutRef p fun n => { n with right := some slot }

def releaseSlot (slot : Fin N) (t : EevdfTree N) : EevdfTree N :=
  { t with
    nodes := update t.nodes slot none
    free := slot :: t.free
    len := t.len - 1 }

def insert (key : EevdfKey) (finish : Nat) : TreeM N Unit := do
  let free ← gets (·.free)
  match free with
  | [] => fail .full
  | slot :: rest => do
      modify fun t => { t with
        nodes := update t.nodes slot (some (Node.new key finish))
        free := rest
        len := t.len + 1 }
      let root ← gets (·.root)
      match ← insertionPoint key (turns N) none root with
      | none => do
          modify (releaseSlot slot)
          fail .notFound
      | some parent => do
          linkBelow key slot parent
          rebalanceAfterInsert (turns N) slot
          refreshAncestors (turns N) (some slot)

def leftEnd : Nat → Fin N → TreeM N (Fin N)
  | 0, _ => stop .unfinished
  | fuel + 1, idx => do
      let node ← nodeRef idx
      match node.left with
      | some l => leftEnd fuel l
      | none => pure idx

def eraseSingle (slot : Fin N) : TreeM N Unit := do
  let node ← nodeRef slot
  let child := node.left.or node.right
  replaceChild node.parent slot child
  setParent child node.parent
  modify (releaseSlot slot)

def eraseNode (slot : Fin N) : TreeM N Unit := do
  let node ← nodeRef slot
  match node.left, node.right with
  | some _, some successorRoot => do
      let succ ← leftEnd (turns N) successorRoot
      let successor ← nodeRef succ
      nodeMutRef slot fun n =>
        { n with key := successor.key, finish := successor.finish, minFinish := successor.minFinish }
      eraseSingle succ
      match successor.parent.or (some slot) with
      | some p => do
          rebalanceAfterErase (turns N) p
          refreshAncestors (turns N) (some p)
      | none => pure ()
  | _, _ => do
      eraseSingle slot
      match node.parent with
      | some p => do
          rebalanceAfterErase (turns N) p
          refreshAncestors (turns N) (some p)
      | none => pure ()

def findFrom (key : EevdfKey) : Nat → Option (Fin N) → TreeM N (Option (Fin N))
  | _, none => pure none
  | 0, some _ => stop .unfinished
  | fuel + 1, some idx => do
      match ← gets (·.nodes idx) with
      | none => pure none
      | some node =>
        if key = node.key then return some idx
        else if key < node.key then findFrom key fuel node.left
        else findFrom key fuel node.right

def findKey (key : EevdfKey) : TreeM N (Option (Fin N)) := do
  let root ← gets (·.root)
  findFrom key (turns N) root

def remove (key : EevdfKey) : TreeM N Unit := do
  match ← findKey key with
  | none => fail .notFound
  | some slot => eraseNode slot

def popMin : TreeM N (Option EevdfKey) := do
  match ← gets (·.root) with
  | none => pure none
  | some root => do
      let idx ← leftEnd (turns N) root
      let node ← nodeRef idx
      eraseNode idx
      return some node.key

def firstFrom : Nat → Option (Fin N) → TreeM N (Option (Node N))
  | _, none => pure none
  | 0, some _ => stop .unfinished
  | fuel + 1, some idx => do
      match ← gets (·.nodes idx) with
      | none => pure none
      | some node =>
        match node.left with
        | some l => firstFrom fuel (some l)
        | none => pure (some node)

def minStart : TreeM N (Option Nat) := do
  let first ← firstFrom (turns N) (← gets (·.root))
  return first.map (·.key.virtualStart)

/-- The entries below a link in key order; a missing subtree is skipped. -/
def walk : Nat → Option (Fin N) → TreeM N (List (EevdfKey × Nat))
  | _, none => pure []
  | 0, some _ => stop .unfinished
  | fuel + 1, some idx => do
      match ← gets (·.nodes idx) with
      | none => pure []
      | some node => do
          let before ← walk fuel node.left
          let after ← walk fuel node.right
          return before ++ (node.key, node.finish) :: after

def better (best : Option (EevdfKey × Nat)) (entry : EevdfKey × Nat) : Option (EevdfKey × Nat) :=
  match best with
  | none => some entry
  | some current =>
    if entry.2 < current.2 ∨ entry.2 = current.2 ∧ entry.1 < current.1 then some entry else best

def pickEligible (now : Nat) : TreeM N (Option EevdfKey) := do
  let entries ← walk (turns N) (← gets (·.root))
  let best := (entries.filter fun e => e.1.virtualStart ≤ now).foldl better none
  return best.map Prod.fst

end EevdfTree
end HuesOS.Sched
