import Mathlib

namespace HuesOS.Pci

scoped instance ids : NeZero (2 ^ 64) := ⟨by decide⟩
scoped instance segments : NeZero 65536 := ⟨by decide⟩
scoped instance buses : NeZero 256 := ⟨by decide⟩
scoped instance devices : NeZero 32 := ⟨by decide⟩
scoped instance functions : NeZero 8 := ⟨by decide⟩

structure PciAddress where
  segment : Fin 65536
  bus : Fin 256
  device : Fin 32
  function : Fin 8
  deriving DecidableEq

namespace PciAddress

/-- The number whose order is the derived, field by field order of addresses. -/
def key (a : PciAddress) : Nat := ((a.segment * 256 + a.bus) * 32 + a.device) * 8 + a.function

theorem key_injective {a b : PciAddress} (eq : a.key = b.key) : a = b := by
  cases a
  cases b
  simp only [key, PciAddress.mk.injEq, Fin.ext_iff] at eq ⊢
  omega

end PciAddress

structure RootBus where
  rootId : Fin (2 ^ 64)
  segment : Fin 65536
  startBus : Fin 256
  endBus : Fin 256
  deriving DecidableEq

/-- The order of roots: segment, then start bus, end bus and identity. -/
def RootBus.key (r : RootBus) : Nat :=
  ((r.segment * 256 + r.startBus) * 256 + r.endBus) * 2 ^ 64 + r.rootId

def RootBus.routes (r : RootBus) (a : PciAddress) : Prop :=
  r.segment = a.segment ∧ r.startBus ≤ a.bus ∧ a.bus ≤ r.endBus

instance (r : RootBus) (a : PciAddress) : Decidable (r.routes a) :=
  inferInstanceAs (Decidable (_ ∧ _))

inductive FunctionKind
  | endpoint
  | pciBridge (secondaryBus subordinateBus : Fin 256)
  deriving DecidableEq

structure DiscoveredFunction where
  address : PciAddress
  vendorId : Fin 65536
  kind : FunctionKind
  deriving DecidableEq

inductive Parent
  | root (id : Fin (2 ^ 64))
  | bridge (address : PciAddress)
  deriving DecidableEq

structure TopologyNode where
  function : DiscoveredFunction
  parent : Parent
  depth : Nat
  deriving DecidableEq

structure TopologySnapshot where
  generation : Nat
  roots : List RootBus
  nodes : List TopologyNode
  deriving DecidableEq

inductive TopologyError
  | invalidGeneration | tooManyEntries | invalidRootId | invalidRootRange | rootOverlap
  | duplicateAddress | absentFunction | missingRoot | invalidBridgeRange | crossingBridgeRanges
  | ambiguousParent | missingParent | depthExceeded
  deriving DecidableEq

def maxTopologyRoots : Nat := 16
def maxTopologyFunctions : Nat := 4096
def maxTopologyDepth : Nat := 32

def bridgeRange (f : DiscoveredFunction) : Option (Fin 256 × Fin 256) :=
  match f.kind with
  | .endpoint => none
  | .pciBridge secondary subordinate => some (secondary, subordinate)

/-- The inner loop of the root check: `root` against the roots before it. -/
def checkRoot (root : RootBus) : List RootBus → Except TopologyError Unit
  | [] => .ok ()
  | previous :: rest =>
    if previous.rootId = root.rootId then .error .invalidRootId
    else if previous.segment = root.segment ∧ previous.startBus ≤ root.endBus ∧
        root.startBus ≤ previous.endBus then .error .rootOverlap
    else checkRoot root rest

def validateRoots (before : List RootBus) : List RootBus → Except TopologyError Unit
  | [] => .ok ()
  | root :: rest =>
    if root.rootId = 0 then .error .invalidRootId
    else if root.endBus < root.startBus then .error .invalidRootRange
    else do
      checkRoot root before
      validateRoots (before ++ [root]) rest

def rootFor (roots : List RootBus) (a : PciAddress) : Option RootBus :=
  roots.find? fun r => r.routes a

def validateRange (root : RootBus) (f : DiscoveredFunction) : Except TopologyError Unit :=
  match f.kind with
  | .endpoint => .ok ()
  | .pciBridge secondary subordinate =>
    if secondary ≤ f.address.bus ∨ subordinate < secondary ∨ secondary < root.startBus ∨
        root.endBus < subordinate then .error .invalidBridgeRange
    else .ok ()

/-- `previous` is the address of the function before, in the sorted list. -/
def validateFunctions (roots : List RootBus) :
    Option PciAddress → List DiscoveredFunction → Except TopologyError Unit
  | _, [] => .ok ()
  | previous, f :: rest =>
    if f.vendorId = 0xffff then .error .absentFunction
    else if previous = some f.address then .error .duplicateAddress
    else
      match rootFor roots f.address with
      | none => .error .missingRoot
      | some root => do
        validateRange root f
        validateFunctions roots (some f.address) rest

/-- Neither range may cross the other, and they may not be equal. -/
def checkIntervals (left right : Fin 256 × Fin 256) : Except TopologyError Unit :=
  let overlaps := left.1 ≤ right.2 ∧ right.1 ≤ left.2
  let leftContains := left.1 ≤ right.1 ∧ right.2 ≤ left.2
  let rightContains := right.1 ≤ left.1 ∧ left.2 ≤ right.2
  if overlaps ∧ ¬ (leftContains ∨ rightContains) then .error .crossingBridgeRanges
  else if left.1 = right.1 ∧ left.2 = right.2 then .error .ambiguousParent
  else .ok ()

def checkBridge (left : DiscoveredFunction) (range : Fin 256 × Fin 256) :
    List DiscoveredFunction → Except TopologyError Unit
  | [] => .ok ()
  | right :: rest =>
    if left.address.segment ≠ right.address.segment then checkBridge left range rest
    else
      match bridgeRange right with
      | none => checkBridge left range rest
      | some other => do
        checkIntervals range other
        checkBridge left range rest

def validateBridgeIntervals : List DiscoveredFunction → Except TopologyError Unit
  | [] => .ok ()
  | left :: rest =>
    match bridgeRange left with
    | none => validateBridgeIntervals rest
    | some range => do
      checkBridge left range rest
      validateBridgeIntervals rest

structure Candidate where
  address : PciAddress
  secondary : Fin 256
  subordinate : Fin 256
  deriving DecidableEq

def covering (a : PciAddress) (f : DiscoveredFunction) : Option (Fin 256 × Fin 256) :=
  if f.address.segment = a.segment ∧ f.address.bus < a.bus then
    match bridgeRange f with
    | none => none
    | some (secondary, subordinate) =>
      if a.bus < secondary ∨ subordinate < a.bus then none else some (secondary, subordinate)
  else none

def selectParent (a : PciAddress) :
    Option Candidate → List DiscoveredFunction → Except TopologyError (Option Candidate)
  | selected, [] => .ok selected
  | selected, f :: rest =>
    match covering a f, selected with
    | none, _ => selectParent a selected rest
    | some (secondary, subordinate), none =>
      selectParent a (some ⟨f.address, secondary, subordinate⟩) rest
    | some (secondary, subordinate), some c =>
      if c.secondary < secondary ∨ (secondary = c.secondary ∧ subordinate < c.subordinate) then
        selectParent a (some ⟨f.address, secondary, subordinate⟩) rest
      else if secondary = c.secondary ∧ subordinate = c.subordinate then .error .ambiguousParent
      else selectParent a (some c) rest

def resolveParent (root : RootBus) (a : PciAddress) (functions : List DiscoveredFunction) :
    Except TopologyError Parent :=
  if a.bus = root.startBus then .ok (.root root.rootId)
  else
    match selectParent a none functions with
    | .error e => .error e
    | .ok none => .error .missingParent
    | .ok (some c) => .ok (.bridge c.address)

def resolveNodes (roots : List RootBus) (functions : List DiscoveredFunction) :
    List DiscoveredFunction → Except TopologyError (List TopologyNode)
  | [] => .ok []
  | f :: rest =>
    match rootFor roots f.address with
    | none => .error .missingRoot
    | some root => do
      let parent ← resolveParent root f.address functions
      let nodes ← resolveNodes roots functions rest
      pure (⟨f, parent, 0⟩ :: nodes)

/-- Binary search by address: the nodes are sorted and no two share an address, so it finds the
only node at the address. -/
def findNode (nodes : List TopologyNode) (a : PciAddress) : Option TopologyNode :=
  nodes.find? fun n => n.function.address = a

/-- The loop up the parents; `left` bridges may still be passed. -/
def parentDepth (nodes : List TopologyNode) :
    Nat → Nat → Parent → Except TopologyError Nat
  | _, depth, .root _ => .ok depth
  | 0, _, .bridge _ => .error .depthExceeded
  | left + 1, depth, .bridge a =>
    match findNode nodes a with
    | none => .error .missingParent
    | some n => parentDepth nodes left (depth + 1) n.parent

/-- Depths are written to a node at a time; the loop reads only parents, which do not change. -/
def assignDepths (nodes : List TopologyNode) :
    List TopologyNode → Except TopologyError (List TopologyNode)
  | [] => .ok []
  | n :: rest => do
    let depth ← parentDepth nodes maxTopologyDepth 0 n.parent
    let done ← assignDepths nodes rest
    pure ({ n with depth := depth } :: done)

def sortRoots (roots : List RootBus) : List RootBus := roots.insertionSort fun a b => a.key ≤ b.key

def sortFunctions (functions : List DiscoveredFunction) : List DiscoveredFunction :=
  functions.insertionSort fun a b => a.address.key ≤ b.address.key

def buildSnapshot (generation : Nat) (roots : List RootBus)
    (functions : List DiscoveredFunction) : Except TopologyError TopologySnapshot :=
  if generation = 0 then .error .invalidGeneration
  else if maxTopologyRoots < roots.length ∨ maxTopologyFunctions < functions.length then
    .error .tooManyEntries
  else do
    validateRoots [] (sortRoots roots)
    validateFunctions (sortRoots roots) none (sortFunctions functions)
    validateBridgeIntervals (sortFunctions functions)
    let nodes ← resolveNodes (sortRoots roots) (sortFunctions functions) (sortFunctions functions)
    let done ← assignDepths nodes nodes
    pure ⟨generation, sortRoots roots, done⟩

end HuesOS.Pci
