import HuesOS.Vm.Books
import HuesOS.Vm.Events

/-! Sequences of transactions that map, unmap and protect. -/

namespace HuesOS.Vm

/-- What a page was mapped to: a page of an object, under a record of a region. -/
structure View where
  region : Koid
  object : Koid
  index : Nat
  deriving DecidableEq

abbrev Views := Koid → Nat → Option View

/-- Write the views of a run of pages of a process. -/
def Views.write (views : Views) (k first count : Nat) (view : Nat → Option View) : Views :=
  fun l page =>
    if l = k ∧ first ≤ page ∧ page < first + count then view page else views l page

/-- The transactions that change what is mapped. Whether there are frames for page tables, and the
rights of the handle that a memory object was mapped with, is part of the transaction. -/
inductive Transaction
  | map (room : Nat → Bool) (region vmo : Koid) (rights : Rights) (args : VmarMapArgs)
  | unmap (region : Koid) (args : VmarOpArgs)
  | protect (region : Koid) (args : VmarOpArgs)
  | mapResource (room : Nat → Bool) (caller resource : Koid) (args : ResourceMapArgs)
  | unmapResource (caller resource : Koid) (args : ResourceUnmapArgs)

namespace Transaction

def run : Transaction → Call
  | .map room region vmo rights args, s =>
    match s.vmars region, s.vmos vmo with
    | some v, some o =>
      noting v.process args.addr args.len ⟨region, .vmo rights⟩ (mapVmoIntoVmar room region v vmo o args) s
    | _, _ => (.error .badHandle, s)
  | .unmap region args, s =>
    match s.vmars region with
    | some v => unmapVmarMapping region v args s
    | none => (.error .badHandle, s)
  | .protect region args, s =>
    match s.vmars region with
    | some v => protectVmarMapping region v args s
    | none => (.error .badHandle, s)
  | .mapResource room caller resource args, s =>
    match s.resources resource, s.runtime caller with
    | some res, some runtime =>
      noting caller args.addr args.len ⟨runtime.rootVmar, .resource res.kind⟩
        (mapResourceIntoCurrent room caller resource res args) s
    | _, _ => (.error .badHandle, s)
  | .unmapResource caller resource args, s =>
    match s.resources resource with
    | some res => unmapResourceFromCurrent caller resource res args s
    | none => (.error .badHandle, s)

/-- The object that a transaction takes further references to, and how many, if nothing refuses it:
one for each piece beyond the first that the mapping falls into. -/
def takes (s : Kernel) : Transaction → Option (Koid × Nat)
  | .unmap region args => (s.vmars region).bind fun v => (unmapAccepts s v args).map fun m =>
      (m.vmo, (splitMappingForUnmap m args.addr args.len).length - 1)
  | .protect region args => (s.vmars region).bind fun v => (protectAccepts s v args).map fun m =>
      (m.vmo, (splitMappingForProtect m args.addr args.len args.flags).length - 1)
  | _ => none

/-- No transaction that nothing refuses cuts a mapping into two or more. -/
def Whole (s : Kernel) (x : Transaction) : Prop := ∀ k n, x.takes s = some (k, n) → n = 0

/-- The process that a region belongs to. -/
def owner (s : Kernel) (region : Koid) : Koid := ((s.vmars region).map Vmar.process).getD 0

/-- What a transaction that succeeds in a state does to the views. -/
def viewed (s : Kernel) (views : Views) : Transaction → Views
  | .map _ region vmo _ args =>
    views.write (owner s region) (args.addr / pageSize) (args.len / pageSize) fun page =>
      some ⟨region, vmo, args.vmoOffset / pageSize + (page - args.addr / pageSize)⟩
  | .unmap region args =>
    views.write (owner s region) (args.addr / pageSize) (args.len / pageSize) fun _ => none
  | .protect _ _ => views
  | .mapResource _ caller resource args =>
    views.write caller (args.addr / pageSize) (args.len / pageSize) fun page =>
      some ⟨((s.runtime caller).map Runtime.rootVmar).getD 0, resource,
        args.resourceOffset / pageSize + (page - args.addr / pageSize)⟩
  | .unmapResource caller _ args =>
    views.write caller (args.addr / pageSize) (args.len / pageSize) fun _ => none

/-- A transaction that fails leaves the views as they are. -/
def viewsAfter (s : Kernel) (views : Views) (x : Transaction) : Except ErrorCode Nat → Views
  | .ok _ => x.viewed s views
  | .error _ => views

def step (state : Kernel × Views) (x : Transaction) : Kernel × Views :=
  ((x.run state.1).2, x.viewsAfter state.1 state.2 (x.run state.1).1)

def runAll (transactions : List Transaction) (state : Kernel × Views) : Kernel × Views :=
  transactions.foldl step state

end Transaction

/-- The objects that the records of a region name. -/
def slotRecords : Option Vmar → List Koid
  | none => []
  | some v => v.mappings.map VmarMapping.vmo

namespace Kernel

/-- How many records name an object. -/
def recordsOf (s : Kernel) (k : Koid) : Nat :=
  ∑ r ∈ Finset.range s.nextKoid, (slotRecords (s.vmars r)).count k

def kernelRefs (s : Kernel) (k : Koid) : Nat := ((s.accounts k).map RefAccount.kernelRefs).getD 0

/-- Memory objects and device resources can be mapped. -/
def Mappable (s : Kernel) (k : Koid) : Prop := s.vmos k ≠ none ∨ s.resources k ≠ none

/-- A region of the process has a record that covers the page and gives it the view. -/
def Gives (s : Kernel) (k page : Nat) (view : View) : Prop :=
  ∃ v m, s.vmars view.region = some v ∧ v.process = k ∧ m ∈ v.mappings ∧ m.Covers page ∧
    m.vmo = view.object ∧ m.index page = view.index

/-- What the page tables of a process say about a page. -/
def pageAt (s : Kernel) (k page : Nat) : Option PageEntry := (s.space k).bind fun a => a.pages page

/-- Regions and objects may be there, but nothing has been mapped yet. -/
structure Fresh (s : Kernel) : Prop where
  regions : ∀ r v, s.vmars r = some v → v.WellFormed ∧ v.mappings = [] ∧ r < s.nextKoid
  kinds : ∀ k, s.Mappable k → s.vmars k = none
  references : ∀ k, s.Mappable k → s.kernelRefs k = 0

end Kernel

/-- The records are accurate: they cover the pages that are still mapped and no others, each page
with the view that it was mapped to; the page tables show the frame of that view, and other pages as
they were; no record is both writable and executable; and the kernel references to each object are
as many as the records that name it. -/
structure Accurate (start : Kernel) (views : Views) (s : Kernel) : Prop where
  recorded : ∀ k page view, views k page = some view ↔ s.Gives k page view
  mapped : ∀ k a, s.space k = some a → ∀ page view, views k page = some view →
    ∃ frame flags, s.Backs view.object view.index frame ∧ a.pages page = some ⟨frame, flags⟩
  others : ∀ k page, views k page = none → s.pageAt k page = start.pageAt k page
  exclusive : ∀ r v, s.vmars r = some v → ∀ m ∈ v.mappings,
    ¬(m.flags.has .write = true ∧ m.flags.has .execute = true)
  references : ∀ k, start.Mappable k → s.kernelRefs k = s.recordsOf k

end HuesOS.Vm
