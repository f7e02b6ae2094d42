import HuesOS.Lib.Bytes
import Mathlib

namespace HuesOS.Boot
open List Bytes

/-- A borrowed byte range; its length is a machine word. -/
abbrev Span := { bytes : List UInt8 // bytes.length < 256 ^ 8 }

theorem slice_lt (data : Span) (offset width : Nat) : (slice data.1 offset width).length < 256 ^ 8 :=
  ((take_sublist _ _).trans (drop_sublist _ _)).length_le.trans_lt data.2

-- an end that overflows the word is past the end of the range too
def Span.get? (data : Span) (offset width : Nat) : Option Span :=
  if offset + width ≤ data.1.length then some ⟨slice data.1 offset width, slice_lt data offset width⟩
  else none

inductive ModuleType | kernel | bootfs | cmdline | platform

def ModuleType.id : ModuleType → Nat
  | kernel => 1
  | bootfs => 2
  | cmdline => 3
  | platform => 4

structure DirectoryEntry where
  typeId : Nat
  offset : Nat
  length : Nat

structure HbiImage where
  data : Span
  entries : List DirectoryEntry

inductive HbiError | moduleNotFound | invalidOffset

inductive MeasurementError | hbi | kernelElf | noExecutableSegment

abbrev Measuring := Except MeasurementError

/-- The payload follows an entry header of 24 bytes. -/
def HbiImage.getModule (image : HbiImage) (kind : ModuleType) : Except HbiError Span := do
  let entry ← (image.entries.find? (·.typeId = kind.id)).elim (.error .moduleNotFound) .ok
  (image.data.get? (entry.offset + 24) entry.length).elim (.error .invalidOffset) .ok

def HbiImage.content (image : HbiImage) (kind : ModuleType) : Measuring Span :=
  (image.getModule kind).mapError fun _ => .hbi

def bounded {α : Type} (read : Option α) : Measuring α := read.elim (.error .kernelElf) .ok

def segment (elf : Span) (base : Nat) : Measuring (Option Span) := do
  let ty ← bounded (field? elf.1 base 4)
  let flags ← bounded (field? elf.1 (base + 4) 4)
  if ty ≠ 1 ∨ flags % 2 = 0 then return none
  let offset ← bounded (field? elf.1 (base + 8) 8)
  let size ← bounded (field? elf.1 (base + 32) 8)
  return some (← bounded (elf.get? offset size))

/-- The executable load segments in the order of the program headers. -/
def executableSegments (elf : Span) : Measuring (List Span) := do
  if elf.1.length < 64 ∨ elf.1.take 7 ≠ [0x7f, 0x45, 0x4c, 0x46, 2, 1, 1] then throw .kernelElf
  let phoff ← bounded (field? elf.1 32 8)
  let phentsize ← bounded (field? elf.1 54 2)
  let phnum ← bounded (field? elf.1 56 2)
  if phnum = 0 ∨ phentsize ≠ 56 ∨ phoff + phnum * phentsize > elf.1.length then throw .kernelElf
  let segments ← (range phnum).mapM fun index => segment elf (phoff + index * phentsize)
  let executable := segments.filterMap id
  if executable.isEmpty then throw .noExecutableSegment
  return executable

def ModuleType.label : ModuleType → List UInt8
  | kernel => "kernel.text".toUTF8.data.toList
  | bootfs => "bootfs".toUTF8.data.toList
  | cmdline => "cmdline".toUTF8.data.toList
  | platform => "platform".toUTF8.data.toList

def component (part : ModuleType) (content : Span) : List UInt8 :=
  le 2 part.label.length ++ (part.label ++ (le 8 content.1.length ++ content.1))

/-- The hasher is the byte stream it was fed. -/
def addComponent (part : ModuleType) (hasher : List UInt8) (content : Span) : List UInt8 :=
  hasher ++ component part content

def domain : List UInt8 := "HuesOS-PCR12-v1\x00".toUTF8.data.toList

def hashKernelText (hasher : List UInt8) (elf : Span) : Measuring (List UInt8) := do
  return (← executableSegments elf).foldl (addComponent .kernel) hasher

def pcr12Stream (image : HbiImage) : Measuring (List UInt8) := do
  let hasher ← hashKernelText domain (← image.content .kernel)
  let hasher := addComponent .bootfs hasher (← image.content .bootfs)
  let hasher := addComponent .cmdline hasher (← image.content .cmdline)
  return addComponent .platform hasher (← image.content .platform)

structure Measured where
  text : List Span
  bootfs : Span
  cmdline : Span
  platform : Span

def measured (image : HbiImage) : Measuring Measured := do
  let text ← executableSegments (← image.content .kernel)
  return ⟨text, ← image.content .bootfs, ← image.content .cmdline, ← image.content .platform⟩

def Measured.parts (m : Measured) : List (ModuleType × Span) :=
  m.text.map (.kernel, ·) ++ [(.bootfs, m.bootfs), (.cmdline, m.cmdline), (.platform, m.platform)]

def stream (parts : List (ModuleType × Span)) : List UInt8 :=
  parts.flatMap fun part => component part.1 part.2

theorem foldl_addComponent (hasher : List UInt8) (part : ModuleType) (contents : List Span) :
    contents.foldl (addComponent part) hasher = hasher ++ stream (contents.map (part, ·)) := by
  induction contents generalizing hasher with
  | nil => simp [stream]
  | cons content rest ih => simp [ih, addComponent, stream]

theorem pcr12Stream_eq (image : HbiImage) :
    pcr12Stream image = (measured image).map (domain ++ stream ·.parts) := by
  simp only [pcr12Stream, measured, hashKernelText]
  cases image.content .kernel with
  | error e => rfl
  | ok kernel =>
  cases segments : executableSegments kernel with
  | error e => simp [segments, Except.map, bind, Except.bind]
  | ok text =>
    simp only [segments, bind, Except.bind, pure, Except.pure]
    cases image.content .bootfs <;> cases image.content .cmdline <;> cases image.content .platform <;>
      simp [Except.map, foldl_addComponent, addComponent, Measured.parts, stream]

variable {part part' : ModuleType} {content content' : Span} {rest rest' : List UInt8}

theorem le_append_inj {width n n' : Nat} (lt : n < 256 ^ width)
    (lt' : n' < 256 ^ width) (eq : le width n ++ rest = le width n' ++ rest') :
    n = n' ∧ rest = rest' := by
  obtain ⟨fields, rests⟩ := append_inj eq (by simp)
  have numbers := congrArg nat fields
  rw [nat_le_of_lt lt, nat_le_of_lt lt'] at numbers
  exact ⟨numbers, rests⟩

theorem label_lt : part.label.length < 256 ^ 2 := by cases part <;> decide

/-- A component tells where it ends, so what follows it cannot be taken for a part of it. -/
theorem component_append_inj
    (eq : component part content ++ rest = component part' content' ++ rest') :
    content = content' ∧ rest = rest' := by
  simp only [component, append_assoc] at eq
  obtain ⟨labels, eq⟩ := le_append_inj label_lt label_lt eq
  obtain ⟨lengths, eq⟩ := le_append_inj content.2 content'.2 (append_inj eq labels).2
  obtain ⟨contents, rests⟩ := append_inj eq lengths
  exact ⟨Subtype.ext contents, rests⟩

theorem map_of_stream {a b : List (ModuleType × Span)} (eq : stream a = stream b) :
    a.map Prod.snd = b.map Prod.snd := by
  induction a generalizing b with
  | nil =>
    cases b with
    | nil => rfl
    | cons c rest => simp [stream, component, le] at eq
  | cons c rest ih =>
    cases b with
    | nil => simp [stream, component, le] at eq
    | cons c' rest' =>
      obtain ⟨contents, rests⟩ := component_append_inj eq
      rw [map_cons, map_cons, contents, ih rests]

theorem stream_injective : Function.Injective fun m : Measured => domain ++ stream m.parts := by
  intro m m' eq
  have contents := map_of_stream (append_cancel_left eq)
  simp only [Measured.parts, map_append, map_map] at contents
  -- the other modules are the last three components
  obtain ⟨texts, others⟩ := append_inj' contents rfl
  simp only [Function.comp_def, map_id'] at texts
  simp only [map_cons, map_nil, cons.injEq, and_true] at others
  cases m
  cases m'
  simp_all

/-- Two images feed the hash the same bytes only if they have the same executable segments, in
order, and the same other modules. -/
theorem pcr12Stream_eq_iff (a b : HbiImage) :
    pcr12Stream a = pcr12Stream b ↔ measured a = measured b := by
  rw [pcr12Stream_eq, pcr12Stream_eq]
  cases measured a <;> cases measured b <;> simp [Except.map, stream_injective.eq_iff]

end HuesOS.Boot
