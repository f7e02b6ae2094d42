import HuesOS.Lib.Runs
import HuesOS.Vm.Events

/-! Whether a mapping stays within what it was made for. -/

namespace HuesOS.Vm
open AddressSpace
variable {s t : Kernel} {e : Event}

/-- Every mapped page whose origin is known has flags that its origin allows. -/
def Keeps (Good : Source → PageTableFlags → Prop) (s : Kernel) : Prop :=
  ∀ k a page entry o, s.space k = some a → a.pages page = some entry → a.origin page = some o →
    Good o.source entry.flags

structure NothingMapped (s : Kernel) : Prop where
  vmars : ∀ r v, s.vmars r = some v → v.mappings = [] ∧ v.WellFormed
  spaces : ∀ k a, s.space k = some a → ∀ page, a.origin page = none

theorem NothingMapped.layout (start : NothingMapped s) : Layout s := by
  refine ⟨fun r v found => (start.vmars r v found).2, fun r v a found _ m mem => ?_⟩
  rw [(start.vmars r v found).1] at mem
  cases mem

theorem NothingMapped.keeps {Good : Source → PageTableFlags → Prop} (start : NothingMapped s) :
    Keeps Good s := by
  intro k a page entry o here _ origin
  rw [start.spaces k a here page] at origin
  cases origin

section Steps
variable {Good : Source → PageTableFlags → Prop}
  (allowed : ∀ source flags, source.Allows flags → Good source flags)
include allowed

theorem Outcome.keeps {due : List Debt} (res : Outcome due s t) (kept : Keeps Good s) : Keeps Good t := by
  intro k a page entry o here shown origin
  cases res with
  | moved move =>
    rcases move.quiet.space k with eq | gone
    · exact kept k a page entry o (eq ▸ here) shown origin
    · simp [gone] at here
  | @mapped r v p runtime m frameAt flags source space u region found run aligned installed
      permits backed after =>
      rw [after, installed.space k] at here
      split at here
      · cases here
        by_cases inside : m.base / pageSize ≤ page ∧ page < m.base / pageSize + m.size / pageSize
        · obtain ⟨frame, -, fresh⟩ := installed.mapped.shown page inside.1 inside.2
          simp only [noted, if_pos inside] at origin shown
          cases origin
          cases fresh.symm.trans shown
          exact allowed _ _ permits
        simp only [noted, if_neg inside, installed.mapped.origin] at origin shown
        rw [installed.mapped.other page inside] at shown
        exact kept _ _ page entry o (space_eq_some found run) shown origin
      · exact kept k a page entry o here shown origin

theorem keeps_of_runs {s₀ : Kernel} (start : NothingMapped s₀)
    (run : Runs EventStep (fun _ _ => True) s₀ s) : Keeps Good s := by
  refine (run.invariant (P := fun s => Layout s ∧ Keeps Good s) ⟨start.layout, start.keeps⟩ ?_).2
  rintro e s t ⟨layout, kept⟩ - step
  have res := event_outcome layout step
  exact ⟨res.layout layout, res.keeps allowed kept⟩

end Steps

def runEvents (events : List Event) (s : Kernel) : Kernel := events.foldl (fun s e => (e.run s).2) s

theorem runs_runEvents (events : List Event) (s : Kernel) :
    Runs EventStep (fun _ _ => True) s (runEvents events s) := by
  induction events generalizing s with
  | nil => exact .start
  | cons e rest ih => exact (Runs.one trivial rfl).trans (ih _)

def rootRegion (koid process : Koid) : Vmar where
  koid := koid
  process := process
  parent := none
  parent_lt := nofun
  base := 0x10000
  size := 0x100000
  mappings := []
  children := []

def newProcess (rootVmar : Koid) (handles : HandleTable) : Process where
  handles := handles
  started := true
  exited := false
  indexed := true
  runtime := some ⟨rootVmar, ⟨fun _ => none, fun _ => none⟩, []⟩

/-- A parent, and a driver that holds its root region and the registers of a device. -/
def driverKernel : Kernel where
  accounts k := if k ∈ [1, 2, 3, 4, 5] then some ⟨1, 0⟩ else none
  vmos _ := none
  vmars
    | 3 => some (rootRegion 3 1)
    | 4 => some (rootRegion 4 2)
    | _ => none
  resources
    | 5 => some ⟨.mmio, 0xfeb00000, 0x1000⟩
    | _ => none
  processes
    | 1 => some (newProcess 3 [none, some ⟨3, .read ||| .write⟩])
    | 2 => some (newProcess 4 [none,
        some ⟨4, .read ||| .write ||| .duplicate ||| .transfer ||| .setProperty⟩,
        some ⟨5, .read ||| .write⟩])
    | _ => none
  inFlight := []
  free := [7, 8, 9]
  nextKoid := 6

theorem driverKernel_nothingMapped : NothingMapped driverKernel := by
  have empty : ∀ koid process, (rootRegion koid process).mappings = [] ∧
      (rootRegion koid process).WellFormed := by
    intro koid process
    refine ⟨rfl, ?_, nofun, .nil, nofun, nofun⟩
    show 0x10000 + 0x100000 < u64Limit
    decide
  constructor
  · intro r v found
    simp only [driverKernel] at found
    split at found
    · cases found
      exact empty 3 1
    · cases found
      exact empty 4 2
    · cases found
  intro k a here page
  simp only [Kernel.space, driverKernel] at here
  split at here <;> cases here
  · rfl
  · rfl

/-- What the driver gets of a memory object of its parent: it may read it and map it. -/
def lentRights : Rights := .read ||| .map ||| .transfer

/-- The parent makes a memory object and lends it; the driver maps it for reading. -/
def lendSteps : List Event :=
  [.syscall 1 (.vmoCreate 0x1000 false [7] true),
    .syscall 1 (.handleDuplicate 2 lentRights true),
    .syscall 1 (.handleSend 3),
    .syscall 2 (.handleReceive 0),
    .syscall 2 (.vmarMap ⟨1, 3, 0, 0x10000, 0x1000, .read ||| .user ||| .specific⟩ fun _ => true)]

def askWrite : Event :=
  .syscall 2 (.vmarProtect ⟨1, 0x10000, 0x1000, .read ||| .write ||| .user ||| .specific⟩)

def deviceSteps : List Event :=
  [.syscall 2 (.resourceMap ⟨2, 0, 0x20000, 0x1000, .read ||| .write ||| .user ||| .specific⟩
    fun _ => true)]

def askExecute : Event :=
  .syscall 2 (.vmarProtect ⟨1, 0x20000, 0x1000, .read ||| .execute ||| .user ||| .specific⟩)

def Kernel.entryAt (s : Kernel) (k : Koid) (page : Nat) : Option (PageEntry × Origin) :=
  (s.space k).bind fun a => (a.pages page).bind fun entry => (a.origin page).map (entry, ·)

/-- A page of a memory object is writable or executable only if the handle it was mapped through
allows that. -/
def Source.WithinRights (source : Source) (flags : PageTableFlags) : Prop :=
  ∀ rights, source = .vmo rights →
    (flags.writable = true → rights.Contains .write) ∧ (flags.noExecute = false → rights.Contains .execute)

/-- Device memory is not executable, and device registers are not cached. -/
def Source.DeviceLike (source : Source) (flags : PageTableFlags) : Prop :=
  ∀ kind, source = .resource kind → flags.noExecute = true ∧ (kind = .mmio → flags.noCache = true)

theorem Source.Allows.withinRights (source : Source) (flags : PageTableFlags)
    (allows : source.Allows flags) : source.WithinRights flags := by
  rintro rights rfl
  exact allows

theorem Source.Allows.deviceLike (source : Source) (flags : PageTableFlags)
    (allows : source.Allows flags) : source.DeviceLike flags := by
  rintro kind rfl
  exact allows

/-- Whatever the processes do, every mapping of a memory object stays within the rights of the handle it
was made through: a change of protection that is not refused stops its CPU before a page changes. -/
theorem mapping_within_rights {s₀ : Kernel} (start : NothingMapped s₀)
    (run : Runs EventStep (fun _ _ => True) s₀ s) : Keeps Source.WithinRights s :=
  keeps_of_runs Source.Allows.withinRights start run

/-- The page that was lent for reading is still not writable when the driver has asked for it. -/
theorem mapping_within_rights_lent :
    (askWrite.run (runEvents lendSteps driverKernel)).1 = .error .failStop ∧
      (runEvents (lendSteps ++ [askWrite]) driverKernel).entryAt 2 16 =
        some (⟨7, true, false, true, false, true⟩, ⟨4, .vmo lentRights⟩) ∧
      Keeps Source.WithinRights (runEvents (lendSteps ++ [askWrite]) driverKernel) :=
  ⟨rfl, rfl, mapping_within_rights driverKernel_nothingMapped (runs_runEvents _ _)⟩

/-- Device memory is never executable, and device registers are never cached. -/
theorem device_flags_kept {s₀ : Kernel} (start : NothingMapped s₀)
    (run : Runs EventStep (fun _ _ => True) s₀ s) : Keeps Source.DeviceLike s :=
  keeps_of_runs Source.Allows.deviceLike start run

/-- The driver maps the registers and asks to execute them. -/
theorem device_flags_kept_registers :
    (askExecute.run (runEvents deviceSteps driverKernel)).1 = .error .failStop ∧
      (runEvents (deviceSteps ++ [askExecute]) driverKernel).entryAt 2 32 =
        some (⟨0xfeb00, true, true, true, true, true⟩, ⟨4, .resource .mmio⟩) ∧
      Keeps Source.DeviceLike (runEvents (deviceSteps ++ [askExecute]) driverKernel) :=
  ⟨rfl, rfl, device_flags_kept driverKernel_nothingMapped (runs_runEvents _ _)⟩

end HuesOS.Vm
