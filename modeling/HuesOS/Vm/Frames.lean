import HuesOS.Vm.Anchors
import HuesOS.Vm.Permissions

/-! Mapped frames stay with their objects. The exception is a region that is collected while its
pages stay mapped. -/

namespace HuesOS.Vm
open List Function Option AddressSpace VmarMapping
variable {s t : Kernel} {e : Event} {k r : Koid} {v : Vmar} {p : Process} {runtime : Runtime}
  {m : VmarMapping}

/-- A region of the process has a record for the page, and the object behind it has the frame. -/
def Kernel.Records (s : Kernel) (k r : Koid) (page frame : Nat) : Prop :=
  ∃ v m, s.vmars r = some v ∧ v.process = k ∧ m ∈ v.mappings ∧ m.Covers page ∧
    s.Backs m.vmo (m.index page) frame

/-- Every mapped page shows a frame that the address space allocated itself, or is on record. -/
structure Recorded (s : Kernel) : Prop where
  own : ∀ k runtime page entry, s.runtime k = some runtime →
    runtime.space.pages page = some entry → runtime.space.origin page = none →
    entry.frame ∈ runtime.owned
  mapped : ∀ k runtime page entry o, s.runtime k = some runtime →
    runtime.space.pages page = some entry → runtime.space.origin page = some o →
    s.Records k o.holder page entry.frame

theorem Kernel.Backs.same {o : Koid} {idx frame : Nat} (backs : s.Backs o idx frame)
    (vmos : t.vmos o = s.vmos o) (resources : t.resources o = s.resources o) :
    t.Backs o idx frame := by
  rw [Kernel.Backs, vmos, resources]
  exact backs

/-- Bookkeeping that takes no region with mappings away from its page tables keeps pages on
record. -/
theorem Recorded.tidy {pending : List Koid} (recorded : Recorded s) (books : Books s pending)
    (tidy : Tidy s t) (kept : ∀ r v, s.vmars r = some v → v.mappings ≠ [] →
      t.runtime v.process ≠ none → t.vmars r ≠ none) : Recorded t := by
  have pre : ∀ k runtime, t.runtime k = some runtime → s.runtime k = some runtime := by
    intro k runtime found
    rcases tidy.runtimes k with eq | gone
    · rw [← eq]
      exact found
    rw [gone] at found
    cases found
  refine ⟨fun k runtime page entry found => recorded.own k runtime page entry (pre k runtime found),
    fun k runtime page entry o found shown origin => ?_⟩
  obtain ⟨v, m, region, rfl, mem, covers, backs⟩ :=
    recorded.mapped k runtime page entry o (pre k runtime found) shown origin
  have stays := kept o.holder v region (ne_nil_of_mem mem) (by rw [found]; nofun)
  obtain ⟨w, region'⟩ := ne_none_iff_exists'.mp stays
  obtain ⟨below, holds⟩ := books.regions o.holder v region
  rcases tidy.regions o.holder w region' with ⟨fresh, -⟩ | ⟨u, old, process, perm⟩
  · exact absurd below (not_lt.mpr fresh)
  cases region.symm.trans old
  have member' : m ∈ w.mappings := perm.mem_iff.mpr mem
  have known : m.vmo < s.nextKoid := holds m.vmo (mem_append_left _ (mem_map_of_mem mem))
  rcases tidy.objects m.vmo known with eq | unmapped
  · exact ⟨w, m, region', process, member', covers, Kernel.Backs.same backs eq.1 eq.2⟩
  · exact absurd rfl (unmapped o.holder w region' m member')

theorem runtime_eq_some (found : s.processes k = some p) (run : p.runtime = some runtime) :
    s.runtime k = some runtime := by
  rw [Kernel.runtime, found]
  exact run

theorem holds_withMappings (v : Vmar) (mappings : List VmarMapping) :
    (v.withMappings mappings).holds = mappings.map vmo ++ v.parent.toList := rfl

section Install
variable {frameAt : Nat → Option Nat} {flags : PageTableFlags} {origin : Origin}
  {space : AddressSpace} {u : Kernel}

namespace Installed
variable (installed : Installed frameAt flags r v p runtime m s u space)
include installed

theorem books
    (books : Books s []) (region : s.vmars r = some v) (found : s.processes v.process = some p)
    (run : p.runtime = some runtime) :
    Books (noteOrigin v.process m.base m.size origin u) [] := by
  obtain ⟨-, -, s', taken, rfl⟩ := installed
  have taking : Move s [] [] s' [] [m.vmo] := .take taken
  have booked := (taking.books books).1
  obtain ⟨accounts, rfl⟩ := acquireKernelRef_some taken
  rw [noteOrigin_setSpace]
  have perm : (slotHolds (some (v.withMappings (v.mappings ++ [m]))) ++ []).Perm (v.holds ++ [m.vmo]) := by
    refine perm_iff_count.mpr fun o => ?_
    rw [slotHolds, holds_withMappings, Vmar.holds]
    simp only [map_append, map_cons, map_nil, count_append, append_nil]
    omega
  exact (booked.setSlot region perm).setSpace found run _

theorem runtime_eq
    (l : Koid) : (noteOrigin v.process m.base m.size origin u).runtime l =
      if l = v.process then some { runtime with
        space := space.noted (m.base / pageSize) (m.size / pageSize) origin } else s.runtime l := by
  obtain ⟨-, -, s', taken, rfl⟩ := installed
  obtain ⟨accounts, rfl⟩ := acquireKernelRef_some taken
  rw [noteOrigin_setSpace]
  exact runtime_setSpace _ _ _ _ _ l

theorem rest
    (origin : Origin) :
    let t := noteOrigin v.process m.base m.size origin u
    t.vmars = update s.vmars r (some (v.withMappings (v.mappings ++ [m]))) ∧
      t.vmos = s.vmos ∧ t.resources = s.resources := by
  obtain ⟨-, -, s', taken, rfl⟩ := installed
  obtain ⟨accounts, rfl⟩ := acquireKernelRef_some taken
  rw [noteOrigin_setSpace]
  exact ⟨rfl, rfl, rfl⟩

end Installed

theorem Recorded.install {source : Source} (recorded : Recorded s)
    (installed : Installed frameAt flags r v p runtime m s u space) (region : s.vmars r = some v)
    (found : s.processes v.process = some p) (run : p.runtime = some runtime)
    (aligned : Aligned m.base m.size)
    (backed : ∀ page frame, m.Covers page → frameAt (page - m.base / pageSize) = some frame →
      s.Backs m.vmo (m.index page) frame) :
    Recorded (noteOrigin v.process m.base m.size ⟨r, source⟩ u) := by
  have pre := runtime_eq_some found run
  obtain ⟨vmars, vmos, resources⟩ := installed.rest ⟨r, source⟩
  -- what was on record still is
  have kept : ∀ {l h page frame}, s.Records l h page frame →
      (noteOrigin v.process m.base m.size ⟨r, source⟩ u).Records l h page frame := by
    rintro l h page frame ⟨w, m₁, there, process, mem, covers, backs⟩
    have backs := Kernel.Backs.same backs (congrFun vmos _) (congrFun resources _)
    by_cases at_ : h = r
    · subst at_
      cases region.symm.trans there
      refine ⟨v.withMappings (v.mappings ++ [m]), m₁, ?_, process, mem_append_left _ mem, covers, backs⟩
      rw [vmars, update_self]
    refine ⟨w, m₁, ?_, process, mem, covers, backs⟩
    rw [vmars, update_of_ne at_]
    exact there
  refine ⟨fun l rt page entry here shown unknown => ?_, fun l rt page entry o here shown known => ?_⟩
  · rw [installed.runtime_eq] at here
    split at here
    · cases here
      have away : ¬ (m.base / pageSize ≤ page ∧ page < m.base / pageSize + m.size / pageSize) := by
        intro inside
        simp [noted, inside] at unknown
      simp only [noted, if_neg away, installed.mapped.origin] at shown unknown
      rw [installed.mapped.other page away] at shown
      exact recorded.own _ runtime page entry pre shown unknown
    · exact recorded.own l rt page entry here shown unknown
  rw [installed.runtime_eq] at here
  split at here
  next own =>
    cases here
    by_cases inside : m.base / pageSize ≤ page ∧ page < m.base / pageSize + m.size / pageSize
    · obtain ⟨frame, at_, fresh⟩ := installed.mapped.shown page inside.1 inside.2
      have covers := aligned.covers_iff.mpr inside
      simp only [noted, if_pos inside] at shown known
      cases known
      cases fresh.symm.trans shown
      refine ⟨v.withMappings (v.mappings ++ [m]), m, ?_, own.symm,
        mem_append_right _ (mem_singleton_self m), covers,
        Kernel.Backs.same (backed page frame covers at_) (congrFun vmos _) (congrFun resources _)⟩
      rw [vmars, update_self]
    simp only [noted, if_neg inside, installed.mapped.origin] at shown known
    rw [installed.mapped.other page inside] at shown
    rw [own]
    exact kept (recorded.mapped _ runtime page entry o pre shown known)
  · exact kept (recorded.mapped l rt page entry o here shown known)

end Install

/-- The books are right, books and tables agree, and mapped pages are on record. -/
structure Sound (s : Kernel) : Prop where
  layout : Layout s
  books : Books s []
  recorded : Recorded s

/-- The event takes the last counted reference from a region that maps something, while the page
tables of its process stay. -/
def Orphans (e : Event) (s : Kernel) : Prop :=
  ∃ r v, s.vmars r = some v ∧ v.mappings ≠ [] ∧ s.space v.process ≠ none ∧ e ≠ .teardown v.process ∧
    ¬ Anchored s (e.debts s) v.process r

/-- Every mapped page shows a frame that belongs to a living object and is not free. -/
def FramesHeld (s : Kernel) : Prop :=
  ∀ k a page entry, s.space k = some a → a.pages page = some entry →
    entry.frame ∉ s.free ∧ ∃ x, s.Owns x entry.frame

/-- Before anything is mapped: the page tables show only frames that the address space allocated
itself, every frame has one owner, and the counts cover the references. -/
structure Booted (s : Kernel) : Prop where
  unmapped : NothingMapped s
  books : Books s []
  own : ∀ k runtime page entry, s.runtime k = some runtime →
    runtime.space.pages page = some entry → entry.frame ∈ runtime.owned

theorem space_eq_runtime (s : Kernel) (k : Koid) : s.space k = (s.runtime k).map Runtime.space := rfl

theorem Booted.sound (booted : Booted s) : Sound s := by
  refine ⟨booted.unmapped.layout, booted.books, fun k runtime page entry found shown _ =>
    booted.own k runtime page entry found shown, fun k runtime page entry o found _ known => ?_⟩
  have space : s.space k = some runtime.space := by rw [space_eq_runtime, found]; rfl
  rw [booted.unmapped.spaces k _ space page] at known
  cases known

theorem Sound.framesHeld (sound : Sound s) : FramesHeld s := by
  intro k a page entry here shown
  rw [space_eq_runtime, map_eq_some_iff] at here
  obtain ⟨runtime, found, rfl⟩ := here
  have owner : ∃ x, s.Owns x entry.frame := by
    cases known : runtime.space.origin page with
    | none => exact ⟨.process k, runtime, found, sound.recorded.own k _ page entry found shown known⟩
    | some o =>
      obtain ⟨v, m, -, -, -, -, ⟨w, memory, at_⟩ | ⟨res, device, inside, eq⟩⟩ :=
        sound.recorded.mapped k runtime page entry o found shown known
      · exact ⟨.vmo m.vmo, w, memory, mem_of_getElem? at_⟩
      · exact ⟨.device, m.vmo, res, m.index page, device, inside, eq⟩
  obtain ⟨x, owns⟩ := owner
  exact ⟨sound.books.frames.owned x _ owns, x, owns⟩

theorem teardown_run (s : Kernel) (k : Koid) :
    ((Event.teardown k).run s).2 = s ∨ ((Event.teardown k).run s).2.runtime k = none := by
  dsimp only [Event.run]
  split
  · exact .inl rfl
  next p found =>
  split
  · exact .inr (teardownProcess_runtime found)
  · exact .inl rfl

theorem Sound.step (sound : Sound s) (kept : ¬ Orphans e s) (step : EventStep e s t) : Sound t := by
  have res := event_outcome sound.layout step
  have layout := res.layout sound.layout
  cases res with
  | moved move =>
    obtain ⟨books, tidy⟩ := move.books sound.books
    refine ⟨layout, books, sound.recorded.tidy sound.books tidy fun r v region maps alive => ?_⟩
    by_cases own : e = .teardown v.process
    · rw [step, own] at alive ⊢
      rcases teardown_run s v.process with same | gone
      · rw [same, region]
        nofun
      · exact absurd gone alive
    have tables : s.space v.process ≠ none := by
      rcases tidy.runtimes v.process with eq | gone
      · rw [eq] at alive
        rw [space_eq_runtime]
        simpa using alive
      · exact absurd gone alive
    have anchored : Anchored s (e.debts s) v.process r := by
      by_contra lost
      exact kept ⟨r, v, region, maps, tables, own, lost⟩
    obtain ⟨w, after, -⟩ := (move.anchored sound.books alive anchored).region
    rw [after]
    nofun
  | mapped region found run aligned installed allowed backed after =>
    subst after
    exact ⟨layout, installed.books sound.books region found run,
      sound.recorded.install installed region found run aligned backed⟩

/-- As long as no event takes the last reference from a region with pages, every mapped page shows a
frame that belongs to a living object and is not free. -/
theorem mapped_frames_held {s₀ : Kernel} (booted : Booted s₀)
    (run : Runs EventStep (fun e s => ¬ Orphans e s) s₀ s) : FramesHeld s :=
  (run.invariant booted.sound fun sound kept step => sound.step kept step).framesHeld

theorem driverKernel_booted : Booted driverKernel := by
  have alone : ∀ r v, driverKernel.vmars r = some v → v.holds = [] ∧ r < 6 := by
    intro r v found
    simp only [driverKernel] at found
    split at found
    · cases found
      exact ⟨rfl, by decide⟩
    · cases found
      exact ⟨rfl, by decide⟩
    · cases found
  have spaces : ∀ k runtime, driverKernel.runtime k = some runtime →
      runtime.owned = [] ∧ ∀ page, runtime.space.pages page = none := by
    intro k runtime found
    simp only [Kernel.runtime, driverKernel] at found
    split at found <;> cases found
    · exact ⟨rfl, fun _ => rfl⟩
    · exact ⟨rfl, fun _ => rfl⟩
  have owners : ∀ x f, driverKernel.Owns x f → x = .device ∧ f = 0xfeb00 := by
    intro x f owns
    cases x with
    | vmo o =>
      obtain ⟨w, found, -⟩ := owns
      cases found
    | process k =>
      obtain ⟨runtime, found, mem⟩ := owns
      rw [(spaces k runtime found).1] at mem
      cases mem
    | device =>
      obtain ⟨o, res, index, found, inside, rfl⟩ := owns
      simp only [driverKernel] at found
      split at found
      · cases found
        dsimp only [pageSize] at inside ⊢
        exact ⟨rfl, by omega⟩
      · cases found
  refine ⟨driverKernel_nothingMapped, ⟨fun o account here => ?_, fun o account here => ?_,
    fun r v found => ?_, by simp, ⟨fun x f owns => ?_, fun x y f one two => ?_⟩⟩,
    fun k runtime page entry found shown => ?_⟩
  · rw [held_eq_zero fun r v found mem => ?_]
    · exact Nat.zero_le _
    rw [(alone r v found).1] at mem
    cases mem
  · simp only [driverKernel] at here
    split at here
    next listed =>
      show o < 6
      revert o
      decide
    · cases here
  · obtain ⟨holds, below⟩ := alone r v found
    exact ⟨below, by simp [holds]⟩
  · rw [(owners x f owns).2]
    decide
  · rw [(owners x f one).1, (owners y f two).1]
  rw [(spaces k runtime found).2 page] at shown
  cases shown

/-- The parent also maps what it lent, and the driver closes its handle to it. -/
def shareSteps : List Event :=
  lendSteps ++
    [.syscall 1 (.vmarMap ⟨1, 2, 0, 0x10000, 0x1000, .read ||| .write ||| .user ||| .specific⟩ fun _ => true),
      .syscall 2 (.handleClose 3)]

theorem syscall_keeps_root (caller : Koid) (call : Syscall) (s : Kernel) (r : Koid) :
    .root r ∉ (Event.syscall caller call).debts s := by
  cases call with
  | handleClose handle =>
    dsimp only [Event.debts]
    split
    · exact not_mem_nil
    · split <;> simp
  | _ => exact not_mem_nil

theorem not_orphans_of_roots {caller : Koid} {call : Syscall}
    (rooted : ∀ r v, s.vmars r = some v → v.mappings ≠ [] → s.holdsRoot r v = true) :
    ¬ Orphans (.syscall caller call) s := by
  rintro ⟨r, v, region, maps, -, -, lost⟩
  exact lost (.root region rfl (rooted r v region maps) (syscall_keeps_root caller call s r))

theorem driverKernel_regions {v w₃ w₄ : Vmar}
    (found : update (update driverKernel.vmars 4 (some w₄)) 3 (some w₃) r = some v) :
    r = 3 ∧ w₃ = v ∨ r = 4 ∧ w₄ = v := by
  rw [update_apply, update_apply] at found
  split at found
  next here => exact .inl ⟨here, Option.some.inj found⟩
  split at found
  next here => exact .inr ⟨here, Option.some.inj found⟩
  simp only [driverKernel] at found
  cases found

theorem shareSteps_runs : Runs EventStep (fun e s => ¬ Orphans e s) driverKernel
    (runEvents shareSteps driverKernel) := by
  have empty : ∀ r v, driverKernel.vmars r = some v → v.mappings = [] := fun r v found =>
    (driverKernel_nothingMapped.vmars r v found).1
  have bare : ∀ e s, s.vmars = driverKernel.vmars → ¬ Orphans e s := by
    rintro e s vmars ⟨r, v, region, maps, -⟩
    exact maps (empty r v (vmars ▸ region))
  refine .next (.next (.next (.next (.next (.next (.next .start ?_ rfl) ?_ rfl) ?_ rfl) ?_ rfl) ?_ rfl)
    ?_ rfl) ?_ rfl
  -- nothing is mapped before the driver maps, and then both regions are root regions
  iterate 5 exact bare _ _ rfl
  · refine not_orphans_of_roots fun r v found maps => ?_
    by_cases here : r = 4
    · subst here
      cases found
      rfl
    · exact absurd (empty r v ((update_of_ne here ..).symm.trans found)) maps
  · refine not_orphans_of_roots fun r v found _ => ?_
    rcases driverKernel_regions found with ⟨rfl, rfl⟩ | ⟨rfl, rfl⟩
    · rfl
    · rfl

theorem mapped_frames_held_shared :
    let s := runEvents shareSteps driverKernel
    s.entryAt 2 16 = some (⟨7, true, false, true, false, true⟩, ⟨4, .vmo lentRights⟩) ∧
      (s.accounts 6).isSome = true ∧ FramesHeld s :=
  ⟨rfl, rfl, mapped_frames_held driverKernel_booted shareSteps_runs⟩

/-- The driver makes a memory object and a region, maps the one in the other, and closes its
handles to both. -/
def orphanSteps : List Event :=
  [.syscall 2 (.vmoCreate 0x1000 false [7] true),
    .syscall 2 (.vmarCreateChild 1 0x40000 0x1000 true),
    .syscall 2 (.vmarMap ⟨4, 3, 0, 0x40000, 0x1000, .read ||| .user ||| .specific⟩ fun _ => true),
    .syscall 2 (.handleClose 3),
    .syscall 2 (.handleClose 4)]

/-- The region is collected and gives its reference back; the memory object follows, its frame is
free, and the page still shows it. -/
theorem orphaned_page_shows_free_frame :
    Booted driverKernel ∧
      (runEvents orphanSteps driverKernel).entryAt 2 64 =
        some (⟨7, true, false, true, false, true⟩, ⟨7, .vmo .defaultVmo⟩) ∧
      (runEvents orphanSteps driverKernel).vmos 6 = none ∧
      7 ∈ (runEvents orphanSteps driverKernel).free :=
  ⟨driverKernel_booted, rfl, rfl, by decide⟩

/-- The process maps the memory object somewhere. -/
def Kernel.Maps (s : Kernel) (k o : Koid) : Prop :=
  ∃ r v m, s.vmars r = some v ∧ v.process = k ∧ m ∈ v.mappings ∧ m.vmo = o

/-- Two processes show the same frame only if it is a device's, or if both have mapped the living
memory object that owns it. -/
def Isolated (s : Kernel) : Prop :=
  ∀ k l a b page page' entry entry', k ≠ l → s.space k = some a → s.space l = some b →
    a.pages page = some entry → b.pages page' = some entry' → entry.frame = entry'.frame →
    s.Owns .device entry.frame ∨ ∃ o, s.Owns (.vmo o) entry.frame ∧ s.Maps k o ∧ s.Maps l o

theorem Sound.owner (sound : Sound s) {a : AddressSpace} {page : Nat} {entry : PageEntry}
    (here : s.space k = some a) (shown : a.pages page = some entry) :
    s.Owns (.process k) entry.frame ∨ s.Owns .device entry.frame ∨
      ∃ o, s.Owns (.vmo o) entry.frame ∧ s.Maps k o := by
  rw [space_eq_runtime, map_eq_some_iff] at here
  obtain ⟨runtime, found, rfl⟩ := here
  cases known : runtime.space.origin page with
  | none => exact .inl ⟨runtime, found, sound.recorded.own k _ page entry found shown known⟩
  | some o =>
    obtain ⟨v, m, region, process, mem, -, ⟨w, memory, at_⟩ | ⟨res, device, inside, eq⟩⟩ :=
      sound.recorded.mapped k runtime page entry o found shown known
    · exact .inr (.inr ⟨m.vmo, ⟨w, memory, mem_of_getElem? at_⟩, o.holder, v, m, region, process, mem, rfl⟩)
    · exact .inr (.inl ⟨m.vmo, res, m.index page, device, inside, eq⟩)

end HuesOS.Vm
