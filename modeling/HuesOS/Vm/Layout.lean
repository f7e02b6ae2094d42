import HuesOS.Vm.Moves

namespace HuesOS.Vm
open List Function AddressSpace Kernel Vmar
variable {s t u : Kernel} {k r : Koid} {v : Vmar} {p : Process} {a : AddressSpace}

def Kernel.space (s : Kernel) (k : Koid) : Option AddressSpace :=
  ((s.processes k).bind Process.runtime).map Runtime.space

def AddressSpace.Shows (a : AddressSpace) (r : Koid) (page : Nat) : Prop :=
  a.pages page ≠ none ∧ ∃ source, a.origin page = some ⟨r, source⟩

structure Layout (s : Kernel) : Prop where
  wf : ∀ r v, s.vmars r = some v → v.WellFormed
  shown : ∀ r v a, s.vmars r = some v → s.space v.process = some a →
    ∀ m ∈ v.mappings, ∀ page, m.Covers page → a.Shows r page

theorem space_eq_some {runtime : Runtime} (found : s.processes k = some p)
    (run : p.runtime = some runtime) : s.space k = some runtime.space := by
  simp [Kernel.space, found, run]

theorem space_setProcess (s : Kernel) (k : Koid) (p : Process) (l : Koid) :
    (s.setProcess k p).space l = if l = k then p.runtime.map Runtime.space else s.space l := by
  simp only [Kernel.space, setProcess, update_apply]
  split <;> rfl

theorem space_setSpace (s : Kernel) (k : Koid) (p : Process) (runtime : Runtime)
    (a : AddressSpace) (l : Koid) :
    (setSpace s k p runtime a).space l = if l = k then some a else s.space l := by
  rw [setSpace, space_setProcess]
  rfl

theorem space_setProcess_same {q : Process} (found : s.processes k = some p)
    (same : q.runtime = p.runtime) (l : Koid) : (s.setProcess k q).space l = s.space l := by
  rw [space_setProcess]
  split
  next here => rw [here, same, Kernel.space, found]; rfl
  · rfl

/-- Between the states nothing was mapped, unmapped or protected: regions came without mappings
or went, and address spaces went. -/
structure Quiet (s t : Kernel) : Prop where
  vmars : ∀ r v, t.vmars r = some v →
    v.mappings = [] ∧ v.WellFormed ∨
      ∃ u, s.vmars r = some u ∧ v.process = u.process ∧ v.mappings.Perm u.mappings ∧
        (u.WellFormed → v.WellFormed)
  space : ∀ k, t.space k = s.space k ∨ t.space k = none

theorem Quiet.of_eq (vmars : t.vmars = s.vmars) (space : ∀ k, t.space k = s.space k) :
    Quiet s t :=
  ⟨fun _ v found => .inr ⟨v, vmars ▸ found, rfl, .refl _, id⟩, fun k => .inl (space k)⟩

theorem Quiet.refl (s : Kernel) : Quiet s s := .of_eq rfl fun _ => rfl

theorem Quiet.trans (first : Quiet s t) (second : Quiet t u) : Quiet s u := by
  refine ⟨fun r v found => ?_, fun k => ?_⟩
  · rcases second.vmars r v found with fresh | ⟨v₁, found₁, process₁, perm₁, wf₁⟩
    · exact .inl fresh
    rcases first.vmars r v₁ found₁ with ⟨empty, wf⟩ | ⟨v₂, found₂, process₂, perm₂, wf₂⟩
    · rw [empty] at perm₁
      exact .inl ⟨perm₁.eq_nil, wf₁ wf⟩
    · exact .inr ⟨v₂, found₂, process₁.trans process₂, perm₁.trans perm₂, wf₁ ∘ wf₂⟩
  rcases second.space k with eq | gone
  · rw [eq]
    exact first.space k
  · exact .inr gone

theorem Layout.quiet (layout : Layout s) (quiet : Quiet s t) : Layout t := by
  refine ⟨fun r v found => ?_, fun r v a found here m mem page covers => ?_⟩
  · rcases quiet.vmars r v found with ⟨-, wf⟩ | ⟨u, old, -, -, wf⟩
    · exact wf
    · exact wf (layout.wf r u old)
  rcases quiet.vmars r v found with ⟨empty, -⟩ | ⟨u, old, process, perm, -⟩
  · rw [empty] at mem
    cases mem
  rcases quiet.space v.process with eq | gone
  · rw [eq, process] at here
    exact layout.shown r u a old here m (perm.mem_iff.mp mem) page covers
  rw [gone] at here
  cases here

theorem Quiet.setVmar {w : Vmar} (s : Kernel) (k : Koid)
    (change : w.mappings = [] ∧ w.WellFormed ∨ ∃ u, s.vmars k = some u ∧
      w.process = u.process ∧ w.mappings.Perm u.mappings ∧ (u.WellFormed → w.WellFormed)) :
    Quiet s (s.setVmar k w) := by
  refine ⟨fun r w' here => ?_, fun _ => .inl rfl⟩
  by_cases at_ : r = k
  · subst at_
    cases (update_self ..).symm.trans here
    exact change
  · exact .inr ⟨w', (update_of_ne at_ ..).symm.trans here, rfl, .refl _, id⟩

theorem Quiet.eraseVmar (s : Kernel) (k : Koid) : Quiet s (s.eraseVmar k) := by
  refine ⟨fun r w here => ?_, fun _ => .inl rfl⟩
  by_cases at_ : r = k
  · subst at_
    cases (update_self ..).symm.trans here
  · exact .inr ⟨w, (update_of_ne at_ ..).symm.trans here, rfl, .refl _, id⟩

theorem Quiet.strip (s : Kernel) (k : Koid) (p : Process) (frames : List Nat) :
    Quiet s ((s.setProcess k p.stripped).freeFrames frames) := by
  refine ⟨fun _ v found => .inr ⟨v, found, rfl, .refl _, id⟩, fun l => ?_⟩
  have after := space_setProcess s k p.stripped l
  by_cases here : l = k
  · rw [if_pos here] at after
    exact .inr after
  rw [if_neg here] at after
  exact .inl after

theorem Quiet.dropVmo (s : Kernel) (k : Koid) : Quiet s (s.dropVmo k) := by
  rw [Kernel.dropVmo]
  split
  · exact .refl s
  · exact .of_eq rfl fun _ => rfl

theorem Move.quiet {due due' : List Debt} {pending pending' : List Koid}
    (move : Move s due pending t due' pending') : Quiet s t := by
  induction move with
  | refl | leak | keep => exact .refl _
  | trans _ _ first second => exact first.trans second
  | take taken =>
    obtain ⟨accounts, rfl⟩ := acquireKernelRef_some taken
    exact .of_eq rfl fun _ => rfl
  | opened | closed | give | newVmo | skipKoid | setInFlight =>
    exact .of_eq rfl fun _ => rfl
  | @drop s _ _ k _ =>
    have unregistered : Quiet s (s.unregister k) := .of_eq rfl fun _ => rfl
    exact (unregistered.trans (.dropVmo _ k)).trans (.of_eq rfl fun _ => rfl)
  | process found eq => exact .of_eq rfl fun l => space_setProcess_same found eq l
  | strip => exact .strip _ _ _ _
  | erase => exact .eraseVmar _ _
  | @uproot s _ _ r _ _ =>
    have unregistered : Quiet s (s.unregister r) := .of_eq rfl fun _ => rfl
    exact unregistered.trans (.eraseVmar _ r)
  | region region process parent perm wf =>
    exact .setVmar _ _ (.inr ⟨_, region, process, perm, wf⟩)
  | @newRegion s _ _ _ _ empty wf _ =>
    have registered : Quiet s (s.register s.nextKoid) := .of_eq rfl fun _ => rfl
    exact registered.trans (.setVmar _ _ (.inl ⟨empty, wf⟩))

structure Rebooked (r : Koid) (v v' : Vmar) (a' : AddressSpace) (s t : Kernel) : Prop where
  vmars : t.vmars = update s.vmars r (some v')
  process : v'.process = v.process
  space : ∀ l, t.space l = if l = v.process then some a' else s.space l

/-- Books and tables still agree if the region's own records are shown and the pages of other
regions stay. -/
theorem Layout.rebook {v' : Vmar} {a' : AddressSpace} (layout : Layout s)
    (old : s.space v.process = some a) (change : Rebooked r v v' a' s t) (wf : v'.WellFormed)
    (own : ∀ m ∈ v'.mappings, ∀ page, m.Covers page → a'.Shows r page)
    (kept : ∀ l page, l ≠ r → a.Shows l page → a'.Shows l page) : Layout t := by
  refine ⟨fun l w found => ?_, fun l w b found here m mem page covers => ?_⟩
  · rw [change.vmars] at found
    by_cases at_ : l = r
    · subst at_
      cases (update_self ..).symm.trans found
      exact wf
    rw [update_of_ne at_] at found
    exact layout.wf l w found
  rw [change.vmars] at found
  rw [change.space] at here
  by_cases at_ : l = r
  · subst at_
    cases (update_self ..).symm.trans found
    rw [change.process, if_pos rfl] at here
    cases here
    exact own m mem page covers
  rw [update_of_ne at_] at found
  by_cases eq : w.process = v.process
  · rw [if_pos eq] at here
    cases here
    exact kept l page at_ (layout.shown l w a found (eq ▸ old) m mem page covers)
  rw [if_neg eq] at here
  exact layout.shown l w b found here m mem page covers

theorem rebooked_setSpace (mappings : List VmarMapping) {runtime : Runtime} (a' : AddressSpace)
    {accounts : Koid → Option RefAccount} :
    Rebooked r v (v.withMappings mappings) a' s (setSpace
      ({ s with accounts := accounts }.setVmar r (v.withMappings mappings)) v.process p runtime a') :=
  ⟨rfl, rfl, fun l => space_setSpace _ _ _ _ _ l⟩

theorem failed_of {e : ErrorCode} {result : Except ErrorCode Nat}
    (ran : (.error e, s) = (result, t)) : (∃ error, result = .error error) ∧ t = s := by
  cases ran
  exact ⟨⟨e, rfl⟩, rfl⟩

section Install
variable {room : Nat → Bool} {frameAt : Nat → Option Nat} {runtime : Runtime} {m : VmarMapping}
  {flags : PageTableFlags}

structure Installed (frameAt : Nat → Option Nat) (flags : PageTableFlags) (r : Koid) (v : Vmar)
    (p : Process) (runtime : Runtime) (m : VmarMapping) (s t : Kernel) (space : AddressSpace) :
    Prop where
  recorded : v.recordMapping m = .ok (v.withMappings (v.mappings ++ [m]))
  mapped : AddressSpace.Mapped frameAt (m.base / pageSize) (m.size / pageSize) flags runtime.space
    space
  state : ∃ s', s.acquireKernelRef m.vmo = some s' ∧
    t = setSpace (s'.setVmar r (v.withMappings (v.mappings ++ [m]))) v.process p runtime space

/-- A record that is taken back leaves the region as it was, up to order. -/
theorem Vmar.WellFormed.takeBack (wf : v.WellFormed) (aligned : Aligned m.base m.size)
    (recorded : v.recordMapping m = .ok (v.withMappings (v.mappings ++ [m]))) :
    ∃ rest, (v.withMappings (v.mappings ++ [m])).removeMapping m =
        some (v.withMappings rest) ∧
      rest.Perm v.mappings ∧ (v.withMappings rest).WellFormed := by
  have mem : m ∈ v.mappings ++ [m] := mem_append_right _ (mem_singleton_self m)
  obtain ⟨rest, removed⟩ := Lists.swapRemoveOf_isSome mem
  have gone : (v.withMappings (v.mappings ++ [m])).removeMapping m = some (v.withMappings rest) := by
    rw [removeMapping, withMappings, removed]
    rfl
  obtain ⟨rest', same, perm, wf'⟩ := (wf.record aligned recorded).remove gone
  cases same
  refine ⟨rest, gone, ?_, wf'⟩
  exact ((perm_append_singleton m v.mappings).symm.trans perm).cons_inv.symm

theorem closeKernelRef_acquired {s' : Kernel} (taken : s.acquireKernelRef k = some s') :
    s'.closeKernelRef k = s := by
  rw [acquireKernelRef] at taken
  split at taken
  · cases taken
  next a found =>
  cases taken
  have accounts : ((s.adjust k fun a => { a with kernelRefs := a.kernelRefs + 1 }).closeKernelRef
      k).accounts = s.accounts := by
    funext l
    rw [closeKernelRef, adjust, adjust]
    dsimp only
    by_cases here : l = k
    · rw [here, update_self, update_self, found]
      rfl
    · rw [update_of_ne here, update_of_ne here]
  exact congrArg (fun accounts => { s with accounts := accounts }) accounts

theorem setSpace_same (found : s.processes k = some p) (run : p.runtime = some runtime) :
    setSpace s k p runtime runtime.space = s := by
  have same : { p with runtime := some { runtime with space := runtime.space } } = p := by
    rw [← run]
  rw [setSpace, same, setProcess, ← found, update_eq_self]

def Refused (r : Koid) (v : Vmar) (k : Koid) (s t : Kernel) : Prop :=
  t = s ∨ ∃ records, records.Perm v.mappings ∧ (v.withMappings records).WellFormed ∧
    t = (s.setVmar r (v.withMappings records)).collect k

theorem Refused.move {due : List Debt} (region : s.vmars r = some v) (refused : Refused r v k s t) :
    Move s due [] t due [] := by
  rcases refused with rfl | ⟨records, perm, wf, rfl⟩
  · exact .refl
  · exact (Move.region (w := v.withMappings records) region rfl rfl perm fun _ => wf).trans
      (.collectFrom (k + 1) k)

/-- The transaction installs the mapping or leaves things as they were. -/
theorem installMapping_cases (wf : v.WellFormed) (aligned : Aligned m.base m.size)
    (region : s.vmars r = some v) (found : s.processes v.process = some p)
    (run : p.runtime = some runtime) {result : Except ErrorCode Nat}
    (ran : installMapping room frameAt r v p runtime m flags s = (result, t)) :
    (∃ error, result = .error error) ∧ Refused r v m.vmo s t ∨
      result = .ok m.base ∧ ∃ space, Installed frameAt flags r v p runtime m s t space := by
  rw [installMapping] at ran
  split at ran
  · exact .inl ((failed_of ran).imp_right .inl)
  next s' taken =>
  have back := closeKernelRef_acquired taken
  split at ran
  · cases ran
    refine .inl ⟨⟨_, rfl⟩, .inr ⟨v.mappings, .refl _, wf, ?_⟩⟩
    have eq : s.setVmar r (v.withMappings v.mappings) = s := by
      rw [withMappings, setVmar, ← region, update_eq_self]
    rw [eq, noteKernelRefClose, back]
  next v' recorded =>
  obtain ⟨-, -, rfl⟩ := recordMapping_ok recorded
  dsimp only at ran
  split at ran
  next n space loop =>
    cases ran
    obtain ⟨mapped, all⟩ := mapPages_mapped .none loop
    rw [all rfl, Nat.zero_add] at mapped
    exact .inr ⟨rfl, space, recorded, mapped, s', taken, rfl⟩
  next n error space loop =>
  cases ran
  obtain ⟨mapped, -⟩ := mapPages_mapped .none loop
  have there : s'.processes v.process = some p := by
    obtain ⟨accounts, rfl⟩ := acquireKernelRef_some taken
    exact found
  obtain ⟨records, gone, perm, wf'⟩ := wf.takeBack aligned recorded
  refine .inl ⟨⟨_, rfl⟩, .inr ⟨records, perm, wf', ?_⟩⟩
  rw [mapped.undone, gone, Option.getD_some, setSpace_same there run, noteKernelRefClose]
  exact congrArg (fun s : Kernel => (s.setVmar r (v.withMappings records)).collect m.vmo) back

theorem noteOrigin_setSpace (owner : Koid) (space : AddressSpace) (addr len : Nat) (origin : Origin) :
    noteOrigin owner addr len origin (setSpace s owner p runtime space) =
      setSpace s owner p runtime (space.noted (addr / pageSize) (len / pageSize) origin) := by
  simp [noteOrigin, setSpace, setProcess]

theorem Installed.space {space : AddressSpace} {origin : Origin}
    (installed : Installed frameAt flags r v p runtime m s t space) (l : Koid) :
    (noteOrigin v.process m.base m.size origin t).space l = if l = v.process then
      some (space.noted (m.base / pageSize) (m.size / pageSize) origin) else s.space l := by
  obtain ⟨-, -, s', taken, rfl⟩ := installed
  obtain ⟨accounts, rfl⟩ := acquireKernelRef_some taken
  rw [noteOrigin_setSpace]
  exact space_setSpace _ _ _ _ _ l

theorem Layout.install {space : AddressSpace} {source : Source} (layout : Layout s)
    (region : s.vmars r = some v) (found : s.processes v.process = some p)
    (run : p.runtime = some runtime) (aligned : Aligned m.base m.size)
    (installed : Installed frameAt flags r v p runtime m s t space) :
    Layout (noteOrigin v.process m.base m.size ⟨r, source⟩ t) := by
  obtain ⟨recorded, mapped, s', taken, rfl⟩ := installed
  obtain ⟨accounts, rfl⟩ := acquireKernelRef_some taken
  rw [noteOrigin_setSpace]
  have wf := layout.wf r v region
  have old := space_eq_some found run
  -- a page that was mapped before lies outside the new mapping
  have out : ∀ {l page}, runtime.space.Shows l page →
      AddressSpace.Shows (space.noted (m.base / pageSize) (m.size / pageSize) ⟨r, source⟩) l page := by
    rintro l page ⟨present, origin⟩
    have away : ¬ (m.base / pageSize ≤ page ∧ page < m.base / pageSize + m.size / pageSize) :=
      fun inside => present (mapped.free page inside.1 inside.2)
    refine ⟨?_, ?_⟩
    · rw [noted, mapped.other page away]
      exact present
    simp only [noted, if_neg away, mapped.origin]
    exact origin
  refine layout.rebook old (rebooked_setSpace _ _) (wf.record aligned recorded) ?_
    (fun l page _ shows => out shows)
  intro m₁ mem page covers
  rcases mem_append.mp mem with pre | last
  · exact out (layout.shown r v _ region old m₁ pre page covers)
  cases mem_singleton.mp last
  have inside := aligned.covers_iff.mp covers
  obtain ⟨frame, -, shows⟩ := mapped.shown page inside.1 inside.2
  refine ⟨?_, source, ?_⟩
  · rw [noted, shows]
    nofun
  · simp [noted, if_pos inside]

end Install

section Range
variable {m : VmarMapping} {args : VmarOpArgs} {runtime : Runtime}

/-- A page-aligned range within a mapping of the region. -/
structure RangeOf (v : Vmar) (m : VmarMapping) (addr len : Nat) : Prop where
  mem : m ∈ v.mappings
  aligned : Aligned addr len
  nonempty : 0 < len

theorem Aligned.pages_pos {addr len : Nat} (aligned : Aligned addr len) (nonempty : 0 < len) :
    0 < len / pageSize :=
  Nat.div_pos (Nat.le_of_dvd nonempty (Nat.dvd_of_mod_eq_zero aligned.2)) (by decide)

def VmarFlags.Exclusive (flags : VmarFlags) : Prop :=
  ¬(flags.has .write = true ∧ flags.has .execute = true)

theorem validateVmarOpArgs_ok {protect : Bool} (valid : validateVmarOpArgs v args protect = .ok m) :
    RangeOf v m args.addr args.len := by
  rw [validateVmarOpArgs] at valid
  split at valid
  · cases valid
  next sane =>
  repeat' split at valid
  all_goals cases valid
  next found =>
    obtain ⟨mem, nonempty, -, -⟩ := mappingCovering_some found
    exact ⟨mem, by unfold Aligned; omega, nonempty⟩

theorem lookupProcessObject_ok (found : lookupProcessObject s k = .ok p) : s.processes k = some p := by
  rw [lookupProcessObject] at found
  split at found <;> cases found
  next here => exact here

theorem callerRuntime_ok (found : callerRuntime s k = .ok (p, runtime)) :
    s.processes k = some p ∧ p.runtime = some runtime := by
  rw [callerRuntime] at found
  split at found
  · cases found
  next here =>
  split at found <;> cases found
  next run => exact ⟨here, run⟩

/-- The mapping that an unmap is about to cut up, if nothing refuses the call. -/
def unmapAccepts (s : Kernel) (v : Vmar) (args : VmarOpArgs) : Option VmarMapping :=
  match processRuntimeForVmar s v, validateVmarOpArgs v args false with
  | .ok p, .ok m =>
    match s.lookupVmo m.vmo, p.runtime with
    | .ok _, some _ => some m
    | _, _ => none
  | _, _ => none

def protectAccepts (s : Kernel) (v : Vmar) (args : VmarOpArgs) : Option VmarMapping :=
  match processRuntimeForVmar s v, validateVmarOpArgs v args true with
  | .ok p, .ok m => p.runtime.map fun _ => m
  | _, _ => none

/-- What a call that is not refused leaves: references for the pieces, unless the object is gone. -/
def takenRefs (s : Kernel) (pieces : VmarMapping → List VmarMapping) : Option VmarMapping → Kernel
  | none => s
  | some m => (acquireRefs m.vmo ((pieces m).length - 1) s).getD s

/-- Unmapping never succeeds: it is refused, or its CPU stops with references taken. -/
theorem unmapVmarMapping_eq (r : Koid) (v : Vmar) (args : VmarOpArgs) (s : Kernel) :
    ∃ error, unmapVmarMapping r v args s = (.error error,
      takenRefs s (splitMappingForUnmap · args.addr args.len) (unmapAccepts s v args)) := by
  rw [unmapVmarMapping]
  split
  next found => exact ⟨_, by rw [unmapAccepts, found]; rfl⟩
  next p found =>
  split
  next refused => exact ⟨_, by rw [unmapAccepts, found, refused]; rfl⟩
  next m valid =>
  split
  next gone => exact ⟨_, by simp only [unmapAccepts, found, valid, gone]; rfl⟩
  next o memory =>
  split
  next stripped => exact ⟨_, by simp only [unmapAccepts, found, valid, memory, stripped]; rfl⟩
  next runtime running =>
  have range := validateVmarOpArgs_ok valid
  have accepted : unmapAccepts s v args = some m := by
    simp only [unmapAccepts, found, valid, memory, running]
  rw [accepted, takenRefs]
  dsimp only
  split
  next absent => exact ⟨_, by rw [absent]; rfl⟩
  next t taken =>
  rw [unmapPages_mutating (range.aligned.pages_pos range.nonempty), taken]
  exact ⟨_, rfl⟩

theorem protectVmarMapping_eq (r : Koid) (v : Vmar) (args : VmarOpArgs) (s : Kernel) :
    ∃ error, protectVmarMapping r v args s = (.error error,
      takenRefs s (splitMappingForProtect · args.addr args.len args.flags) (protectAccepts s v args)) := by
  rw [protectVmarMapping]
  split
  next found => exact ⟨_, by rw [protectAccepts, found]; rfl⟩
  next p found =>
  split
  next refused => exact ⟨_, by rw [protectAccepts, found, refused]; rfl⟩
  next m valid =>
  split
  next stripped => exact ⟨_, by simp only [protectAccepts, found, valid, stripped]; rfl⟩
  next runtime running =>
  have range := validateVmarOpArgs_ok valid
  have accepted : protectAccepts s v args = some m := by
    simp only [protectAccepts, found, valid, running, Option.map_some]
  rw [accepted, takenRefs]
  dsimp only
  split
  next absent => exact ⟨_, by rw [absent]; rfl⟩
  next t taken =>
  rw [protectPages_mutating (range.aligned.pages_pos range.nonempty), taken]
  exact ⟨_, rfl⟩

theorem unmapAccepts_mem (accepted : unmapAccepts s v args = some m) : m ∈ v.mappings := by
  rw [unmapAccepts] at accepted
  split at accepted
  next valid =>
    split at accepted <;> cases accepted
    exact (validateVmarOpArgs_ok valid).mem
  · cases accepted

theorem protectAccepts_mem (accepted : protectAccepts s v args = some m) : m ∈ v.mappings := by
  rw [protectAccepts] at accepted
  split at accepted
  next valid =>
    obtain ⟨-, -, rfl⟩ := Option.map_eq_some_iff.mp accepted
    exact (validateVmarOpArgs_ok valid).mem
  · cases accepted

theorem takenRefs_move {due : List Debt} (pieces : VmarMapping → List VmarMapping)
    (accepted : Option VmarMapping) : Move s due [] (takenRefs s pieces accepted) due [] := by
  cases accepted with
  | none => exact .refl
  | some m =>
    rw [takenRefs]
    cases taken : acquireRefs m.vmo ((pieces m).length - 1) s with
    | none => exact .refl
    | some t => exact .leaked taken

theorem unmapResourceFromCurrent_eq (caller resource : Koid) (res : Resource) (args : ResourceUnmapArgs)
    (s : Kernel) : ∃ error, unmapResourceFromCurrent caller resource res args s = (.error error, s) := by
  rw [unmapResourceFromCurrent]
  split
  · exact ⟨_, rfl⟩
  next valid =>
  have pages : 0 < args.len / pageSize := by
    rw [validateResourceUnmapArgs] at valid
    split at valid
    · cases valid
    next sane =>
    unfold pageSize at *
    omega
  split
  · exact ⟨_, rfl⟩
  split
  · exact ⟨_, rfl⟩
  split
  · exact ⟨_, rfl⟩
  split
  · exact ⟨_, rfl⟩
  split
  · exact ⟨_, rfl⟩
  dsimp only
  rw [unmapPages_mutating pages]
  exact ⟨_, rfl⟩

end Range
end HuesOS.Vm
