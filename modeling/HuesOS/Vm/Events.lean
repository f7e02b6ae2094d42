import HuesOS.Vm.Layout

namespace HuesOS.Vm
open Event VmarMapping
variable {s t : Kernel} {k r caller : Koid} {v : Vmar} {p : Process} {a : AddressSpace}

section Maps
variable {room : Nat → Bool} {vmo resource : Koid} {o : Vmo} {res : Resource}

theorem validateVmarMapArgs_ok {args : VmarMapArgs} (valid : validateVmarMapArgs v o args = .ok ()) :
    Aligned args.addr args.len ∧ args.vmoOffset % pageSize = 0 ∧
      args.vmoOffset + args.len ≤ o.size ∧ args.flags.Exclusive := by
  rw [validateVmarMapArgs] at valid
  split at valid
  · cases valid
  next sane =>
  have aligned : Aligned args.addr args.len ∧ args.vmoOffset % pageSize = 0 := by
    unfold Aligned
    omega
  split at valid
  · cases valid
  split at valid
  · cases valid
  next apart =>
  split at valid
  · cases valid
  next stop fits =>
  split at valid
  · cases valid
  next inside =>
  rw [(checkedEnd_eq_some.mp fits).2] at inside
  exact ⟨aligned.1, aligned.2, not_lt.mp inside, by simpa [VmarFlags.Exclusive] using apart⟩

theorem mapVmoIntoVmar_cases {args : VmarMapArgs} (layout : Layout s) (region : s.vmars r = some v)
    {res : Except ErrorCode Nat} (ran : mapVmoIntoVmar room r v vmo o args s = (res, t)) :
    (∃ error, res = .error error) ∧ Refused r v vmo s t ∨
      res = .ok args.addr ∧ args.flags.Exclusive ∧ ∃ p runtime space, s.processes v.process = some p ∧
        p.runtime = some runtime ∧ Aligned args.addr args.len ∧ args.vmoOffset % pageSize = 0 ∧
        Installed (fun i => o.frameAt (args.vmoOffset / pageSize + i))
          (pageFlagsFromVmarFlags args.flags) r v p runtime
          ⟨args.addr, args.len, vmo, args.vmoOffset, args.flags⟩ s t space := by
  rw [mapVmoIntoVmar] at ran
  split at ran
  · exact .inl ((failed_of ran).imp_right .inl)
  next valid =>
  obtain ⟨aligned, offset, -, exclusive⟩ := validateVmarMapArgs_ok valid
  split at ran
  · exact .inl ((failed_of ran).imp_right .inl)
  next p found =>
  have found := lookupProcessObject_ok found
  split at ran
  · exact .inl ((failed_of ran).imp_right .inl)
  next runtime running =>
  dsimp only at ran
  split at ran
  · exact .inl ((failed_of ran).imp_right .inl)
  rcases installMapping_cases (layout.wf r v region) aligned region found running ran
    with refused | ⟨ok, space, installed⟩
  · exact .inl refused
  · exact .inr ⟨ok, exclusive, p, runtime, space, found, running, aligned, offset, installed⟩

theorem Resource.contains_iff {kind : ResourceKind} {addr width : Nat}
    (inside : res.contains kind addr width = true) :
    res.base ≤ addr ∧ addr + width ≤ res.base + res.len := by
  rw [Resource.contains] at inside
  split at inside
  · cases inside
  split at inside
  · cases inside
  next stop fits =>
  rw [(checkedEnd_eq_some.mp fits).2] at inside
  simp only [Bool.and_eq_true, decide_eq_true_eq, le_min_iff] at inside
  exact ⟨inside.1, inside.2.1⟩

theorem validateResourceMapArgs_ok {args : ResourceMapArgs}
    (valid : validateResourceMapArgs res args = .ok ()) :
    Aligned args.addr args.len ∧ args.flags.has .execute = false ∧
      args.resourceOffset % pageSize = 0 ∧ args.resourceOffset + args.len ≤ res.len := by
  rw [validateResourceMapArgs] at valid
  split at valid
  · cases valid
  next sane =>
  have aligned : Aligned args.addr args.len ∧ args.resourceOffset % pageSize = 0 := by
    unfold Aligned
    omega
  split at valid
  · cases valid
  next flags =>
  simp only [Bool.or_eq_true, not_or, Bool.not_eq_true] at flags
  split at valid
  · cases valid
  split at valid
  · cases valid
  next phys fits =>
  split at valid
  · cases valid
  next inside =>
  simp only [Bool.not_eq_true', Bool.not_eq_false] at inside
  have within := Resource.contains_iff inside
  rw [(checkedEnd_eq_some.mp fits).2] at within
  exact ⟨aligned.1, flags.2, aligned.2, by omega⟩

theorem mapResourceIntoCurrent_cases {args : ResourceMapArgs} (layout : Layout s)
    {result : Except ErrorCode Nat}
    (ran : mapResourceIntoCurrent room caller resource res args s = (result, t)) :
    (∃ error, result = .error error) ∧
        (t = s ∨ ∃ r v, s.vmars r = some v ∧ Refused r v resource s t) ∨
      result = .ok args.addr ∧ ∃ p runtime root space, s.processes caller = some p ∧
        p.runtime = some runtime ∧ s.vmars runtime.rootVmar = some root ∧ root.process = caller ∧
        Aligned args.addr args.len ∧ args.flags.has .execute = false ∧
        args.resourceOffset % pageSize = 0 ∧ args.resourceOffset + args.len ≤ res.len ∧
        Installed (fun i => some ((res.base + args.resourceOffset + i * pageSize) / pageSize))
          (resourcePageFlags res.kind args.flags) runtime.rootVmar root p runtime
          ⟨args.addr, args.len, resource, args.resourceOffset, args.flags⟩ s t space := by
  rw [mapResourceIntoCurrent] at ran
  split at ran
  · exact .inl ((failed_of ran).imp_right .inl)
  next valid =>
  obtain ⟨aligned, plain, offset, inside⟩ := validateResourceMapArgs_ok valid
  split at ran
  · exact .inl ((failed_of ran).imp_right .inl)
  next p runtime calling =>
  obtain ⟨found, running⟩ := callerRuntime_ok calling
  split at ran
  · exact .inl ((failed_of ran).imp_right .inl)
  next root region =>
  split at ran
  · exact .inl ((failed_of ran).imp_right .inl)
  next own =>
  have own : root.process = caller := not_not.mp own
  split at ran
  · exact .inl ((failed_of ran).imp_right .inl)
  have owner : s.processes root.process = some p := by rw [own]; exact found
  rcases installMapping_cases (layout.wf _ root region) aligned region owner
      running ran with ⟨fails, refused⟩ | ⟨ok, space, installed⟩
  · exact .inl ⟨fails, .inr ⟨_, root, region, refused⟩⟩
  exact .inr ⟨ok, p, runtime, root, space, found, running, region, own, aligned,
    plain, offset, inside, installed⟩

end Maps

/-- What a mapping may be used for, given where it came from: memory objects as the handle allows,
device memory never for execution and, if it is device registers, never cached. -/
def Source.Allows : Source → PageTableFlags → Prop
  | .vmo rights, flags => (flags.writable = true → rights.Contains .write) ∧
      (flags.noExecute = false → rights.Contains .execute)
  | .resource kind, flags => flags.noExecute = true ∧ (kind = .mmio → flags.noCache = true)

/-- The object has the frame at that index: a memory object owns its frames, a device resource is
a range of physical memory. -/
def Kernel.Backs (s : Kernel) (o : Koid) (index frame : Nat) : Prop :=
  (∃ w, s.vmos o = some w ∧ w.frameAt index = some frame) ∨
    ∃ res, s.resources o = some res ∧ index * pageSize < res.len ∧
      frame = (res.base + index * pageSize) / pageSize

inductive Outcome (due : List Debt) (s t : Kernel) : Prop
  | moved (move : Move s due [] t [] [])
  | mapped {r : Koid} {v : Vmar} {p : Process} {runtime : Runtime} {m : VmarMapping}
      {frameAt : Nat → Option Nat} {flags : PageTableFlags} {source : Source}
      {space : AddressSpace} {u : Kernel} (region : s.vmars r = some v)
      (found : s.processes v.process = some p) (running : p.runtime = some runtime)
      (aligned : Aligned m.base m.size)
      (installed : Installed frameAt flags r v p runtime m s u space)
      (allowed : source.Allows flags)
      (backed : ∀ page frame, m.Covers page → frameAt (page - m.base / pageSize) = some frame →
        s.Backs m.vmo (m.index page) frame)
      (after : t = noteOrigin v.process m.base m.size ⟨r, source⟩ u)

variable {m : VmarMapping} {args : VmarOpArgs}

theorem VmarMapping.index_eq {page : Nat} (aligned : Aligned m.base m.size)
    (off : m.vmoOffset % pageSize = 0) (covers : m.Covers page) :
    m.index page = m.vmoOffset / pageSize + (page - m.base / pageSize) := by
  have base := aligned.1
  have low := covers.1
  unfold index
  unfold pageSize at *
  omega

theorem lookupVmo_ok {o : Vmo} (found : s.lookupVmo k = .ok o) : s.vmos k = some o := by
  rw [Kernel.lookupVmo] at found
  split at found <;> cases found
  next here => exact here

theorem lookupResource_ok {res : Resource} (found : s.lookupResource k = .ok res) :
    s.resources k = some res := by
  rw [Kernel.lookupResource] at found
  split at found <;> cases found
  next here => exact here

theorem sysVmarMap_outcome {args : VmarMapArgs} {room : Nat → Bool} (layout : Layout s) :
    Outcome [] s (sysVmarMap caller p args room s).2 := by
  rw [sysVmarMap]
  split
  · exact .moved .refl
  next vmarHandle _ =>
  split
  · exact .moved .refl
  split
  · exact .moved .refl
  next vmoHandle _ =>
  split
  · exact .moved .refl
  next granted =>
  split
  · exact .moved .refl
  next v region =>
  split
  · exact .moved .refl
  split
  · exact .moved .refl
  next o memory =>
  have region := lookupVmar_ok region
  have memory := lookupVmo_ok memory
  rw [noting]
  rcases ran : mapVmoIntoVmar room vmarHandle.koid v vmoHandle.koid o args s
    with ⟨res, u⟩
  rcases mapVmoIntoVmar_cases layout region ran with
    ⟨⟨error, rfl⟩, refused⟩ |
      ⟨rfl, -, p', runtime, space, found, running, aligned, offset, installed⟩
  · exact .moved (refused.move region)
  simp only [Bool.not_eq_true, Bool.not_eq_false'] at granted
  obtain ⟨write, execute⟩ := contains_of_mappingRequired (of_decide_eq_true granted)
  have allowed : (Source.vmo vmoHandle.rights).Allows
      (pageFlagsFromVmarFlags args.flags) :=
    ⟨write, fun runs =>
      execute (by simpa [pageFlagsFromVmarFlags] using runs)⟩
  refine .mapped region found running aligned installed allowed
    (fun page frame covers at_ => .inl ⟨o, memory, ?_⟩) rfl
  rw [index_eq aligned offset covers]
  exact at_

theorem resource_frame {res : Resource} {page frame : Nat}
    (aligned : Aligned m.base m.size) (off : m.vmoOffset % pageSize = 0)
    (inside : m.vmoOffset + m.size ≤ res.len) (covers : m.Covers page)
    (at_ : (res.base + m.vmoOffset + (page - m.base / pageSize) * pageSize) / pageSize = frame) :
    m.index page * pageSize < res.len ∧ frame = (res.base + m.index page * pageSize) / pageSize := by
  rw [index_eq aligned off covers, Nat.add_mul, Nat.div_mul_cancel (Nat.dvd_of_mod_eq_zero off)]
  have first : (page - m.base / pageSize) * pageSize = page * pageSize - m.base := by
    rw [Nat.sub_mul, Nat.div_mul_cancel (Nat.dvd_of_mod_eq_zero aligned.1)]
  have low : m.base ≤ page * pageSize := covers.1
  have high : page * pageSize < m.base + m.size := covers.2
  refine ⟨?_, ?_⟩
  · rw [first]
    omega
  rw [← Nat.add_assoc]
  exact at_.symm

theorem sysResourceMap_outcome {args : ResourceMapArgs} {room : Nat → Bool} (layout : Layout s)
    (found : s.processes caller = some p) :
    Outcome [] s (sysResourceMap caller p args room s).2 := by
  rw [sysResourceMap]
  split
  · exact .moved .refl
  next handle _ =>
  split
  · exact .moved .refl
  split
  · exact .moved .refl
  next res device =>
  have device := lookupResource_ok device
  rw [noting]
  rcases ran : mapResourceIntoCurrent room caller handle.koid res args s with ⟨result, u⟩
  rcases mapResourceIntoCurrent_cases layout ran with
    ⟨⟨error, rfl⟩, rfl | ⟨r, v, region, refused⟩⟩ |
    ⟨rfl, p', runtime, root, space, found', running, region, own, aligned, plain, offset, inside, installed⟩
  · exact .moved .refl
  · exact .moved (refused.move region)
  cases found.symm.trans found'
  rw [running]
  subst own
  have allowed : (Source.resource res.kind).Allows (resourcePageFlags res.kind args.flags) := by
    refine ⟨?_, fun registers => ?_⟩
    · simp [resourcePageFlags, pageFlagsFromVmarFlags, plain]
    · simp [resourcePageFlags, registers]
  exact .mapped region found running aligned installed allowed
    (fun page frame covers at_ => .inr ⟨res, device,
      resource_frame aligned offset inside covers (Option.some.inj at_)⟩) rfl

/-- An operation on a region is refused, or it runs on a region of the caller. -/
theorem sysVmarOp_cases {required : Rights}
    {callback : Koid → Vmar → VmarOpArgs → Call} {res : Except ErrorCode Nat}
    (ran : sysVmarOp caller p args required callback s = (res, t)) :
    (∃ error, res = .error error) ∧ t = s ∨
      ∃ r v, s.vmars r = some v ∧ v.process = caller ∧ callback r v args s = (res, t) := by
  rw [sysVmarOp] at ran
  split at ran
  · exact .inl (failed_of ran)
  next handle _ =>
  split at ran
  · exact .inl (failed_of ran)
  split at ran
  · exact .inl (failed_of ran)
  next v region =>
  split at ran
  · exact .inl (failed_of ran)
  next own => exact .inr ⟨_, v, lookupVmar_ok region, not_not.mp own, ran⟩

theorem Event.run_syscall {call : Syscall} (found : s.processes caller = some p)
    (running : p.exited = false) : (Event.syscall caller call).run s = call.run caller p s := by
  simp [run, found, running]

theorem Move.sysVmarProtect : Move s [] [] (sysVmarProtect caller p args s).2 [] [] := by
  rcases ran : Vm.sysVmarProtect caller p args s with ⟨res, t⟩
  rcases sysVmarOp_cases ran with ⟨-, rfl⟩ | ⟨r, v, region, own, op⟩
  · exact .refl
  obtain ⟨error, eq⟩ := protectVmarMapping_eq r v args s
  cases op.symm.trans eq
  exact takenRefs_move _ _

theorem Move.sysVmarUnmap : Move s [] [] (sysVmarUnmap caller p args s).2 [] [] := by
  rcases ran : Vm.sysVmarUnmap caller p args s with ⟨res, t⟩
  rcases sysVmarOp_cases ran with ⟨-, rfl⟩ | ⟨r, v, region, own, op⟩
  · exact .refl
  obtain ⟨error, eq⟩ := unmapVmarMapping_eq r v args s
  cases op.symm.trans eq
  exact takenRefs_move _ _

theorem sysResourceUnmap_eq {args : ResourceUnmapArgs} : (sysResourceUnmap caller p args s).2 = s := by
  rw [sysResourceUnmap]
  split
  · rfl
  next handle _ =>
  split
  · rfl
  split
  · rfl
  next res _ =>
  obtain ⟨error, eq⟩ := unmapResourceFromCurrent_eq caller handle.koid res args s
  rw [eq]

/-- The handles that the event closes, and the root region that it takes from its process. -/
def Event.debts : Event → Kernel → List Debt
  | .syscall caller (.handleClose handle), s =>
    match s.processes caller with
    | none => []
    | some p =>
      if p.exited then [] else (HandleTable.get p.handles handle).toList.map fun h => .handle h.koid
  | .teardown k, s =>
    match s.processes k with
    | none => []
    | some p => if p.exited then p.debts else []
  | .discard index, s => s.inFlight[index]?.toList.map fun h => .handle h.koid
  | _, _ => []

/-- Every event is bookkeeping or maps. -/
theorem event_outcome {e : Event} (layout : Layout s) (step : EventStep e s t) :
    Outcome (e.debts s) s t := by
  cases step
  cases e with
  | syscall caller call =>
    cases found : s.processes caller with
    | none =>
      have none : (Event.syscall caller call).debts s = [] := by
        cases call <;> simp only [debts, found]
      simp only [run, found, none]
      exact .moved .refl
    | some p =>
      cases running : p.exited with
      | true =>
        have none : (Event.syscall caller call).debts s = [] := by
          cases call <;> simp only [debts, found, running, if_true]
        simp only [run, found, running, if_true, none]
        exact .moved .refl
      | false =>
        rw [run_syscall found running]
        cases call with
        | vmoCreate => exact .moved (.sysVmoCreate found)
        | vmarCreateChild => exact .moved (.sysVmarCreateChild layout.wf found)
        | vmarMap args room => exact sysVmarMap_outcome layout
        | vmarUnmap args => exact .moved .sysVmarUnmap
        | vmarProtect args => exact .moved .sysVmarProtect
        | resourceMap args room => exact sysResourceMap_outcome layout found
        | resourceUnmap args => exact .moved (sysResourceUnmap_eq.symm ▸ .refl)
        | handleDuplicate => exact .moved (.sysHandleDuplicate found)
        | handleClose handle =>
          have closes : (Event.syscall caller (.handleClose handle)).debts s =
              (HandleTable.get p.handles handle).toList.map (fun h => .handle h.koid) ++ [] := by
            simp [debts, found, running]
          rw [closes]
          exact .moved (.sysHandleClose found)
        | handleSend => exact .moved (.sysHandleSend found)
        | handleReceive => exact .moved (.sysHandleReceive found)
        | processExit => exact .moved (.sysProcessExit found)
  | start k =>
    cases found : s.processes k with
    | none =>
      simp only [run, found]
      exact .moved .refl
    | some p =>
      simp only [run, found]
      exact .moved (.process (q := { p with started := true }) found rfl)
  | teardown k =>
    cases found : s.processes k with
    | none =>
      simp only [run, debts, found]
      exact .moved .refl
    | some p =>
      simp only [run, debts, found]
      split
      · rw [← List.append_nil p.debts]
        exact .moved (.teardownProcess found)
      · exact .moved .refl
  | discard index =>
    cases found : s.inFlight[index]? with
    | none =>
      simp only [run, debts, found]
      exact .moved .refl
    | some h =>
      simp only [run, debts, found]
      exact .moved ((Move.setInFlight _).trans (.noteHandleClose _))

/-- Every event keeps books and tables in agreement. -/
theorem Outcome.layout {due : List Debt} (res : Outcome due s t) (layout : Layout s) : Layout t := by
  cases res with
  | moved move => exact layout.quiet move.quiet
  | mapped region found run aligned installed allowed backed after =>
    rw [after]
    exact layout.install region found run aligned installed

end HuesOS.Vm
