import HuesOS.Vm.Syscalls

/-! The bookkeeping of the kernel, taken apart into single moves. -/

namespace HuesOS.Vm
open List VmarMapping Kernel

def Vmar.holds (v : Vmar) : List Koid := v.mappings.map vmo ++ v.parent.toList

/-- What an event has to take away: a handle, or the root region of a process whose page tables
go. -/
inductive Debt
  | handle (k : Koid)
  | root (r : Koid)
  deriving DecidableEq

/-- `Move s due pending t due' pending'`: bookkeeping leads from `s` to `t` without touching a page
that stays mapped. Running code then has to give back the kernel references `pending'` and to take
away `due'`. -/
inductive Move : Kernel → List Debt → List Koid → Kernel → List Debt → List Koid → Prop
  | refl {s : Kernel} {due : List Debt} {pending : List Koid} : Move s due pending s due pending
  | trans {s t u : Kernel} {due due' due'' : List Debt} {first second third : List Koid}
      (one : Move s due first t due' second) (two : Move t due' second u due'' third) :
      Move s due first u due'' third
  | opened {s : Kernel} {due : List Debt} {pending : List Koid} (k : Koid) :
      Move s due pending (s.noteHandleOpen k) (.handle k :: due) pending
  | closed {s : Kernel} {due : List Debt} {pending : List Koid} (k : Koid) :
      Move s (.handle k :: due) pending (s.closeHandleRef k) due pending
  /-- A handle that stays open, a root region that is gone already. -/
  | keep {s : Kernel} {due : List Debt} {pending : List Koid} {debt : Debt} :
      Move s (debt :: due) pending s due pending
  | take {s t : Kernel} {due : List Debt} {pending : List Koid} {k : Koid}
      (taken : s.acquireKernelRef k = some t) : Move s due pending t due (k :: pending)
  | give {s : Kernel} {due : List Debt} {pending : List Koid} (k : Koid) :
      Move s due (k :: pending) (s.closeKernelRef k) due pending
  /-- A reference that is never given back. -/
  | leak {s : Kernel} {due : List Debt} {k : Koid} {pending : List Koid} :
      Move s due (k :: pending) s due pending
  | drop {s : Kernel} {due : List Debt} {pending : List Koid} {k : Koid}
      (idle : s.accounts k = some ⟨0, 0⟩) :
      Move s due pending (((s.unregister k).dropVmo k).dropResource k) due pending
  | process {s : Kernel} {due : List Debt} {pending : List Koid} {k : Koid} {p q : Process}
      (found : s.processes k = some p) (same : q.runtime = p.runtime) :
      Move s due pending (s.setProcess k q) due pending
  | strip {s : Kernel} {due : List Debt} {pending : List Koid} {k : Koid} {p : Process} {runtime : Runtime}
      (found : s.processes k = some p) (running : p.runtime = some runtime) :
      Move s due pending ((s.setProcess k p.stripped).freeFrames runtime.owned) due pending
  | erase {s : Kernel} {due : List Debt} {pending : List Koid} {k : Koid} {v : Vmar}
      (idle : s.accounts k = some ⟨0, 0⟩) (region : s.vmars k = some v)
      (unrooted : s.holdsRoot k v = false) :
      Move s due pending (s.eraseVmar k) due (v.holds ++ pending)
  | uproot {s : Kernel} {due : List Debt} {pending : List Koid} {r : Koid} {v : Vmar}
      (region : s.vmars r = some v) :
      Move s (.root r :: due) pending ((s.unregister r).eraseVmar r) due (v.holds ++ pending)
  | region {s : Kernel} {due : List Debt} {pending : List Koid} {k : Koid} {v w : Vmar}
      (region : s.vmars k = some v) (process : w.process = v.process) (parent : w.parent = v.parent)
      (perm : w.mappings.Perm v.mappings) (wf : v.WellFormed → w.WellFormed) :
      Move s due pending (s.setVmar k w) due pending
  | newRegion {s : Kernel} {due : List Debt} {pending : List Koid} {q : Koid} {v : Vmar}
      (empty : v.mappings = []) (wf : v.WellFormed) (parent : v.parent = some q) :
      Move s due (q :: pending) ((s.register s.nextKoid).setVmar s.nextKoid v) due pending
  | newVmo {s : Kernel} {due : List Debt} {pending : List Koid} {o : Vmo}
      (unused : ∀ f ∈ o.frames, f ∈ s.free) : Move s due pending (s.addVmo o) due pending
  | skipKoid {s : Kernel} {due : List Debt} {pending : List Koid} :
      Move s due pending s.skipKoid due pending
  | setInFlight {s : Kernel} {due : List Debt} {pending : List Koid} (handles : List Handle) :
      Move s due pending (s.setInFlight handles) due pending

variable {s t : Kernel} {k r caller : Koid} {v : Vmar} {p : Process} {due : List Debt}
  {pending : List Koid}

namespace Move

theorem forgetProcess (k : Koid) : Move s due pending (s.forgetProcess k) due pending := by
  rw [Kernel.forgetProcess]
  split
  next p found =>
    split
    · exact .process (q := { p with indexed := false }) found rfl
    · exact .refl
  · exact .refl

theorem removeChildOf (parent k : Koid) : Move s due pending (s.removeChildOf parent k) due pending := by
  rw [Kernel.removeChildOf]
  split
  next v _ found =>
    obtain ⟨children, same, -⟩ := v.removeChild_eq k
    refine .region (w := v.removeChild k) found ?_ ?_ ?_ (fun wf => wf.dropChild k) <;> rw [same]
  · exact .refl

theorem foldl_mappings {f : Kernel → VmarMapping → Kernel}
    (each : ∀ s m pending, Move s due (m.vmo :: pending) (f s m) due pending) (l : List VmarMapping)
    (s : Kernel) : Move s due (l.map vmo ++ pending) (l.foldl f s) due pending := by
  induction l generalizing s with
  | nil => exact .refl
  | cons m rest ih => exact (each s m _).trans (ih _)

theorem drop_rest (s : Kernel) (k : Koid) :
    let t := ((s.unregister k).dropVmo k).dropResource k
    t.accounts = (s.unregister k).accounts ∧ t.vmars = s.vmars ∧ t.nextKoid = s.nextKoid ∧
      t.processes = s.processes := by
  simp only [dropVmo, Kernel.unregister, dropResource]
  split <;> exact ⟨rfl, rfl, rfl, rfl⟩

theorem forgetProcess_drop (s : Kernel) (k : Koid) :
    (((s.unregister k).dropVmo k).dropResource k).forgetProcess k =
      (((s.forgetProcess k).unregister k).dropVmo k).dropResource k := by
  cases vmo : s.vmos k <;> cases process : s.processes k
  all_goals simp only [Kernel.forgetProcess, dropVmo, Kernel.unregister, dropResource, vmo, process]
  all_goals split <;> simp only [vmo]

theorem eraseVmar_drop (s : Kernel) (k : Koid) :
    (((s.unregister k).dropVmo k).dropResource k).eraseVmar k =
      (((s.eraseVmar k).unregister k).dropVmo k).dropResource k := by
  simp only [eraseVmar, dropVmo, Kernel.unregister, dropResource]
  split <;> rfl

theorem forgetProcess_accounts (s : Kernel) (k : Koid) : (s.forgetProcess k).accounts = s.accounts := by
  rw [Kernel.forgetProcess]
  split
  · split <;> rfl
  · rfl

theorem collectFrom (depth : Nat) (k : Koid) :
    Move s due pending (collectFrom depth k s) due pending := by
  induction depth generalizing k s pending with
  | zero => exact .refl
  | succ depth ih =>
    rw [collectFrom]
    split
    next idle =>
      rw [← forgetProcess_accounts s k] at idle
      refine (Move.forgetProcess k).trans ?_
      dsimp only
      rw [forgetProcess_drop]
      generalize s.forgetProcess k = s at idle ⊢
      obtain ⟨-, vmars, -, processes⟩ := drop_rest s k
      split
      · exact .drop idle
      next v region =>
      split
      · exact .drop idle
      next unrooted =>
      rw [vmars] at region
      simp only [holdsRoot, processes, Bool.not_eq_true] at unrooted
      rw [eraseVmar_drop]
      -- the region goes while its account still shows that nothing refers to it
      refine ((Move.erase idle region unrooted).trans (.drop idle)).trans ?_
      rw [Vmar.holds, append_assoc]
      refine (foldl_mappings (fun s m pending => (Move.give m.vmo).trans (ih m.vmo)) v.mappings _).trans ?_
      split
      next orphan =>
        rw [orphan]
        exact .refl
      next q parent =>
      rw [parent]
      exact ((Move.removeChildOf q k).trans (.give q)).trans (ih q)
    · exact .refl

theorem noteKernelRefClose (k : Koid) :
    Move s due (k :: pending) (s.noteKernelRefClose k) due pending :=
  (Move.give k).trans (.collectFrom _ k)

theorem noteHandleClose (k : Koid) :
    Move s (.handle k :: due) pending (s.noteHandleClose k) due pending :=
  (Move.closed k).trans (.collectFrom _ k)

theorem releaseMappings (mappings : List VmarMapping) :
    Move s due (mappings.map vmo ++ pending) (s.releaseMappings mappings) due pending :=
  foldl_mappings (fun _ m _ => .noteKernelRefClose m.vmo) mappings s

theorem withHandles (found : s.processes k = some p) (handles : HandleTable) :
    Move s due pending (s.setProcess k (p.withHandles handles)) due pending := .process found rfl

theorem addWithCommit (found : s.processes caller = some p) (handle : Handle) (copied : Bool) :
    Move s due pending (addWithCommit caller p handle copied s).2 due pending := by
  have opened : Move s due pending (s.noteHandleOpen handle.koid) (.handle handle.koid :: due) pending :=
    .opened _
  have found : (s.noteHandleOpen handle.koid).processes caller = some p := found
  simp only [Vm.addWithCommit]
  split
  · exact opened.trans ((Move.withHandles found _).trans .keep)
  · exact opened.trans ((Move.withHandles found _).trans (.noteHandleClose _))

theorem sysVmoCreate {size : Nat} {executable copied : Bool} {frames : List Nat}
    (found : s.processes caller = some p) :
    Move s due pending (sysVmoCreate caller p size executable frames copied s).2 due pending := by
  have found : (s.addVmo ⟨size, frames⟩).processes caller = some p := found
  simp only [Vm.sysVmoCreate]
  split
  · exact .refl
  split
  · exact .refl
  split
  next unused => exact (Move.newVmo unused.2.2).trans (.addWithCommit found _ _)
  · exact .refl

end Move

open Move

theorem acquireKernelRef_some (taken : s.acquireKernelRef k = some t) :
    ∃ accounts, t = { s with accounts := accounts } := by
  rw [acquireKernelRef] at taken
  split at taken
  · cases taken
  cases taken
  exact ⟨_, rfl⟩

theorem acquireRefs_some {extra : Nat} (taken : acquireRefs k extra s = some t) :
    ∃ accounts, t = { s with accounts := accounts } := by
  induction extra generalizing s with
  | zero =>
    cases taken
    exact ⟨_, rfl⟩
  | succ extra ih =>
    rw [acquireRefs] at taken
    split at taken
    · cases taken
    next next =>
    obtain ⟨_, rfl⟩ := acquireKernelRef_some next
    obtain ⟨accounts, rfl⟩ := ih taken
    exact ⟨accounts, rfl⟩

theorem lookupVmar_ok (found : s.lookupVmar k = .ok v) : s.vmars k = some v := by
  rw [lookupVmar] at found
  split at found <;> cases found
  next here => exact here

namespace Move

theorem acquireRefs {extra : Nat} (taken : acquireRefs k extra s = some t) :
    Move s due pending t due (List.replicate extra k ++ pending) := by
  induction extra generalizing s pending with
  | zero =>
    cases taken
    exact .refl
  | succ extra ih =>
    rw [Vm.acquireRefs] at taken
    split at taken
    · cases taken
    next next =>
    have rest : Move _ due (k :: pending) t due (List.replicate extra k ++ k :: pending) := ih taken
    rw [append_cons, ← replicate_succ'] at rest
    exact (take next).trans rest

/-- References that a call takes before its CPU stops stay with nobody. -/
theorem leaked {extra : Nat} (taken : Vm.acquireRefs k extra s = some t) : Move s due pending t due pending := by
  refine (Move.acquireRefs taken).trans ?_
  generalize extra = n
  induction n with
  | zero => exact .refl
  | succ n ih => exact leak.trans ih

theorem sysVmarCreateChild {parent addr len : Nat} {copied : Bool}
    (wellFormed : ∀ r v, s.vmars r = some v → v.WellFormed) (found : s.processes caller = some p) :
    Move s due pending (sysVmarCreateChild caller p parent addr len copied s).2 due pending := by
  rw [Vm.sysVmarCreateChild]
  split
  · exact .refl
  split
  · exact .refl
  next handle _ =>
  split
  · exact .refl
  split
  · exact .refl
  next v region =>
  have region := lookupVmar_ok region
  split
  · exact .refl
  split
  · exact .refl
  next s' taken =>
  have start : Move s due pending s' due (handle.koid :: pending) := .take taken
  obtain ⟨accounts, rfl⟩ := acquireKernelRef_some taken
  dsimp only
  split
  · split
    · exact start.trans (skipKoid.trans (.noteKernelRefClose _))
    next w recorded =>
    obtain ⟨inside, -, eq⟩ := Vmar.recordChild_ok recorded
    have wf := wellFormed _ v region
    obtain ⟨-, -, high⟩ := (Vmar.containsRange_iff wf.fits).mp inside
    have booked : Move { s with accounts := accounts } due (handle.koid :: pending)
        (setVmar { s with accounts := accounts } handle.koid w) due
        (handle.koid :: pending) :=
      .region region (by rw [eq]) (by rw [eq]) (by rw [eq]) (fun wf => wf.addChild recorded)
    refine ((start.trans booked).trans (.newRegion rfl ?_ rfl)).trans (.addWithCommit (by exact found) _ _)
    exact ⟨high.trans_lt wf.fits, by simp, .nil, by simp, by simp⟩
  · exact start.trans .leak

section
variable (found : s.processes caller = some p)
include found

theorem sysHandleDuplicate {handle : Nat} {rights : Rights} {copied : Bool}
    :
    Move s due pending (sysHandleDuplicate caller p handle rights copied s).2 due pending := by
  rw [Vm.sysHandleDuplicate]
  repeat' split
  all_goals first | exact .refl | exact .addWithCommit found _ _

theorem sysHandleClose {handle : Nat} :
    Move s ((HandleTable.get p.handles handle).toList.map (fun h => .handle h.koid) ++ due) pending
      (sysHandleClose caller p handle s).2 due pending := by
  rw [Vm.sysHandleClose]
  split
  next none => rw [none]; exact .refl
  next h here =>
    rw [here]
    exact (withHandles found _).trans (.noteHandleClose _)

theorem sysHandleSend {handle : Nat} : Move s due pending (sysHandleSend caller p handle s).2 due pending := by
  rw [Vm.sysHandleSend]
  repeat' split
  · exact .refl
  · exact .refl
  · exact (withHandles found _).trans (.setInFlight _)

theorem sysHandleReceive {idx : Nat} : Move s due pending (sysHandleReceive caller p idx s).2 due pending := by
  rw [Vm.sysHandleReceive]
  split
  · exact .refl
  · exact (withHandles found _).trans (.setInFlight _)

theorem sysProcessExit : Move s due pending (sysProcessExit caller p s).2 due pending := by
  refine (process (q := { p with exited := true }) found rfl).trans ?_
  rw [Vm.sysProcessExit, collectExitedProcess]
  dsimp only
  split
  · exact (forgetProcess _).trans (.collectFrom _ _)
  · exact (forgetProcess _).trans (.collectFrom _ _)
  · exact .collectFrom _ _

end

theorem dropRuntime (found : s.processes k = some p) :
    Move s (p.runtime.toList.map (fun runtime => .root runtime.rootVmar) ++ due) pending
      (dropRuntime k p s) due pending := by
  rw [Vm.dropRuntime]
  split
  next none => rw [none]; exact .refl
  next runtime run =>
  have gone : Move s (.root runtime.rootVmar :: due) pending
      ((s.setProcess k p.stripped).freeFrames runtime.owned) (.root runtime.rootVmar :: due) pending :=
    .strip found run
  rw [run]
  dsimp only
  split
  · exact gone.trans .keep
  next root region =>
  refine (gone.trans (.uproot region)).trans ?_
  rw [Vmar.holds, append_assoc]
  refine (releaseMappings root.mappings).trans ?_
  cases root.parent with
  | none => exact .refl
  | some q => exact .leak

theorem clearHandles (found : s.processes k = some p) :
    Move s (p.handles.reduceOption.map (fun h => .handle h.koid) ++ due) pending
      (clearHandles k s) due pending := by
  rw [Vm.clearHandles, found]
  dsimp only
  refine (withHandles found (p.handles.map fun _ => none)).trans ?_
  generalize s.setProcess _ _ = s, p.handles.reduceOption = handles
  induction handles generalizing s with
  | nil => exact .refl
  | cons h rest ih => exact (Move.noteHandleClose h.koid).trans (ih _)

end Move

section Untouched
variable {α β : Type} {f : Process → α} {l : Koid}

theorem foldl_map {g : Kernel → β → Kernel} (each : ∀ s b, ((g s b).processes l).map f = (s.processes l).map f)
    (bs : List β) (s : Kernel) : ((bs.foldl g s).processes l).map f = (s.processes l).map f :=
  bs.foldlRecOn g (motive := fun t => (t.processes l).map f = (s.processes l).map f) rfl
    fun t same b _ => (each t b).trans same

variable (blind : ∀ p, f { p with indexed := false } = f p)
include blind

theorem forgetProcess_map (s : Kernel) (k l : Koid) :
    ((s.forgetProcess k).processes l).map f = (s.processes l).map f := by
  rw [Kernel.forgetProcess]
  split
  next p found =>
    split
    · dsimp only
      by_cases here : l = k
      · rw [here, Function.update_self, found, Option.map_some, Option.map_some, blind]
      · rw [Function.update_of_ne here]
    · rfl
  · rfl

/-- Collection changes nothing of a process but whether it is listed. -/
theorem collectFrom_map (depth : Nat) (k l : Koid) (s : Kernel) :
    ((Kernel.collectFrom depth k s).processes l).map f = (s.processes l).map f := by
  have unlinked (s : Kernel) (parent k : Koid) : (s.removeChildOf parent k).processes = s.processes := by
    rw [Kernel.removeChildOf]
    split <;> rfl
  induction depth generalizing k s with
  | zero => rfl
  | succ depth ih =>
    have dropped := (forgetProcess_map blind (((s.unregister k).dropVmo k).dropResource k) k l).trans
      (congrArg (fun table => (table l).map f) (drop_rest s k).2.2.2)
    rw [Kernel.collectFrom]
    split
    · dsimp only
      split
      · exact dropped
      next v _ =>
      split
      · exact dropped
      have erased := (foldl_map (fun s m => ih m.vmo (s.closeKernelRef m.vmo)) v.mappings (eraseVmar _ k)).trans
        dropped
      split
      · exact erased
      · rw [ih]
        dsimp only [closeKernelRef, adjust]
        rw [unlinked]
        exact erased
    · rfl

theorem releaseMappings_map (mappings : List VmarMapping) (l : Koid) (s : Kernel) :
    ((s.releaseMappings mappings).processes l).map f = (s.processes l).map f :=
  foldl_map (fun _ _ => by exact collectFrom_map blind _ _ l _) mappings s

theorem closeHandles_map (handles : List Handle) (l : Koid) (s : Kernel) :
    ((handles.foldl (fun s h => s.noteHandleClose h.koid) s).processes l).map f = (s.processes l).map f :=
  foldl_map (fun _ _ => by exact collectFrom_map blind _ _ l _) handles s

end Untouched

/-- What the teardown of a process takes away. -/
def Process.debts (p : Process) : List Debt :=
  p.runtime.toList.map (fun runtime => .root runtime.rootVmar) ++
    p.handles.reduceOption.map fun h => .handle h.koid

theorem dropRuntime_process (found : s.processes k = some p) :
    ∃ q, (dropRuntime k p s).processes k = some q ∧ q.handles = p.handles ∧ q.runtime = none := by
  have gone (frames : List Nat) :
      (((s.setProcess k p.stripped).freeFrames frames).processes k).map
        (fun q => (q.handles, q.runtime)) = some (p.handles, none) := by
    dsimp only [freeFrames, setProcess]
    rw [Function.update_self]
    rfl
  have tables : ((dropRuntime k p s).processes k).map (fun q => (q.handles, q.runtime)) =
      some (p.handles, none) := by
    rw [Vm.dropRuntime]
    split
    next none =>
      rw [found, Option.map_some, none]
    next runtime _ =>
    dsimp only
    split
    · exact gone runtime.owned
    next root _ => exact (releaseMappings_map (fun _ => rfl) root.mappings k _).trans (gone runtime.owned)
  obtain ⟨q, after, eq⟩ := Option.map_eq_some_iff.mp tables
  exact ⟨q, after, congrArg Prod.fst eq, congrArg Prod.snd eq⟩

theorem Move.teardownProcess (found : s.processes k = some p) :
    Move s (p.debts ++ due) pending (teardownProcess k p s) due pending := by
  obtain ⟨q, after, same, -⟩ := dropRuntime_process found
  rw [Process.debts, append_assoc, ← same]
  exact (Move.dropRuntime found).trans (.clearHandles after)

theorem teardownProcess_runtime (found : s.processes k = some p) :
    ((Vm.teardownProcess k p s).processes k).bind Process.runtime = none := by
  obtain ⟨q, after, -, gone⟩ := dropRuntime_process found
  have cleared : ((Vm.teardownProcess k p s).processes k).map Process.runtime = some none := by
    rw [Vm.teardownProcess, Vm.clearHandles, after]
    refine (closeHandles_map (fun _ => rfl) _ k _).trans ?_
    dsimp only [setProcess]
    rw [Function.update_self, Option.map_some]
    exact congrArg some gone
  obtain ⟨u, here, stripped⟩ := Option.map_eq_some_iff.mp cleared
  rw [here]
  exact stripped

end HuesOS.Vm
