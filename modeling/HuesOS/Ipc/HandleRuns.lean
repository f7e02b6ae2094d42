import HuesOS.Ipc.HandleCounts

namespace HuesOS.Ipc
open List Function HandleTable
open Object

namespace HandleWorld

/-- The registry counts what there is, and has collected the objects that had references and have
none any more, each of them once. -/
structure Orderly (w : HandleWorld) : Prop where
  counted : ∀ k, w.handleCount k = (w.inTables ++ w.inFlight).count k
  kernels : ∀ k, w.kernelCount k = w.kernelRefs.count k
  collected : ∀ k, .opened k ∈ w.log →
    (.collected k ∈ w.log ↔ w.handleCount k = 0 ∧ w.kernelCount k = 0)
  once : ∀ k, w.log.count (.collected k) ≤ 1
  late : ∀ k, .removed k ∉ w.log

variable {w : HandleWorld} {pid : Nat} {p : HandleProcess}

theorem Sound.orderly (h : w.Sound) (closed : w.closing = []) : w.Orderly := by
  have all : w.named = w.inTables ++ w.inFlight := by rw [named, closed, append_nil]
  have counts (k : Koid) : w.handleCount k = w.named.count k ∧ w.kernelCount k = w.kernelRefs.count k := by
    rw [handleCount, kernelCount]
    rcases h.views k with known | unknown
    · rw [show w.registry.account k = _ from known.account]
      exact ⟨rfl, rfl⟩
    · rw [show w.registry.account k = none from unknown.account]
      exact ⟨unknown.handles.symm, unknown.kernelRefs.symm⟩
  refine ⟨fun k => all ▸ (counts k).1, fun k => (counts k).2, fun k seen => ?_, fun k => ?_, fun k => ?_⟩
  · rw [(counts k).1, (counts k).2, ← count_pos_iff]
    rcases h.views k with known | unknown
    · have alive : w.log.count (.collected k) = 0 := known.alive
      have used : 0 < w.named.count k + w.kernelRefs.count k := known.used id (decide_eq_true seen)
      omega
    · have gone : w.log.count (.collected k) = 1 := unknown.gone (decide_eq_true seen)
      exact iff_of_true (gone ▸ Nat.one_pos) ⟨unknown.handles, unknown.kernelRefs⟩
  · rcases h.views k with known | unknown
    · exact known.alive.trans_le (Nat.zero_le 1)
    · exact unknown.once
  · rcases h.views k with known | unknown
    · exact of_decide_eq_false known.kept
    · exact of_decide_eq_false unknown.kept

def blank : HandleWorld where
  registry := Registry.new
  processes := []
  channels := []
  nextKoid := rootJob
  held := []
  orphans := []
  kernelRefs := []
  closing := []
  log := []

theorem sound_blank : blank.Sound :=
  ⟨fun _ => .inr ⟨rfl, rfl, rfl, rfl, nofun, Nat.zero_le 1, nofun, rfl⟩, Nat.one_pos⟩

theorem sound_boot : boot.Sound :=
  SoundBut.moved (((sound_blank.registerObject .job).registerObject (.process 0)).registerObject .plain)
    rfl fun _ => rfl

theorem settle_unknown {koid : Koid} (closing : w.closing = [koid])
    (unknown : w.registry.account koid = none) : w.settle = { w with closing := [] } := by
  have one : w.closeNext = { w with closing := [] } := by
    rw [closeNext, closing]
    have eq : w.registry.noteHandleClose koid = (none, w.registry) := by
      rw [Registry.noteHandleClose]
      split
      · rfl
      rw [Registry.updateAccount, unknown]
      dsimp only
      rw [Registry.collectObject, unknown]
    dsimp only
    rw [eq]
    rfl
  have some_ : w.named.length = (w.named.length - 1) + 1 := by
    rw [named, closing, length_append]
    rfl
  rw [settle, some_, iterate_succ_apply, one]
  exact iterate_fixed rfl _

theorem settle_of_closing (closed : w.closing = []) : w.settle = w := by
  have eq : w.closeNext = w := by rw [closeNext, closed]
  rw [settle, iterate_fixed eq]

/-- A handle to a job that the registry has given up is put in the table and not counted. -/
theorem jobDefault_unknown (there : w.processes[pid]? = some p)
    (unknown : w.registry.account p.job = none) (commit : Bool) :
    (w.jobDefault pid commit).2 =
      if commit then w.setTable pid (p.table.addExisting ⟨p.job, jobRights⟩).2
      else (w.setTable pid ((p.table.addExisting ⟨p.job, jobRights⟩).2.vacate
        (p.table.addExisting ⟨p.job, jobRights⟩).1)).closeAll [p.job] := by
  have eq : w.noteHandleOpen p.job = w := by
    rw [noteHandleOpen, unknown]
    have kept : w.registry.noteHandleOpen p.job = w.registry := by
      rw [Registry.noteHandleOpen]
      split
      · rfl
      · rw [Registry.updateAccount, unknown]
    rw [kept]
    rfl
  rw [jobDefault, there]
  dsimp only
  rw [addWithCommit, there]
  dsimp only
  rw [eq]
  split <;> rfl

/-- If the value of the handle cannot be copied out, the handle goes again. -/
theorem Sound.settle_jobDefault (h : w.Sound) (closed : w.closing = [])
    (there : w.processes[pid]? = some p) (unknown : w.registry.account p.job = none) :
    (w.jobDefault pid false).2.settle.Sound ∧ (w.jobDefault pid false).2.settle.closing = [] := by
  obtain ⟨slot, added, -⟩ := addExisting_spec p.table ⟨p.job, jobRights⟩
  rw [jobDefault_unknown there unknown, if_neg Bool.false_ne_true]
  have eq : ∀ k, ((p.table.addExisting ⟨p.job, jobRights⟩).2.vacate
      (p.table.addExisting ⟨p.job, jobRights⟩).1).koids.count k = p.table.koids.count k := by
    intro k
    have new := added k
    have back := count_koids_vacate (k := k) slot
    omega
  generalize (p.table.addExisting ⟨p.job, jobRights⟩).2.vacate
    (p.table.addExisting ⟨p.job, jobRights⟩).1 = t at eq
  have closing : ((w.setTable pid t).closeAll [p.job]).closing = [p.job] := congrArg ([p.job] ++ ·) closed
  rw [settle_unknown closing unknown]
  refine ⟨SoundBut.moved h rfl fun k => ?_, rfl⟩
  have table := count_setTable there t k
  rw [eq] at table
  have open_ : HandleWorld.named { (w.setTable pid t).closeAll [p.job] with closing := [] } =
      (w.setTable pid t).named := by
    rw [named, named]
    exact congrArg _ closed.symm
  rw [open_]
  exact Nat.add_right_cancel table

/-- If it can, there is one handle more than the registry counts. -/
theorem not_orderly_jobDefault (closed : w.closing = []) (there : w.processes[pid]? = some p)
    (unknown : w.registry.account p.job = none) :
    ¬(w.jobDefault pid true).2.settle.Orderly := by
  obtain ⟨-, added, -⟩ := addExisting_spec p.table ⟨p.job, jobRights⟩
  have start := jobDefault_unknown there unknown true
  rw [if_pos rfl] at start
  rw [settle_of_closing (by rw [start]; exact closed), start]
  intro orderly
  have counted := orderly.counted p.job
  have table := count_setTable there (p.table.addExisting ⟨p.job, jobRights⟩).2 p.job
  have new := added p.job
  have none : (w.setTable pid (p.table.addExisting ⟨p.job, jobRights⟩).2).handleCount p.job = 0 := by
    change ((w.registry.account p.job).map RefAccount.handleRefs).getD 0 = 0
    rw [unknown]
    rfl
  have all : (w.setTable pid (p.table.addExisting ⟨p.job, jobRights⟩).2).named =
      (w.setTable pid (p.table.addExisting ⟨p.job, jobRights⟩).2).inTables ++
        (w.setTable pid (p.table.addExisting ⟨p.job, jobRights⟩).2).inFlight := by
    rw [named]
    exact (congrArg _ closed).trans (append_nil _)
  rw [none, ← all] at counted
  rw [count_singleton_self] at new
  omega

theorem log_dropObject (kind : ObjectKind) : (w.dropObject kind).log = w.log :=
  congrArg (·.2.2.1) (dropObject_books kind)

theorem mem_log_giveUp {event : RegistryEvent} (mem : event ∈ w.log) (koid : Koid)
    (removed : Option ObjectKind) : event ∈ (w.giveUp koid removed).log := by
  have log := congrArg (·.2.2.1) (giveUp_same (w := w) koid removed).2
  dsimp only [books] at log
  rw [log]
  split
  · exact mem_cons_of_mem _ mem
  · exact mem

theorem mem_log_settle {event : RegistryEvent} (mem : event ∈ w.log) : event ∈ w.settle.log := by
  rw [settle]
  generalize w.named.length = n
  induction n generalizing w with
  | zero => exact mem
  | succ n ih =>
    rw [iterate_succ_apply]
    refine ih ?_
    rw [closeNext]
    split
    · exact mem
    · refine mem_log_giveUp ?_ _ _
      exact mem

/-- The root region leaves the registry with references. -/
theorem removed_exit {vmar : Koid} {a : RefAccount} (there : w.processes[pid]? = some p)
    (root : p.rootVmar = some vmar) (found : w.registry.account vmar = some a)
    (used : ¬(a.handleRefs = 0 ∧ a.kernelRefs = 0)) : .removed vmar ∈ (w.exit pid).log := by
  have dropped : .removed vmar ∈ (w.dropRuntime pid p).log := by
    rw [dropRuntime, root]
    dsimp only
    rw [removal, found]
    dsimp only
    rw [if_neg used]
    exact mem_cons_self ..
  have released : .removed vmar ∈
      ((((w.dropRuntime pid p).setTable pid p.table.clear).closeAll p.table.koids).release p.koid).log := by
    rw [release]
    split
    · exact dropped
    split
    · exact dropped
    · rw [log_dropObject]
      exact dropped
  rw [exit, there]
  refine mem_log_giveUp ?_ _ _
  exact released

end HandleWorld

namespace HandleOp
variable {w : HandleWorld}

/-- A process that asks for a handle to its job finds the job registered, and when a process exits
nobody has a reference to its root region. -/
def Allowed : HandleOp → HandleWorld → Prop
  | .jobDefault pid true, w =>
    ∀ p, w.processes[pid]? = some p → (w.registry.account p.job).isSome = true
  | .exit pid, w => ∀ p vmar a, w.processes[pid]? = some p → p.rootVmar = some vmar →
    w.registry.account vmar = some a → a.handleRefs = 0 ∧ a.kernelRefs = 0
  | _, _ => True

theorem sound_run (op : HandleOp) (h : w.Sound) (closed : w.closing = []) (allowed : op.Allowed w) :
    (op.run w).Sound ∧ (op.run w).closing = [] := by
  unfold run
  cases op with
  | jobCreate pid parent fits commit => exact (h.jobCreate pid parent fits commit).settle
  | createObject pid rights commit => exact (h.createObject pid _ rights commit).settle
  | channelCreate pid storage commit => exact (h.channelCreate pid storage commit).settle
  | processCreate pid commit => exact (h.newProcess pid _ commit).settle
  | processCreateInJob pid job commit => exact (h.processCreateInJob pid job commit).settle
  | jobDefault pid commit =>
    rw [start]
    cases there : w.processes[pid]? with
    | none =>
      rw [HandleWorld.jobDefault, there]
      exact h.settle
    | some p =>
      cases found : w.registry.account p.job with
      | some a =>
        rw [HandleWorld.jobDefault, there]
        exact (h.addWithCommit (by rw [found]; rfl) pid commit).settle
      | none =>
        cases commit with
        | false => exact h.settle_jobDefault closed there found
        | true =>
          have known := allowed p there
          rw [found] at known
          cases known
  | threadStart pid child storage commit started =>
    exact (h.threadStart pid child storage commit started).settle
  | duplicate pid val rights commit => exact (h.handleDuplicate pid val rights commit).settle
  | close pid val => exact (h.handleClose pid val).settle
  | channelWrite pid channel data values storage =>
    exact (h.channelWrite pid channel data values storage).settle
  | channelRead pid channel cookie byteCapacity handleCapacity copied commit =>
    exact (h.channelRead pid channel cookie byteCapacity handleCapacity copied commit).settle
  | kernelRefOpen koid => exact (h.kernelRefOpen koid).settle
  | kernelRefClose koid => exact (h.kernelRefClose koid).settle
  | hold koid => exact (h.hold koid).settle
  | release koid => exact (h.release koid).settle
  | exit pid => exact (h.exit pid allowed).settle

theorem not_orderly_run {op : HandleOp} (closed : w.closing = []) (refused : ¬op.Allowed w) :
    ¬(op.run w).Orderly := by
  cases op with
  | jobDefault pid commit =>
    cases commit with
    | false => exact absurd trivial refused
    | true =>
      simp only [Allowed, not_forall, Option.isSome_iff_ne_none, ne_eq, not_not] at refused
      obtain ⟨p, there, unknown⟩ := refused
      exact HandleWorld.not_orderly_jobDefault closed there unknown
  | exit pid =>
    simp only [Allowed, not_forall] at refused
    obtain ⟨p, vmar, a, there, root, found, used⟩ := refused
    intro orderly
    exact orderly.late vmar (HandleWorld.mem_log_settle (HandleWorld.removed_exit there root found used))
  | _ => exact absurd trivial refused

def EveryState (P : HandleWorld → Prop) : List HandleOp → HandleWorld → Prop
  | [], w => P w
  | op :: rest, w => P w ∧ EveryState P rest (op.run w)

def EveryStep (A : HandleOp → HandleWorld → Prop) : List HandleOp → HandleWorld → Prop
  | [], _ => True
  | op :: rest, w => A op w ∧ EveryStep A rest (op.run w)

theorem EveryState.here {P : HandleWorld → Prop} {ops : List HandleOp} (all : EveryState P ops w) : P w := by
  cases ops with
  | nil => exact all
  | cons op rest => exact all.1

theorem everyState_orderly (ops : List HandleOp) (h : w.Sound) (closed : w.closing = []) :
    EveryState HandleWorld.Orderly ops w ↔ EveryStep Allowed ops w := by
  induction ops generalizing w with
  | nil => exact iff_of_true (h.orderly closed) trivial
  | cons op rest ih =>
    constructor
    · intro all
      have allowed : op.Allowed w := by
        by_contra refused
        exact not_orderly_run closed refused all.2.here
      obtain ⟨sound, settled⟩ := sound_run op h closed allowed
      exact ⟨allowed, (ih sound settled).mp all.2⟩
    intro all
    obtain ⟨sound, settled⟩ := sound_run op h closed all.1
    exact ⟨h.orderly closed, (ih sound settled).mpr all.2⟩

end HandleOp

namespace HandleWorld

/-- From the start of the system on, the registry's counts are those of the handles in tables and
messages and of the kernel's references, and objects are collected when their counts come to zero,
if and only if no process gets a handle to a job that the registry has given up, and none exits while
somebody has a reference to its root region. -/
theorem orderly_iff_allowed (ops : List HandleOp) :
    HandleOp.EveryState Orderly ops boot ↔ HandleOp.EveryStep HandleOp.Allowed ops boot :=
  HandleOp.everyState_orderly ops sound_boot rfl

/-- The first process gets a handle to its job, closes it, and gets another one. The registry has
given up the job by then, so the last handle is not counted. -/
theorem job_handle_not_counted :
    ¬HandleOp.EveryState Orderly [.jobDefault 0 true, .close 0 1, .jobDefault 0 true] boot := by
  intro all
  have last := all.2.2.2.counted rootJob
  revert last
  decide +kernel

end HandleWorld
end HuesOS.Ipc
