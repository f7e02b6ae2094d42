import HuesOS.Sched.Tasks
import Mathlib

namespace HuesOS.Sched
open List Function TaskId TaskSlotAllocator Sched
open TaskDirectoryEntry
variable {id : TaskId} {owner : CpuIndex} {index : Nat} {e : TaskDirectoryEntry}

theorem publish_invalid (invalid : validLocalIndex index = false) :
    publish id owner index e = (.error .invalidLocalIndex, e) := by
  rw [publish, invalid]
  rfl

theorem retire_cases : (∃ err, retire id e = (.error err, e)) ∨
    e.publishedId = id.raw ∧ ∃ sequence, retire id e = (.ok (), ⟨sequence, 0, 0, 0, 0⟩) := by
  by_cases published : e.publishedId = id.raw
  · by_cases current : generationOf e.pendingOperations = id.generation
    · refine .inr ⟨published, bump (bump e.sequence), ?_⟩
      simp [retire, unpublish, published, unpublishUpdate, current]
    refine .inl ⟨unpublishError e.pendingOperations id, ?_⟩
    simp [retire, unpublish, published, unpublishUpdate, current]
  refine .inl ⟨.staleIdentity, ?_⟩
  simp [retire, unpublish, published]

namespace TaskSlotAllocator
variable {a : TaskSlotAllocator} {slot : Fin maxTasks}

theorem lowestFree_eq_some :
    a.lowestFree = some slot ↔ a.taken slot = false ∧ ∀ lower < slot, a.taken lower = true := by
  rw [lowestFree, find?_eq_some_iff_getElem]
  constructor
  · rintro ⟨free, i, inside, here, pre⟩
    rw [getElem_finRange] at here
    subst here
    refine ⟨by simpa using free, ?_⟩
    intro lower less
    have := pre lower.val less
    simpa using this
  rintro ⟨free, pre⟩
  refine ⟨by simpa using free, slot.val, by simp, by simp, ?_⟩
  intro j less
  simpa using pre ⟨j, lt_trans less slot.isLt⟩ less

def advance (a : TaskSlotAllocator) (slot : Fin maxTasks) (taken : Bool) (generation : Nat) :
    TaskSlotAllocator :=
  ⟨update a.taken slot taken, update a.generations slot generation⟩

section Advance
variable {other : Fin maxTasks} {taken : Bool} {generation : Nat}

@[simp] theorem advance_taken : (a.advance slot taken generation).taken slot = taken :=
  update_self ..

@[simp] theorem advance_generations :
    (a.advance slot taken generation).generations slot = generation := update_self ..

theorem advance_taken_other (ne : other ≠ slot) :
    (a.advance slot taken generation).taken other = a.taken other :=
  update_of_ne ne ..

theorem advance_generations_other (ne : other ≠ slot) :
    (a.advance slot taken generation).generations other = a.generations other :=
  update_of_ne ne ..

end Advance

theorem allocate_full (full : a.lowestFree = none) : a.allocate = (none, a) := by
  unfold allocate
  rw [full]

theorem allocate_worn (free : a.lowestFree = some slot) (worn : a.generations slot = 2 ^ 64 - 1) :
    a.allocate = (none, a.advance slot true 0) := by
  have wraps : (2 ^ 64 - 1 + 1) % 2 ^ 64 = 0 := by decide
  unfold allocate
  rw [free]
  simp only [worn, wraps, if_true, advance]

theorem allocate_run (free : a.lowestFree = some slot) (lt : a.generations slot < 2 ^ 64 - 1) :
    a.allocate = (some (slot, a.generations slot + 1), a.advance slot true (a.generations slot + 1)) := by
  have fits : (a.generations slot + 1) % 2 ^ 64 = a.generations slot + 1 := Nat.mod_eq_of_lt (by omega)
  unfold allocate
  rw [free]
  simp only [fits, if_neg (ne_of_lt lt), advance]

theorem free_advance (generation : Nat) :
    ((a.advance slot true generation).free slot).2 = a.advance slot false generation := by
  rw [free, dif_pos slot.isLt]
  have taken : (a.advance slot true generation).taken ⟨slot, slot.isLt⟩ = true := update_self ..
  rw [if_pos taken]
  simp only [advance, update_idem]

end TaskSlotAllocator

namespace Kernel
variable {k : Kernel} {cpu : Fin kernelCpus} {slot : Fin maxTasks} {issued : List TaskId} {fair : Bool}

theorem setEntry_same (entry : TaskDirectoryEntry) :
    (k.setEntry slot entry).directory slot = entry := update_self ..

theorem setEntry_self : k.setEntry slot (k.directory slot) = k := by
  rw [setEntry, update_eq_self]

theorem addTask_full (full : k.slots.lowestFree = none) : k.addTask cpu fair = some (none, k.popped cpu) := by
  have alloc : (k.popped cpu).slots.allocate = (none, k.slots) := allocate_full full
  unfold addTask
  rw [alloc]
  rfl

theorem addTask_worn (free : k.slots.lowestFree = some slot)
    (worn : k.slots.generations slot = 2 ^ 64 - 1) :
    k.addTask cpu fair = some (none, { k.popped cpu with slots := k.slots.advance slot true 0 }) := by
  have alloc : (k.popped cpu).slots.allocate = (none, k.slots.advance slot true 0) := allocate_worn free worn
  unfold addTask
  rw [alloc]

theorem addTask_allocated (free : k.slots.lowestFree = some slot)
    (lt : k.slots.generations slot < 2 ^ 64 - 1) :
    k.addTask cpu fair = installTask cpu fair (k.nextIndex cpu) slot (k.slots.generations slot + 1)
      { k.popped cpu with
        slots := k.slots.advance slot true (k.slots.generations slot + 1) } := by
  have alloc : (k.popped cpu).slots.allocate = (some (slot, k.slots.generations slot + 1),
      k.slots.advance slot true (k.slots.generations slot + 1)) :=
    allocate_run free lt
  unfold addTask
  rw [alloc]

theorem installTask_refused {generation : Nat} (large : maxTaskGeneration < generation) :
    installTask cpu fair index slot generation k = some (none, { k with slots := (k.slots.free slot).2 }) := by
  have refused : new slot generation = none := (new_eq_none slot.isLt (by omega)).mpr large
  unfold installTask
  rw [refused]

theorem cpuIndex_new (cpu : Fin kernelCpus) : ∃ owner, CpuIndex.new cpu = some owner ∧ owner.index = cpu := by
  have lt : cpu.val < maxCpus := lt_of_lt_of_le cpu.isLt (by decide)
  exact ⟨⟨cpu, lt⟩, dif_pos lt, rfl⟩

theorem installTask_invalid (eq : id.slot = slot) (invalid : maxTasks ≤ index) :
    installTask cpu fair index slot id.generation k =
      some (none, { k with slots := (k.slots.free slot).2 }) := by
  have named : new slot id.generation = some id := new_eq_some.mpr ⟨eq, rfl⟩
  obtain ⟨owner, known, -⟩ := cpuIndex_new cpu
  have rejected : validLocalIndex index = false := by
    simp only [validLocalIndex, decide_eq_false_iff_not]
    omega
  unfold installTask
  rw [named]
  rw [known]
  dsimp only
  rw [publish_invalid rejected]
  dsimp only
  rw [setEntry_self]

/-- The kernel after a task was installed, before it is queued. -/
def installed (k : Kernel) (cpu : Fin kernelCpus) (index : Nat) (slot : Fin maxTasks) (id : TaskId) : Kernel :=
  (k.setEntry slot ((k.directory slot).holding id cpu index)).setCpu cpu
    ((k.cpus cpu).place index ⟨id, false, false⟩)

theorem installTask_run (eq : id.slot = slot) (valid : index < maxTasks)
    (quiet : (k.directory slot).publishedId = 0) :
    installTask cpu fair index slot id.generation k =
      if 0 < index ∧ fair then ((k.installed cpu index slot id).fairQueueInsert cpu).map (some id, ·)
      else some (some id, k.installed cpu index slot id) := by
  have named : new slot id.generation = some id := new_eq_some.mpr ⟨eq, rfl⟩
  obtain ⟨owner, known, number⟩ := cpuIndex_new cpu
  have ok : validLocalIndex index = true := by
    have : index < 2 ^ 16 := lt_of_lt_of_le valid (by decide)
    simp only [validLocalIndex, decide_eq_true_eq]
    exact ⟨valid, this⟩
  have replaces : replaceable (k.directory slot).publishedId id = true := by
    rw [quiet]
    exact replaceable_zero
  unfold installTask
  rw [named]
  rw [known]
  dsimp only
  rw [publish_run ok replaces, number]
  rfl

end Kernel

structure CpuTasks.Sane (c : CpuTasks) : Prop where
  once : c.freeSlots.Nodup
  reaped : ∀ i ∈ c.freeSlots, ∃ t, c.tasks[i]? = some t ∧ t.reaped = true
  crowded : c.tasks.length ≤ maxTasks

namespace CpuTasks.Sane
variable {c : CpuTasks} {t : LocalTask} {i : Nat}

theorem reserve_cases (h : c.Sane) :
    c.freeSlots = [] ∧ reserveIndex c.tasks c.freeSlots = (c.tasks.length, []) ∨
      ∃ i rest, c.freeSlots = i :: rest ∧ i < c.tasks.length ∧
        reserveIndex c.tasks c.freeSlots = (i, rest) := by
  cases free : c.freeSlots with
  | nil => exact .inl ⟨rfl, rfl⟩
  | cons i rest =>
    obtain ⟨t, found, reaped⟩ := h.reaped i (by rw [free]; exact mem_cons_self)
    refine .inr ⟨i, rest, rfl, (List.getElem?_eq_some_iff.mp found).1, ?_⟩
    rw [reserveIndex, found]
    dsimp only
    rw [if_pos reaped]

theorem popped (h : c.Sane) : CpuTasks.Sane { c with freeSlots := (reserveIndex c.tasks c.freeSlots).2 } := by
  rcases h.reserve_cases with ⟨-, run⟩ | ⟨i, rest, free, -, run⟩
  · rw [run]
    exact ⟨.nil, nofun, h.crowded⟩
  have once := h.once
  have reaped := h.reaped
  rw [free] at once reaped
  rw [run]
  exact ⟨(List.nodup_cons.mp once).2, fun j mem => reaped j (.tail i mem), h.crowded⟩

/-- The task of a creation is stored at an index that is not reusable any more. -/
theorem placed (h : c.Sane) (room : (reserveIndex c.tasks c.freeSlots).1 < maxTasks) :
    (CpuTasks.place { c with freeSlots := (reserveIndex c.tasks c.freeSlots).2 }
      (reserveIndex c.tasks c.freeSlots).1 t).Sane := by
  have pop := h.popped
  rcases h.reserve_cases with ⟨-, run⟩ | ⟨i, rest, free, inside, run⟩
  · rw [run] at pop room ⊢
    simp only [place, if_true]
    refine ⟨.nil, nofun, ?_⟩
    rw [length_append]
    exact room
  have once := h.once
  rw [free] at once
  rw [run] at pop ⊢
  simp only [place, if_neg (ne_of_lt inside)]
  refine ⟨pop.once, ?_, ?_⟩
  · intro j mem
    obtain ⟨t, found, reaped⟩ := pop.reaped j mem
    refine ⟨t, ?_, reaped⟩
    have ne : i ≠ j := fun eq => (List.nodup_cons.mp once).1 (eq ▸ mem)
    rw [getElem?_set_ne ne]
    exact found
  rw [length_set]
  exact h.crowded

theorem finished (h : c.Sane) (i : Nat) :
    CpuTasks.Sane { c with tasks := c.tasks.modify i fun t => { t with finished := true } } := by
  refine ⟨h.once, ?_, ?_⟩
  · intro j mem
    obtain ⟨t, found, reaped⟩ := h.reaped j mem
    by_cases here : i = j
    · subst here
      exact ⟨{ t with finished := true }, by rw [getElem?_modify_eq, found]; rfl, reaped⟩
    have kept := getElem?_modify_ne (fun t : LocalTask => { t with finished := true }) c.tasks here
    exact ⟨t, kept.trans found, reaped⟩
  rw [List.length_modify]
  exact h.crowded

theorem reclaimed (h : c.Sane) (found : c.tasks[i]? = some t) (live : t.reaped = false) :
    CpuTasks.Sane { c with tasks := c.tasks.set i { t with reaped := true }
                           freeSlots := i :: c.freeSlots } := by
  have fresh : i ∉ c.freeSlots := by
    intro mem
    obtain ⟨t', found', reaped⟩ := h.reaped i mem
    cases found.symm.trans found'
    rw [live] at reaped
    cases reaped
  have inside := (List.getElem?_eq_some_iff.mp found).1
  refine ⟨List.nodup_cons.mpr ⟨fresh, h.once⟩, ?_, ?_⟩
  · intro j mem
    rcases mem_cons.mp mem with rfl | later
    · exact ⟨{ t with reaped := true }, getElem?_set_self inside, rfl⟩
    obtain ⟨t', found', reaped⟩ := h.reaped j later
    refine ⟨t', ?_, reaped⟩
    have ne : i ≠ j := fun eq => fresh (eq ▸ later)
    rw [getElem?_set_ne ne]
    exact found'
  rw [length_set]
  exact h.crowded

end CpuTasks.Sane

/-- How a slot stands to the directory and to the identities issued so far. -/
structure SlotSane (issued : List TaskId) (slot : Fin maxTasks) (taken : Bool)
    (generation published : Nat) : Prop where
  bounded : generation < 2 ^ 64
  /-- Nothing is published in a free slot. -/
  quiet : taken = false → published = 0
  /-- A counter has passed every generation issued for its slot, unless it has wrapped; then the
  slot is taken for good, with no task in it. -/
  passed : (∀ id ∈ issued, id.slot = slot.val → id.generation ≤ generation) ∨
    taken = true ∧ published = 0

structure SlotsSane (slots : TaskSlotAllocator) (published : Fin maxTasks → Nat)
    (issued : List TaskId) : Prop where
  nodup : issued.Nodup
  each : ∀ slot, SlotSane issued slot (slots.taken slot) (slots.generations slot) (published slot)

namespace SlotsSane
variable {a : TaskSlotAllocator} {published : Fin maxTasks → Nat} {issued : List TaskId}
  {slot : Fin maxTasks}

section
variable (h : SlotsSane a published issued)
include h

theorem change {issued' : List TaskId} {taken : Bool}
    {generation entry : Nat} (nodup : issued'.Nodup)
    (older : ∀ id ∈ issued', id.slot ≠ slot.val → id ∈ issued)
    (own : SlotSane issued' slot taken generation entry) :
    SlotsSane (a.advance slot taken generation) (update published slot entry) issued' := by
  refine ⟨nodup, fun s => ?_⟩
  by_cases here : s = slot
  · subst here
    rwa [advance_taken, advance_generations, update_self]
  rw [advance_taken_other here, advance_generations_other here, update_of_ne here]
  refine { h.each s with passed := (h.each s).passed.imp_left fun passed id mem eq => ?_ }
  exact passed id (older id mem fun equal => here (Fin.ext (eq.symm.trans equal))) eq

section
variable (free : a.taken slot = false)
include free

theorem passed_free : ∀ id ∈ issued, id.slot = slot.val → id.generation ≤ a.generations slot := by
  refine (h.each slot).passed.resolve_right fun ⟨taken, _⟩ => ?_
  rw [free] at taken
  cases taken

theorem worn : SlotsSane (a.advance slot true 0) published issued := by
  rw [← update_eq_self slot published]
  exact h.change h.nodup (fun _ mem _ => mem)
    ⟨Nat.two_pow_pos 64, nofun, .inr ⟨rfl, (h.each slot).quiet free⟩⟩

/-- A slot that is given back after a failed creation has lost a generation. -/
theorem skipped
    (lt : a.generations slot < 2 ^ 64 - 1) :
    SlotsSane (a.advance slot false (a.generations slot + 1)) published issued := by
  rw [← update_eq_self slot published]
  exact h.change h.nodup (fun _ mem _ => mem) ⟨by omega, fun _ => (h.each slot).quiet free,
    .inl fun id mem eq => Nat.le_succ_of_le (h.passed_free free id mem eq)⟩

theorem issue {id : TaskId}
    (eq : id.slot = slot.val) (next : id.generation = a.generations slot + 1) :
    SlotsSane (a.advance slot true id.generation) (update published slot id.raw) (id :: issued) := by
  have passed := h.passed_free free
  refine h.change (List.nodup_cons.mpr ⟨fun again => ?_, h.nodup⟩) (fun other mem apart => ?_)
    ⟨lt_of_le_of_lt id.generation_le (by decide), nofun, .inl fun other mem there => ?_⟩
  · have := passed id again eq
    omega
  · exact (mem_cons.mp mem).resolve_left fun equal => apart (equal ▸ eq)
  · rcases mem_cons.mp mem with rfl | old
    · exact le_rfl
    have := passed other old there
    omega

end

theorem release (used : published slot ≠ 0) :
    SlotsSane ⟨update a.taken slot false, a.generations⟩ (update published slot 0) issued := by
  have own : SlotSane issued slot false (a.generations slot) 0 := ⟨(h.each slot).bounded, fun _ => rfl,
    .inl ((h.each slot).passed.resolve_right fun wrapped => used wrapped.2)⟩
  have changed := h.change h.nodup (fun _ mem _ => mem) own
  rwa [advance, update_eq_self] at changed

theorem free_taken (used : published slot ≠ 0) :
    (a.free slot).2 = ⟨update a.taken slot false, a.generations⟩ := by
  have taken : a.taken slot = true := by
    by_contra vacant
    exact used ((h.each slot).quiet (by simpa using vacant))
  rw [free, dif_pos slot.isLt, if_pos taken]

end
end SlotsSane

namespace Kernel
variable {k : Kernel} {cpu : Fin kernelCpus} {slot : Fin maxTasks} {issued : List TaskId}

def published (k : Kernel) (slot : Fin maxTasks) : Nat := (k.directory slot).publishedId

structure Sane (k : Kernel) (issued : List TaskId) : Prop where
  slots : SlotsSane k.slots k.published issued
  cpus : ∀ cpu, (k.cpus cpu).Sane

theorem sane_boot : boot.Sane [] where
  slots := ⟨.nil, fun _ => ⟨Nat.two_pow_pos 64, fun _ => rfl, .inl nofun⟩⟩
  cpus := fun _ => ⟨.nil, nofun, Nat.zero_le _⟩

theorem published_setEntry (entry : TaskDirectoryEntry) :
    (k.setEntry slot entry).published = update k.published slot entry.publishedId := by
  funext s
  by_cases here : s = slot
  · simp [published, setEntry, here]
  · simp [published, setEntry, here]

@[simp] theorem setCpu_self (c : CpuTasks) : (k.setCpu cpu c).cpus cpu = c := update_self ..

theorem setCpu_other {other : Fin kernelCpus} (c : CpuTasks) (ne : other ≠ cpu) :
    (k.setCpu cpu c).cpus other = k.cpus other := update_of_ne ne ..

theorem sane_setCpu {c : CpuTasks} (others : ∀ cpu, (k.cpus cpu).Sane) (here : c.Sane)
    (other : Fin kernelCpus) : ((k.setCpu cpu c).cpus other).Sane := by
  by_cases eq : other = cpu
  · subst eq
    rwa [setCpu_self]
  rw [setCpu_other c eq]
  exact others other

namespace Sane
variable (h : k.Sane issued)
include h

theorem popped (cpu : Fin kernelCpus) : (k.popped cpu).Sane issued :=
  ⟨h.slots, sane_setCpu h.cpus (h.cpus cpu).popped⟩

omit h in
theorem queued {c : CpuTasks} (sane : c.Sane) (queued : Nat) : CpuTasks.Sane { c with queued := queued } :=
  ⟨sane.once, sane.reaped, sane.crowded⟩

/-- A creation panics because the queue is full, fails and keeps every task, or issues the next
generation of the lowest free slot. -/
theorem addTask_cases (cpu : Fin kernelCpus) (fair : Bool) :
    (∃ k', k.addTask cpu fair = some (none, k') ∧ k'.Sane issued ∧
      ∀ slot, k.slots.lowestFree = some slot → maxTaskGeneration ≤ k.slots.generations slot ∨
        maxTasks ≤ k.nextIndex cpu) ∨
    ∃ slot, k.slots.lowestFree = some slot ∧ k.slots.generations slot < maxTaskGeneration ∧
      k.nextIndex cpu < maxTasks ∧
      (k.addTask cpu fair = none ∧ 0 < k.nextIndex cpu ∧ fair = true ∧ maxFairTasks ≤ (k.cpus cpu).queued ∨
        ∃ k' id, k.addTask cpu fair = some (some id, k') ∧ k'.Sane (id :: issued) ∧
          (0 < k.nextIndex cpu → fair = true → (k.cpus cpu).queued < maxFairTasks)) := by
  cases lowest : k.slots.lowestFree with
  | none => exact .inl ⟨_, addTask_full lowest, h.popped cpu, fun _ found => by cases found⟩
  | some slot =>
    have free := (lowestFree_eq_some.mp lowest).1
    by_cases worn : k.slots.generations slot = 2 ^ 64 - 1
    · refine .inl ⟨_, addTask_worn lowest worn, ⟨h.slots.worn free, (h.popped cpu).cpus⟩, ?_⟩
      rintro s ⟨⟩
      exact .inl (worn ▸ by decide)
    have lt : k.slots.generations slot < 2 ^ 64 - 1 := by
      have := (h.slots.each slot).bounded
      omega
    have skipped := h.slots.skipped free lt
    rw [addTask_allocated lowest lt]
    by_cases large : maxTaskGeneration < k.slots.generations slot + 1
    · refine .inl ⟨_, installTask_refused large, ?_, fun s found => ?_⟩
      · rw [free_advance]
        exact ⟨skipped, (h.popped cpu).cpus⟩
      cases found
      exact .inl (by omega)
    obtain ⟨id, same, next⟩ : ∃ id : TaskId, id.slot = slot ∧
        id.generation = k.slots.generations slot + 1 :=
      ⟨⟨slot, _, slot.isLt, Nat.succ_pos _, by omega⟩, rfl, rfl⟩
    rw [← next]
    by_cases room : k.nextIndex cpu < maxTasks
    · refine .inr ⟨slot, rfl, by omega, room, ?_⟩
      have run : installTask cpu fair (k.nextIndex cpu) slot id.generation
          { k.popped cpu with slots := k.slots.advance slot true id.generation } = _ :=
        installTask_run same room ((h.slots.each slot).quiet free)
      rw [run]
      have placed : (((k.popped cpu).cpus cpu).place (k.nextIndex cpu) ⟨id, false, false⟩).Sane := by
        rw [Kernel.popped, setCpu_self]
        exact (h.cpus cpu).placed room
      have slots : SlotsSane (k.slots.advance slot true id.generation)
          (k.setEntry slot ((k.directory slot).holding id cpu (k.nextIndex cpu))).published (id :: issued) := by
        rw [published_setEntry]
        exact h.slots.issue free same next
      generalize eq : Kernel.installed _ cpu (k.nextIndex cpu) slot id = k'
      have sane : k'.Sane (id :: issued) := by
        rw [← eq]
        exact ⟨slots, sane_setCpu (h.popped cpu).cpus placed⟩
      have same : (k'.cpus cpu).queued = (k.cpus cpu).queued := by
        rw [← eq, Kernel.installed, setCpu_self]
        simp [CpuTasks.place, Kernel.popped]
      split
      next queues =>
        rw [fairQueueInsert]
        split
        next fits =>
          exact .inr ⟨_, id, rfl, ⟨sane.slots, sane_setCpu sane.cpus (queued (sane.cpus cpu) _)⟩,
            fun _ _ => same ▸ fits⟩
        next full => exact .inl ⟨rfl, queues.1, queues.2, same ▸ not_lt.mp full⟩
      next apart => exact .inr ⟨k', id, rfl, sane, fun later fair => absurd ⟨later, fair⟩ apart⟩
    refine .inl ⟨_, installTask_invalid same (by omega), ?_, fun s found => .inr (by omega)⟩
    rw [free_advance, next]
    exact ⟨skipped, (h.popped cpu).cpus⟩

theorem reap (id : TaskId) : (k.reap id).Sane issued := by
  unfold Kernel.reap
  dsimp only
  split
  · exact h
  next location found =>
  split
  next inside =>
    split
    · exact h
    next task stored =>
    split
    · exact h
    next eligible =>
    rcases @retire_cases id (k.directory ⟨id.slot, id.slot_lt⟩) with
      ⟨err, refused⟩ | ⟨current, sequence, retired⟩
    · rw [refused]
      exact h
    rw [retired]
    have live : task.reaped = false := by
      simp only [not_or, Bool.not_eq_true] at eligible
      exact eligible.2.2.2
    refine ⟨?_, sane_setCpu h.cpus ((h.cpus _).reclaimed stored live)⟩
    have used : k.published ⟨id.slot, id.slot_lt⟩ ≠ 0 := by
      rw [published, current]
      exact id.raw_ne_zero
    change SlotsSane (k.slots.free id.slot).2 (k.setEntry _ _).published _
    rw [published_setEntry, h.slots.free_taken used]
    exact h.slots.release used
  · exact h

theorem step {op : TaskOp} {id : Option TaskId} {k' : Kernel} (ran : op.step k = some (id, k')) :
    k'.Sane (id.toList ++ issued) := by
  cases op with
  | create cpu fair =>
    rcases h.addTask_cases cpu fair with ⟨k₁, run, sane, -⟩ |
      ⟨slot, -, -, -, ⟨stopped, -⟩ | ⟨k₁, id₁, run, sane, -⟩⟩
    · cases run.symm.trans ran
      exact sane
    · cases stopped.symm.trans ran
    · cases run.symm.trans ran
      exact sane
  | finish cpu index =>
    cases ran
    exact ⟨h.slots, sane_setCpu h.cpus ((h.cpus cpu).finished index)⟩
  | switch cpu index =>
    cases ran
    exact ⟨h.slots, sane_setCpu h.cpus ⟨(h.cpus cpu).once, (h.cpus cpu).reaped, (h.cpus cpu).crowded⟩⟩
  | requeue cpu length =>
    cases ran
    exact ⟨h.slots, sane_setCpu h.cpus (queued (h.cpus cpu) _)⟩
  | reap id =>
    cases ran
    exact h.reap id

theorem runOps {ops : List TaskOp} {s : List TaskId × Kernel} (ran : runOps ops (issued, k) = some s) :
    s.2.Sane s.1 := by
  induction ops generalizing k issued with
  | nil =>
    cases ran
    exact h
  | cons op rest ih =>
    rw [Sched.runOps] at ran
    split at ran
    · cases ran
    next stepped => exact ih (h.step stepped) ran

/-- The processor has an index to use again, or its vector can grow. -/
theorem nextIndex_lt (cpu : Fin kernelCpus) :
    k.nextIndex cpu < maxTasks ↔ (k.cpus cpu).freeSlots ≠ [] ∨ (k.cpus cpu).tasks.length < maxTasks := by
  have crowded := (h.cpus cpu).crowded
  rw [nextIndex]
  rcases (h.cpus cpu).reserve_cases with ⟨empty, run⟩ | ⟨i, rest, free, inside, run⟩
  · rw [run, empty]
    simp
  rw [run, free]
  simp only [ne_eq, cons_ne_nil, not_false_eq_true, true_or, iff_true]
  omega

end Sane

/-- After any history no identity has been issued twice, and a creation succeeds exactly when its
processor has a local index left, the lowest free slot has a generation left, and the task does not
go into a full queue. -/
theorem creation_after_history {ops : List TaskOp} {issued : List TaskId} {k : Kernel}
    (ran : runOps ops ([], boot) = some (issued, k)) (cpu : Fin kernelCpus) (fair : Bool) :
    issued.Nodup ∧
      ((∃ id k', k.addTask cpu fair = some (some id, k')) ↔
        ((k.cpus cpu).freeSlots ≠ [] ∨ (k.cpus cpu).tasks.length < maxTasks) ∧
        (∃ slot, k.slots.taken slot = false ∧ (∀ lower < slot, k.slots.taken lower = true) ∧
          k.slots.generations slot < maxTaskGeneration) ∧
        (0 < k.nextIndex cpu → fair = true → (k.cpus cpu).queued < maxFairTasks)) := by
  have sane : k.Sane issued := sane_boot.runOps ran
  refine ⟨sane.slots.nodup, ?_⟩
  rw [← sane.nextIndex_lt]
  rcases sane.addTask_cases cpu fair with ⟨k', run, -, blocked⟩ |
    ⟨slot, lowest, left, room, ⟨run, later, fair, full⟩ | ⟨k', id, run, -, fits⟩⟩
  · rw [run]
    constructor
    · rintro ⟨id, k', eq⟩
      cases eq
    rintro ⟨room, ⟨slot, free, before, left⟩, -⟩
    have := blocked slot (lowestFree_eq_some.mpr ⟨free, before⟩)
    omega
  · rw [run]
    constructor
    · rintro ⟨id, k', eq⟩
      cases eq
    rintro ⟨-, -, fits⟩
    exact absurd (fits later fair) (not_lt.mpr full)
  · obtain ⟨free, before⟩ := lowestFree_eq_some.mp lowest
    exact ⟨fun _ => ⟨room, ⟨slot, free, before, left⟩, fits⟩, fun _ => ⟨id, k', run⟩⟩

end Kernel

def firstCpu : Fin kernelCpus := ⟨0, zero_lt_kernelCpus⟩

def firstTask : TaskId := ⟨0, 1, zero_lt_maxTasks, Nat.one_pos, one_le_maxTaskGeneration⟩

/-- Create a task beside the idle task of the first processor, let it leave the queue and finish, and
reclaim it. -/
def wearOnce (generation : Nat) : List TaskOp :=
  [.create firstCpu true, .requeue firstCpu 0, .finish firstCpu 1] ++ (new 1 generation).toList.map .reap

/-- Start the first processor, then use slot one up to a generation. -/
def wear (n : Nat) : List TaskOp :=
  .create firstCpu true :: (List.range n).flatMap fun g => wearOnce (g + 1)

theorem runOps_append (first second : List TaskOp) (s : List TaskId × Kernel) :
    runOps (first ++ second) s = (runOps first s).bind (runOps second) := by
  induction first generalizing s with
  | nil => rfl
  | cons op rest ih =>
    rw [cons_append, runOps, runOps]
    split
    · rfl
    · exact ih _

namespace Kernel
variable {k : Kernel} {n : Nat}

def slotZero : Fin maxTasks := ⟨0, zero_lt_maxTasks⟩
def slotOne : Fin maxTasks := ⟨1, one_lt_maxTasks⟩
def slotTwo : Fin maxTasks := ⟨2, two_lt_maxTasks⟩

structure Worn (k : Kernel) (n : Nat) : Prop where
  idle : k.slots.taken slotZero = true
  free : ∀ slot, slot ≠ slotZero → k.slots.taken slot = false
  used : k.slots.generations slotOne = n
  unused : k.slots.generations slotTwo = 0
  entry : ∃ q, q % 2 = 0 ∧ k.directory slotOne = ⟨q, 0, 0, 0, 0⟩
  cpu : ∃ first, k.cpus firstCpu = ⟨[first], [], 0, 0⟩ ∨
    ∃ last, last.reaped = true ∧ k.cpus firstCpu = ⟨[first, last], [1], 0, 0⟩

theorem Worn.lowestFree (h : k.Worn n) : k.slots.lowestFree = some slotOne := by
  refine lowestFree_eq_some.mpr ⟨h.free slotOne (by decide), ?_⟩
  intro lower less
  have zero : lower = slotZero := Fin.ext (Nat.lt_one_iff.mp less)
  rw [zero]
  exact h.idle

theorem Worn.nextIndex (h : k.Worn n) : ∃ first,
    k.nextIndex firstCpu = 1 ∧
    ∀ task, ((k.popped firstCpu).cpus firstCpu).place 1 task = ⟨[first, task], [], 0, 0⟩ := by
  obtain ⟨first, alone | ⟨last, reaped, reusable⟩⟩ := h.cpu
  · refine ⟨first, ?_, fun task => ?_⟩
    · rw [Kernel.nextIndex, alone]
      rfl
    rw [popped, setCpu_self, alone]
    rfl
  refine ⟨first, ?_, fun task => ?_⟩
  · rw [Kernel.nextIndex, reusable]
    simp [reserveIndex, reaped]
  rw [popped, setCpu_self, reusable]
  simp [reserveIndex, reaped, CpuTasks.place]

theorem Worn.create (h : k.Worn n) (left : n < maxTaskGeneration) {id : TaskId}
    (eq : id.slot = 1) (next : id.generation = n + 1) :
    ∃ first k', k.addTask firstCpu true = some (some id, k') ∧
      k'.slots = k.slots.advance slotOne true (n + 1) ∧
      k'.directory slotOne = (k.directory slotOne).holding id 0 1 ∧
      k'.cpus firstCpu = ⟨[first, ⟨id, false, false⟩], [], 0, 1⟩ := by
  obtain ⟨first, index, placed⟩ := h.nextIndex
  obtain ⟨q, -, entry⟩ := h.entry
  have lt : k.slots.generations slotOne < 2 ^ 64 - 1 := by
    rw [h.used]
    exact lt_trans left (by decide)
  have quiet : (k.directory slotOne).publishedId = 0 := by rw [entry]
  have run := @addTask_allocated k firstCpu slotOne true h.lowestFree lt
  have install : installTask firstCpu true 1 slotOne id.generation
      { k.popped firstCpu with slots := k.slots.advance slotOne true id.generation } = _ :=
    installTask_run eq (by decide) quiet
  rw [index, h.used, ← next, install, if_pos ⟨Nat.one_pos, rfl⟩] at run
  have here : ((Kernel.installed { k.popped firstCpu with slots := k.slots.advance slotOne true id.generation }
      firstCpu 1 slotOne id).cpus firstCpu) = ⟨[first, ⟨id, false, false⟩], [], 0, 0⟩ := by
    rw [installed, setCpu_self]
    exact placed _
  rw [fairQueueInsert, here, if_pos (show 0 < maxFairTasks by decide), Option.map_some] at run
  refine ⟨first, _, run, ?_, ?_, setCpu_self _⟩
  · rw [next]
    rfl
  · exact @setEntry_same (k.popped firstCpu) slotOne ((k.directory slotOne).holding id 0 1)

theorem locate_holding {e : TaskDirectoryEntry} {id : TaskId} (even : e.sequence % 2 = 0) :
    (locate id 8 (e.holding id 0 1)).1 = .ok ⟨⟨0, by decide⟩, 1⟩ := by
  have still : (bump (bump e.sequence)) % 2 = 0 := by
    rw [bump, bump]
    omega
  rw [locate, Exec.gets_bind]
  simp [holding, still, decodeLocation, CpuIndex.new, maxCpus]

theorem retire_holding {e : TaskDirectoryEntry} {id : TaskId} (idle : e.pendingOperations = 0) :
    retire id (e.holding id 0 1) = (.ok (), ⟨bump (bump (bump (bump e.sequence))), 0, 0, 0, 0⟩) := by
  simp [retire, unpublish, holding, idle, unpublishUpdate, generationOf_adoptUpdate]

theorem reap_run {id : TaskId} {i : Nat} {e : TaskDirectoryEntry}
    (located : (locate id 8 (k.directory ⟨id.slot, id.slot_lt⟩)).1 = .ok ⟨⟨0, by decide⟩, i⟩)
    (stored : (k.cpus firstCpu).tasks[i]? = some ⟨id, true, false⟩)
    (other : (k.cpus firstCpu).current ≠ i)
    (retired : retire id (k.directory ⟨id.slot, id.slot_lt⟩) = (.ok (), e)) :
    (k.reap id).slots = (k.slots.free id.slot).2 ∧
      (k.reap id).directory ⟨id.slot, id.slot_lt⟩ = e ∧
      (k.reap id).cpus firstCpu = { k.cpus firstCpu with
        tasks := (k.cpus firstCpu).tasks.set i ⟨id, true, true⟩
        freeSlots := i :: (k.cpus firstCpu).freeSlots } := by
  have run : k.reap id = { (k.setEntry ⟨id.slot, id.slot_lt⟩ e).setCpu firstCpu
        { k.cpus firstCpu with
          tasks := (k.cpus firstCpu).tasks.set i ⟨id, true, true⟩
          freeSlots := i :: (k.cpus firstCpu).freeSlots } with
      slots := (k.slots.free id.slot).2 } := by
    have lt : 0 < kernelCpus := by decide
    unfold reap
    dsimp only
    rw [located]
    dsimp only
    rw [dif_pos lt, show (⟨0, lt⟩ : Fin kernelCpus) = firstCpu from rfl, stored]
    dsimp only
    rw [if_neg (by simpa using other), retired]
  rw [run]
  exact ⟨rfl, @setEntry_same k _ e, @setCpu_self k firstCpu _⟩

theorem Worn.round {s : List TaskId × Kernel} (h : s.2.Worn n) (left : n < maxTaskGeneration) :
    ∃ t, runOps (wearOnce (n + 1)) s = some t ∧ t.2.Worn (n + 1) := by
  obtain ⟨issued, k⟩ := s
  obtain ⟨id, same, next⟩ : ∃ id : TaskId, id.slot = 1 ∧ id.generation = n + 1 :=
    ⟨⟨1, n + 1, by decide, Nat.succ_pos n, left⟩, rfl, rfl⟩
  have named : new 1 (n + 1) = some id := new_eq_some.mpr ⟨same, next⟩
  obtain ⟨first, k', run, slots, entry, cpu⟩ := h.create left same next
  obtain ⟨q, even, pre⟩ := h.entry
  obtain ⟨t, ends, state⟩ : ∃ t, runOps (wearOnce (n + 1)) (issued, k) = some t ∧
      t.2 = ((k'.requeue firstCpu 0).finish firstCpu 1).reap id := by
    rw [wearOnce, named]
    simp only [Option.toList_some, map_cons, map_nil, cons_append, nil_append, runOps, TaskOp.step, run]
    exact ⟨_, rfl, rfl⟩
  have here : (⟨id.slot, id.slot_lt⟩ : Fin maxTasks) = slotOne := Fin.ext same
  have finished : ((k'.requeue firstCpu 0).finish firstCpu 1).cpus firstCpu =
      ⟨[first, ⟨id, true, false⟩], [], 0, 0⟩ := by
    rw [finish, setCpu_self, requeue, setCpu_self, cpu]
    rfl
  have known : ((k'.requeue firstCpu 0).finish firstCpu 1).directory ⟨id.slot, id.slot_lt⟩ =
      (k.directory slotOne).holding id 0 1 := by
    rw [here]
    exact entry
  have located := @locate_holding (k.directory slotOne) id (by rw [pre]; exact even)
  have retired := @retire_holding (k.directory slotOne) id (by rw [pre])
  rw [← known] at located retired
  have elsewhere : (((k'.requeue firstCpu 0).finish firstCpu 1).cpus firstCpu).current ≠ 1 := by
    rw [finished]
    exact Nat.zero_ne_one
  obtain ⟨slots', entry', cpu'⟩ := reap_run located (by rw [finished]; rfl) elsewhere retired
  rw [← state] at slots' entry' cpu'
  have freed : (((k'.requeue firstCpu 0).finish firstCpu 1).slots.free id.slot).2 = k.slots.advance slotOne false (n + 1) := by
    rw [same]
    change (k'.slots.free slotOne).2 = _
    rw [slots, free_advance]
  rw [freed] at slots'
  rw [here, pre] at entry'
  rw [finished] at cpu'
  refine ⟨t, ends, ?_, ?_, ?_, ?_, ⟨_, ?_, entry'⟩, ⟨first, .inr ⟨⟨id, true, true⟩, rfl, cpu'⟩⟩⟩
  · rw [slots', advance_taken_other (by decide)]
    exact h.idle
  · intro s nonzero
    rw [slots']
    by_cases one : s = slotOne
    · rw [one, advance_taken]
    rw [advance_taken_other one]
    exact h.free s nonzero
  · rw [slots', advance_generations]
  · rw [slots', advance_generations_other (by decide)]
    exact h.unused
  simp only [bump]
  omega

theorem worn_start : ∃ s, runOps (wear 0) ([], boot) = some s ∧ s.2.Worn 0 := by
  have lowest : boot.slots.lowestFree = some slotZero :=
    lowestFree_eq_some.mpr ⟨rfl, fun lower less => absurd less (Nat.not_lt_zero _)⟩
  have lt : boot.slots.generations slotZero < 2 ^ 64 - 1 := by
    have zero : boot.slots.generations slotZero = 0 := rfl
    omega
  have run := @addTask_allocated boot firstCpu slotZero true lowest lt
  have index : boot.nextIndex firstCpu = 0 := rfl
  have install : installTask firstCpu true 0 slotZero firstTask.generation
      { boot.popped firstCpu with slots := boot.slots.advance slotZero true firstTask.generation } = _ :=
    installTask_run rfl (by decide) rfl
  rw [index, show boot.slots.generations slotZero + 1 = firstTask.generation from rfl, install,
    if_neg (by simp)] at run
  obtain ⟨k, created, worn⟩ : ∃ k, boot.addTask firstCpu true = some (some firstTask, k) ∧ k.Worn 0 := by
    refine ⟨_, run, advance_taken, ?_, ?_, ?_, ⟨0, rfl, ?_⟩, ⟨⟨firstTask, false, false⟩, .inl ?_⟩⟩
    · intro slot nonzero
      exact advance_taken_other nonzero
    · exact advance_generations_other (by decide)
    · exact advance_generations_other (by decide)
    · have away : slotOne ≠ slotZero := by decide
      exact update_of_ne away ((boot.directory slotZero).holding firstTask 0 0) boot.directory
    · exact setCpu_self (k := boot.popped firstCpu) ⟨[⟨firstTask, false, false⟩], [], 0, 0⟩
  refine ⟨([firstTask], k), ?_, worn⟩
  simp only [wear, range_zero, flatMap_nil, runOps, TaskOp.step, created]
  rfl

theorem worn_after (enough : n ≤ maxTaskGeneration) : ∃ s, runOps (wear n) ([], boot) = some s ∧ s.2.Worn n := by
  induction n with
  | zero => exact worn_start
  | succ n ih =>
    have longer : wear (n + 1) = wear n ++ wearOnce (n + 1) := by
      rw [wear, wear, range_succ, flatMap_append, flatMap_cons, flatMap_nil, append_nil, cons_append]
    obtain ⟨s, ran, worn⟩ := ih (Nat.le_of_succ_le enough)
    rw [longer, runOps_append, ran, Option.bind_some]
    exact worn.round (Nat.lt_of_succ_le enough)

/-- After two tasks have come and gone, a third can be created. -/
theorem creation_after_history_of_two : ∃ issued k, runOps (wear 2) ([], boot) = some (issued, k) ∧
    issued.Nodup ∧ ∃ id k', k.addTask firstCpu true = some (some id, k') := by
  obtain ⟨⟨issued, k⟩, ran, worn⟩ := worn_after (n := 2) (by decide)
  obtain ⟨once, creates⟩ := creation_after_history ran firstCpu true
  obtain ⟨free, below⟩ := lowestFree_eq_some.mp worn.lowestFree
  refine ⟨issued, k, ran, once, creates.mpr ⟨?_, ⟨slotOne, free, below, ?_⟩, fun _ _ => ?_⟩⟩
  · obtain ⟨first, alone | ⟨last, -, reusable⟩⟩ := worn.cpu
    · rw [alone]
      exact .inr one_lt_maxTasks
    · rw [reusable]
      exact .inl nofun
  · rw [worn.used]
    decide
  · have some : 0 < maxFairTasks := by decide
    obtain ⟨first, alone | ⟨last, -, reusable⟩⟩ := worn.cpu
    · rwa [alone]
    · rwa [reusable]

/-- Once slot one has used its last generation, no task can be created although slot two is free
and has never been used. -/
theorem worn_slot_blocks_creation :
    ∃ issued k k', runOps (wear maxTaskGeneration) ([], boot) = some (issued, k) ∧
      k.slots.taken slotTwo = false ∧ k.slots.generations slotTwo = 0 ∧ (k.cpus firstCpu).queued = 0 ∧
      k.addTask firstCpu true = some (none, k') := by
  obtain ⟨⟨issued, k⟩, ran, worn⟩ := worn_after (Nat.le_refl maxTaskGeneration)
  have small : k.slots.generations slotOne < 2 ^ 64 - 1 := by
    rw [worn.used]
    decide
  have run := @addTask_allocated k firstCpu slotOne true worn.lowestFree small
  rw [worn.used, installTask_refused (Nat.lt_succ_self _)] at run
  refine ⟨issued, k, _, ran, worn.free slotTwo (by decide), worn.unused, ?_, run⟩
  obtain ⟨first, alone | ⟨last, -, reusable⟩⟩ := worn.cpu
  · rw [alone]
  · rw [reusable]

end Kernel
end HuesOS.Sched
