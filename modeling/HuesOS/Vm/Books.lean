import HuesOS.Vm.Layout

namespace HuesOS.Vm
open List Function Option Finset Kernel
variable {s t u : Kernel} {k r o : Koid} {v : Vmar} {p : Process} {pending pending' : List Koid}
  {due due' : List Debt}

def slotHolds : Option Vmar → List Koid
  | none => []
  | some v => v.holds

/-- How often the regions below a koid refer to an object. -/
def held (n : Nat) (vmars : Koid → Option Vmar) (o : Koid) : Nat :=
  ∑ r ∈ Finset.range n, (slotHolds (vmars r)).count o

section Held
variable {n : Nat} {vmars : Koid → Option Vmar} {slot : Option Vmar}

theorem sum_update {ι β : Type} [DecidableEq ι] {slots : Finset ι} {i : ι} (mem : i ∈ slots)
    (weight : β → Nat) (table : ι → β) (b : β) :
    ∑ j ∈ slots, weight (update table i b j) + weight (table i) = ∑ j ∈ slots, weight (table j) + weight b := by
  have others : ∑ j ∈ slots.erase i, weight (update table i b j) =
      ∑ j ∈ slots.erase i, weight (table j) :=
    Finset.sum_congr rfl fun j other => by rw [update_of_ne (ne_of_mem_erase other)]
  rw [← add_sum_erase _ _ mem, others, update_self, ← add_sum_erase _ (fun j => weight (table j)) mem]
  omega

theorem held_update (lt : r < n) (slot : Option Vmar) (o : Koid) :
    held n (update vmars r slot) o + (slotHolds (vmars r)).count o =
      held n vmars o + (slotHolds slot).count o :=
  sum_update (Finset.mem_range.mpr lt) (fun slot => (slotHolds slot).count o) vmars slot

theorem held_new : held (n + 1) (update vmars n slot) o = held n vmars o + (slotHolds slot).count o := by
  rw [held, Finset.sum_range_succ, update_self]
  congr 1
  refine Finset.sum_congr rfl fun l below => ?_
  rw [update_of_ne (ne_of_lt (Finset.mem_range.mp below))]

theorem held_succ (free : vmars n = none) : held (n + 1) vmars o = held n vmars o := by
  rw [held, Finset.sum_range_succ, free]
  rfl

theorem count_le_held (lt : r < n) (region : vmars r = some v) : v.holds.count o ≤ held n vmars o := by
  have single := single_le_sum (f := fun l => (slotHolds (vmars l)).count o)
    (fun _ _ => Nat.zero_le _) (Finset.mem_range.mpr lt)
  simp only [region] at single
  exact single

theorem held_eq_zero (far : ∀ r v, vmars r = some v → o ∉ v.holds) : held n vmars o = 0 := by
  refine Finset.sum_eq_zero fun r _ => ?_
  cases region : vmars r with
  | none => rfl
  | some v => exact List.count_eq_zero_of_not_mem (far r v region)

end Held

/-- Who a frame belongs to: a memory object, the address space of a process, or devices. -/
inductive Owner
  | vmo (k : Koid)
  | process (k : Koid)
  | device

def Kernel.runtime (s : Kernel) (k : Koid) : Option Runtime := (s.processes k).bind Process.runtime

def Kernel.Owns (s : Kernel) : Owner → Nat → Prop
  | .vmo o, f => ∃ w, s.vmos o = some w ∧ f ∈ w.frames
  | .process k, f => ∃ runtime, s.runtime k = some runtime ∧ f ∈ runtime.owned
  | .device, f => ∃ o res index, s.resources o = some res ∧ index * pageSize < res.len ∧
      f = (res.base + index * pageSize) / pageSize

/-- A frame with an owner is not free, and it has no other owner. -/
structure Exclusive (s : Kernel) : Prop where
  owned : ∀ x f, s.Owns x f → f ∉ s.free
  apart : ∀ x y f, s.Owns x f → s.Owns y f → x = y

theorem Exclusive.mono (frames : Exclusive s) (owners : ∀ x f, t.Owns x f → s.Owns x f)
    (free : ∀ f ∈ t.free, f ∈ s.free ∨ ∃ x, s.Owns x f ∧ ¬ t.Owns x f) : Exclusive t := by
  refine ⟨fun x f owns here => ?_, fun x y f one two =>
    frames.apart x y f (owners x f one) (owners y f two)⟩
  rcases free f here with pre | ⟨y, lost, gone⟩
  · exact frames.owned x f (owners x f owns) pre
  cases frames.apart x y f (owners x f owns) lost
  exact gone owns

/-- The kernel references of every registered object cover what regions and running code hold,
and koids from the next one on are unused. -/
structure Books (s : Kernel) (pending : List Koid) : Prop where
  refs : ∀ o account, s.accounts o = some account →
    held s.nextKoid s.vmars o + pending.count o ≤ account.kernelRefs
  known : ∀ o account, s.accounts o = some account → o < s.nextKoid
  regions : ∀ r v, s.vmars r = some v → r < s.nextKoid ∧ ∀ o ∈ v.holds, o < s.nextKoid
  pends : ∀ o ∈ pending, o < s.nextKoid
  frames : Exclusive s

/-- What bookkeeping leaves: regions keep what they map, and the objects that they map stay. -/
structure Tidy (s t : Kernel) : Prop where
  koids : s.nextKoid ≤ t.nextKoid
  regions : ∀ r v, t.vmars r = some v → s.nextKoid ≤ r ∧ v.mappings = [] ∨
    ∃ u, s.vmars r = some u ∧ v.process = u.process ∧ v.mappings.Perm u.mappings
  runtimes : ∀ k, t.runtime k = s.runtime k ∨ t.runtime k = none
  objects : ∀ o < s.nextKoid, t.vmos o = s.vmos o ∧ t.resources o = s.resources o ∨
    ∀ r v, t.vmars r = some v → ∀ m ∈ v.mappings, m.vmo ≠ o

theorem Tidy.of_eq (koids : s.nextKoid ≤ t.nextKoid) (vmars : t.vmars = s.vmars)
    (runtimes : ∀ k, t.runtime k = s.runtime k ∨ t.runtime k = none)
    (objects : ∀ o < s.nextKoid, t.vmos o = s.vmos o ∧ t.resources o = s.resources o) : Tidy s t :=
  ⟨koids, fun _ v found => .inr ⟨v, vmars ▸ found, rfl, .refl _⟩, runtimes, fun o old => .inl (objects o old)⟩

theorem Tidy.refl (s : Kernel) : Tidy s s :=
  .of_eq le_rfl rfl (fun _ => .inl rfl) fun _ _ => ⟨rfl, rfl⟩

theorem Tidy.trans (first : Tidy s t) (second : Tidy t u) : Tidy s u := by
  refine ⟨first.koids.trans second.koids, fun r v found => ?_, fun k => ?_, fun o old => ?_⟩
  · rcases second.regions r v found with ⟨fresh, empty⟩ | ⟨w, before, process, perm⟩
    · exact .inl ⟨first.koids.trans fresh, empty⟩
    rcases first.regions r w before with ⟨fresh, empty⟩ | ⟨w', before', process', perm'⟩
    · rw [empty] at perm
      exact .inl ⟨fresh, perm.eq_nil⟩
    · exact .inr ⟨w', before', process.trans process', perm.trans perm'⟩
  · rcases second.runtimes k with eq | gone
    · rw [eq]
      exact first.runtimes k
    · exact .inr gone
  rcases second.objects o (old.trans_le first.koids) with eq | unmapped
  · rcases first.objects o old with same' | unmapped
    · exact .inl ⟨eq.1.trans same'.1, eq.2.trans same'.2⟩
    refine .inr fun r v found m mem => ?_
    rcases second.regions r v found with ⟨-, empty⟩ | ⟨w, before, -, perm⟩
    · rw [empty] at mem
      cases mem
    · exact unmapped r w before m (perm.mem_iff.mp mem)
  · exact .inr unmapped

theorem Tidy.setSlot {slot : Option Vmar}
    (change : ∀ w, slot = some w → ∃ u, s.vmars r = some u ∧ w.process = u.process ∧
      w.mappings.Perm u.mappings) : Tidy s { s with vmars := update s.vmars r slot } := by
  refine ⟨le_rfl, fun l w here => .inr ?_, fun _ => .inl rfl, fun _ _ => .inl ⟨rfl, rfl⟩⟩
  have here : update s.vmars r slot l = some w := here
  by_cases at_ : l = r
  · rw [at_, update_self] at here
    rw [at_]
    exact change w here
  · exact ⟨w, (update_of_ne at_ ..).symm.trans here, rfl, .refl _⟩

theorem runtime_setProcess (s : Kernel) (k : Koid) (p : Process) (l : Koid) :
    (s.setProcess k p).runtime l = if l = k then p.runtime else s.runtime l := by
  simp only [Kernel.runtime, setProcess, update_apply]
  split <;> rfl

section Moves
variable {accounts : Koid → Option RefAccount}

namespace Books
variable (books : Books s pending)
include books

theorem reaccount
    (old : ∀ o account, accounts o = some account → ∃ pre, s.accounts o = some pre ∧
      (held s.nextKoid s.vmars o + pending.count o ≤ pre.kernelRefs →
        held s.nextKoid s.vmars o + pending'.count o ≤ account.kernelRefs))
    (pends : ∀ o ∈ pending', o < s.nextKoid) : Books { s with accounts := accounts } pending' := by
  refine ⟨fun o account here => ?_, fun o account here => ?_, books.regions, pends,
    ⟨books.frames.owned, books.frames.apart⟩⟩
  · obtain ⟨pre, found, enough⟩ := old o account here
    exact enough (books.refs o pre found)
  obtain ⟨pre, found, -⟩ := old o account here
  exact books.known o pre found

theorem adjust {f : RefAccount → RefAccount}
    (enough : ∀ o account, s.accounts o = some account →
      held s.nextKoid s.vmars o + pending.count o ≤ account.kernelRefs →
      held s.nextKoid s.vmars o + pending'.count o ≤ (if o = k then f account else account).kernelRefs)
    (pends : ∀ o ∈ pending', o < s.nextKoid) : Books (s.adjust k f) pending' := by
  refine books.reaccount (fun o account here => ?_) pends
  by_cases at_ : o = k
  · subst at_
    rw [update_self, map_eq_some_iff] at here
    obtain ⟨pre, found, rfl⟩ := here
    refine ⟨pre, found, fun covered => ?_⟩
    simpa using enough o pre found covered
  rw [update_of_ne at_] at here
  refine ⟨account, here, fun covered => ?_⟩
  simpa [at_] using enough o account here covered

theorem unregister (k : Koid) : Books (s.unregister k) pending := by
  refine books.reaccount (fun o account here => ⟨account, ?_, id⟩) books.pends
  by_cases at_ : o = k
  · subst at_
    rw [update_self] at here
    cases here
  · rwa [update_of_ne at_] at here

theorem unused : held s.nextKoid s.vmars s.nextKoid + pending.count s.nextKoid = 0 := by
  rw [held_eq_zero fun r v found mem => ?_, List.count_eq_zero_of_not_mem fun mem => ?_]
  · exact absurd (books.pends _ mem) (lt_irrefl _)
  · exact absurd ((books.regions r v found).2 _ mem) (lt_irrefl _)

theorem region_none : s.vmars s.nextKoid = none := by
  cases region : s.vmars s.nextKoid with
  | none => rfl
  | some v => exact absurd (books.regions _ v region).1 (lt_irrefl _)

theorem unmapped (idle : s.accounts k = some ⟨0, 0⟩) :
    ∀ r v, s.vmars r = some v → ∀ m ∈ v.mappings, m.vmo ≠ k := by
  rintro r v region m mem rfl
  have covered := books.refs _ _ idle
  have counted := count_le_held (o := m.vmo) (books.regions r v region).1 region
  have here : m.vmo ∈ v.holds := mem_append_left _ (mem_map_of_mem mem)
  have positive := count_pos_iff.mpr here
  dsimp only at covered
  omega

/-- A region is replaced or erased; what it held beyond the new region is pending. -/
theorem setSlot {slot : Option Vmar} (region : s.vmars r = some v)
    (perm : (slotHolds slot ++ pending').Perm (v.holds ++ pending)) :
    Books { s with vmars := update s.vmars r slot } pending' := by
  have inside := (books.regions r v region).1
  refine ⟨fun o account here => ?_, books.known, fun l w found => ?_, fun o mem => ?_,
    ⟨books.frames.owned, books.frames.apart⟩⟩
  · have covered := books.refs o account here
    have moved : held s.nextKoid (update s.vmars r slot) o + _ = _ := held_update inside slot o
    have eq := perm.count_eq o
    rw [count_append, count_append] at eq
    rw [region] at moved
    dsimp only [slotHolds] at *
    omega
  · by_cases at_ : l = r
    · subst at_
      have found := (update_self ..).symm.trans found
      refine ⟨inside, fun o mem => ?_⟩
      rw [found] at perm
      rcases mem_append.mp (perm.subset (mem_append_left _ mem)) with old | waiting
      · exact (books.regions _ v region).2 o old
      · exact books.pends o waiting
    · exact books.regions l w ((update_of_ne at_ ..).symm.trans found)
  rcases mem_append.mp (perm.subset (mem_append_right _ mem)) with old | waiting
  · exact (books.regions r v region).2 o old
  · exact books.pends o waiting

end Books
end Moves

/-- A new object, which may be a region that takes over pending references. -/
theorem Books.enter (slot : Option Vmar) (books : Books s pending)
    (accounts : t.accounts = update s.accounts s.nextKoid (some ⟨0, 0⟩))
    (vmars : t.vmars = update s.vmars s.nextKoid slot)
    (koids : t.nextKoid = s.nextKoid + 1) (perm : (slotHolds slot ++ pending').Perm pending)
    (frames : Exclusive t) : Books t pending' := by
  have waiting : ∀ o ∈ slotHolds slot ++ pending', o < s.nextKoid + 1 := fun o mem =>
    Nat.lt_succ_of_lt (books.pends o (perm.subset mem))
  refine ⟨fun o account here => ?_, fun o account here => ?_, fun l w found => ?_, fun o mem => ?_, frames⟩
  · have eq := perm.count_eq o
    rw [count_append] at eq
    rw [koids, vmars, held_new]
    rw [accounts, update_apply] at here
    split at here
    next new =>
      have unused := books.unused
      rw [new] at eq ⊢
      omega
    have covered := books.refs o account here
    omega
  · rw [koids]
    rw [accounts, update_apply] at here
    split at here
    next new => exact new ▸ Nat.lt_succ_self _
    · exact Nat.lt_succ_of_lt (books.known o account here)
  · rw [koids]
    rw [vmars, update_apply] at found
    split at found
    next new =>
      cases found
      exact ⟨new ▸ Nat.lt_succ_self _, fun o mem => waiting o (mem_append_left _ mem)⟩
    obtain ⟨below, holds⟩ := books.regions l w found
    exact ⟨Nat.lt_succ_of_lt below, fun o mem => Nat.lt_succ_of_lt (holds o mem)⟩
  rw [koids]
  exact waiting o (mem_append_right _ mem)

/-- Frames, processes and memory objects change, but no account and no region. -/
theorem Books.refile (books : Books s pending) (accounts : t.accounts = s.accounts)
    (vmars : t.vmars = s.vmars) (koids : t.nextKoid = s.nextKoid) (frames : Exclusive t) :
    Books t pending := by
  refine ⟨?_, ?_, ?_, ?_, frames⟩ <;> rw [koids]
  · rw [accounts, vmars]
    exact books.refs
  · rw [accounts]
    exact books.known
  · rw [vmars]
    exact books.regions
  · exact books.pends

theorem runtime_setProcess_same {q : Process} (found : s.processes k = some p)
    (same : q.runtime = p.runtime) (l : Koid) : (s.setProcess k q).runtime l = s.runtime l := by
  rw [runtime_setProcess]
  split
  next here => rw [here, same, Kernel.runtime, found]; rfl
  · rfl

theorem Exclusive.same (frames : Exclusive s) (vmos : t.vmos = s.vmos)
    (resources : t.resources = s.resources)
    (runtimes : ∀ k, (t.runtime k).map Runtime.owned = (s.runtime k).map Runtime.owned)
    (free : t.free = s.free) : Exclusive t := by
  refine frames.mono (fun x f owns => ?_) fun f here => .inl (free ▸ here)
  cases x with
  | vmo o =>
    obtain ⟨w, found, mem⟩ := owns
    exact ⟨w, vmos ▸ found, mem⟩
  | process k =>
    obtain ⟨runtime, found, mem⟩ := owns
    have eq := runtimes k
    rw [found, map_some, eq_comm, map_eq_some_iff] at eq
    obtain ⟨runtime', found', owned⟩ := eq
    exact ⟨runtime', found', owned ▸ mem⟩
  | device =>
    obtain ⟨o, res, index, found, inside⟩ := owns
    exact ⟨o, res, index, resources ▸ found, inside⟩

theorem drop_vmos (s : Kernel) (k : Koid) :
    (((s.unregister k).dropVmo k).dropResource k).vmos = update s.vmos k none := by
  simp only [dropVmo, Kernel.unregister, dropResource]
  split
  next gone => rw [← gone, update_eq_self]
  · rfl

theorem drop_free {f : Nat} (s : Kernel) (k : Koid)
    (here : f ∈ (((s.unregister k).dropVmo k).dropResource k).free) :
    f ∈ s.free ∨ s.Owns (.vmo k) f := by
  simp only [dropVmo, Kernel.unregister, dropResource] at here
  split at here
  · exact .inl here
  next w found =>
  rcases mem_append.mp here with frame | old
  · exact .inr ⟨w, found, frame⟩
  · exact .inl old

theorem drop_resources (s : Kernel) (k : Koid) :
    (((s.unregister k).dropVmo k).dropResource k).resources = update s.resources k none := by
  simp only [dropVmo, Kernel.unregister, dropResource]
  split <;> rfl

theorem Exclusive.drop (frames : Exclusive s) (k : Koid) :
    Exclusive (((s.unregister k).dropVmo k).dropResource k) := by
  refine frames.mono (fun x f owns => ?_) fun f here => ?_
  · cases x with
    | vmo o =>
      obtain ⟨w, found, mem⟩ := owns
      rw [drop_vmos, update_apply] at found
      split at found
      · cases found
      · exact ⟨w, found, mem⟩
    | process l =>
      obtain ⟨runtime, found, mem⟩ := owns
      rw [Kernel.runtime, (Move.drop_rest s k).2.2.2] at found
      exact ⟨runtime, found, mem⟩
    | device =>
      obtain ⟨o, res, index, found, inside⟩ := owns
      rw [drop_resources, update_apply] at found
      split at found
      · cases found
      · exact ⟨o, res, index, found, inside⟩
  rcases drop_free s k here with old | owned
  · exact .inl old
  refine .inr ⟨_, owned, ?_⟩
  rintro ⟨w, found, -⟩
  rw [drop_vmos, update_self] at found
  cases found

theorem Tidy.drop (k : Koid) (unmapped : ∀ r v, s.vmars r = some v → ∀ m ∈ v.mappings, m.vmo ≠ k) :
    Tidy s (((s.unregister k).dropVmo k).dropResource k) := by
  obtain ⟨-, vmars, koids, processes⟩ := Move.drop_rest s k
  refine ⟨koids.ge, fun r v found => .inr ⟨v, vmars ▸ found, rfl, .refl _⟩, fun l => .inl ?_, fun o _ => ?_⟩
  · rw [Kernel.runtime, processes]
    rfl
  by_cases at_ : o = k
  · rw [vmars, at_]
    exact .inr unmapped
  rw [drop_vmos, drop_resources, update_of_ne at_, update_of_ne at_]
  exact .inl ⟨rfl, rfl⟩

theorem Exclusive.strip {runtime : Runtime} (frames : Exclusive s) (found : s.processes k = some p)
    (run : p.runtime = some runtime) :
    Exclusive ((s.setProcess k p.stripped).freeFrames runtime.owned) := by
  have runtimes : ∀ l, ((s.setProcess k p.stripped).freeFrames runtime.owned).runtime l =
      if l = k then none else s.runtime l := runtime_setProcess s k p.stripped
  refine frames.mono (fun x f owns => ?_) fun f here => ?_
  · cases x with
    | vmo o => exact owns
    | process l =>
      obtain ⟨runtime', found', mem⟩ := owns
      rw [runtimes] at found'
      split at found'
      · cases found'
      · exact ⟨runtime', found', mem⟩
    | device => exact owns
  rcases mem_append.mp here with own | old
  · refine .inr ⟨.process k, ⟨runtime, ?_, own⟩, ?_⟩
    · rw [Kernel.runtime, found]
      exact run
    rintro ⟨runtime', found', -⟩
    rw [runtimes, if_pos rfl] at found'
    cases found'
  · exact .inl old

theorem Exclusive.addVmo {o : Vmo} (frames : Exclusive s) (unused : ∀ f ∈ o.frames, f ∈ s.free) :
    Exclusive (s.addVmo o) := by
  have owners : ∀ x f, (s.addVmo o).Owns x f → s.Owns x f ∨ x = .vmo s.nextKoid ∧ f ∈ o.frames := by
    intro x f owns
    cases x with
    | vmo k =>
      obtain ⟨w, found, mem⟩ := owns
      have found : update s.vmos s.nextKoid (some o) k = some w := found
      rw [update_apply] at found
      split at found
      next eq =>
        cases found
        exact .inr ⟨by rw [eq], mem⟩
      · exact .inl ⟨w, found, mem⟩
    | process k => exact .inl owns
    | device => exact .inl owns
  have free : ∀ f, f ∈ (s.addVmo o).free ↔ f ∈ s.free ∧ f ∉ o.frames := by
    simp [Kernel.addVmo]
  refine ⟨fun x f owns here => ?_, fun x y f one two => ?_⟩
  · obtain ⟨old, other⟩ := (free f).mp here
    rcases owners x f owns with pre | ⟨-, mem⟩
    · exact frames.owned x f pre old
    · exact other mem
  rcases owners x f one with pre | ⟨rfl, mem⟩ <;> rcases owners y f two with before' | ⟨rfl, member'⟩
  · exact frames.apart x y f pre before'
  · exact absurd (unused f member') (frames.owned x f pre)
  · exact absurd (unused f mem) (frames.owned y f before')
  · rfl

theorem runtime_setSpace (s : Kernel) (k : Koid) (p : Process) (runtime : Runtime)
    (a : AddressSpace) (l : Koid) : (setSpace s k p runtime a).runtime l =
      if l = k then some { runtime with space := a } else s.runtime l :=
  runtime_setProcess s k _ l

theorem Books.setSpace {runtime : Runtime} (books : Books s pending)
    (found : s.processes k = some p) (run : p.runtime = some runtime) (a : AddressSpace) :
    Books (setSpace s k p runtime a) pending := by
  refine books.refile rfl rfl rfl (books.frames.same rfl rfl (fun l => ?_) rfl)
  rw [runtime_setSpace]
  split
  next here => rw [here, Kernel.runtime, found, bind_some, run]; rfl
  · rfl

/-- Bookkeeping keeps the books, and what is mapped stays. -/
theorem Move.books (move : Move s due pending t due' pending') (books : Books s pending) :
    Books t pending' ∧ Tidy s t := by
  induction move with
  | refl => exact ⟨books, .refl _⟩
  | trans _ _ one two =>
    obtain ⟨between, first⟩ := one books
    obtain ⟨after, second⟩ := two between
    exact ⟨after, first.trans second⟩
  | opened | closed =>
    refine ⟨books.adjust (fun o account _ covered => ?_) books.pends, .of_eq le_rfl rfl
      (fun _ => .inl rfl) fun _ _ => ⟨rfl, rfl⟩⟩
    split <;> exact covered
  | @take s t _ pending k taken =>
    rw [acquireKernelRef] at taken
    split at taken
    · cases taken
    next account found =>
    cases taken
    refine ⟨books.adjust (fun o account _ covered => ?_) (fun o mem => ?_),
      .of_eq le_rfl rfl (fun _ => .inl rfl) fun _ _ => ⟨rfl, rfl⟩⟩
    · by_cases at_ : o = k
      · rw [at_] at covered ⊢
        rw [count_cons_self, if_pos rfl]
        dsimp only
        omega
      · rwa [count_cons_of_ne (Ne.symm at_), if_neg at_]
    rcases mem_cons.mp mem with rfl | old
    · exact books.known _ _ found
    · exact books.pends o old
  | give k =>
    refine ⟨books.adjust (fun o account _ covered => ?_)
      (fun o mem => books.pends o (.tail _ mem)),
      .of_eq le_rfl rfl (fun _ => .inl rfl) fun _ _ => ⟨rfl, rfl⟩⟩
    by_cases at_ : o = k
    · rw [at_, count_cons_self] at covered
      rw [at_, if_pos rfl]
      dsimp only
      omega
    rw [count_cons_of_ne (Ne.symm at_)] at covered
    rwa [if_neg at_]
  | keep => exact ⟨books, .refl _⟩
  | leak =>
    refine ⟨⟨fun o account here => ?_, books.known, books.regions,
      fun o mem => books.pends o (.tail _ mem), books.frames⟩, .refl _⟩
    have covered := books.refs o account here
    rw [count_cons] at covered
    omega
  | @drop s _ pending k idle =>
    obtain ⟨accounts, vmars, koids, -⟩ := Move.drop_rest s k
    exact ⟨(books.unregister k).refile accounts vmars koids (books.frames.drop k),
      .drop k (books.unmapped idle)⟩
  | process found eq =>
    have runtimes := runtime_setProcess_same found eq
    exact ⟨books.refile rfl rfl rfl (books.frames.same rfl rfl
      (fun l => by rw [runtimes l]) rfl),
      .of_eq le_rfl rfl (fun l => .inl (runtimes l)) fun _ _ => ⟨rfl, rfl⟩⟩
  | @strip s _ pending k p runtime found run =>
    refine ⟨books.refile rfl rfl rfl (books.frames.strip found run),
      .of_eq le_rfl rfl (fun l => ?_) fun _ _ => ⟨rfl, rfl⟩⟩
    have after := runtime_setProcess s k p.stripped l
    by_cases at_ : l = k
    · rw [if_pos at_] at after
      exact .inr after
    rw [if_neg at_] at after
    exact .inl after
  | erase idle region unrooted =>
    exact ⟨books.setSlot region (.refl _), .setSlot (by simp)⟩
  | @uproot s _ pending r v region =>
    have quiet : Tidy s (s.unregister r) := .of_eq le_rfl rfl (fun _ => .inl rfl) fun _ _ => ⟨rfl, rfl⟩
    exact ⟨(books.unregister r).setSlot region (.refl _), quiet.trans (.setSlot (by simp))⟩
  | @region s _ pending k v w region process parent perm wf =>
    have holds : w.holds.Perm v.holds := by
      rw [Vmar.holds, Vmar.holds, parent]
      exact (perm.map _).append_right _
    refine ⟨books.setSlot region (holds.append_right _), .setSlot fun w' eq => ?_⟩
    cases eq
    exact ⟨v, region, process, perm⟩
  | @newRegion s _ pending q v empty wf parent =>
    have holds : v.holds = [q] := by rw [Vmar.holds, empty, parent]; rfl
    have entered : Books ((s.register s.nextKoid).setVmar s.nextKoid v) pending :=
      books.enter (some v) rfl rfl rfl (by rw [slotHolds, holds]; rfl)
        (books.frames.same rfl rfl (fun _ => rfl) rfl)
    refine ⟨entered, Nat.le_succ _, fun r w found => ?_, fun _ => .inl rfl, fun _ _ => .inl ⟨rfl, rfl⟩⟩
    have found : update s.vmars s.nextKoid (some v) r = some w := found
    rw [update_apply] at found
    split at found
    next new =>
      cases found
      exact .inl ⟨new.ge, empty⟩
    · exact .inr ⟨w, found, rfl, .refl _⟩
  | @newVmo s _ pending o unused =>
    have eq : s.vmars = update s.vmars s.nextKoid none := by
      rw [← books.region_none, update_eq_self]
    refine ⟨books.enter none rfl eq rfl (.refl _) (books.frames.addVmo unused),
      .of_eq (Nat.le_succ _) rfl (fun _ => .inl rfl) fun o old => ⟨?_, rfl⟩⟩
    exact update_of_ne (ne_of_lt old) ..
  | @skipKoid s _ pending =>
    have skipped : Books s.skipKoid pending := by
      refine ⟨fun o account here => ?_, fun o account here => ?_, fun r v found => ?_,
        fun o mem => Nat.lt_succ_of_lt (books.pends o mem),
        books.frames.same rfl rfl (fun _ => rfl) rfl⟩
      · have covered := books.refs o account here
        rw [← held_succ books.region_none] at covered
        exact covered
      · exact Nat.lt_succ_of_lt (books.known o account here)
      obtain ⟨below, holds⟩ := books.regions r v found
      exact ⟨Nat.lt_succ_of_lt below, fun o mem => Nat.lt_succ_of_lt (holds o mem)⟩
    exact ⟨skipped, .of_eq (Nat.le_succ _) rfl (fun _ => .inl rfl) fun _ _ => ⟨rfl, rfl⟩⟩
  | setInFlight handles =>
    exact ⟨books.refile rfl rfl rfl (books.frames.same rfl rfl (fun _ => rfl) rfl),
      .of_eq le_rfl rfl (fun _ => .inl rfl) fun _ _ => ⟨rfl, rfl⟩⟩

end HuesOS.Vm
