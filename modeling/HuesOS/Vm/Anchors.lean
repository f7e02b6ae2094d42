import HuesOS.Vm.Books

/-! Regions that bookkeeping cannot collect. -/

namespace HuesOS.Vm
open List Function Option Kernel
variable {s t : Kernel} {k r l : Koid} {v : Vmar} {due due' : List Debt} {pending pending' : List Koid}

/-- A region of the process that keeps at least one counted reference: it is the root region, more
handles to it are open than `due` closes, or it has such a region as a child. -/
inductive Anchored (s : Kernel) (due : List Debt) (k : Koid) : Koid → Prop
  | root {r : Koid} {v : Vmar} (region : s.vmars r = some v) (own : v.process = k)
      (rooted : s.holdsRoot r v = true) (kept : .root r ∉ due) : Anchored s due k r
  | handle {r : Koid} {v : Vmar} {account : RefAccount} (region : s.vmars r = some v)
      (own : v.process = k) (registered : s.accounts r = some account)
      (spare : due.count (.handle r) < account.handleRefs) (kept : .root r ∉ due) : Anchored s due k r
  | child {c r : Koid} {v w : Vmar} (below : Anchored s due k c) (region : s.vmars c = some v)
      (parent : v.parent = some r) (above : s.vmars r = some w) (own : w.process = k)
      (kept : .root r ∉ due) : Anchored s due k r

theorem holdsRoot_eq (s : Kernel) (r : Koid) (v : Vmar) :
    s.holdsRoot r v = (s.runtime v.process).any fun runtime => runtime.rootVmar = r := by
  rw [holdsRoot, Kernel.runtime]
  cases s.processes v.process <;> rfl

namespace Anchored

theorem kept (anchored : Anchored s due k r) : .root r ∉ due := by
  cases anchored <;> assumption

theorem region (anchored : Anchored s due k r) : ∃ v, s.vmars r = some v ∧ v.process = k := by
  cases anchored with
  | root region own => exact ⟨_, region, own⟩
  | handle region own => exact ⟨_, region, own⟩
  | child _ _ _ above own => exact ⟨_, above, own⟩

theorem step (anchored : Anchored s due k r) (runtime : t.runtime k = s.runtime k)
    (stays : ∀ r v, Anchored s due k r → s.vmars r = some v →
      ∃ w, t.vmars r = some w ∧ w.process = v.process ∧ w.parent = v.parent)
    (counts : ∀ r account, Anchored s due k r → s.accounts r = some account →
      due.count (.handle r) < account.handleRefs →
      ∃ after, t.accounts r = some after ∧ due'.count (.handle r) < after.handleRefs)
    (roots : ∀ r, .root r ∉ due → .root r ∉ due') : Anchored t due' k r := by
  induction anchored with
  | root region own rooted kept =>
    obtain ⟨w, after, process, -⟩ := stays _ _ (.root region own rooted kept) region
    refine .root after (process.trans own) ?_ (roots _ kept)
    rw [holdsRoot_eq, own] at rooted
    rw [holdsRoot_eq, process, own, runtime, rooted]
  | handle region own registered spare kept =>
    have self : Anchored s due k _ := .handle region own registered spare kept
    obtain ⟨w, after, process, -⟩ := stays _ _ self region
    obtain ⟨account, registered', spare'⟩ := counts _ _ self registered spare
    exact .handle after (process.trans own) registered' spare' (roots _ kept)
  | child below region parent above own kept ih =>
    obtain ⟨w, after, -, parent'⟩ := stays _ _ below region
    obtain ⟨u, above', process, -⟩ := stays _ _ (.child below region parent above own kept) above
    exact .child ih after (parent'.trans parent) above' (process.trans own) (roots _ kept)

theorem quiet (anchored : Anchored s due k r) (vmars : t.vmars = s.vmars)
    (runtime : t.runtime k = s.runtime k)
    (counts : ∀ r account, s.accounts r = some account → 0 < account.handleRefs →
      ∃ after, t.accounts r = some after ∧ after.handleRefs = account.handleRefs) :
    Anchored t due k r := by
  refine anchored.step runtime (fun r v _ region => ⟨v, vmars ▸ region, rfl, rfl⟩)
    (fun r account _ registered spare => ?_) fun _ => id
  obtain ⟨after, registered', same⟩ := counts r account registered (Nat.zero_lt_of_lt spare)
  exact ⟨after, registered', same ▸ spare⟩

/-- A region that nothing refers to has no child, and no handle to it is open. -/
theorem not_idle (books : Books s pending) (idle : s.accounts r = some ⟨0, 0⟩)
    (region : s.vmars r = some v) (unrooted : s.holdsRoot r v = false) : ¬ Anchored s due k r := by
  intro anchored
  cases anchored with
  | root region' _ rooted =>
    cases region.symm.trans region'
    exact absurd rooted (by rw [unrooted]; nofun)
  | handle _ _ registered spare =>
    cases idle.symm.trans registered
    exact absurd spare (Nat.not_lt_zero _)
  | @child c _ w _ _ below parent =>
    have covered := books.refs _ _ idle
    have counted := count_le_held (o := r) (books.regions c w below).1 below
    have here : r ∈ w.holds := mem_append_right _ (by rw [parent]; exact mem_singleton_self r)
    have positive := count_pos_iff.mpr here
    dsimp only at covered
    omega

end Anchored

theorem adjust_accounts {f : RefAccount → RefAccount} {account : RefAccount} (k : Koid)
    (here : s.accounts r = some account) :
    (s.adjust k f).accounts r = some (if r = k then f account else account) := by
  split
  next at_ =>
    subst at_
    exact (update_self ..).trans (by rw [here]; rfl)
  next away => exact (update_of_ne away ..).trans here

/-- Bookkeeping collects no anchored region of a process whose page tables stay. -/
theorem Move.anchored (move : Move s due pending t due' pending') (books : Books s pending)
    (alive : t.runtime l ≠ none) (anchored : Anchored s due l r) : Anchored t due' l r := by
  induction move with
  | refl | leak => exact anchored
  | trans one two first second =>
    obtain ⟨between, -⟩ := one.books books
    refine second between alive (first books ?_ anchored)
    rcases (two.books between).2.runtimes l with eq | gone
    · rwa [← eq]
    · exact absurd gone alive
  | opened k =>
    refine anchored.step rfl (fun _ v _ region => ⟨v, region, rfl, rfl⟩)
      (fun r account _ here spare => ?_) (by simp)
    refine ⟨_, adjust_accounts k here, ?_⟩
    split
    next at_ =>
      rw [at_, count_cons_self]
      exact Nat.succ_lt_succ (at_ ▸ spare)
    next away => rwa [count_cons_of_ne (by simpa using Ne.symm away)]
  | closed k =>
    refine anchored.step rfl (fun _ v _ region => ⟨v, region, rfl, rfl⟩)
      (fun r account _ here spare => ?_) (by simp)
    refine ⟨_, adjust_accounts k here, ?_⟩
    split
    next at_ =>
      rw [at_, count_cons_self] at spare
      exact Nat.lt_sub_of_add_lt (at_ ▸ spare)
    next away => rwa [count_cons_of_ne (by simpa using Ne.symm away)] at spare
  | keep =>
    refine anchored.step rfl (fun _ v _ region => ⟨v, region, rfl, rfl⟩)
      (fun r account _ here spare => ⟨account, here, ?_⟩) fun _ kept => (not_mem_of_not_mem_cons kept)
    exact lt_of_le_of_lt count_le_count_cons spare
  | take taken =>
    rw [acquireKernelRef] at taken
    split at taken
    · cases taken
    cases taken
    refine anchored.quiet rfl rfl fun _ _ here _ => ⟨_, adjust_accounts _ here, ?_⟩
    split <;> rfl
  | give =>
    refine anchored.quiet rfl rfl fun _ _ here _ => ⟨_, adjust_accounts _ here, ?_⟩
    split <;> rfl
  | @drop s _ pending k idle =>
    obtain ⟨accounts, vmars, -, processes⟩ := Move.drop_rest s k
    refine anchored.quiet vmars (by rw [Kernel.runtime, processes]; rfl) fun r account here counted => ?_
    have other : r ≠ k := by
      rintro rfl
      cases idle.symm.trans here
      exact absurd counted (lt_irrefl _)
    exact ⟨account, by rw [accounts]; exact (update_of_ne other ..).trans here, rfl⟩
  | process found same =>
    exact anchored.quiet rfl (runtime_setProcess_same found same l) fun _ account here _ => ⟨account, here, rfl⟩
  | @strip s _ pending k p runtime found running =>
    have after : ((s.setProcess k p.stripped).freeFrames runtime.owned).runtime l =
        if l = k then none else s.runtime l := runtime_setProcess s k p.stripped l
    by_cases here : l = k
    · rw [if_pos here] at after
      exact absurd after alive
    rw [if_neg here] at after
    exact anchored.quiet rfl after fun _ account here _ => ⟨account, here, rfl⟩
  | erase idle region unrooted =>
    refine anchored.step rfl (fun r v safe here => ⟨v, ?_, rfl, rfl⟩)
      (fun _ account _ here spare => ⟨account, here, spare⟩) fun _ => id
    refine (update_of_ne ?_ ..).trans here
    rintro rfl
    exact Anchored.not_idle books idle region unrooted safe
  | @uproot s due _ gone _ region =>
    have other {r : Koid} (safe : Anchored s (.root gone :: due) l r) : r ≠ gone := by
      rintro rfl
      exact safe.kept mem_cons_self
    refine anchored.step rfl (fun r v safe here => ⟨v, (update_of_ne (other safe) ..).trans here, rfl, rfl⟩)
      (fun r account safe here spare => ⟨account, (update_of_ne (other safe) ..).trans here, ?_⟩)
      fun _ kept => (not_mem_of_not_mem_cons kept)
    exact lt_of_le_of_lt count_le_count_cons spare
  | @region s _ pending k v w region process parent =>
    refine anchored.step rfl (fun r u _ here => ?_) (fun _ account _ here spare => ⟨account, here, spare⟩)
      fun _ => id
    by_cases at_ : r = k
    · subst at_
      cases region.symm.trans here
      exact ⟨w, update_self .., process, parent⟩
    · exact ⟨u, (update_of_ne at_ ..).trans here, rfl, rfl⟩
  | newRegion =>
    refine anchored.step rfl (fun r v _ here => ⟨v, ?_, rfl, rfl⟩)
      (fun r account _ here spare => ⟨account, ?_, spare⟩) fun _ => id
    · exact (update_of_ne (ne_of_lt (books.regions r v here).1) ..).trans here
    · exact (update_of_ne (ne_of_lt (books.known r account here)) ..).trans here
  | newVmo =>
    refine anchored.quiet rfl rfl fun r account here _ => ⟨account, ?_, rfl⟩
    exact (update_of_ne (ne_of_lt (books.known r account here)) ..).trans here
  | skipKoid | setInFlight => exact anchored.quiet rfl rfl fun _ account here _ => ⟨account, here, rfl⟩

end HuesOS.Vm
