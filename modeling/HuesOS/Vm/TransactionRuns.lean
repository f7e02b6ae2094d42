import HuesOS.Vm.Permissions
import HuesOS.Vm.Transactions

namespace HuesOS.Vm
open List Function Kernel Transaction Views Option
variable {start s t : Kernel} {views views' : Views} {k r page : Nat} {v : Vmar} {p : Process}
  {runtime : Runtime} {m : VmarMapping} {view : View}

/-- What the page tables of a process say about a page, if the process has any. -/
def Kernel.tableAt (s : Kernel) (k page : Nat) : Option (Option PageEntry) :=
  (s.space k).map fun a => a.pages page

/-- What a page shows: the frame of its view, in the place of nothing; without a view, what it
showed at the start. -/
def Shows (start s : Kernel) (k page : Nat) : Option View → Prop
  | none => s.pageAt k page = start.pageAt k page
  | some view => start.pageAt k page = none ∧ ∀ entry, s.tableAt k page = some entry →
      ∃ frame flags, s.Backs view.object view.index frame ∧ entry = some ⟨frame, flags⟩

structure Kept (start : Kernel) (views : Views) (s : Kernel) : Prop where
  recorded : ∀ k page view, views k page = some view ↔ s.Gives k page view
  pages : ∀ k page, Shows start s k page (views k page)
  regions : ∀ r v, s.vmars r = some v → r < s.nextKoid ∧ ¬start.Mappable r ∧
    ∀ m ∈ v.mappings, start.Mappable m.vmo ∧ m.flags.Exclusive
  references : ∀ k, start.Mappable k → s.kernelRefs k = s.recordsOf k
  layout : Layout s
  objects : ∀ k, s.vmos k = start.vmos k ∧ s.resources k = start.resources k ∨
    s.accounts k = none ∧ s.vmos k = none ∧ s.resources k = none

theorem Kept.accurate (kept : Kept start views s) : Accurate start views s where
  recorded := kept.recorded
  mapped := by
    intro k a space page view seen
    have shows := kept.pages k page
    rw [seen] at shows
    exact shows.2 _ (by rw [tableAt, space]; rfl)
  others := by
    intro k page unseen
    have shows := kept.pages k page
    rw [unseen] at shows
    exact shows
  exclusive := fun r v region m mem => ((kept.regions r v region).2.2 m mem).2
  references := kept.references

theorem Kernel.Fresh.kept (fresh : start.Fresh) : Kept start (fun _ _ => none) start where
  recorded := by
    intro k page view
    refine iff_of_false nofun ?_
    rintro ⟨v, m, region, -, mem, -⟩
    rw [(fresh.regions _ v region).2.1] at mem
    cases mem
  pages := fun _ _ => rfl
  regions := by
    intro r v region
    obtain ⟨-, empty, below⟩ := fresh.regions r v region
    refine ⟨below, fun mappable => ?_, empty ▸ nofun⟩
    rw [fresh.kinds r mappable] at region
    cases region
  references := by
    intro k mappable
    rw [fresh.references k mappable, recordsOf]
    refine (Finset.sum_eq_zero fun r _ => ?_).symm
    cases region : start.vmars r with
    | none => rfl
    | some v => rw [slotRecords, (fresh.regions r v region).2.1]; rfl
  layout := by
    refine ⟨fun r v region => (fresh.regions r v region).1, fun r v a region _ m mem => ?_⟩
    rw [(fresh.regions r v region).2.1] at mem
    cases mem
  objects := fun _ => .inl ⟨rfl, rfl⟩

def Gives (records : List VmarMapping) (page : Nat) (view : View) : Prop :=
  ∃ m ∈ records, m.Covers page ∧ m.vmo = view.object ∧ m.index page = view.index

variable {records : List VmarMapping} {first count : Nat} {o : Vmo}

theorem records_update
    (vmars : t.vmars = update s.vmars r (some (v.withMappings records))) :
    t.Gives k page view ↔ view.region ≠ r ∧ s.Gives k page view ∨
      view.region = r ∧ v.process = k ∧ Gives records page view := by
  unfold Kernel.Gives
  rw [vmars]
  by_cases here : view.region = r
  · rw [here, update_self]
    constructor
    · rintro ⟨w, m, same, process, mem, covers⟩
      cases same
      exact .inr ⟨rfl, process, m, mem, covers⟩
    rintro (⟨other, -⟩ | ⟨-, process, m, mem, covers⟩)
    · exact absurd rfl other
    · exact ⟨_, m, rfl, process, mem, covers⟩
  simp [here]

theorem records_of_region (region : s.vmars r = some v) :
    s.Gives k page view ↔ view.region ≠ r ∧ s.Gives k page view ∨
      view.region = r ∧ v.process = k ∧ Gives v.mappings page view :=
  records_update (by rw [Vmar.withMappings, ← region, update_eq_self])

theorem recordsOf_update {slot : Option Vmar} (lt : r < s.nextKoid)
    (vmars : t.vmars = update s.vmars r slot) (next : t.nextKoid = s.nextKoid) (k : Koid) :
    t.recordsOf k + (slotRecords (s.vmars r)).count k = s.recordsOf k + (slotRecords slot).count k := by
  rw [recordsOf, recordsOf, vmars, next]
  exact sum_update (Finset.mem_range.mpr lt) (fun slot => (slotRecords slot).count k) s.vmars slot

theorem Shows.of_same {shown : Option View} (shows : Shows start s k page shown)
    (objects : t.vmos = s.vmos ∧ t.resources = s.resources)
    (same : t.tableAt k page = s.tableAt k page) : Shows start t k page shown := by
  have pageAt : ∀ u : Kernel, u.pageAt k page = (u.tableAt k page).join := fun u => by
    rw [pageAt, tableAt]
    cases u.space k <;> rfl
  cases shown with
  | none => rwa [Shows, pageAt, same, ← pageAt]
  | some view =>
    unfold Shows Kernel.Backs
    rw [same, objects.1, objects.2]
    exact shows

/-- One process gets another address space: its pages are as before, or looked at one by one. -/
theorem Kept.shows_setSpace {a a' : AddressSpace} (kept : Kept start views s)
    (old : s.space k = some a) (spaces : ∀ l, t.space l = if l = k then some a' else s.space l)
    (objects : t.vmos = s.vmos ∧ t.resources = s.resources)
    (elsewhere : ∀ l page, l ≠ k → views' l page = views l page)
    (here : ∀ page, views' k page = views k page ∧ a'.pages page = a.pages page ∨
      Shows start t k page (views' k page)) (l page : Nat) :
    Shows start t l page (views' l page) := by
  by_cases own : l = k
  · rw [own]
    rcases here page with ⟨seen, shown⟩ | shows
    · rw [seen]
      refine (kept.pages k page).of_same objects ?_
      rw [tableAt, tableAt, spaces, if_pos rfl, old, map_some, shown]
      rfl
    · exact shows
  rw [elsewhere l page own]
  refine (kept.pages l page).of_same objects ?_
  rw [tableAt, tableAt, spaces, if_neg own]

/-- One region gets other records, and the references follow. -/
theorem Kept.rebook (kept : Kept start views s)
    (region : s.vmars r = some v) (layout : Layout t)
    (vmars : t.vmars = update s.vmars r (some (v.withMappings records)))
    (objects : t.vmos = s.vmos ∧ t.resources = s.resources) (next : t.nextKoid = s.nextKoid)
    (known : ∀ k, s.accounts k = none → t.accounts k = none)
    (refs : ∀ k, start.Mappable k → t.kernelRefs k + (v.mappings.map VmarMapping.vmo).count k =
      s.kernelRefs k + (records.map VmarMapping.vmo).count k)
    (named : ∀ m ∈ records, start.Mappable m.vmo ∧ m.flags.Exclusive)
    (recorded : ∀ k page view, views' k page = some view ↔ t.Gives k page view)
    (pages : ∀ k page, Shows start t k page (views' k page)) :
    Kept start views' t := by
  obtain ⟨below, other, -⟩ := kept.regions r v region
  refine ⟨recorded, pages, fun l w here => ?_, fun k mappable => ?_, layout, fun k => ?_⟩
  · rw [next]
    rw [vmars, update_apply] at here
    split at here
    next eq =>
      cases here
      exact eq ▸ ⟨below, other, named⟩
    · exact kept.regions l w here
  · have count := recordsOf_update below vmars next k
    have pre := kept.references k mappable
    have change := refs k mappable
    rw [region] at count
    dsimp only [slotRecords, Vmar.withMappings] at count
    omega
  rw [objects.1, objects.2]
  rcases kept.objects k with eq | ⟨gone, rest⟩
  · exact .inl eq
  · exact .inr ⟨known k gone, rest⟩

theorem gives_perm {records' : List VmarMapping} (perm : records.Perm records') :
    Gives records page view ↔ Gives records' page view := by
  simp only [Gives, perm.mem_iff]

theorem Kept.reorder (kept : Kept start views s) (region : s.vmars r = some v)
    (perm : records.Perm v.mappings) (wf : (v.withMappings records).WellFormed) :
    Kept start views (s.setVmar r (v.withMappings records)) := by
  have quiet : Quiet s (s.setVmar r (v.withMappings records)) :=
    .setVmar s r (.inr ⟨v, region, rfl, perm, fun _ => wf⟩)
  refine kept.rebook region (kept.layout.quiet quiet) rfl ⟨rfl, rfl⟩ rfl (fun _ none => none)
    (fun k _ => ?_) (fun m mem => ?_) (fun k page view => ?_) fun k page => ?_
  · rw [(perm.map _).count_eq]
    rfl
  · exact (kept.regions r v region).2.2 m (perm.mem_iff.mp mem)
  · have after : (s.setVmar r (v.withMappings records)).Gives k page view ↔ _ := records_update rfl
    rw [kept.recorded, records_of_region region, after, gives_perm perm]
  · exact (kept.pages k page).of_same ⟨rfl, rfl⟩ rfl

theorem forgetProcess_fields (s : Kernel) (k : Koid) :
    (s.forgetProcess k).vmars = s.vmars ∧ (s.forgetProcess k).nextKoid = s.nextKoid ∧
      (∀ l, (s.forgetProcess k).space l = s.space l) ∧ (s.forgetProcess k).accounts = s.accounts ∧
      (s.forgetProcess k).resources = s.resources ∧ (s.forgetProcess k).vmos = s.vmos := by
  rw [forgetProcess]
  split
  next p found =>
    split
    · refine ⟨rfl, rfl, fun l => ?_, rfl, rfl, rfl⟩
      exact space_setProcess_same (q := { p with indexed := false }) found rfl l
    · exact ⟨rfl, rfl, fun _ => rfl, rfl, rfl, rfl⟩
  · exact ⟨rfl, rfl, fun _ => rfl, rfl, rfl, rfl⟩

/-- Collecting an object that is no region: it goes if it has no references. -/
theorem collect_eq (other : s.vmars k = none) :
    s.collect k = if s.accounts k = some ⟨0, 0⟩ then
      (((s.unregister k).dropVmo k).dropResource k).forgetProcess k else s := by
  rw [collect, collectFrom]
  split
  next idle =>
    have region : ((((s.unregister k).dropVmo k).dropResource k).forgetProcess k).vmars k = none := by
      rw [(forgetProcess_fields _ k).1, (Move.drop_rest s k).2.1, other]
    dsimp only
    rw [region, if_pos idle]
  next busy => rw [if_neg busy]

theorem collect_cases (other : s.vmars k = none) :
    s.collect k = s ∨ s.accounts k = some ⟨0, 0⟩ ∧ (s.collect k).vmars = s.vmars ∧
      (s.collect k).nextKoid = s.nextKoid ∧ (∀ l, (s.collect k).space l = s.space l) ∧
      (s.collect k).accounts = update s.accounts k none ∧
      (s.collect k).vmos = update s.vmos k none ∧
      (s.collect k).resources = update s.resources k none := by
  rw [collect_eq other]
  split
  next idle =>
    obtain ⟨accounts, vmars, next, processes⟩ := Move.drop_rest s k
    obtain ⟨vmars', next', space', accounts', resources', vmos'⟩ :=
      forgetProcess_fields (((s.unregister k).dropVmo k).dropResource k) k
    refine .inr ⟨idle, vmars'.trans vmars, next'.trans next, fun l => ?_, accounts'.trans accounts,
      vmos'.trans (drop_vmos s k), resources'.trans (drop_resources s k)⟩
    rw [space', space, processes]
    rfl
  · exact .inl rfl

theorem Kept.no_region (kept : Kept start views s) (mappable : start.Mappable k) : s.vmars k = none := by
  cases region : s.vmars k with
  | none => rfl
  | some v => exact absurd mappable (kept.regions k v region).2.1

theorem Kept.collect (kept : Kept start views s) (mappable : start.Mappable k) :
    Kept start views (s.collect k) := by
  rcases collect_cases (kept.no_region mappable) with
    eq | ⟨idle, vmars, next, space, accounts, vmos, resources⟩
  · rw [eq]
    exact kept
  have layout : Layout (s.collect k) :=
    kept.layout.quiet (show Move s [] [] (s.collect k) [] [] from .collectFrom (k + 1) k).quiet
  have none : s.recordsOf k = 0 := by
    rw [← kept.references k mappable, kernelRefs, idle]
    rfl
  have unnamed : ∀ r v, s.vmars r = some v → ∀ m ∈ v.mappings, m.vmo ≠ k := by
    intro r v region m mem eq
    have zero := Finset.sum_eq_zero_iff.mp none r (Finset.mem_range.mpr (kept.regions r v region).1)
    rw [region, slotRecords, count_eq_zero] at zero
    exact zero (eq ▸ mem_map_of_mem mem)
  refine ⟨fun l page view => ?_, fun l page => ?_, ?_, fun o mapped => ?_, layout, fun o => ?_⟩
  · rw [kept.recorded, Kernel.Gives, Kernel.Gives, vmars]
  · have shows := kept.pages l page
    cases seen : views l page with
    | none =>
      rw [seen] at shows
      rw [Shows, ← shows, pageAt, pageAt, space]
    | some view =>
      obtain ⟨v, m, region, -, mem, -, object, -⟩ := (kept.recorded l page view).mp seen
      have other : view.object ≠ k := object ▸ unnamed _ v region m mem
      rw [seen] at shows
      rw [Shows]
      unfold tableAt Kernel.Backs
      rw [space, vmos, resources, update_of_ne other, update_of_ne other]
      exact shows
  · rw [vmars, next]
    exact kept.regions
  · have eq : (s.collect k).recordsOf o = s.recordsOf o := by
      rw [recordsOf, recordsOf, vmars, next]
    rw [eq, ← kept.references o mapped, kernelRefs, kernelRefs, accounts]
    by_cases here : o = k
    · rw [here, update_self, idle]
      rfl
    · rw [update_of_ne here]
  rw [accounts, vmos, resources]
  by_cases here : o = k
  · rw [here, update_self, update_self, update_self]
    exact .inr ⟨rfl, rfl, rfl⟩
  rw [update_of_ne here, update_of_ne here, update_of_ne here]
  exact kept.objects o

theorem Kept.refused (kept : Kept start views s) (region : s.vmars r = some v)
    (mappable : start.Mappable k) (refused : Refused r v k s t) : Kept start views t := by
  rcases refused with rfl | ⟨records, perm, wf, rfl⟩
  · exact kept
  · exact (kept.reorder region perm wf).collect mappable

theorem kernelRefs_acquire {s' : Kernel} (taken : s.acquireKernelRef k = some s') (l : Koid) :
    s'.kernelRefs l = s.kernelRefs l + [k].count l ∧ (s.accounts l = none → s'.accounts l = none) := by
  rw [acquireKernelRef] at taken
  split at taken
  · cases taken
  next a found =>
  cases taken
  rw [kernelRefs, kernelRefs, adjust]
  dsimp only
  by_cases here : l = k
  · rw [here, update_self, found]
    simp
  rw [update_of_ne here]
  simp [Ne.symm here]

theorem Views.write_inside {view : Nat → Option View}
    (inside : first ≤ page ∧ page < first + count) :
    views.write k first count view k page = view page := if_pos ⟨rfl, inside⟩

theorem Views.write_outside {l : Nat} {view : Nat → Option View}
    (out : ¬(l = k ∧ first ≤ page ∧ page < first + count)) :
    views.write k first count view l page = views l page := if_neg out

theorem Views.write_congr {f g : Nat → Option View}
    (eq : ∀ page, first ≤ page ∧ page < first + count → f page = g page) :
    views.write k first count f = views.write k first count g := by
  funext l page
  by_cases inside : l = k ∧ first ≤ page ∧ page < first + count
  · rw [write, write, if_pos inside, if_pos inside, eq page inside.2]
  · rw [write_outside inside, write_outside inside]

theorem Kept.unseen {a : AddressSpace} (kept : Kept start views s) (space : s.space k = some a)
    (free : a.pages page = none) : views k page = none := by
  cases seen : views k page with
  | none => rfl
  | some view =>
    obtain ⟨frame, flags, -, shows⟩ := kept.accurate.mapped k a space page view seen
    rw [free] at shows
    cases shows

theorem gives_append {records' : List VmarMapping} :
    Gives (records ++ records') page view ↔ Gives records page view ∨ Gives records' page view := by
  simp only [Gives, mem_append, or_and_right, exists_or]

theorem gives_singleton :
    Gives [m] page view ↔ m.Covers page ∧ m.vmo = view.object ∧ m.index page = view.index := by
  simp [Gives]

theorem recorded_install (kept : Kept start views s) (region : s.vmars r = some v)
    (aligned : Aligned m.base m.size)
    (unseen : ∀ page, m.base / pageSize ≤ page ∧ page < m.base / pageSize + m.size / pageSize →
      views v.process page = none) :
    views.write v.process (m.base / pageSize) (m.size / pageSize)
        (fun page => some ⟨r, m.vmo, m.index page⟩) k page = some view ↔
      view.region ≠ r ∧ s.Gives k page view ∨ view.region = r ∧ v.process = k ∧
        (Gives v.mappings page view ∨ m.Covers page ∧ m.vmo = view.object ∧ m.index page = view.index) := by
  by_cases inside : k = v.process ∧ m.base / pageSize ≤ page ∧ page < m.base / pageSize + m.size / pageSize
  · obtain ⟨rfl, inside⟩ := inside
    have covers : m.Covers page := aligned.covers_iff.mpr inside
    have none : ¬s.Gives v.process page view := by
      intro record
      have seen := (kept.recorded _ _ _).mpr record
      rw [unseen page inside] at seen
      cases seen
    rw [write_inside inside]
    constructor
    · intro eq
      cases eq
      exact .inr ⟨rfl, rfl, .inr ⟨covers, rfl, rfl⟩⟩
    rintro (⟨-, record⟩ | ⟨here, own, gives | ⟨-, object, idx⟩⟩)
    · exact absurd record none
    · exact absurd ((records_of_region region).mpr (.inr ⟨here, own, gives⟩)) none
    · rw [← here, object, idx]
  have out : v.process = k → ¬m.Covers page := fun eq covers =>
    inside ⟨eq.symm, aligned.covers_iff.mp covers⟩
  rw [write_outside inside]
  refine (kept.recorded k page view).trans ((records_of_region region).trans ?_)
  constructor
  · rintro (other | ⟨here, own, gives⟩)
    · exact .inl other
    · exact .inr ⟨here, own, .inl gives⟩
  rintro (other | ⟨here, own, gives | ⟨covers, -⟩⟩)
  · exact .inl other
  · exact .inr ⟨here, own, gives⟩
  · exact absurd covers (out own)

theorem Kept.install {frameAt : Nat → Option Nat} {flags : PageTableFlags} {space : AddressSpace}
    (kept : Kept start views s) (source : Source) (region : s.vmars r = some v)
    (found : s.processes v.process = some p) (run : p.runtime = some runtime)
    (aligned : Aligned m.base m.size) (off : m.vmoOffset % pageSize = 0)
    (installed : Installed frameAt flags r v p runtime m s t space)
    (mappable : start.Mappable m.vmo) (exclusive : m.flags.Exclusive)
    (backed : ∀ page frame, m.Covers page → frameAt (page - m.base / pageSize) = some frame →
      s.Backs m.vmo (m.index page) frame) :
    Kept start (views.write v.process (m.base / pageSize) (m.size / pageSize) fun page =>
      some ⟨r, m.vmo, m.vmoOffset / pageSize + (page - m.base / pageSize)⟩)
      (noteOrigin v.process m.base m.size ⟨r, source⟩ t) := by
  rw [write_congr (g := fun page => some ⟨r, m.vmo, m.index page⟩) fun page inside => by
    rw [VmarMapping.index_eq aligned off (aligned.covers_iff.mpr inside)]]
  have layout : Layout (noteOrigin v.process m.base m.size ⟨r, source⟩ t) :=
    kept.layout.install region found run aligned installed
  have spaces : ∀ l, (noteOrigin v.process m.base m.size ⟨r, source⟩ t).space l = _ := installed.space
  have old := space_eq_some found run
  obtain ⟨-, mapped, s', taken, rfl⟩ := installed
  have refs := kernelRefs_acquire taken
  obtain ⟨accounts, rfl⟩ := acquireKernelRef_some taken
  rw [noteOrigin_setSpace] at *
  have unseen : ∀ page, m.base / pageSize ≤ page ∧ page < m.base / pageSize + m.size / pageSize →
      views v.process page = none := fun page inside =>
    kept.unseen old (mapped.free page inside.1 inside.2)
  refine kept.rebook region layout rfl ⟨rfl, rfl⟩ rfl (fun k => (refs k).2) (fun k _ => ?_)
    (forall_mem_append.mpr ⟨(kept.regions r v region).2.2, forall_mem_singleton.mpr ⟨mappable, exclusive⟩⟩)
    (fun k page view => ?_) (kept.shows_setSpace old spaces ⟨rfl, rfl⟩
      (fun k page other => write_outside fun both => other both.1) fun page => ?_)
  · have more := (refs k).1
    rw [map_append, List.count_append]
    change kernelRefs { s with accounts := accounts } k + _ = _
    rw [more]
    exact (Nat.add_right_comm _ _ _).trans (Nat.add_assoc _ _ _)
  · have after : (setSpace (setVmar { s with accounts := accounts } r
        (v.withMappings (v.mappings ++ [m]))) v.process p runtime
        (space.noted (m.base / pageSize) (m.size / pageSize) ⟨r, source⟩)).Gives k page view ↔ _ :=
      records_update (s := s) rfl
    rw [after, gives_append, gives_singleton]
    exact recorded_install kept region aligned unseen
  by_cases inside : m.base / pageSize ≤ page ∧ page < m.base / pageSize + m.size / pageSize
  · rw [write_inside inside]
    refine .inr ⟨?_, fun entry here => ?_⟩
    · rw [← kept.accurate.others _ page (unseen page inside), pageAt, old]
      exact mapped.free page inside.1 inside.2
    rw [tableAt, spaces, if_pos rfl] at here
    obtain ⟨frame, at_, shows⟩ := mapped.shown page inside.1 inside.2
    exact ⟨frame, flags, backed page frame (aligned.covers_iff.mpr inside) at_,
      (some.inj here).symm.trans shows⟩
  · exact .inl ⟨write_outside fun both => inside both.2, mapped.other page inside⟩

theorem kernelRefs_acquireRefs {extra : Nat} {s' : Kernel} (taken : acquireRefs k extra s = some s')
    (l : Koid) : s'.kernelRefs l = s.kernelRefs l + extra * [k].count l ∧
      (s.accounts l = none → s'.accounts l = none) := by
  induction extra generalizing s with
  | zero =>
    cases taken
    exact ⟨by rw [Nat.zero_mul, Nat.add_zero], id⟩
  | succ extra ih =>
    rw [acquireRefs] at taken
    split at taken
    · cases taken
    next s₁ one =>
    obtain ⟨refs, known⟩ := kernelRefs_acquire one l
    obtain ⟨refs', known'⟩ := ih taken
    refine ⟨?_, known' ∘ known⟩
    rw [refs', refs, Nat.succ_mul]
    omega

theorem Kept.referenced (kept : Kept start views s) (region : s.vmars r = some v)
    (mem : m ∈ v.mappings) : 0 < s.kernelRefs m.vmo := by
  obtain ⟨below, -, named⟩ := kept.regions r v region
  rw [kept.references m.vmo (named m mem).1, recordsOf]
  refine Finset.sum_pos_iff.mpr ⟨r, Finset.mem_range.mpr below, ?_⟩
  rw [region, slotRecords]
  exact count_pos_iff.mpr (mem_map_of_mem mem)

theorem acquireRefs_isSome (registered : s.accounts k ≠ none) (n : Nat) : ∃ t, acquireRefs k n s = some t := by
  induction n generalizing s with
  | zero => exact ⟨s, rfl⟩
  | succ n ih =>
    obtain ⟨a, found⟩ := ne_none_iff_exists'.mp registered
    have taken : s.acquireKernelRef k =
        some (s.adjust k fun a => { a with kernelRefs := a.kernelRefs + 1 }) := by
      rw [acquireKernelRef, found]
    obtain ⟨t, rest⟩ := ih (s := s.adjust k fun a => { a with kernelRefs := a.kernelRefs + 1 })
      (by simp [adjust, found])
    exact ⟨t, by rw [acquireRefs, taken]; exact rest⟩

section Taken
variable {accepted : Option VmarMapping} {pieces : VmarMapping → List VmarMapping}

theorem takenRefs_whole (whole : ∀ m ∈ accepted, (pieces m).length - 1 = 0) :
    takenRefs s pieces accepted = s := by
  cases accepted with
  | none => rfl
  | some m =>
    rw [takenRefs, whole m rfl]
    rfl

/-- References beyond the first are not matched by records: none has been written yet. -/
theorem Kept.not_accurate (kept : Kept start views s) (region : s.vmars r = some v)
    (mem : m ∈ v.mappings) (more : (pieces m).length - 1 ≠ 0) :
    ¬Accurate start views' (takenRefs s pieces (some m)) := by
  have positive := kept.referenced region mem
  have registered : s.accounts m.vmo ≠ none := by
    intro gone
    rw [kernelRefs, gone] at positive
    exact absurd positive (lt_irrefl 0)
  obtain ⟨t, taken⟩ := acquireRefs_isSome registered ((pieces m).length - 1)
  intro accurate
  have mappable := ((kept.regions r v region).2.2 m mem).1
  have after := accurate.references m.vmo mappable
  rw [takenRefs, taken, getD_some, (kernelRefs_acquireRefs taken m.vmo).1, count_singleton_self,
    kept.references m.vmo mappable] at after
  have records : t.recordsOf m.vmo = s.recordsOf m.vmo := by
    obtain ⟨accounts, rfl⟩ := acquireRefs_some taken
    rfl
  omega

end Taken

theorem Kept.mappable (kept : Kept start views s) (found : s.Mappable k) : start.Mappable k := by
  rcases kept.objects k with ⟨vmos, resources⟩ | ⟨-, vmos, resources⟩
  · rwa [Mappable, vmos, resources] at found
  · simp [Mappable, vmos, resources] at found

section Steps
variable {room : Nat → Bool} {result : Except ErrorCode Nat}

namespace Kept
variable (kept : Kept start views s)
include kept

theorem map {vmo : Koid} {o : Vmo} {rights : Rights} {args : VmarMapArgs}
    (region : s.vmars r = some v) (memory : s.vmos vmo = some o)
    (ran : noting v.process args.addr args.len ⟨r, .vmo rights⟩
      (mapVmoIntoVmar room r v vmo o args) s = (result, t)) :
    Kept start ((map room r vmo rights args).viewsAfter s views result) t := by
  rw [noting] at ran
  split at ran
  next n u done =>
    cases ran
    rcases mapVmoIntoVmar_cases kept.layout region done with ⟨⟨error, fails⟩, -⟩ |
      ⟨-, exclusive, p, runtime, space, found, running, aligned, offset, installed⟩
    · cases fails
    rw [viewsAfter, viewed, owner, region]
    exact kept.install (.vmo rights) region found running aligned offset installed
      (kept.mappable (.inl (by simp [memory]))) exclusive fun page frame covers at_ => .inl ⟨o, memory, by
        rw [VmarMapping.index_eq aligned offset covers]
        exact at_⟩
  next error u fails =>
  cases ran
  rcases mapVmoIntoVmar_cases kept.layout region fails with ⟨-, refused⟩ | ⟨done, -⟩
  · exact kept.refused region (kept.mappable (.inl (by simp [memory]))) refused
  · cases done

theorem mapResource {caller resource : Koid} {res : Resource} {args : ResourceMapArgs}
    (device : s.resources resource = some res)
    (run : s.runtime caller = some runtime)
    (ran : noting caller args.addr args.len ⟨runtime.rootVmar, .resource res.kind⟩
      (mapResourceIntoCurrent room caller resource res args) s = (result, t)) :
    Kept start ((mapResource room caller resource args).viewsAfter s views result) t := by
  rw [noting] at ran
  split at ran
  next n u done =>
    cases ran
    rcases mapResourceIntoCurrent_cases kept.layout done with ⟨⟨error, fails⟩, -⟩ |
      ⟨-, p, runtime', root, space, found, running', region, own, aligned, plain, offset, inside, installed⟩
    · cases fails
    have eq : runtime = runtime' := by
      rw [Kernel.runtime, found] at run
      exact some.inj (run.symm.trans running')
    subst eq own
    rw [viewsAfter, viewed, run]
    exact kept.install (.resource res.kind) region found running' aligned offset installed
      (kept.mappable (.inr (by simp [device]))) (fun both => by rw [plain] at both; cases both.2)
      fun page frame covers at_ => .inr ⟨res, device,
        resource_frame aligned offset inside covers (some.inj at_)⟩
  next error u fails =>
  cases ran
  rcases mapResourceIntoCurrent_cases kept.layout fails with
    ⟨-, rfl | ⟨r, v, region, refused⟩⟩ | ⟨done, -⟩
  · exact kept
  · exact kept.refused region (kept.mappable (.inr (by simp [device]))) refused
  · cases done

end Kept
end Steps

namespace Transaction

/-- A transaction keeps the records accurate when, and only when, it cuts no mapping up. -/
theorem kept_step (x : Transaction) (kept : Kept start views s) :
    (Whole s x → Kept start (step (s, views) x).2 (step (s, views) x).1) ∧
      (Accurate start (step (s, views) x).2 (step (s, views) x).1 → Whole s x) := by
  -- a transaction that maps takes nothing further
  have maps {result : Except ErrorCode Nat} {t : Kernel} (none : x.takes s = none)
      (ran : x.run s = (result, t)) (next : Kept start (x.viewsAfter s views result) t) :
      (Whole s x → Kept start (step (s, views) x).2 (step (s, views) x).1) ∧
        (Accurate start (step (s, views) x).2 (step (s, views) x).1 → Whole s x) := by
    rw [step, ran]
    exact ⟨fun _ => next, fun _ k n some => by rw [none] at some; cases some⟩
  have cuts {v : Vmar} {r : Koid} {pieces : VmarMapping → List VmarMapping} {accepted : Option VmarMapping}
      {error : ErrorCode} (region : s.vmars r = some v) (mem : ∀ m ∈ accepted, m ∈ v.mappings)
      (takes : x.takes s = accepted.map fun m => (m.vmo, (pieces m).length - 1))
      (ran : x.run s = (.error error, takenRefs s pieces accepted)) :
      (Whole s x → Kept start (step (s, views) x).2 (step (s, views) x).1) ∧
        (Accurate start (step (s, views) x).2 (step (s, views) x).1 → Whole s x) := by
    rw [step, ran]
    refine ⟨fun whole => ?_, fun accurate k n some => ?_⟩
    · dsimp only
      rw [takenRefs_whole fun m here => whole m.vmo _ (by rw [takes, mem_def.mp here]; rfl)]
      exact kept
    rw [takes] at some
    obtain ⟨m, rfl, eq⟩ := map_eq_some_iff.mp some
    cases eq
    by_contra more
    exact kept.not_accurate region (mem m rfl) more accurate
  rcases ran : x.run s with ⟨result, t⟩
  cases x with
  | map room region vmo rights args =>
    refine maps rfl ran ?_
    rw [run] at ran
    split at ran
    next v o here memory => exact kept.map here memory ran
    cases ran
    exact kept
  | unmap region args =>
    cases here : s.vmars region with
    | none =>
      have ran : (Transaction.unmap region args).run s = (.error .badHandle, s) := by simp only [run, here]
      exact maps (by simp only [takes, here, bind_none]) ran kept
    | some v =>
      obtain ⟨error, eq⟩ := unmapVmarMapping_eq region v args s
      have ran : (Transaction.unmap region args).run s = _ := (by simp only [run, here]; exact eq)
      exact cuts here (fun m => unmapAccepts_mem) (by simp only [takes, here, bind_some]) ran
  | protect region args =>
    cases here : s.vmars region with
    | none =>
      have ran : (Transaction.protect region args).run s = (.error .badHandle, s) := by simp only [run, here]
      exact maps (by simp only [takes, here, bind_none]) ran kept
    | some v =>
      obtain ⟨error, eq⟩ := protectVmarMapping_eq region v args s
      have ran : (Transaction.protect region args).run s = _ := (by simp only [run, here]; exact eq)
      exact cuts here (fun m => protectAccepts_mem) (by simp only [takes, here, bind_some]) ran
  | mapResource room caller resource args =>
    refine maps rfl ran ?_
    rw [run] at ran
    split at ran
    next res runtime device running => exact kept.mapResource device running ran
    cases ran
    exact kept
  | unmapResource caller resource args =>
    refine maps rfl ran ?_
    rw [run] at ran
    split at ran
    next res _ =>
      obtain ⟨error, eq⟩ := unmapResourceFromCurrent_eq caller resource res args s
      cases ran.symm.trans eq
      exact kept
    cases ran
    exact kept

theorem accurate_iff (transactions : List Transaction) (kept : Kept start views s) :
    (∀ done rest, transactions = done ++ rest →
        Accurate start (runAll done (s, views)).2 (runAll done (s, views)).1) ↔
      ∀ done x rest, transactions = done ++ x :: rest → Whole (runAll done (s, views)).1 x := by
  induction transactions generalizing s views with
  | nil =>
    refine iff_of_true (fun done rest split => ?_) fun done x rest split => ?_
    · rw [(nil_eq_append_iff.mp split).1]
      exact kept.accurate
    · simp at split
  | cons x rest ih =>
    constructor
    · intro accurate
      have whole := (kept_step x kept).2 (accurate [x] rest rfl)
      have later := (ih ((kept_step x kept).1 whole)).mp fun done tail split =>
        accurate (x :: done) tail (by rw [split, cons_append])
      rintro (_ | ⟨y, done⟩) z tail split
      · cases split
        exact whole
      · cases split
        exact later done z tail rfl
    intro whole
    have later := (ih ((kept_step x kept).1 (whole [] x rest rfl))).mpr fun done y tail split =>
      whole (x :: done) y tail (by rw [split, cons_append])
    rintro (_ | ⟨y, done⟩) tail split
    · exact kept.accurate
    · cases split
      exact later done tail rfl

/-- The records are accurate after each transaction of a sequence exactly when none of them that
nothing refuses cuts a mapping into two or more: it takes the references of the further pieces, and its
CPU stops before it has written their records. -/
theorem records_accurate_iff (fresh : start.Fresh) (transactions : List Transaction) :
    (∀ done rest, transactions = done ++ rest → Accurate start
        (runAll done (start, fun _ _ => none)).2 (runAll done (start, fun _ _ => none)).1) ↔
      ∀ done x rest, transactions = done ++ x :: rest → Whole (runAll done (start, fun _ _ => none)).1 x :=
  accurate_iff transactions fresh.kept

/-- A process with a memory object of three pages. -/
def threePages : Kernel where
  accounts k := if k ∈ [1, 2, 3] then some ⟨1, 0⟩ else none
  vmos
    | 3 => some ⟨0x3000, [7, 8, 9]⟩
    | _ => none
  vmars
    | 2 => some (rootRegion 2 1)
    | _ => none
  resources _ := none
  processes
    | 1 => some (newProcess 2 [])
    | _ => none
  inFlight := []
  free := []
  nextKoid := 4

theorem threePages_fresh : threePages.Fresh := by
  refine ⟨fun r v found => ?_, fun k mappable => ?_, fun k mappable => ?_⟩
  · simp only [threePages] at found
    split at found <;> cases found
    exact ⟨⟨by decide, nofun, .nil, nofun, nofun⟩, rfl, by decide⟩
  all_goals
    rcases mappable with memory | device
    · simp only [threePages] at memory
      split at memory
      · rfl
      · exact absurd rfl memory
    · exact absurd rfl device

def mapThree : Transaction :=
  .map (fun _ => true) 2 3 (.read ||| .write)
    ⟨1, 2, 0, 0x10000, 0x3000, .read ||| .write ||| .user ||| .specific⟩

/-- Three pages are mapped; a second mapping over them and an unmap of more than is mapped are refused,
and an unmap of the last page stops its CPU. -/
def refusals : List Transaction :=
  [mapThree, mapThree, .unmap 2 ⟨1, 0x10000, 0x4000, 0#32⟩, .unmap 2 ⟨1, 0x12000, 0x1000, 0#32⟩]

/-- One record and one reference are left. -/
theorem records_accurate_iff_refusals :
    (runAll refusals (threePages, fun _ _ => none)).1.kernelRefs 3 = 1 ∧
      Accurate threePages (runAll refusals (threePages, fun _ _ => none)).2
        (runAll refusals (threePages, fun _ _ => none)).1 := by
  refine ⟨by decide +kernel, (records_accurate_iff threePages_fresh refusals).mpr ?_ refusals [] (by simp)⟩
  intro done x rest split
  match done with
  | [] => cases split; exact nofun
  | [_] => cases split; exact nofun
  | [_, _] => cases split; exact nofun
  | [_, _, _] =>
    cases split
    intro k n takes
    cases takes
    rfl
  | _ :: _ :: _ :: _ :: done => simp [refusals] at split

/-- When the middle one of three pages is unmapped, a second reference is held for one record. -/
theorem middle_page_leaves_reference :
    threePages.Fresh ∧
      let s := (runAll [mapThree, .unmap 2 ⟨1, 0x11000, 0x1000, 0#32⟩] (threePages, fun _ _ => none)).1
      s.kernelRefs 3 = 2 ∧ s.recordsOf 3 = 1 :=
  ⟨threePages_fresh, by decide +kernel⟩

end Transaction
end HuesOS.Vm
