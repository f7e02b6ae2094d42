import HuesOS.Vm.AddressSpace

/-! The page tables of a user address space, level by level, and the hardware walk over them.
A table is named by the pages below it: tables are not given back while the address space lives,
so nothing lies below an unused entry. User mappings are of 4 KiB pages only. -/

namespace HuesOS.Vm
open List Function Option Bool

inductive Level
  | p4 | p3 | p2
  deriving DecidableEq

def levels : List Level := [.p4, .p3, .p2]

theorem mem_levels (level : Level) : level ∈ levels := by cases level <;> decide

def Level.entry (page : Nat) : Level → Nat
  | .p4 => page / 512 ^ 3
  | .p3 => page / 512 ^ 2
  | .p2 => page / 512

namespace PageTableFlags

def union (a b : PageTableFlags) : PageTableFlags where
  present := a.present || b.present
  writable := a.writable || b.writable
  userAccessible := a.userAccessible || b.userAccessible
  noCache := a.noCache || b.noCache
  noExecute := a.noExecute || b.noExecute

end PageTableFlags

structure PageTables where
  upper : Level → Nat → Option PageTableFlags
  leaf : Nat → Option PageEntry

/-- The operations of the paging library on the tables. What `map_to` does may depend on whether
frames are left for the tables of each level; a failed call leaves what it has done so far. -/
structure Mapper where
  mapTo : PageTables → (room : Level → Bool) → (page frame : Nat) → PageTableFlags →
    Except UserPageError Unit × PageTables
  updateFlags : PageTables → (page : Nat) → PageTableFlags → Except UserPageError PageTables
  unmap : PageTables → (page : Nat) → Except UserPageError PageTables

namespace PageTables

def new : PageTables := ⟨fun _ _ => none, fun _ => none⟩

def setUpper (t : PageTables) (level : Level) (entry : Nat) (flags : PageTableFlags) : PageTables :=
  { t with upper := fun l e => if l = level ∧ e = entry then some flags else t.upper l e }

end PageTables

open PageTables

inductive Access
  | read | write | fetch
  deriving DecidableEq

def PageTableFlags.permits (flags : PageTableFlags) (access : Access) : Bool :=
  flags.present && flags.userAccessible && match access with
    | .read => true
    | .write => flags.writable
    | .fetch => !flags.noExecute

/-- The hardware walk: every entry on the way has to permit the access. -/
def PageTables.walk (t : PageTables) (page : Nat) (access : Access) : Bool :=
  (levels.all fun level => (t.upper level (level.entry page)).any (·.permits access)) &&
    (t.leaf page).any (·.flags.permits access)

def VmarFlags.grants (flags : VmarFlags) : Access → Bool
  | .read => flags.has .user
  | .write => flags.has .user && flags.has .write
  | .fetch => flags.has .user && flags.has .execute

theorem permits_pageFlags (flags : VmarFlags) (access : Access) :
    (pageFlagsFromVmarFlags flags).permits access = flags.grants access := by
  cases access <;> simp [PageTableFlags.permits, pageFlagsFromVmarFlags, VmarFlags.grants]

theorem user_of_grants {flags : VmarFlags} {access : Access} (granted : flags.grants access = true) :
    flags.has .user = true := by
  cases access with
  | read => exact granted
  | write => exact (and_eq_true _ _ |>.mp granted).1
  | fetch => exact (and_eq_true _ _ |>.mp granted).1

/-- A user address space, and the flags that the latest successful map or protect of each page
asked for. -/
structure UserPages where
  tables : PageTables
  requested : Nat → Option VmarFlags

/-- The calls of `try_map_user_page`, `protect_user_page` and `unmap_user_page`. -/
inductive PageOp
  | map (room : Level → Bool) (page frame : Nat) (flags : VmarFlags)
  | protect (page : Nat) (flags : VmarFlags)
  | unmap (page : Nat)

namespace UserPages

def new : UserPages := ⟨.new, fun _ => none⟩

def step (mapper : Mapper) (s : UserPages) : PageOp → UserPages
  | .map room page frame flags =>
    match mapper.mapTo s.tables room page frame (pageFlagsFromVmarFlags flags) with
    | (.error _, tables) => { s with tables := tables }
    | (.ok (), tables) => ⟨tables, update s.requested page (some flags)⟩
  | .protect page flags =>
    match mapper.updateFlags s.tables page (pageFlagsFromVmarFlags flags) with
    | .error _ => s
    | .ok tables => ⟨tables, update s.requested page (some flags)⟩
  | .unmap page =>
    match mapper.unmap s.tables page with
    | .error _ => s
    | .ok tables => ⟨tables, update s.requested page none⟩

def Exact (s : UserPages) : Prop :=
  ∀ page access, s.tables.walk page access = (s.requested page).any (·.grants access)

/-- The entries above a page permit what a mapping of it with these flags grants. -/
def Covered (t : PageTables) (page : Nat) (flags : VmarFlags) : Prop :=
  flags.has .user = true → ∀ level, ∃ above ∈ t.upper level (level.entry page),
    above.userAccessible = true ∧ (flags.has .write = true → above.writable = true)

/-- A protect of a mapped page asks for no access that the entries above the page withhold. -/
def Covers (s : UserPages) : PageOp → Prop
  | .protect page flags => (s.requested page).isSome → Covered s.tables page flags
  | _ => True

end UserPages

/-- `b` permits users and writers wherever `a` does. -/
def PageTableFlags.Within (a b : PageTableFlags) : Prop :=
  (a.userAccessible = true → b.userAccessible = true) ∧ (a.writable = true → b.writable = true)

theorem PageTableFlags.within_union (a b : PageTableFlags) : a.Within (a.union b) ∧ b.Within (a.union b) := by
  refine ⟨⟨?_, ?_⟩, ?_, ?_⟩ <;> intro h <;> simp [union, h]

theorem PageTableFlags.Within.trans {a b c : PageTableFlags} (first : a.Within b)
    (second : b.Within c) : a.Within c :=
  ⟨fun h => second.1 (first.1 h), fun h => second.2 (first.2 h)⟩

namespace PageTables
variable {t t' : PageTables} {page : Nat}

def Plain (t : PageTables) : Prop :=
  ∀ level entry above, t.upper level entry = some above →
    above.present = true ∧ above.noExecute = false

/-- `t'` has every table of `t`, with the same bits or more. -/
structure Raised (t t' : PageTables) : Prop where
  leaf : t'.leaf = t.leaf
  plain : t.Plain → t'.Plain
  upper : ∀ level entry above, t.upper level entry = some above →
    ∃ after, t'.upper level entry = some after ∧ above.Within after

theorem Raised.refl (t : PageTables) : Raised t t :=
  ⟨rfl, id, fun _ _ above there => ⟨above, there, id, id⟩⟩

theorem Raised.trans {t'' : PageTables} (first : Raised t t') (second : Raised t' t'') : Raised t t'' := by
  refine ⟨second.leaf.trans first.leaf, fun plain => second.plain (first.plain plain), ?_⟩
  intro level entry above there
  obtain ⟨middle, there, within⟩ := first.upper level entry above there
  obtain ⟨after, there, within'⟩ := second.upper level entry middle there
  exact ⟨after, there, within.trans within'⟩

theorem Raised.isSome (raised : Raised t t') {level : Level} {entry : Nat}
    (there : (t.upper level entry).isSome) : (t'.upper level entry).isSome := by
  obtain ⟨flags, there⟩ := isSome_iff_exists.mp there
  obtain ⟨after, there, -⟩ := raised.upper level entry flags there
  exact isSome_iff_exists.mpr ⟨after, there⟩

theorem Raised.covered {flags : VmarFlags} (raised : Raised t t')
    (covered : UserPages.Covered t page flags) : UserPages.Covered t' page flags := by
  intro user level
  obtain ⟨above, there, permits, writes⟩ := covered user level
  obtain ⟨after, there, within⟩ := raised.upper level _ above there
  exact ⟨after, there, within.1 permits, fun asked => within.2 (writes asked)⟩

/-- A page is mapped when the tables above it are there. -/
def Mapped (t : PageTables) (page : Nat) (entry : PageEntry) : Prop :=
  t.leaf page = some entry ∧ ∀ level, (t.upper level (level.entry page)).isSome

end PageTables

/-- What is assumed of the paging library: mapping a page adds its present, writable and user bits to
the tables above it, and takes none away; a change of flags or an unmap changes the last level only,
and fails for a page that is not mapped. -/
structure Mapper.Lawful (mapper : Mapper) : Prop where
  mapTo : ∀ t room page frame flags, flags.present = true → ∃ above, PageTables.Raised t above ∧
    ((∃ error, mapper.mapTo t room page frame flags = (.error error, above)) ∨
      (∀ level, ∃ entry, above.upper level (level.entry page) = some entry ∧ flags.Within entry) ∧
        mapper.mapTo t room page frame flags =
          (.ok (), ⟨above.upper, update t.leaf page (some ⟨frame, flags⟩)⟩))
  updateFlags : ∀ t page flags entry, t.Mapped page entry → mapper.updateFlags t page flags =
    .ok { t with leaf := update t.leaf page (some { entry with flags := flags }) }
  unmap : ∀ t page entry, t.Mapped page entry →
    mapper.unmap t page = .ok { t with leaf := update t.leaf page none }
  absent : ∀ t page, t.leaf page = none →
    (∀ flags, ∃ error, mapper.updateFlags t page flags = .error error) ∧
      ∃ error, mapper.unmap t page = .error error

namespace UserPages
variable {s : UserPages} {mapper : Mapper}

/-- The last level holds what was asked for, and the tables above a mapped page are there. -/
structure Sound (s : UserPages) : Prop where
  plain : s.tables.Plain
  tables : ∀ page, (s.tables.leaf page).isSome →
    ∀ level, (s.tables.upper level (level.entry page)).isSome
  agreed : ∀ page, (s.tables.leaf page).map (·.flags) =
    (s.requested page).map pageFlagsFromVmarFlags

theorem Sound.mapped (sound : Sound s) {page : Nat} {entry : PageEntry}
    (there : s.tables.leaf page = some entry) : s.tables.Mapped page entry :=
  ⟨there, sound.tables page (by rw [there]; rfl)⟩

/-- The walk is exact when, and only when, every requested page is covered. -/
theorem Sound.exact_iff (sound : Sound s) :
    Exact s ↔ ∀ page flags, s.requested page = some flags → Covered s.tables page flags := by
  constructor
  · intro exact page flags asked user level
    have reads := exact page .read
    have writes := exact page .write
    simp only [asked, any_some, VmarFlags.grants, user, Bool.true_and, walk,
      and_eq_true, List.all_eq_true] at reads writes
    obtain ⟨above, there, permits⟩ := any_eq_true _ _ |>.mp (reads.1 level (mem_levels level))
    refine ⟨above, there, ?_, fun asked => ?_⟩
    · simp only [PageTableFlags.permits, and_eq_true] at permits
      exact permits.1.2
    rw [asked] at writes
    have permits := (and_eq_true _ _ |>.mp writes).1
    have permits := List.all_eq_true.mp permits level (mem_levels level)
    rw [mem_def.mp there] at permits
    simp only [any_some, PageTableFlags.permits, and_eq_true] at permits
    exact permits.2
  intro covered page access
  have agreed := sound.agreed page
  cases asked : s.requested page with
  | none =>
    rw [asked, map_none, map_eq_none_iff] at agreed
    simp [walk, agreed]
  | some flags =>
    rw [asked, map_some, map_eq_some_iff] at agreed
    obtain ⟨entry, mapped, eq⟩ := agreed
    rw [walk, mapped, any_some, any_some, eq]
    rw [permits_pageFlags]
    cases granted : flags.grants access with
    | false => rw [Bool.and_false]
    | true =>
      rw [Bool.and_true, List.all_eq_true]
      intro level _
      obtain ⟨above, there, user, write⟩ := covered page flags asked (user_of_grants granted) level
      obtain ⟨present, executes⟩ := sound.plain level _ above there
      rw [mem_def.mp there, any_some]
      cases access with
      | read => simp [PageTableFlags.permits, present, user]
      | fetch => simp [PageTableFlags.permits, present, user, executes]
      | write =>
        have asked : flags.has .write = true := (and_eq_true _ _ |>.mp granted).2
        simp [PageTableFlags.permits, present, user, write asked]

variable {above : PageTables}

/-- The entry of one page changes, with what was asked for it; the tables above only gain bits. -/
theorem Sound.set {page : Nat} {entry : Option PageEntry}
    {flags : Option VmarFlags} (sound : Sound s) (raised : s.tables.Raised above)
    (tables : entry.isSome → ∀ level, (above.upper level (level.entry page)).isSome)
    (agreed : entry.map (·.flags) = flags.map pageFlagsFromVmarFlags) :
    Sound ⟨⟨above.upper, update s.tables.leaf page entry⟩, update s.requested page flags⟩ := by
  refine ⟨raised.plain sound.plain, fun other mapped level => ?_, fun other => ?_⟩
  · by_cases eq : other = page
    · subst eq
      dsimp only at mapped
      rw [update_self] at mapped
      exact tables mapped level
    dsimp only at mapped
    rw [update_of_ne eq] at mapped
    exact raised.isSome (sound.tables other mapped level)
  dsimp only
  by_cases eq : other = page
  · subst eq
    rw [update_self, update_self]
    exact agreed
  rw [update_of_ne eq, update_of_ne eq]
  exact sound.agreed other

/-- After such a change the walk is exact if the page is covered, and only then. -/
theorem Sound.exact_set {page : Nat} {entry : Option PageEntry}
    {flags : Option VmarFlags} (sound : Sound s) (raised : s.tables.Raised above)
    (tables : entry.isSome → ∀ level, (above.upper level (level.entry page)).isSome)
    (agreed : entry.map (·.flags) = flags.map pageFlagsFromVmarFlags) (exact : Exact s) :
    Exact ⟨⟨above.upper, update s.tables.leaf page entry⟩,
      update s.requested page flags⟩ ↔ ∀ asked ∈ flags, Covered above page asked := by
  rw [(sound.set raised tables agreed).exact_iff]
  constructor
  · intro all asked mem
    exact all page asked (by dsimp only; rw [update_self]; exact mem)
  intro here other asked requested
  dsimp only at requested
  by_cases eq : other = page
  · subst eq
    rw [update_self] at requested
    exact here asked requested
  rw [update_of_ne eq] at requested
  exact raised.covered (sound.exact_iff.mp exact other asked requested)

theorem Sound.raise (sound : Sound s) (raised : s.tables.Raised above) :
    Sound { s with tables := above } ∧ (Exact s → Exact { s with tables := above }) := by
  have kept : Sound { s with tables := above } := by
    have eq := @Sound.set s above 0 _ _ sound raised
      (fun mapped level => raised.isSome (sound.tables 0 mapped level)) (sound.agreed 0)
    rwa [update_eq_self, update_eq_self, ← raised.leaf] at eq
  refine ⟨kept, fun exact => kept.exact_iff.mpr fun page asked requested => ?_⟩
  exact raised.covered (sound.exact_iff.mp exact page asked requested)

/-- One operation: the tables stay sound, and the walk stays exact when the operation is covered,
and only then. -/
theorem Sound.step (lawful : mapper.Lawful) (sound : Sound s) (op : PageOp) :
    Sound (s.step mapper op) ∧ (Exact s → (Exact (s.step mapper op) ↔ Covers s op)) := by
  have unraised := PageTables.Raised.refl s.tables
  cases op with
  | map room page frame flags =>
    obtain ⟨above, raised, ⟨error, ran⟩ | ⟨made, ran⟩⟩ :=
      lawful.mapTo s.tables room page frame (pageFlagsFromVmarFlags flags) rfl
    · rw [UserPages.step, ran]
      obtain ⟨kept, exact⟩ := sound.raise raised
      exact ⟨kept, fun pre => iff_of_true (exact pre) trivial⟩
    have tables (level : Level) : (above.upper level (level.entry page)).isSome :=
      isSome_iff_exists.mpr ((made level).imp fun _ => And.left)
    have covered : Covered above page flags := fun user level =>
      (made level).imp fun _ ⟨there, within⟩ => ⟨there, within.1 user, within.2⟩
    rw [UserPages.step, ran]
    refine ⟨sound.set raised (fun _ => tables) rfl, fun pre => ?_⟩
    rw [sound.exact_set raised (fun _ => tables) rfl pre]
    exact iff_of_true (by rintro asked ⟨⟩; exact covered) trivial
  | protect page flags =>
    have agreed := sound.agreed page
    rw [UserPages.step, Covers]
    cases mapped : s.tables.leaf page with
    | none =>
      obtain ⟨error, failed⟩ := (lawful.absent s.tables page mapped).1 (pageFlagsFromVmarFlags flags)
      rw [mapped, map_none, eq_comm, map_eq_none_iff] at agreed
      simp [failed, sound, agreed]
    | some entry =>
      rw [lawful.updateFlags s.tables page _ entry (sound.mapped mapped)]
      rw [mapped, map_some, eq_comm, map_eq_some_iff] at agreed
      obtain ⟨asked, requested, -⟩ := agreed
      have tables := sound.tables page (by rw [mapped]; rfl)
      refine ⟨sound.set unraised (fun _ => tables) rfl, fun pre => ?_⟩
      rw [sound.exact_set unraised (fun _ => tables) rfl pre, requested]
      simp
  | unmap page =>
    rw [UserPages.step]
    cases mapped : s.tables.leaf page with
    | none =>
      obtain ⟨error, failed⟩ := (lawful.absent s.tables page mapped).2
      rw [failed]
      exact ⟨sound, fun pre => iff_of_true pre trivial⟩
    | some entry =>
      rw [lawful.unmap s.tables page entry (sound.mapped mapped)]
      refine ⟨sound.set unraised (by simp) rfl, fun pre => ?_⟩
      rw [sound.exact_set unraised (by simp) rfl pre]
      exact iff_of_true (by simp) trivial

theorem sound_new : Sound new := ⟨by simp [PageTables.Plain, new, PageTables.new],
  by simp [new, PageTables.new], fun _ => rfl⟩

theorem sound_run (lawful : mapper.Lawful) (ops : List PageOp) : Sound (ops.foldl (step mapper) new) := by
  induction ops using List.reverseRecOn with
  | nil => exact sound_new
  | append_singleton ops op ih =>
    rw [foldl_append]
    exact (ih.step lawful op).1

theorem exact_new : Exact new := sound_new.exact_iff.mpr (by simp [new])

/-- With any paging library that keeps to the assumptions, the walk permits what was asked for after
each of a sequence of operations, exactly when every protect of a mapped page in it is covered by the
entries above the page at that time. -/
theorem walk_exact_iff (lawful : mapper.Lawful) (ops : List PageOp) :
    (∀ done rest, ops = done ++ rest → Exact (done.foldl (step mapper) new)) ↔
      ∀ done op rest, ops = done ++ op :: rest → Covers (done.foldl (step mapper) new) op := by
  constructor
  · rintro exact done op rest rfl
    have after := exact (done ++ [op]) rest (by simp)
    rw [foldl_append] at after
    exact (((sound_run lawful done).step lawful op).2 (exact done _ rfl)).mp after
  intro covers done
  induction done using List.reverseRecOn with
  | nil => exact fun _ _ => exact_new
  | append_singleton done op ih =>
    rintro rest split
    rw [append_assoc, singleton_append] at split
    rw [foldl_append]
    exact (((sound_run lawful done).step lawful op).2 (ih _ split)).mpr (covers done op rest split)

end UserPages

/-! A library that keeps to the assumptions. -/

namespace PageTables

/-- Find or make the table below an entry, given whether a frame is left for a new one. -/
def createNextTable (t : PageTables) (room : Bool) (level : Level) (entry : Nat)
    (insert : PageTableFlags) : Option PageTables :=
  match t.upper level entry with
  | none => if room then some (t.setUpper level entry insert) else none
  | some flags => some (t.setUpper level entry (flags.union insert))

/-- The tables above a page, level by level; a call that runs out of frames leaves what it did. -/
def createTables (room : Level → Bool) (page : Nat) (insert : PageTableFlags) :
    List Level → PageTables → Bool × PageTables
  | [], t => (true, t)
  | level :: below, t =>
    match t.createNextTable (room level) level (level.entry page) insert with
    | none => (false, t)
    | some t => createTables room page insert below t

def mapTo (t : PageTables) (room : Level → Bool) (page frame : Nat) (flags : PageTableFlags) :
    Except UserPageError Unit × PageTables :=
  match createTables room page { flags with noCache := false, noExecute := false } levels t with
  | (false, t) => (.error .outOfMemory, t)
  | (true, t) =>
    match t.leaf page with
    | some _ => (.error .alreadyMapped, t)
    | none => (.ok (), { t with leaf := update t.leaf page (some ⟨frame, flags⟩) })

def find (t : PageTables) (page : Nat) : Option PageEntry :=
  if levels.all fun level => (t.upper level (level.entry page)).isSome then t.leaf page else none

def updateFlags (t : PageTables) (page : Nat) (flags : PageTableFlags) :
    Except UserPageError PageTables :=
  match t.find page with
  | none => .error .notMapped
  | some entry =>
    .ok { t with leaf := update t.leaf page (some { entry with flags := flags }) }

def unmap (t : PageTables) (page : Nat) : Except UserPageError PageTables :=
  match t.find page with
  | none => .error .notMapped
  | some _ => .ok { t with leaf := update t.leaf page none }

variable {t t' : PageTables} {room : Level → Bool} {page : Nat} {insert : PageTableFlags}

theorem raised_setUpper {level : Level} {entry : Nat} {flags : PageTableFlags}
    (sane : t.Plain → flags.present = true ∧ flags.noExecute = false)
    (more : ∀ above, t.upper level entry = some above → above.Within flags) :
    Raised t (t.setUpper level entry flags) := by
  refine ⟨rfl, ?_, ?_⟩
  · intro plain l e above there
    simp only [setUpper] at there
    split at there
    · cases there
      exact sane plain
    · exact plain l e above there
  intro l e above there
  simp only [setUpper]
  split
  next here =>
    obtain ⟨rfl, rfl⟩ := here
    exact ⟨flags, rfl, more above there⟩
  · exact ⟨above, there, id, id⟩

theorem createNextTable_raised {level : Level} {entry : Nat} {frames : Bool}
    (sane : insert.present = true ∧ insert.noExecute = false)
    (made : t.createNextTable frames level entry insert = some t') :
    Raised t t' ∧ ∃ above, t'.upper level entry = some above ∧ insert.Within above := by
  rw [createNextTable] at made
  split at made
  next unused =>
    split at made
    · cases made
      refine ⟨raised_setUpper (fun _ => sane) (by simp [unused]), insert, ?_, id, id⟩
      simp [setUpper]
    · cases made
  next flags there =>
  cases made
  obtain ⟨pre, added⟩ := flags.within_union insert
  refine ⟨raised_setUpper ?_ ?_, flags.union insert, by simp [setUpper], added⟩
  · intro plain
    simp [PageTableFlags.union, sane, plain level entry flags there]
  intro above eq
  cases there.symm.trans eq
  exact pre

theorem createTables_raised (sane : insert.present = true ∧ insert.noExecute = false)
    (todo : List Level) (t : PageTables) :
    Raised t (createTables room page insert todo t).2 ∧
      ((createTables room page insert todo t).1 = true → ∀ level ∈ todo, ∃ above,
        (createTables room page insert todo t).2.upper level (level.entry page) = some above ∧
        insert.Within above) := by
  induction todo generalizing t with
  | nil => exact ⟨.refl t, by simp⟩
  | cons level below ih =>
    rw [createTables]
    split
    · exact ⟨.refl t, by simp⟩
    next next made =>
    obtain ⟨first, above, there, within⟩ := createNextTable_raised sane made
    obtain ⟨rest, all⟩ := ih next
    refine ⟨first.trans rest, fun done l mem => ?_⟩
    rcases mem_cons.mp mem with rfl | later
    · obtain ⟨after, there, within'⟩ := rest.upper l _ above there
      exact ⟨after, there, within.trans within'⟩
    · exact all done l later

theorem mapTo_cases (frame : Nat) (flags : PageTableFlags) (present : flags.present = true) :
    ∃ above, Raised t above ∧
      ((∃ error, t.mapTo room page frame flags = (.error error, above)) ∨
        (∀ level, ∃ entry, above.upper level (level.entry page) = some entry ∧ flags.Within entry) ∧
        t.mapTo room page frame flags =
          (.ok (), ⟨above.upper, update t.leaf page (some ⟨frame, flags⟩)⟩)) := by
  obtain ⟨raised, all⟩ := @createTables_raised room page
    { flags with noCache := false, noExecute := false } ⟨present, rfl⟩ levels t
  refine ⟨_, raised, ?_⟩
  rw [mapTo]
  generalize createTables room page _ levels t = res at raised all
  obtain ⟨done, above⟩ := res
  cases done with
  | false => exact .inl ⟨_, rfl⟩
  | true =>
    dsimp only
    rw [raised.leaf]
    cases free : t.leaf page with
    | some _ => exact .inl ⟨_, rfl⟩
    | none =>
      exact .inr ⟨fun level => all rfl level (mem_levels level), rfl⟩

theorem Mapped.find {entry : PageEntry} (mapped : t.Mapped page entry) : t.find page = some entry := by
  rw [PageTables.find, if_pos (List.all_eq_true.mpr fun level _ => mapped.2 level)]
  exact mapped.1

theorem find_absent (absent : t.leaf page = none) : t.find page = none := by
  rw [find, absent, ite_self]

def mapper : Mapper := ⟨mapTo, updateFlags, unmap⟩

theorem mapper_lawful : mapper.Lawful where
  mapTo := fun _ _ _ => mapTo_cases
  updateFlags := fun t page flags entry mapped => by simp [mapper, updateFlags, mapped.find]
  unmap := fun t page entry mapped => by simp [mapper, unmap, mapped.find]
  absent := fun t page absent => by simp [mapper, updateFlags, unmap, find_absent absent]

end PageTables

namespace UserPages

/-- A page is mapped for reading, alone in its region, and then protected for writing: the
protect succeeds and the walk still refuses the write at the level above. -/
theorem protect_write_refused :
    mapper.Lawful ∧ ∃ ops : List PageOp, let s := ops.foldl (step mapper) new
      s.requested 0 = some (.read ||| .write ||| .user) ∧ s.tables.walk 0 .write = false :=
  ⟨mapper_lawful, [.map (fun _ => true) 0 7 (.read ||| .user), .protect 0 (.read ||| .write ||| .user)],
    by decide +kernel⟩

/-- Two pages of one table are mapped, the first for reading and the second for writing; then the
first may be protected for writing. -/
theorem walk_exact_iff_neighbours :
    let ops : List PageOp := [.map (fun _ => true) 0 7 (.read ||| .user),
      .map (fun _ => true) 1 8 (.read ||| .write ||| .user), .protect 0 (.read ||| .write ||| .user)]
    Exact (ops.foldl (step mapper) new) ∧ (ops.foldl (step mapper) new).tables.walk 0 .write = true := by
  intro ops
  refine ⟨(walk_exact_iff mapper_lawful ops).mpr ?_ ops [] (append_nil ops).symm, by decide +kernel⟩
  intro done op rest split
  dsimp only [ops] at split
  match done with
  | [] => cases split; trivial
  | [_] => cases split; trivial
  | [_, _] =>
    cases split
    intro _ _ level
    cases level <;> exact ⟨_, rfl, by decide⟩
  | _ :: _ :: _ :: done => simp at split

end UserPages
end HuesOS.Vm
