import HuesOS.Lib.Interleave
import HuesOS.Vm.Vmar

/-! The books of one address region under concurrent calls. A step is one critical section, or the
part of one before or after the lock of the children is taken inside it. -/

namespace HuesOS.Vm
open List Function Vmar

/-- The tables of a region, and whether a call holds the lock of the mappings between steps. -/
structure VmarTables where
  vmar : Vmar
  held : Bool

/-- Where a call stands. All points but `idle` and `childChecked` hold the lock of the mappings. -/
inductive VmarPoint
  | idle
  | mappingChecked (m : VmarMapping)
  | childrenChecked (m : VmarMapping)
  | childChecked (c : VmarChild)
  | replaceFound (old : VmarMapping) (replacements : List VmarMapping)
  | replaceChecked (old : VmarMapping) (replacements : List VmarMapping)

inductive VmarCall
  | recordMapping (m : VmarMapping)
  | recordChild (c : VmarChild)
  | replaceMapping (old : VmarMapping) (replacements : List VmarMapping)
  | step

/-- The answer of a call. -/
abbrev VmarAnswer := Except VmarError Unit

namespace VmarTables

def lock (s : VmarTables) : VmarTables := { s with held := true }

def unlock (s : VmarTables) : VmarTables := { s with held := false }

def overlapsMapping (s : VmarTables) (base size : Nat) : Bool :=
  s.vmar.mappings.any fun m => rangesOverlap base size m.base m.size

def overlapsChild (s : VmarTables) (base size : Nat) : Bool :=
  s.vmar.children.any fun c => rangesOverlap base size c.base c.size

end VmarTables

def vmarStep : VmarCall → VmarPoint → VmarTables →
    Option (VmarPoint × VmarTables × List VmarAnswer)
  | .recordMapping m, .idle, s =>
    if !s.vmar.containsRange m.base m.size then some (.idle, s, [.error .invalidRange])
    else if s.held then none
    else if s.overlapsMapping m.base m.size then some (.idle, s, [.error .overlap])
    else some (.mappingChecked m, s.lock, [])
  | .step, .mappingChecked m, s =>
    if s.overlapsChild m.base m.size then some (.idle, s.unlock, [.error .overlap])
    else some (.childrenChecked m, s, [])
  | .step, .childrenChecked m, s =>
    some (.idle, { vmar := s.vmar.withMappings (s.vmar.mappings ++ [m]), held := false }, [.ok ()])
  | .recordChild c, .idle, s =>
    if !s.vmar.containsRange c.base c.size then some (.idle, s, [.error .invalidRange])
    else if s.held then none
    else if s.overlapsMapping c.base c.size then some (.idle, s, [.error .overlap])
    else some (.childChecked c, s, [])
  | .step, .childChecked c, s =>
    if s.overlapsChild c.base c.size then some (.idle, s, [.error .overlap])
    else some (.idle, { s with vmar := { s.vmar with children := s.vmar.children ++ [c] } }, [.ok ()])
  | .replaceMapping old replacements, .idle, s =>
    if replacements.any (fun m => !s.vmar.containsRange m.base m.size || m.vmo != old.vmo) then
      some (.idle, s, [.error .invalidRange])
    else if Vmar.clash replacements then some (.idle, s, [.error .overlap])
    else if s.held then none
    else if old ∉ s.vmar.mappings then some (.idle, s, [.error .invalidRange])
    else some (.replaceFound old replacements, s.lock, [])
  | .step, .replaceFound old replacements, s =>
    if s.vmar.children.any (fun c =>
        replacements.any fun m => rangesOverlap m.base m.size c.base c.size) then
      some (.idle, s.unlock, [.error .overlap])
    else some (.replaceChecked old replacements, s, [])
  | .step, .replaceChecked old replacements, s =>
    match Lists.swapRemoveOf old s.vmar.mappings with
    | none => none
    | some rest =>
      some (.idle, { vmar := s.vmar.withMappings (rest ++ replacements), held := false }, [.ok ()])
  | _, _, _ => none

/-- Any number of calls side by side. -/
def vmarProgram : Program VmarTables (fun _ : Nat => VmarPoint) (fun _ => VmarCall) VmarAnswer :=
  fun _ => vmarStep

abbrev VmarConfig := Config VmarTables (fun _ : Nat => VmarPoint) VmarAnswer

/-- A region without records. -/
def vmarStart (v : Vmar) : VmarConfig :=
  { shared := ⟨{ v with mappings := [], children := [] }, false⟩
    threads := fun _ => .idle
    log := [] }

/-- All records are inside the region and none overlap. -/
structure Vmar.Disjoint (v : Vmar) : Prop where
  mappingInside : ∀ m ∈ v.mappings, v.containsRange m.base m.size = true
  childInside : ∀ c ∈ v.children, v.containsRange c.base c.size = true
  mappings : v.mappings.Pairwise VmarMapping.Apart
  children : v.children.Pairwise fun c c' => Apart c.base c.size c'.base c'.size
  across : ∀ m ∈ v.mappings, ∀ c ∈ v.children, Apart m.base m.size c.base c.size

/-- No mapping is recorded over a child that stands between its two checks, and a mapping is
replaced by parts of it. -/
def KeepsClear (act : Σ _ : Nat, VmarCall) (c : VmarConfig) : Prop :=
  match act.2 with
  | .recordMapping m => ∀ t child, c.threads t = .childChecked child → Apart m.base m.size child.base child.size
  | .replaceMapping old replacements => ∀ m ∈ replacements,
      old.base ≤ m.base ∧ m.base + m.size ≤ old.base + old.size
  | _ => True

theorem Vmar.pos_of_containsRange {v : Vmar} {base size : Nat}
    (inside : v.containsRange base size = true) : 0 < size := by
  unfold containsRange at inside
  split at inside
  · simp only [Bool.and_eq_true, decide_eq_true_eq] at inside
    exact inside.1.1
  · cases inside

def VmarPoint.Holds : VmarPoint → Prop
  | .idle => False
  | .childChecked _ => False
  | _ => True

/-- The mapping that a call is about to record. -/
def VmarPoint.inserting : VmarPoint → Option VmarMapping
  | .mappingChecked m => some m
  | .childrenChecked m => some m
  | _ => none

/-- The replacements that a call is about to make are parts of a recorded mapping. -/
structure Replaces (v : Vmar) (old : VmarMapping) (replacements : List VmarMapping) : Prop where
  found : old ∈ v.mappings
  inside : ∀ m ∈ replacements, v.containsRange m.base m.size = true
  apart : replacements.Pairwise VmarMapping.Apart
  within : ∀ m ∈ replacements, old.base ≤ m.base ∧ m.base + m.size ≤ old.base + old.size

def VmarPoint.Facts (v : Vmar) : VmarPoint → Prop
  | .idle => True
  | .mappingChecked m => v.containsRange m.base m.size = true ∧
      ∀ m' ∈ v.mappings, Apart m.base m.size m'.base m'.size
  | .childrenChecked m => (v.containsRange m.base m.size = true ∧
      ∀ m' ∈ v.mappings, Apart m.base m.size m'.base m'.size) ∧
      ∀ c ∈ v.children, Apart m.base m.size c.base c.size
  | .childChecked c => v.containsRange c.base c.size = true ∧
      ∀ m ∈ v.mappings, Apart m.base m.size c.base c.size
  | .replaceFound old replacements => Replaces v old replacements
  | .replaceChecked old replacements => Replaces v old replacements

/-- The facts at a point; a call that holds the lock knows that it is taken. -/
def VmarPoint.Sound (p : VmarPoint) (s : VmarTables) : Prop :=
  p.Facts s.vmar ∧ (p.Holds → s.held = true)

/-- Two calls do not hold the lock both, and one is not about to record a mapping over the child
of the other. -/
def VmarPoint.Beside (p q : VmarPoint) : Prop :=
  ¬(p.Holds ∧ q.Holds) ∧ ∀ m child, p.inserting = some m → q = .childChecked child →
    Apart m.base m.size child.base child.size

structure VmarFacts (c : VmarConfig) : Prop where
  disjoint : c.shared.vmar.Disjoint
  points : ∀ t, (c.threads t).Sound c.shared
  pairs : ∀ t t', t ≠ t' → (c.threads t).Beside (c.threads t')

section Steps
variable {v : Vmar} {m old : VmarMapping} {child : VmarChild} {base size : Nat}
  {replacements rest : List VmarMapping} {p p' q : VmarPoint} {s s' : VmarTables} {k : VmarCall}

/-- What a call needs of each other call when it begins. -/
def VmarCall.Clear : VmarCall → VmarPoint → Prop
  | .recordMapping m, q => ∀ child, q = .childChecked child → Apart m.base m.size child.base child.size
  | .replaceMapping old replacements, _ => ∀ m ∈ replacements,
      old.base ≤ m.base ∧ m.base + m.size ≤ old.base + old.size
  | .step, _ | .recordChild _, _ => True

/-- What a step has to show: its own facts, and those of any other call beside it. -/
structure SectionKeeps (k : VmarCall) (p p' : VmarPoint) (s s' : VmarTables) : Prop where
  disjoint : s'.vmar.Disjoint
  own : p'.Sound s'
  others : ∀ q, k.Clear q → q.Sound s → p.Beside q → q.Beside p →
    q.Sound s' ∧ p'.Beside q ∧ q.Beside p'

theorem VmarPoint.holds_of_inserting (inserting : p.inserting = some m) : p.Holds := by
  cases p with
  | mappingChecked | childrenChecked => trivial
  | _ => cases inserting

theorem VmarPoint.beside_idle (q : VmarPoint) :
    VmarPoint.idle.Beside q ∧ q.Beside .idle :=
  ⟨⟨fun both => both.1, nofun⟩, ⟨fun both => both.2, nofun⟩⟩

theorem SectionKeeps.returns (disjoint : s.vmar.Disjoint) : SectionKeeps k p .idle s s :=
  ⟨disjoint, ⟨trivial, nofun⟩, fun q _ sound _ _ => ⟨sound, q.beside_idle⟩⟩

theorem SectionKeeps.drops (holds : p.Holds) (disjoint : s'.vmar.Disjoint)
    (others : ∀ q : VmarPoint, ¬q.Holds → q.Facts s.vmar → p.Beside q → q.Facts s'.vmar) :
    SectionKeeps k p .idle s s' := by
  refine ⟨disjoint, ⟨trivial, nofun⟩, fun q _ sound beside _ => ⟨⟨?_, ?_⟩, q.beside_idle⟩⟩
  · exact others q (fun there => beside.1 ⟨holds, there⟩) sound.1 beside
  · exact fun there => absurd ⟨holds, there⟩ beside.1

theorem SectionKeeps.goes (disjoint : s.vmar.Disjoint) (lock : p.Holds ∨ s.held = false)
    (eq : s' = { s with held := true }) (facts : p'.Facts s.vmar)
    (inserts : ∀ q, k.Clear q → p.Beside q → ∀ m child, p'.inserting = some m →
      q = .childChecked child → Apart m.base m.size child.base child.size) :
    SectionKeeps k p p' s s' := by
  subst eq
  refine ⟨disjoint, ⟨facts, fun _ => rfl⟩, fun q clear sound beside _ => ?_⟩
  have free : ¬q.Holds := by
    intro there
    rcases lock with held | unheld
    · exact beside.1 ⟨held, there⟩
    · cases unheld.symm.trans (sound.2 there)
  refine ⟨⟨sound.1, fun _ => rfl⟩, ⟨fun both => free both.2, inserts q clear beside⟩,
    ⟨fun both => free both.1, fun m child inserting => ?_⟩⟩
  exact absurd (VmarPoint.holds_of_inserting inserting) free

theorem apart_of_clear {α : Type} {items : List α} {base' size' : α → Nat}
    (inside : s.vmar.containsRange base size = true)
    (all : ∀ x ∈ items, s.vmar.containsRange (base' x) (size' x) = true)
    (clear : (items.any fun x => rangesOverlap base size (base' x) (size' x)) = false) :
    ∀ x ∈ items, Apart base size (base' x) (size' x) := by
  intro x mem
  have here := any_eq_false.mp clear x mem
  exact apart_of_not_overlap (pos_of_containsRange inside) (pos_of_containsRange (all x mem))
    (Bool.eq_false_iff.mpr here)

theorem Vmar.Disjoint.addMapping (h : v.Disjoint) (inside : v.containsRange m.base m.size = true)
    (mappings : ∀ m' ∈ v.mappings, Apart m.base m.size m'.base m'.size)
    (children : ∀ c ∈ v.children, Apart m.base m.size c.base c.size) :
    (v.withMappings (v.mappings ++ [m])).Disjoint := by
  refine ⟨?_, h.childInside, ?_, h.children, ?_⟩
  · exact forall_mem_append.mpr ⟨h.mappingInside, forall_mem_singleton.mpr inside⟩
  · refine pairwise_append.mpr ⟨h.mappings, pairwise_singleton _ _, ?_⟩
    intro m' mem last here
    rw [mem_singleton.mp here]
    exact (mappings m' mem).symm
  · exact forall_mem_append.mpr ⟨h.across, forall_mem_singleton.mpr children⟩

theorem Vmar.Disjoint.addChild (h : v.Disjoint)
    (inside : v.containsRange child.base child.size = true)
    (mappings : ∀ m ∈ v.mappings, Apart m.base m.size child.base child.size)
    (children : ∀ c ∈ v.children, Apart child.base child.size c.base c.size) :
    Vmar.Disjoint { v with children := v.children ++ [child] } := by
  refine ⟨h.mappingInside, ?_, h.mappings, ?_, ?_⟩
  · exact forall_mem_append.mpr ⟨h.childInside, forall_mem_singleton.mpr inside⟩
  · refine pairwise_append.mpr ⟨h.children, pairwise_singleton _ _, ?_⟩
    intro c mem last here
    rw [mem_singleton.mp here]
    exact (children c mem).symm
  intro m mem c there
  rcases mem_append.mp there with old | new
  · exact h.across m mem c old
  rw [mem_singleton.mp new]
  exact mappings m mem

theorem Replaces.apart_of (r : Replaces v old replacements)
    (apart : Apart old.base old.size base size) :
    ∀ m ∈ replacements, Apart m.base m.size base size :=
  fun m mem => (apart.symm.mono (r.within m mem).1 (r.within m mem).2).symm

theorem Vmar.Disjoint.replace (h : v.Disjoint) (r : Replaces v old replacements)
    (perm : v.mappings.Perm (old :: rest)) :
    (v.withMappings (rest ++ replacements)).Disjoint := by
  have kept : ∀ m ∈ rest, m ∈ v.mappings := fun m mem =>
    perm.mem_iff.mpr (.tail _ mem)
  have pairwise := (perm.pairwise_iff fun apart => Apart.symm apart).mp h.mappings
  have first := (pairwise_cons.mp pairwise).1
  refine ⟨?_, h.childInside, ?_, h.children, ?_⟩
  · exact forall_mem_append.mpr ⟨fun m mem => h.mappingInside m (kept m mem), r.inside⟩
  · refine pairwise_append.mpr ⟨(pairwise_cons.mp pairwise).2, r.apart, ?_⟩
    intro m mem new here
    exact (r.apart_of (first m mem) new here).symm
  refine forall_mem_append.mpr ⟨fun m mem => h.across m (kept m mem), ?_⟩
  intro m mem c there
  exact r.apart_of (h.across old r.found c there) m mem

/-- Calls that do not hold the lock of the mappings look at the mappings through one child only. -/
theorem VmarPoint.Facts.of_free {v' : Vmar} (facts : q.Facts v) (free : ¬q.Holds)
    (eq : v'.base = v.base ∧ v'.size = v.size)
    (clear : ∀ child, q = .childChecked child →
      (∀ m ∈ v.mappings, Apart m.base m.size child.base child.size) →
      ∀ m ∈ v'.mappings, Apart m.base m.size child.base child.size) : q.Facts v' := by
  cases q with
  | idle => trivial
  | childChecked child =>
    refine ⟨?_, clear child rfl facts.2⟩
    have inside := facts.1
    rw [containsRange] at inside ⊢
    rw [eq.1, eq.2]
    exact inside
  | _ => exact absurd trivial free

theorem SectionKeeps.insert (disjoint : s.vmar.Disjoint)
    (facts : (VmarPoint.childrenChecked m).Facts s.vmar) : SectionKeeps k (.childrenChecked m) .idle s
      { vmar := s.vmar.withMappings (s.vmar.mappings ++ [m]), held := false } := by
  refine .drops trivial (disjoint.addMapping facts.1.1 facts.1.2 facts.2)
    fun q free there beside => there.of_free free ⟨rfl, rfl⟩ fun child waiting known => ?_
  exact forall_mem_append.mpr ⟨known, forall_mem_singleton.mpr (beside.2 m child rfl waiting)⟩

theorem SectionKeeps.replace (disjoint : s.vmar.Disjoint) (facts : Replaces s.vmar old replacements)
    (removed : Lists.swapRemoveOf old s.vmar.mappings = some rest) :
    SectionKeeps k (.replaceChecked old replacements) .idle s
      { vmar := s.vmar.withMappings (rest ++ replacements), held := false } := by
  have perm := Lists.swapRemoveOf_perm removed
  refine .drops trivial (disjoint.replace facts perm)
    fun q free there _ => there.of_free free ⟨rfl, rfl⟩ fun child _ known => ?_
  refine forall_mem_append.mpr ⟨fun m kept => ?_, facts.apart_of (known old facts.found)⟩
  exact known m (perm.mem_iff.mpr (.tail _ kept))

theorem SectionKeeps.insertChild (disjoint : s.vmar.Disjoint)
    (facts : (VmarPoint.childChecked child).Facts s.vmar)
    (clear : s.overlapsChild child.base child.size = false) :
    SectionKeeps k (.childChecked child) .idle s
      { s with vmar := { s.vmar with children := s.vmar.children ++ [child] } } := by
  refine ⟨disjoint.addChild facts.1 facts.2 (apart_of_clear facts.1 disjoint.childInside clear),
    ⟨trivial, nofun⟩, fun q _ sound _ beside => ⟨⟨?_, sound.2⟩, q.beside_idle⟩⟩
  have known := sound.1
  cases q with
  | childrenChecked m =>
    exact ⟨known.1, forall_mem_append.mpr ⟨known.2, forall_mem_singleton.mpr (beside.2 m child rfl rfl)⟩⟩
  | replaceFound old replacements | replaceChecked old replacements =>
    exact ⟨known.found, known.inside, known.apart, known.within⟩
  | _ => exact known

theorem apart_of_not_clash {replacements : List VmarMapping}
    (inside : ∀ m ∈ replacements, v.containsRange m.base m.size = true)
    (clear : Vmar.clash replacements = false) : replacements.Pairwise VmarMapping.Apart := by
  induction replacements with
  | nil => exact .nil
  | cons m rest ih =>
    rw [Vmar.clash, Bool.or_eq_false_iff] at clear
    obtain ⟨here, later⟩ := forall_mem_cons.mp inside
    refine pairwise_cons.mpr ⟨fun other mem => ?_, ih later clear.2⟩
    exact apart_of_not_overlap (pos_of_containsRange here)
      (pos_of_containsRange (later other mem))
      (Bool.eq_false_iff.mpr (any_eq_false.mp clear.1 other mem))

variable {events : List VmarAnswer}

namespace SectionKeeps
variable (disjoint : s.vmar.Disjoint)
include disjoint

theorem recordMapping
    (taken : vmarStep (.recordMapping m) .idle s = some (p', s', events)) :
    SectionKeeps (.recordMapping m) .idle p' s s' := by
  simp only [vmarStep] at taken
  split_ifs at taken with out held busy <;> cases taken
  · exact .returns disjoint
  · exact .returns disjoint
  have inside : s.vmar.containsRange m.base m.size = true := by simpa using out
  refine .goes disjoint (.inr (Bool.eq_false_iff.mpr held)) rfl
    ⟨inside, apart_of_clear inside disjoint.mappingInside (Bool.eq_false_iff.mpr busy)⟩ ?_
  rintro q clear - _ child ⟨⟩
  exact clear child

theorem recordChild
    (taken : vmarStep (.recordChild child) .idle s = some (p', s', events)) :
    SectionKeeps (.recordChild child) .idle p' s s' := by
  simp only [vmarStep] at taken
  split_ifs at taken with out held busy <;> cases taken
  · exact .returns disjoint
  · exact .returns disjoint
  have inside : s.vmar.containsRange child.base child.size = true := by simpa using out
  have apart := apart_of_clear inside disjoint.mappingInside (Bool.eq_false_iff.mpr busy)
  refine ⟨disjoint, ⟨⟨inside, fun m mem => (apart m mem).symm⟩, nofun⟩,
    fun q _ sound _ _ => ⟨sound, ⟨fun both => both.1, nofun⟩, ⟨fun both => both.2, ?_⟩⟩⟩
  intro m _ inserting
  exact absurd (sound.2 (VmarPoint.holds_of_inserting inserting)) held

theorem replaceMapping
    (within : ∀ m ∈ replacements, old.base ≤ m.base ∧ m.base + m.size ≤ old.base + old.size)
    (taken : vmarStep (.replaceMapping old replacements) .idle s = some (p', s', events)) :
    SectionKeeps (.replaceMapping old replacements) .idle p' s s' := by
  simp only [vmarStep] at taken
  split_ifs at taken with out clash held found <;> cases taken
  · exact .returns disjoint
  · exact .returns disjoint
  · have inside : ∀ m ∈ replacements, s.vmar.containsRange m.base m.size = true := by
      intro m mem
      have each := any_eq_false.mp (Bool.eq_false_iff.mpr out) m mem
      simp only [Bool.or_eq_true, not_or, Bool.not_eq_true, Bool.not_eq_false'] at each
      exact each.1
    exact .goes disjoint (.inr (Bool.eq_false_iff.mpr held)) rfl
      ⟨found, inside, apart_of_not_clash inside (Bool.eq_false_iff.mpr clash), within⟩ nofun
  · exact .returns disjoint

theorem step (sound : p.Sound s)
    (taken : vmarStep .step p s = some (p', s', events)) : SectionKeeps .step p p' s s' := by
  obtain ⟨facts, held⟩ := sound
  cases p with
  | idle => cases taken
  | childChecked child =>
    rw [vmarStep] at taken
    split_ifs at taken with busy <;> cases taken
    · exact .returns disjoint
    · exact .insertChild disjoint facts (Bool.eq_false_iff.mpr busy)
  | mappingChecked m =>
    rw [vmarStep] at taken
    split_ifs at taken with busy <;> cases taken
    · exact .drops trivial disjoint fun q _ there _ => there
    refine .goes disjoint (.inl trivial) (by rw [← held trivial])
      ⟨facts, apart_of_clear facts.1 disjoint.childInside (Bool.eq_false_iff.mpr busy)⟩ ?_
    exact fun q _ beside => beside.2
  | childrenChecked m =>
    cases taken
    exact .insert disjoint facts
  | replaceFound old replacements =>
    rw [vmarStep] at taken
    split_ifs at taken with busy <;> cases taken
    · exact .drops trivial disjoint fun q _ there _ => there
    · exact .goes disjoint (.inl trivial) (by rw [← held trivial]) facts (by rintro _ _ _ _ _ ⟨⟩)
  | replaceChecked old replacements =>
    rw [vmarStep] at taken
    split at taken <;> cases taken
    next removed => exact .replace disjoint facts removed

end SectionKeeps

theorem vmarStep_facts {c c' : VmarConfig} {act : Σ _ : Nat, VmarCall} (h : VmarFacts c)
    (clear : KeepsClear act c) (step : Program.Step vmarProgram act c c') : VmarFacts c' := by
  obtain ⟨i, k⟩ := act
  obtain ⟨p', s', events, taken, rfl⟩ := step
  have kept : SectionKeeps k (c.threads i) p' c.shared s' := by
    cases k with
    | step => exact .step h.disjoint (h.points i) taken
    | recordMapping m =>
      cases at_ : c.threads i with
      | idle => exact .recordMapping h.disjoint (at_ ▸ taken)
      | _ => rw [at_] at taken; cases taken
    | recordChild child =>
      cases at_ : c.threads i with
      | idle => exact .recordChild h.disjoint (at_ ▸ taken)
      | _ => rw [at_] at taken; cases taken
    | replaceMapping old replacements =>
      cases at_ : c.threads i with
      | idle => exact .replaceMapping h.disjoint clear (at_ ▸ taken)
      | _ => rw [at_] at taken; cases taken
  have others := fun j (other : j ≠ i) => kept.others (c.threads j)
    (by cases k with
      | recordMapping m => exact fun child => clear j child
      | replaceMapping => exact clear
      | _ => trivial) (h.points j) (h.pairs i j other.symm) (h.pairs j i other)
  refine ⟨kept.disjoint, fun j => ?_, fun j j' apart => ?_⟩
  · by_cases eq : j = i
    · subst eq
      dsimp only
      rw [update_self]
      exact kept.own
    dsimp only
    rw [update_of_ne eq]
    exact (others j eq).1
  dsimp only
  by_cases eq : j = i
  · subst eq
    rw [update_self, update_of_ne apart.symm]
    exact (others j' apart.symm).2.1
  by_cases same' : j' = i
  · subst same'
    rw [update_of_ne eq, update_self]
    exact (others j eq).2.2
  rw [update_of_ne eq, update_of_ne same']
  exact h.pairs j j' apart

end Steps

theorem vmarStart_facts (v : Vmar) : VmarFacts (vmarStart v) where
  disjoint := ⟨nofun, nofun, .nil, .nil, nofun⟩
  points := fun _ => ⟨trivial, nofun⟩
  pairs := fun _ _ _ => (VmarPoint.beside_idle _).1

/-- A mapping and a child that both pass their checks, the mapping between those of the child. -/
theorem overlap_reached {c : VmarConfig} {i t : Nat} {m : VmarMapping} {child : VmarChild}
    (idle : c.threads i = .idle) (waiting : c.threads t = .childChecked child)
    (free : c.shared.held = false) (inside : c.shared.vmar.containsRange m.base m.size = true)
    (mappings : c.shared.overlapsMapping m.base m.size = false)
    (children : c.shared.overlapsChild m.base m.size = false)
    (single : c.shared.overlapsChild child.base child.size = false)
    (together : ¬Apart m.base m.size child.base child.size) :
    ∃ c', Runs (Program.Step vmarProgram) (fun _ _ => True) c c' ∧ ¬c'.shared.vmar.Disjoint := by
  have other : t ≠ i := by
    rintro rfl
    rw [idle] at waiting
    cases waiting
  let locked : VmarConfig := ⟨c.shared.lock, update c.threads i (.mappingChecked m), [] ++ c.log⟩
  let checked : VmarConfig := ⟨c.shared.lock, update locked.threads i (.childrenChecked m), [] ++ locked.log⟩
  let recorded : VmarConfig :=
    ⟨⟨c.shared.vmar.withMappings (c.shared.vmar.mappings ++ [m]), false⟩,
      update checked.threads i .idle, [.ok ()] ++ checked.log⟩
  have lock : Program.Step vmarProgram ⟨i, .recordMapping m⟩ c locked := by
    refine ⟨.mappingChecked m, c.shared.lock, [], ?_, rfl⟩
    simp [vmarProgram, vmarStep, idle, free, inside, mappings]
  have check : Program.Step vmarProgram ⟨i, .step⟩ locked checked := by
    refine ⟨.childrenChecked m, c.shared.lock, [], ?_, rfl⟩
    have clear : c.shared.lock.overlapsChild m.base m.size = false := children
    simp [vmarProgram, vmarStep, locked, clear]
  have record : Program.Step vmarProgram ⟨i, .step⟩ checked recorded := by
    refine ⟨.idle, recorded.shared, [.ok ()], ?_, rfl⟩
    simp [vmarProgram, vmarStep, checked, recorded, VmarTables.lock]
  have still : recorded.threads t = .childChecked child := by
    simp [recorded, checked, locked, other, waiting]
  have clear : recorded.shared.overlapsChild child.base child.size = false := single
  refine ⟨_, ((Runs.one trivial lock).next trivial check).next trivial record |>.next
    (k := ⟨t, .step⟩) trivial ⟨.idle, { recorded.shared with vmar := { recorded.shared.vmar with
      children := recorded.shared.vmar.children ++ [child] } }, [.ok ()], ?_, rfl⟩, ?_⟩
  · simp [vmarProgram, vmarStep, still, clear]
  intro disjoint
  exact together (disjoint.across m (by simp [recorded, withMappings]) child (by simp))

/-- Records stay inside the region and apart, in every run in which no mapping is recorded over a
child between its two checks and mappings are replaced by their parts. Where a mapping that passes
its checks is recorded over such a child, overlapping records can be reached. -/
theorem records_disjoint_of_clear (v : Vmar) (c : VmarConfig)
    (run : Runs (Program.Step vmarProgram) KeepsClear (vmarStart v) c) :
    c.shared.vmar.Disjoint ∧ ∀ i t (m : VmarMapping) (child : VmarChild), c.threads i = .idle →
      c.threads t = .childChecked child → c.shared.held = false →
      c.shared.vmar.containsRange m.base m.size = true →
      c.shared.overlapsMapping m.base m.size = false →
      c.shared.overlapsChild m.base m.size = false →
      c.shared.overlapsChild child.base child.size = false →
      ¬Apart m.base m.size child.base child.size →
      ∃ c', Runs (Program.Step vmarProgram) (fun _ _ => True) c c' ∧ ¬c'.shared.vmar.Disjoint :=
  ⟨(run.invariant (vmarStart_facts v) vmarStep_facts).disjoint,
    fun _ _ _ _ idle waiting free inside mappings children single together =>
      overlap_reached idle waiting free inside mappings children single together⟩

/-- A region of sixteen pages. -/
def sixteenPages : Vmar where
  koid := 1
  process := 1
  parent := none
  parent_lt := nofun
  base := 0x1000
  size := 0x10000
  mappings := []
  children := []

def firstPage : VmarMapping := ⟨0x1000, 0x1000, 2, 0, 0⟩
def secondPage : VmarMapping := ⟨0x2000, 0x1000, 2, 0x1000, 0⟩
def firstChild : VmarChild := ⟨3, 0x1000, 0x1000⟩

/-- A mapping is recorded between the two checks of a child over the same page. -/
def childOverMapping : List (Σ _ : Nat, VmarCall) :=
  [⟨0, .recordChild firstChild⟩, ⟨1, .recordMapping firstPage⟩, ⟨1, .step⟩, ⟨1, .step⟩, ⟨0, .step⟩]

/-- The second of two mappings is replaced by the first one. -/
def replaceByNeighbour : List (Σ _ : Nat, VmarCall) :=
  [⟨0, .recordMapping firstPage⟩, ⟨0, .step⟩, ⟨0, .step⟩, ⟨0, .recordMapping secondPage⟩, ⟨0, .step⟩,
    ⟨0, .step⟩, ⟨0, .replaceMapping secondPage [firstPage]⟩, ⟨0, .step⟩, ⟨0, .step⟩]

theorem records_overlap :
    (∃ c, Program.run vmarProgram childOverMapping (vmarStart sixteenPages) = some c ∧
      ¬c.shared.vmar.Disjoint) ∧
    ∃ c, Program.run vmarProgram replaceByNeighbour (vmarStart sixteenPages) = some c ∧
      ¬c.shared.vmar.Disjoint := by
  refine ⟨⟨_, rfl, fun disjoint => ?_⟩, ⟨_, rfl, fun disjoint => ?_⟩⟩
  · have across := disjoint.across firstPage (by decide) firstChild (by decide)
    exact absurd across (by unfold Apart; decide)
  have mappings : [firstPage, firstPage].Pairwise VmarMapping.Apart := disjoint.mappings
  have apart : Apart _ _ _ _ := rel_of_pairwise_cons mappings mem_cons_self
  exact absurd apart (by unfold Apart; decide)

def thirdChild : VmarChild := ⟨3, 0x3000, 0x1000⟩

/-- Two calls record mappings while a third stands between the two checks of its child. -/
theorem records_disjoint_of_two_mappings : ∃ c : VmarConfig,
    c.shared.vmar.mappings = [firstPage, secondPage] ∧ c.threads 0 = .childChecked thirdChild ∧
      c.shared.vmar.Disjoint := by
  have clear : ∀ {c : VmarConfig} {i : Nat}, KeepsClear ⟨i, .step⟩ c := trivial
  have apart : ∀ {c : VmarConfig} {i : Nat} {m : VmarMapping},
      (∀ t, t ≠ 0 → c.threads t = .idle) → c.threads 0 = .childChecked thirdChild →
      Apart m.base m.size thirdChild.base thirdChild.size → KeepsClear ⟨i, .recordMapping m⟩ c := by
    intro c i m idle first apart t child waiting
    by_cases here : t = 0
    · subst here
      cases first.symm.trans waiting
      exact apart
    · cases (idle t here).symm.trans waiting
  have begun : Runs (Program.Step vmarProgram) KeepsClear (vmarStart sixteenPages) _ := .start
  have waits : Runs (Program.Step vmarProgram) KeepsClear (vmarStart sixteenPages) _ :=
    begun.next (k := ⟨0, .recordChild thirdChild⟩) True.intro ⟨_, _, _, rfl, rfl⟩
  have first := waits.next (k := ⟨1, .recordMapping firstPage⟩) (apart (fun t other => by simp [vmarStart, other]) rfl
    (by unfold Apart; decide)) ⟨_, _, _, rfl, rfl⟩
  have checked := first.next (k := ⟨1, .step⟩) clear ⟨_, _, _, rfl, rfl⟩
  have recorded := checked.next (k := ⟨1, .step⟩) clear ⟨_, _, _, rfl, rfl⟩
  have second := recorded.next (k := ⟨2, .recordMapping secondPage⟩) (apart (fun t other => by simp [update_apply, vmarStart, other]) rfl
    (by unfold Apart; decide)) ⟨_, _, _, rfl, rfl⟩
  have again := second.next (k := ⟨2, .step⟩) clear ⟨_, _, _, rfl, rfl⟩
  have both := again.next (k := ⟨2, .step⟩) clear ⟨_, _, _, rfl, rfl⟩
  exact ⟨_, rfl, rfl, (records_disjoint_of_clear sixteenPages _ both).1⟩

end HuesOS.Vm
