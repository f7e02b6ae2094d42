import HuesOS.Sched.DirectoryMachine

/-! Look-ups under every interleaving: the sequence is even exactly while no write is under way,
and a look-up that finds it unchanged has read the words of one publication. The sequence is a
64-bit word, so this holds as long as it does not come round during one attempt. -/

namespace HuesOS.Sched
open List DirectoryShared ClientChoice Program
variable {slot : Nat} {ι : Type}

/-- The words of the slot are those of one publication, or nothing is published. -/
def Settled (entry : TaskDirectoryEntry) (log : List (DirectoryEvent slot)) : Prop :=
  entry.publishedId = 0 ∨ ∃ p : Placement slot, .published p ∈ log ∧
    entry.publishedId = p.id.1.raw ∧ entry.owner = p.owner.index ∧ entry.localIndex = p.localIndex

/-- Every location returned so far is that of an earlier publication of the same identity. -/
def Witnessed (log : List (DirectoryEvent slot)) : Prop :=
  ∀ later earlier id location, log = later ++ .located id location :: earlier →
    ∃ p : Placement slot, .published p ∈ earlier ∧ p.id = id ∧ location = ⟨p.owner, p.localIndex⟩

structure DirectoryFacts (s : DirectoryShared) (log : List (DirectoryEvent slot)) : Prop where
  sequence : s.entry.sequence = s.edits % 2 ^ 64
  settled : s.edits % 2 = 0 → Settled s.entry log
  witnessed : Witnessed log

def OwnerFacts (point : OwnerPoint slot) (s : DirectoryShared) (log : List (DirectoryEvent slot)) :
    Prop :=
  match point with
  | .publishOwner p => s.edits % 2 = 1 ∧ .published p ∈ log
  | .publishLocal p => s.edits % 2 = 1 ∧ .published p ∈ log ∧ s.entry.owner = p.owner.index
  | .publishLoad p | .publishSwap p _ | .publishId p =>
    s.edits % 2 = 1 ∧ .published p ∈ log ∧ s.entry.owner = p.owner.index ∧ s.entry.localIndex = p.localIndex
  | .publishEnd p =>
    s.edits % 2 = 1 ∧ .published p ∈ log ∧ s.entry.owner = p.owner.index ∧
      s.entry.localIndex = p.localIndex ∧ s.entry.publishedId = p.id.1.raw
  | .dropId => s.edits % 2 = 1
  | .dropOwner | .dropLocal | .dropEnd => s.edits % 2 = 1 ∧ s.entry.publishedId = 0
  | _ => s.edits % 2 = 0

def Reading (before since : Nat) (s : DirectoryShared) : Prop :=
  since ≤ s.edits ∧ since % 2 = 0 ∧ before = since % 2 ^ 64

/-- What a look-up has read still stands, unless the sequence has moved on. -/
def ClientFacts (point : ClientPoint slot) (s : DirectoryShared) : Prop :=
  match point with
  | .locateId _ _ before since => Reading before since s
  | .locateOwner id _ before since =>
    Reading before since s ∧ (s.edits = since → s.entry.publishedId = id.1.raw)
  | .locateLocal id _ before since owner =>
    Reading before since s ∧ (s.edits = since → s.entry.publishedId = id.1.raw ∧ s.entry.owner = owner)
  | .locateAfter id _ before since owner localIndex =>
    Reading before since s ∧ (s.edits = since → s.entry.publishedId = id.1.raw ∧
      s.entry.owner = owner ∧ s.entry.localIndex = localIndex)
  | _ => True

def ClientPoint.since : ClientPoint slot → Option Nat
  | .locateId _ _ _ since | .locateOwner _ _ _ since | .locateLocal _ _ _ since _
  | .locateAfter _ _ _ since _ _ => some since
  | _ => none

/-- No attempt under way has seen the sequence come round. -/
def Fresh (c : Config DirectoryShared (@DirectoryPoint slot ι) (DirectoryEvent slot)) : Prop :=
  ∀ i since, ClientPoint.since (c.threads (some i)) = some since → c.shared.edits < since + 2 ^ 64

def PointFacts : ∀ i : Option ι, DirectoryPoint slot i → DirectoryShared →
    List (DirectoryEvent slot) → Prop
  | none, point, s, log => OwnerFacts point s log
  | some _, point, s, _ => ClientFacts point s

section Events
variable {log : List (DirectoryEvent slot)} {e : DirectoryEvent slot} {entry : TaskDirectoryEntry}

theorem Settled.later (settled : Settled entry log) : Settled entry (e :: log) := by
  rcases settled with nothing | ⟨p, mem, words⟩
  · exact .inl nothing
  · exact .inr ⟨p, mem_cons_of_mem e mem, words⟩

theorem Witnessed.other (witnessed : Witnessed log) (quiet : ∀ id location, e ≠ .located id location) :
    Witnessed (e :: log) := by
  intro later old id location split
  cases later with
  | nil =>
    rw [nil_append, List.cons.injEq] at split
    exact absurd split.1 (quiet id location)
  | cons first rest =>
    rw [cons_append, List.cons.injEq] at split
    exact witnessed rest old id location split.2

theorem Witnessed.located (witnessed : Witnessed log) {p : Placement slot}
    (mem : .published p ∈ log) :
    Witnessed (.located p.id ⟨p.owner, p.localIndex⟩ :: log) := by
  intro later old id location split
  cases later with
  | nil =>
    cases split
    exact ⟨p, mem, rfl, rfl⟩
  | cons first rest =>
    rw [cons_append, List.cons.injEq] at split
    exact witnessed rest old id location split.2

end Events

section Steps
variable {log events : List (DirectoryEvent slot)} {s s' : DirectoryShared}

theorem bump_sequence (counted : s.entry.sequence = s.edits % 2 ^ 64) :
    s.bumped.entry.sequence = s.bumped.edits % 2 ^ 64 := by
  simp only [bumped, bump, counted]
  omega

theorem DirectoryFacts.writing (facts : DirectoryFacts s log) (odd : s.edits % 2 = 1)
    {entry : TaskDirectoryEntry} (counted : entry.sequence = s.entry.sequence) :
    DirectoryFacts ⟨entry, s.edits⟩ log :=
  ⟨counted.trans facts.sequence, fun even => by dsimp only at even; omega, facts.witnessed⟩

theorem DirectoryFacts.pending (facts : DirectoryFacts s log) (state : Nat)
    {e : DirectoryEvent slot} (quiet : ∀ id location, e ≠ .located id location) :
    DirectoryFacts (s.setPending state) (e :: log) := by
  refine ⟨facts.sequence, fun even => ?_, facts.witnessed.other quiet⟩
  have settled : Settled (s.setPending state).entry log := facts.settled even
  exact settled.later

variable {p : OwnerPoint slot} {choice : ClientChoice slot} {p' : ClientPoint slot}

theorem ownerStep_facts {choice : OwnerChoice slot} {p' : OwnerPoint slot}
    (step : ownerStep choice p s = some (p', s', events)) (facts : DirectoryFacts s log)
    (point : OwnerFacts p s log) :
    DirectoryFacts s' (events ++ log) ∧ OwnerFacts p' s' (events ++ log) := by
  cases choice with
  | publish _ | unpublish _ _ =>
    cases p <;> cases step
    exact ⟨facts, point⟩
  | step spurious =>
    cases p with
    | idle => cases step
    | publishCheck p =>
      cases step
      split
      · exact ⟨facts, point⟩
      · exact ⟨facts, point⟩
    | publishBegin p =>
      cases step
      have even : s.edits % 2 = 0 := point
      refine ⟨⟨bump_sequence facts.sequence, fun now => ?_, ?_⟩, ?_, mem_cons_self⟩
      · simp only [bumped] at now
        omega
      · exact facts.witnessed.other (by intro _ _ eq; cases eq)
      simp only [bumped]
      omega
    | publishOwner p =>
      cases step
      exact ⟨facts.writing point.1 rfl, point.1, point.2, rfl⟩
    | publishLocal p =>
      cases step
      exact ⟨facts.writing point.1 rfl, point.1, point.2.1, point.2.2, rfl⟩
    | publishLoad p =>
      cases step
      exact ⟨facts, point⟩
    | publishSwap p state =>
      rw [ownerStep] at step
      split at step
      · cases step
        exact ⟨facts.pending _ (by intro _ _ eq; cases eq), point.1, mem_cons_of_mem _ point.2.1, point.2.2⟩
      cases step
      exact ⟨facts, point⟩
    | publishId p =>
      cases step
      exact ⟨facts.writing point.1 rfl, point.1, point.2.1, point.2.2.1, point.2.2.2, rfl⟩
    | publishEnd p =>
      cases step
      obtain ⟨odd, mem, owner, localIndex, published⟩ := point
      refine ⟨⟨bump_sequence facts.sequence, fun _ => ?_, facts.witnessed⟩, ?_⟩
      · exact .inr ⟨p, mem, published, owner, localIndex⟩
      change (s.edits + 1) % 2 = 0
      omega
    | dropCheck id discard =>
      cases step
      split
      · exact ⟨facts, point⟩
      · exact ⟨facts, point⟩
    | dropLoad id discard =>
      cases step
      exact ⟨facts, point⟩
    | dropSwap id discard state =>
      rw [ownerStep] at step
      split at step
      · cases step
        exact ⟨facts, point⟩
      split at step
      · cases step
        refine ⟨facts.pending _ ?_, point⟩
        intro id' location eq
        rw [dropEvent] at eq
        split at eq <;> cases eq
      cases step
      exact ⟨facts, point⟩
    | dropBegin =>
      cases step
      have even : s.edits % 2 = 0 := point
      have odd : (s.edits + 1) % 2 = 1 := by omega
      refine ⟨⟨bump_sequence facts.sequence, fun now => ?_, facts.witnessed⟩, odd⟩
      simp only [bumped] at now
      omega
    | dropId =>
      cases step
      exact ⟨facts.writing point rfl, point, rfl⟩
    | dropOwner | dropLocal =>
      cases step
      exact ⟨facts.writing point.1 rfl, point⟩
    | dropEnd =>
      cases step
      obtain ⟨odd, nothing⟩ := point
      refine ⟨⟨bump_sequence facts.sequence, fun _ => .inl nothing, facts.witnessed⟩, ?_⟩
      change (s.edits + 1) % 2 = 0
      omega

/-- The owner writes the published words only while the sequence is odd. -/
theorem ownerStep_moves {choice : OwnerChoice slot} {p' : OwnerPoint slot}
    (step : ownerStep choice p s = some (p', s', events)) (point : OwnerFacts p s log) :
    s'.edits = s.edits + 1 ∨ s'.edits = s.edits ∧ (s.edits % 2 = 1 ∨
      s'.entry.publishedId = s.entry.publishedId ∧ s'.entry.owner = s.entry.owner ∧
        s'.entry.localIndex = s.entry.localIndex) := by
  cases ownerStep_effect step with
  | begins | bumps => exact .inl rfl
  | writes writing =>
    refine .inr ⟨rfl, .inl ?_⟩
    cases p <;> first | exact writing.elim | exact point.1 | exact point
  | _ => exact .inr ⟨rfl, .inr ⟨rfl, rfl, rfl⟩⟩

/-- A write that is not seen by an attempt: the sequence has moved on, or was odd. -/
theorem ClientFacts.kept {point : ClientPoint slot} (facts : ClientFacts point s)
    (moves : s'.edits = s.edits + 1 ∨ s'.edits = s.edits ∧ (s.edits % 2 = 1 ∨
      s'.entry.publishedId = s.entry.publishedId ∧ s'.entry.owner = s.entry.owner ∧
        s'.entry.localIndex = s.entry.localIndex)) : ClientFacts point s' := by
  have reading : ∀ {pre since}, Reading pre since s → Reading pre since s' := by
    rintro pre since ⟨started, even, first⟩
    exact ⟨by omega, even, first⟩
  have stands : ∀ {pre since}, Reading pre since s → s'.edits = since → s.edits = since ∧
      s'.entry.publishedId = s.entry.publishedId ∧ s'.entry.owner = s.entry.owner ∧
        s'.entry.localIndex = s.entry.localIndex := by
    rintro pre since ⟨started, even, first⟩ now
    rcases moves with more | ⟨eq, odd | words⟩
    · omega
    · omega
    · exact ⟨by omega, words⟩
  cases point with
  | locateId id attempts pre since => exact reading facts
  | locateOwner id attempts pre since =>
    refine ⟨reading facts.1, fun now => ?_⟩
    obtain ⟨then_, published, -⟩ := stands facts.1 now
    rw [published]
    exact facts.2 then_
  | locateLocal id attempts pre since owner =>
    refine ⟨reading facts.1, fun now => ?_⟩
    obtain ⟨then_, published, owned, -⟩ := stands facts.1 now
    rw [published, owned]
    exact facts.2 then_
  | locateAfter id attempts pre since owner localIndex =>
    refine ⟨reading facts.1, fun now => ?_⟩
    obtain ⟨then_, published, owned, placed⟩ := stands facts.1 now
    rw [published, owned, placed]
    exact facts.2 then_
  | _ => trivial

theorem clientStep_moves {p : ClientPoint slot}
    (step : clientStep choice p s = some (p', s', events)) :
    ∃ state, s' = s.setPending state := by
  cases clientStep_effect step <;> exact ⟨_, rfl⟩

theorem retryLocate_facts (id : SlotId slot) (attempts : Nat) : ClientFacts (retryLocate id attempts) s := by
  cases attempts <;> trivial

theorem clientStep_point {p : ClientPoint slot}
    (step : clientStep choice p s = some (p', s', events))
    (counted : s.entry.sequence = s.edits % 2 ^ 64) (point : ClientFacts p s) :
    ClientFacts p' s' := by
  cases choice with
  | post _ _ | take _ =>
    cases p <;> cases step
    trivial
  | locate id =>
    cases p <;> cases step
    exact retryLocate_facts id 8
  | step spurious =>
    cases p with
    | idle => cases step
    | postCheck _ _ | takeCheck _ =>
      cases step
      split <;> trivial
    | postLoad _ _ | takeLoad _ =>
      cases step
      trivial
    | postSwap id operations state =>
      rw [clientStep] at step
      split at step
      · cases step
        trivial
      · split at step <;> cases step <;> trivial
    | takeSwap id state =>
      rw [clientStep] at step
      split at step
      · cases step
        trivial
      · split at step <;> cases step <;> trivial
    | locateBefore id attempts =>
      cases step
      split
      · exact retryLocate_facts id attempts
      next even =>
      refine ⟨le_rfl, ?_, counted⟩
      rw [counted] at even
      omega
    | locateId id attempts pre since =>
      cases step
      split
      · trivial
      next eq => exact ⟨point, fun _ => not_not.mp eq⟩
    | locateOwner id attempts pre since =>
      cases step
      exact ⟨point.1, fun now => ⟨point.2 now, rfl⟩⟩
    | locateLocal id attempts pre since owner =>
      cases step
      exact ⟨point.1, fun now => ⟨(point.2 now).1, (point.2 now).2, rfl⟩⟩
    | locateAfter id attempts pre since owner localIndex =>
      rw [clientStep] at step
      split at step
      · cases step
        trivial
      cases step
      exact retryLocate_facts id attempts

theorem decodeLocation_ok {owner localIndex : Nat} {location : TaskLocation}
    (decoded : decodeLocation owner localIndex = .ok location) :
    location.owner.index = owner ∧ location.localIndex = localIndex := by
  rw [decodeLocation, CpuIndex.new] at decoded
  split at decoded
  · cases decoded
  next cpu known =>
  split at known
  · cases known
    split at decoded
    · cases decoded
      exact ⟨rfl, rfl⟩
    · cases decoded
  · cases known

theorem DirectoryFacts.located (facts : DirectoryFacts s log) {id : SlotId slot}
    {attempts since owner localIndex : Nat} (fresh : s.edits < since + 2 ^ 64)
    (point : ClientFacts (.locateAfter id attempts s.entry.sequence since owner localIndex) s) :
    DirectoryFacts s (locatedEvent id owner localIndex ++ log) := by
  obtain ⟨⟨started, even, first⟩, stands⟩ := point
  have now : s.edits = since := by
    rw [facts.sequence] at first
    omega
  obtain ⟨published, owned, placed⟩ := stands now
  rw [locatedEvent]
  split
  next location decoded =>
    obtain ⟨cpu, idx⟩ := decodeLocation_ok decoded
    rcases facts.settled (now ▸ even) with nothing | ⟨p, mem, identity, ownerOf, localOf⟩
    · exact absurd (published.symm.trans nothing) id.1.raw_ne_zero
    have eq : p.id = id := Subtype.ext (TaskId.raw_injective (identity.symm.trans published))
    have place : location = ⟨p.owner, p.localIndex⟩ := by
      have sameOwner : location.owner = p.owner := CpuIndex.ext (cpu.trans (owned.symm.trans ownerOf))
      rw [← sameOwner, ← localOf, placed, ← idx]
    subst eq place
    refine ⟨facts.sequence, fun e => (facts.settled e).later, facts.witnessed.located mem⟩
  · exact facts

theorem clientStep_facts {p : ClientPoint slot}
    (step : clientStep choice p s = some (p', s', events)) (facts : DirectoryFacts s log)
    (point : ClientFacts p s) (fresh : ∀ since, p.since = some since → s.edits < since + 2 ^ 64) :
    DirectoryFacts s' (events ++ log) := by
  cases clientStep_effect step with
  | nothing => exact facts
  | posts | takes => exact facts.pending _ (by intro _ _ eq; cases eq)
  | locates => exact facts.located (fresh _ rfl) point

theorem OwnerFacts.kept (point : OwnerFacts p s log) (state : Nat) :
    OwnerFacts p (s.setPending state) (events ++ log) := by
  cases p with
  | publishOwner p => exact ⟨point.1, mem_append_right _ point.2⟩
  | publishLocal p | publishLoad p | publishSwap p _ | publishId p | publishEnd p =>
    exact ⟨point.1, mem_append_right _ point.2.1, point.2.2⟩
  | _ => exact point

end Steps

theorem directoryOutline : Program.Outline (directoryProgram slot ι) (fun _ c => Fresh c)
    DirectoryFacts PointFacts where
  own := by
    intro c i k t s events fresh facts points taken
    cases i with
    | none => exact ownerStep_facts taken facts (points none)
    | some i =>
      exact ⟨clientStep_facts taken facts (points (some i)) (fresh i),
        clientStep_point taken facts.sequence (points (some i))⟩
  others := by
    intro c i j k t s events fresh ne facts points taken
    cases i with
    | none =>
      cases j with
      | none => exact absurd rfl ne
      | some j => exact (points (some j)).kept (ownerStep_moves taken (points none))
    | some i =>
      obtain ⟨state, rfl⟩ := clientStep_moves taken
      cases j with
      | none => exact (points none).kept state
      | some j => exact (points (some j)).kept (.inr ⟨rfl, .inr ⟨rfl, rfl, rfl⟩⟩)

/-- In every interleaving in which the sequence does not come round during one attempt, every
location that a look-up returns was stored by one earlier publication of exactly its identity. -/
theorem located_by_one_publication [DecidableEq ι]
    {c : Config DirectoryShared (@DirectoryPoint slot ι) (DirectoryEvent slot)}
    (run : Runs (Program.Step (directoryProgram slot ι)) (fun _ c => Fresh c) (directoryStart slot ι) c)
    (later earlier : List (DirectoryEvent slot)) (id : SlotId slot) (location : TaskLocation)
    (returned : c.log = later ++ .located id location :: earlier) :
    ∃ p : Placement slot, .published p ∈ earlier ∧ p.id = id ∧ location = ⟨p.owner, p.localIndex⟩ := by
  have start : DirectoryFacts new ([] : List (DirectoryEvent slot)) :=
    ⟨rfl, fun _ => .inl rfl, fun later _ _ _ split => by cases later <;> cases split⟩
  obtain ⟨facts, -⟩ := directoryOutline.holds start (fun i => by cases i <;> trivial) run
  exact facts.witnessed later earlier id location returned

theorem directoryStep_edits {i : Option ι} {k : DirectoryChoice slot i} {t t' : DirectoryPoint slot i}
    {s s' : DirectoryShared} {events : List (DirectoryEvent slot)}
    (taken : directoryProgram slot ι i k t s = some (t', s', events)) : s'.edits ≤ s.edits + 1 := by
  cases i with
  | some i =>
    obtain ⟨state, rfl⟩ := clientStep_moves taken
    exact Nat.le_succ _
  | none =>
    have effect : OwnerEffect t s s' events := ownerStep_effect taken
    cases effect with
    | begins | bumps => exact le_rfl
    | _ => exact Nat.le_succ _

/-- A schedule too short to bring the sequence round is covered. -/
theorem run_fresh [DecidableEq ι]
    {c c' : Config DirectoryShared (@DirectoryPoint slot ι) (DirectoryEvent slot)}
    {schedule : List (Σ i : Option ι, DirectoryChoice slot i)}
    (ran : (directoryProgram slot ι).run schedule c = some c')
    (lt : c.shared.edits + schedule.length < 2 ^ 64) :
    Runs (Program.Step (directoryProgram slot ι)) (fun _ c => Fresh c) c c' := by
  induction schedule generalizing c with
  | nil =>
    cases ran
    exact .start
  | cons act rest ih =>
    rw [run] at ran
    rw [length_cons] at lt
    split at ran
    · cases ran
    next t s events taken =>
    have fresh : Fresh c := fun i since _ => by omega
    have few := directoryStep_edits taken
    exact (Runs.one fresh ⟨t, s, events, taken, rfl⟩).trans (ih ran (by dsimp only; omega))

section Wrap
variable [DecidableEq ι] {c c' : Config DirectoryShared (@DirectoryPoint slot ι) (DirectoryEvent slot)}

theorem republish (p : Placement slot) (n : Nat) (idle : c.threads none = OwnerPoint.idle)
    (there : c.shared.entry.publishedId = p.id.1.raw) :
    ∃ c', Runs (Program.Step (directoryProgram slot ι)) (fun _ _ => True) c c' ∧
      c'.threads = c.threads ∧ c'.shared.entry.publishedId = p.id.1.raw ∧
      (c.shared.entry.sequence < 2 ^ 64 →
        c'.shared.entry.sequence = (c.shared.entry.sequence + 2 * n) % 2 ^ 64) ∧
      (0 < n → c'.shared.entry.owner = p.owner.index ∧ c'.shared.entry.localIndex = p.localIndex) ∧
      ∀ q : Placement slot, .published q ∈ c'.log → q = p ∨ .published q ∈ c.log := by
  induction n with
  | zero =>
    refine ⟨c, .start, rfl, there, fun small => ?_, fun none => absurd none (lt_irrefl 0),
      fun q mem => .inr mem⟩
    rw [Nat.mul_zero, Nat.add_zero, Nat.mod_eq_of_lt small]
  | succ n ih =>
    obtain ⟨d, run, threads, published, sequence, -, log⟩ := ih
    have replaces : replaceable d.shared.entry.publishedId p.id = true := by
      rw [published]
      exact replaceable_raw _
    have more := publish_alone d p (by rw [threads]; exact idle) replaces
    rw [TaskDirectoryEntry.publish_run p.valid replaces] at more
    refine ⟨_, run.trans more, threads, rfl, fun small => ?_, fun _ => ⟨rfl, rfl⟩, ?_⟩
    · have now := sequence small
      simp only [TaskDirectoryEntry.holding, bump, now]
      omega
    intro q mem
    rcases mem_cons.mp mem with wrong | mem
    · cases wrong
    rcases mem_cons.mp mem with here | old
    · cases here
      exact .inl rfl
    · exact log q old

end Wrap

def firstPlace : Placement 5 := ⟨slotFiveTask, ⟨0, zero_lt_maxCpus⟩, 0, by decide⟩

def secondPlace : Placement 5 := ⟨slotFiveTask, ⟨1, by decide⟩, 1, validLocalIndex_one⟩

/-- A publication, and a look-up up to its load of the owner. -/
def halfReadSchedule : List (Σ i : Option Unit, DirectoryChoice 5 i) :=
  ⟨none, OwnerChoice.publish firstPlace⟩ :: List.replicate 8 ⟨none, OwnerChoice.step false⟩ ++
    ⟨some (), locate slotFiveTask⟩ :: List.replicate 3 ⟨some (), step false⟩

/-- When the sequence comes round during a look-up, the look-up returns the owner of one
publication with the index of another. -/
theorem wrapped_sequence_mixes_publications :
    ∃ (c : Config DirectoryShared (@DirectoryPoint 5 Unit) (DirectoryEvent 5))
      (earlier : List (DirectoryEvent 5)),
      Runs (Program.Step (directoryProgram 5 Unit)) (fun _ _ => True) (directoryStart 5 Unit) c ∧
      c.log = .located slotFiveTask ⟨⟨0, by decide⟩, 1⟩ :: earlier ∧
      ¬∃ p : Placement 5, .published p ∈ earlier ∧ p.id = slotFiveTask ∧
        (⟨⟨0, by decide⟩, 1⟩ : TaskLocation) = ⟨p.owner, p.localIndex⟩ := by
  have half : ∃ c, (directoryProgram 5 Unit).run halfReadSchedule (directoryStart 5 Unit) = some c ∧
      c.threads none = OwnerPoint.idle ∧
      c.threads (some ()) = ClientPoint.locateLocal slotFiveTask 7 2 2 0 ∧
      c.shared.entry.publishedId = slotFiveTask.1.raw ∧ c.shared.entry.sequence = 2 ∧
      c.log = [.adopted slotFiveTask, .published firstPlace] := ⟨_, rfl, rfl, rfl, rfl, rfl, rfl⟩
  obtain ⟨c, ran, idle, reading, published, sequence, log⟩ := half
  obtain ⟨d, more, threads, -, wrapped, placed, known⟩ :=
    republish secondPlace (2 ^ 63) idle published
  have again : d.shared.entry.sequence = 2 := by
    rw [wrapped (by rw [sequence]; decide), sequence]
    decide
  have index : d.shared.entry.localIndex = 1 := (placed (by decide)).2
  have finish : alone clientStep [.step false, .step false]
      (ClientPoint.locateLocal slotFiveTask 7 2 2 0) d.shared =
      some (.idle, d.shared, [.located slotFiveTask ⟨⟨0, by decide⟩, 1⟩]) := by
    simp [alone, clientStep, again, index, locatedEvent, decodeLocation, CpuIndex.new, maxCpus]
  rw [← reading, ← threads] at finish
  have last := @Program.alone_runs _ _ _ _ _ _ (directoryProgram 5 Unit) d (some ())
    [step false, step false] _ _ _ finish
  refine ⟨_, d.log, ((run_runs ran).trans more).trans last, rfl, ?_⟩
  rintro ⟨p, mem, -, mixed⟩
  rcases known p mem with rfl | old
  · cases mixed
  rw [log] at old
  rcases mem_cons.mp old with wrong | old
  · cases wrong
  cases mem_singleton.mp old
  cases mixed

/-- The task is published anew after a look-up has loaded its first owner; the look-up tries again
and returns the second place. -/
theorem located_by_one_publication_republished :
    ∃ p : Placement 5,
      .published p ∈ [DirectoryEvent.adopted slotFiveTask, .published secondPlace, .adopted slotFiveTask,
        .published firstPlace] ∧ p.id = slotFiveTask ∧
      (⟨⟨1, by decide⟩, 1⟩ : TaskLocation) = ⟨p.owner, p.localIndex⟩ := by
  have ran : ∃ c, (directoryProgram 5 Unit).run
      (halfReadSchedule ++ ⟨none, OwnerChoice.publish secondPlace⟩ ::
        List.replicate 8 ⟨none, OwnerChoice.step false⟩ ++ List.replicate 7 ⟨some (), step false⟩)
      (directoryStart 5 Unit) = some c ∧
      c.log = .located slotFiveTask ⟨⟨1, by decide⟩, 1⟩ :: [.adopted slotFiveTask, .published secondPlace,
        .adopted slotFiveTask, .published firstPlace] := ⟨_, rfl, rfl⟩
  obtain ⟨c, ran, log⟩ := ran
  exact located_by_one_publication (run_fresh ran (by decide)) [] _ slotFiveTask _ log

end HuesOS.Sched
