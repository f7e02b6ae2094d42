import HuesOS.Sched.Inbox

namespace HuesOS.Sched
open List Option InboxShared Program False
variable {ι : Type}

abbrev InboxConfig (ι : Type) := Config InboxShared (@InboxPoint ι) InboxEvent

namespace InboxConfig

def drain (c : InboxConfig ι) : DrainPoint := c.threads none

def publisher (c : InboxConfig ι) (i : ι) : PublisherPoint := c.threads (some i)

end InboxConfig

/-- Words that the drain has taken from the summary and not swept yet. -/
def DrainPoint.taken : DrainPoint → List Nat
  | .sweep _ dirty _ => dirty
  | _ => []

@[simp] theorem afterSweep_taken (idx used : Nat) (dirty : List Nat) :
    (afterSweep idx dirty used).taken = dirty := by
  unfold afterSweep
  split
  · split <;> rfl
  · rfl

variable {word : Nat} {s : InboxShared}

theorem mem_placesOf {place : Nat} : place ∈ placesOf word ↔ place / taskBitsPerWord = word := by
  simp only [placesOf, taskBitsPerWord, List.mem_map, List.mem_range]
  constructor
  · rintro ⟨bit, small, rfl⟩
    omega
  rintro rfl
  exact ⟨place % 64, Nat.mod_lt _ (by decide), by omega⟩

theorem mem_dirty {idx : Nat} :
    word ∈ s.dirty idx ↔ word / taskBitsPerWord = idx ∧ s.summary word = true := by
  rw [InboxShared.dirty, List.mem_filter, mem_placesOf]

theorem not_of_clear {idx : Nat} (clear : s.dirty idx = []) (summary : s.summary word = true) :
    idx ≠ word / taskBitsPerWord := by
  intro eq
  have listed := mem_dirty.mpr ⟨eq.symm, summary⟩
  rw [clear] at listed
  cases listed

theorem mem_tasks {slot : Nat} :
    slot ∈ s.tasks word ↔ slot / taskBitsPerWord = word ∧ s.pending slot = true := by
  rw [tasks, List.mem_filter, mem_placesOf]

inductive PublisherMove (s : InboxShared) : PublisherPoint → PublisherPoint → InboxShared →
    List InboxEvent → Prop
  | start (slot : Fin maxTasks) : PublisherMove s .idle (.markWord slot) s []
  | markWord (slot : Fin maxTasks) : PublisherMove s (.markWord slot) (.markSummary slot)
      (s.setTask slot) [.marked slot (!s.pending slot)]
  | markSummary (slot : Fin maxTasks) : PublisherMove s (.markSummary slot) (.arm slot)
      (s.setSummary (slot / taskBitsPerWord)) []
  | arm (slot : Fin maxTasks) : PublisherMove s (.arm slot) .idle { s with armed := true }
      [.finished slot (!s.armed)]

theorem publisherStep_move {k : PublisherChoice} {p p' : PublisherPoint} {s' : InboxShared}
    {events : List InboxEvent} (step : publisherStep k p s = some (p', s', events)) :
    PublisherMove s p p' s' events := by
  cases k with
  | publish slot =>
    cases p <;> cases step
    exact .start slot
  | step =>
    cases p <;> cases step
    · exact .markWord _
    · exact .markSummary _
    · exact .arm _

inductive DrainMove (s : InboxShared) : DrainPoint → DrainPoint → InboxShared →
    List InboxEvent → Prop
  | start : DrainMove s .idle (.scan 0 0) s [.drainStarted]
  | scan (index consumed : Nat) : DrainMove s (.scan index consumed)
      (afterSweep index (s.dirty index) consumed) (s.clearSummary index) []
  | sweep (index word consumed : Nat) (rest : List Nat) :
      DrainMove s (.sweep index (word :: rest) consumed)
        (afterSweep index rest (consumed + (s.tasks word).length)) (s.clearWord word)
        ((s.tasks word).reverse.map .delivered)
  | disarm (consumed : Nat) :
      DrainMove s (.disarm consumed) (.check 0 consumed) { s with armed := false } [.disarmed]
  | pass (index consumed : Nat) (clear : s.dirty index = [])
      (more : index + 1 < inboxSummaryWords) :
      DrainMove s (.check index consumed) (.check (index + 1) consumed) s []
  | done (index consumed : Nat) (clear : s.dirty index = [])
      (last : ¬index + 1 < inboxSummaryWords) :
      DrainMove s (.check index consumed) .idle s [.drainEnded consumed]
  | found (index consumed : Nat) : DrainMove s (.check index consumed) (.claim consumed) s []
  | leave (consumed : Nat) (armed : s.armed = true) :
      DrainMove s (.claim consumed) .idle s [.drainEnded consumed]
  | again (consumed : Nat) (quiet : s.armed = false) :
      DrainMove s (.claim consumed) (.scan 0 consumed) { s with armed := true } []

theorem drainStep_move {k : DrainChoice} {p p' : DrainPoint} {s' : InboxShared}
    {events : List InboxEvent} (step : drainStep k p s = some (p', s', events)) :
    DrainMove s p p' s' events := by
  cases k with
  | drain =>
    cases p <;> cases step
    exact .start
  | step =>
    cases p with
    | idle => cases step
    | scan idx used =>
      cases step
      exact .scan idx used
    | sweep idx dirty used =>
      cases dirty <;> cases step
      exact .sweep ..
    | disarm used =>
      cases step
      exact .disarm used
    | check idx used =>
      rw [drainStep] at step
      split at step
      next clear =>
        split at step
        next more =>
          cases step
          exact .pass idx used (isEmpty_iff.mp clear) more
        next last =>
        cases step
        exact .done idx used (isEmpty_iff.mp clear) last
      cases step
      exact .found idx used
    | claim used =>
      rw [drainStep] at step
      split at step
      next armed =>
        cases step
        exact .leave used armed
      next quiet =>
      cases step
      exact .again used (Bool.not_eq_true _ ▸ quiet)

theorem inboxStep_cases [DecidableEq ι] {act : Σ i : Option ι, InboxChoice i} {c c' : InboxConfig ι}
    (step : Program.Step (inboxProgram ι) act c c') :
    (∃ events, DrainMove c.shared c.drain c'.drain c'.shared events ∧
      (∀ i, c'.publisher i = c.publisher i) ∧ c'.log = events ++ c.log) ∨
    ∃ i events, PublisherMove c.shared (c.publisher i) (c'.publisher i) c'.shared events ∧
      (∀ j, j ≠ i → c'.publisher j = c.publisher j) ∧ c'.drain = c.drain ∧
      c'.log = events ++ c.log := by
  obtain ⟨i, k⟩ := act
  obtain ⟨events, taken, others, log⟩ := step.inversion
  cases i with
  | none =>
    exact .inl ⟨events, drainStep_move taken, fun i => others (some i) (some_ne_none i), log⟩
  | some i =>
    refine .inr ⟨i, events, publisherStep_move taken, fun j other => ?_, others none (some_ne_none i).symm, log⟩
    exact others (some j) fun eq => other (Option.some.inj eq)

/-- A set bit is announced in the summary, or its publisher is about to announce it, or the drain
has already taken its word from the summary. -/
def Covered (announcing : Nat → Prop) (taken : List Nat) (s : InboxShared) : Prop :=
  ∀ slot, s.pending slot = true → s.summary (slot / taskBitsPerWord) = true ∨
    announcing (slot / taskBitsPerWord) ∨ slot / taskBitsPerWord ∈ taken

/-- Every word announced in the summary is one of the bitmap. -/
def Bounded (s : InboxShared) : Prop := ∀ word, s.summary word = true → word < inboxWords

section Moves
variable {s s' : InboxShared} {p p' : DrainPoint} {q q' : PublisherPoint} {events : List InboxEvent}
  {announcing announcing' : Nat → Prop} {taken : List Nat}

theorem DrainMove.covered (move : DrainMove s p p' s' events)
    (covered : Covered announcing p.taken s) : Covered announcing p'.taken s' := by
  intro slot pending
  cases move with
  | scan idx used =>
    rcases covered slot pending with summary | announced | swept
    · by_cases here : slot / taskBitsPerWord / taskBitsPerWord = idx
      · exact .inr (.inr (by rw [afterSweep_taken]; exact mem_dirty.mpr ⟨here, summary⟩))
      · exact .inl (by simp [clearSummary, summary, here])
    · exact .inr (.inl announced)
    · cases swept
  | sweep idx word used rest =>
    simp only [clearWord, Bool.and_eq_true, bne_iff_ne] at pending
    rcases covered slot pending.1 with summary | announced | swept
    · exact .inl summary
    · exact .inr (.inl announced)
    rcases mem_cons.mp swept with here | later
    · exact absurd here pending.2
    · exact .inr (.inr (by rw [afterSweep_taken]; exact later))
  | _ => exact covered slot pending

theorem DrainMove.bounded (move : DrainMove s p p' s' events) (bounded : Bounded s) : Bounded s' := by
  intro word summary
  cases move with
  | scan idx used =>
    simp only [clearSummary, Bool.and_eq_true] at summary
    exact bounded word summary.1
  | _ => exact bounded word summary

theorem PublisherMove.covered (move : PublisherMove s q q' s' events)
    (covered : Covered announcing taken s)
    (kept : ∀ word, announcing word → announcing' word ∨
      ∃ slot : Fin maxTasks, q = .markSummary slot ∧ slot.val / taskBitsPerWord = word)
    (new : ∀ slot : Fin maxTasks, q' = .markSummary slot →
      announcing' (slot.val / taskBitsPerWord)) : Covered announcing' taken s' := by
  intro slot pending
  cases move with
  | start other | arm other =>
    exact (covered slot pending).imp_right (Or.imp_left fun announced =>
      (kept _ announced).resolve_right nofun)
  | markWord other =>
    by_cases here : slot = other
    · rw [here]
      exact .inr (.inl (new other rfl))
    simp only [setTask, Function.update_of_ne here] at pending
    exact (covered slot pending).imp_right (Or.imp_left fun announced =>
      (kept _ announced).resolve_right nofun)
  | markSummary other =>
    by_cases here : slot / taskBitsPerWord = other / taskBitsPerWord
    · exact .inl (by simp [setSummary, here])
    refine (covered slot pending).imp (fun summary => ?_) (Or.imp_left fun announced => ?_)
    · simpa [setSummary, here] using summary
    refine (kept _ announced).resolve_right ?_
    rintro ⟨_, same, word⟩
    cases same
    exact here word.symm

theorem PublisherMove.bounded (move : PublisherMove s q q' s' events) (bounded : Bounded s) : Bounded s' := by
  intro word summary
  cases move with
  | markSummary other =>
    by_cases here : word = other / taskBitsPerWord
    · rw [here]
      exact Nat.div_lt_of_lt_mul other.isLt
    · exact bounded word (by simpa [setSummary, here] using summary)
  | _ => exact bounded word summary

/-- The drain under way has still to look at the word of the summary. -/
def DrainPoint.Sees (word : Nat) : DrainPoint → Prop
  | .idle => False
  | .check index _ => index ≤ word / taskBitsPerWord
  | _ => True

/-- The drain under way may have armed the inbox itself. -/
def DrainPoint.Claims : DrainPoint → Prop
  | .scan _ _ | .sweep _ _ _ | .disarm _ => True
  | _ => False

def DrainPoint.PastDisarm : DrainPoint → Prop
  | .check _ _ | .claim _ => True
  | _ => False

theorem afterSweep_claims (idx used : Nat) (dirty : List Nat) : (afterSweep idx dirty used).Claims := by
  unfold afterSweep
  split
  · split <;> trivial
  · trivial

theorem DrainPoint.Claims.sees (claims : p.Claims) (word : Nat) :
    p.Sees word ∧ p ≠ .idle ∧ ¬p.PastDisarm := by
  cases p <;> first | exact ⟨trivial, nofun, id⟩ | cases claims

/-- An announced word is looked at by the drain under way, or the inbox is armed, or about to
be. -/
def Watched (arming : Prop) (p : DrainPoint) (s : InboxShared) : Prop :=
  ∀ word, s.summary word = true → s.armed = true ∨ arming ∨ p.Sees word

theorem DrainMove.watched {arming : Prop} (move : DrainMove s p p' s' events)
    (bounded : Bounded s) (watched : Watched arming p s) : Watched arming p' s' := by
  intro word summary
  cases move with
  | start | found idx used | again used quiet => exact .inr (.inr trivial)
  | scan idx used | sweep idx first used rest =>
    exact .inr (.inr ((afterSweep_claims ..).sees word).1)
  | disarm used => exact .inr (.inr (Nat.zero_le _))
  | pass idx used clear more =>
    refine (watched word summary).imp_right (Or.imp_right fun later => ?_)
    exact Nat.lt_of_le_of_ne later (not_of_clear clear summary)
  | done idx used clear last =>
    refine (watched word summary).imp_right (Or.imp_right fun later => ?_)
    have lt : word / taskBitsPerWord < inboxSummaryWords := Nat.div_lt_of_lt_mul (bounded word summary)
    have later := Nat.lt_of_le_of_ne later (not_of_clear clear summary)
    exact absurd lt (by omega)
  | leave used armed => exact .inl armed

theorem PublisherMove.watched {arming arming' : Prop} (move : PublisherMove s q q' s' events)
    (watched : Watched arming p s) (kept : arming → arming' ∨ ∃ slot, q = .arm slot)
    (new : ∀ slot, q' = .arm slot → arming') : Watched arming' p s' := by
  intro word summary
  cases move with
  | start other | markWord other =>
    exact (watched word summary).imp_right (Or.imp_left fun soon => (kept soon).resolve_right nofun)
  | markSummary other => exact .inr (.inl (new other rfl))
  | arm other => exact .inl rfl

/-- A publisher was told to send an interrupt, and the inbox has not been disarmed since. -/
def ToldSince (log : List InboxEvent) : Prop :=
  ∃ later slot earlier, log = later ++ .finished slot true :: earlier ∧ .disarmed ∉ later

variable {log : List InboxEvent}

theorem ToldSince.more (told : ToldSince log) (quiet : .disarmed ∉ events) : ToldSince (events ++ log) := by
  obtain ⟨later, slot, earlier, rfl, since⟩ := told
  refine ⟨events ++ later, slot, earlier, by rw [append_assoc], ?_⟩
  rw [mem_append]
  exact fun either => either.elim quiet since

/-- An armed inbox was armed by a publisher that sends an interrupt, or by the drain. -/
def Armed (p : DrainPoint) (s : InboxShared) (log : List InboxEvent) : Prop :=
  s.armed = true → ToldSince log ∨ p.Claims

theorem DrainMove.armed (move : DrainMove s p p' s' events)
    (armed : Armed p s log) : Armed p' s' (events ++ log) := by
  intro now
  cases move with
  | start | again used quiet => exact .inr trivial
  | scan idx used | sweep idx first used rest => exact .inr (afterSweep_claims ..)
  | disarm used => cases now
  | pass idx used clear more | found idx used =>
    exact (armed now).elim .inl elim
  | done idx used clear last | leave used old =>
    exact (armed now).elim (fun told => .inl (told.more (by simp))) elim

theorem PublisherMove.armed (move : PublisherMove s q q' s' events)
    (armed : Armed p s log) : Armed p s' (events ++ log) := by
  intro now
  cases move with
  | start other | markSummary other => exact armed now
  | markWord other => exact (armed now).imp (fun told => told.more (by simp)) fun claims => claims
  | arm other =>
    cases pre : s.armed with
    | true => exact (armed pre).imp (fun told => told.more (by simp)) fun claims => claims
    | false => exact .inl ⟨[], other, log, rfl, by simp⟩

/-- A slot that was marked is still pending, or has been delivered since. -/
def Kept (s : InboxShared) (log : List InboxEvent) : Prop :=
  ∀ later slot newly earlier, log = later ++ .marked slot newly :: earlier →
    s.pending slot = true ∨ .delivered slot ∈ later

theorem DrainMove.kept (move : DrainMove s p p' s' events) (kept : Kept s log) : Kept s' (events ++ log) := by
  intro later slot newly old split
  have absent : InboxEvent.marked slot newly ∉ events := by cases move <;> simp
  obtain ⟨between, rfl, pre⟩ := split_of_not_mem split absent
  rcases kept between slot newly old pre with pending | delivered
  · cases move with
    | sweep idx word used rest =>
      by_cases here : slot / taskBitsPerWord = word
      · refine .inr (mem_append_left _ (mem_map_of_mem ?_))
        exact mem_reverse.mpr (mem_tasks.mpr ⟨here, pending⟩)
      · exact .inl (by simp [clearWord, pending, here])
    | _ => exact .inl pending
  · exact .inr (mem_append_right _ delivered)

theorem PublisherMove.kept (move : PublisherMove s q q' s' events)
    (kept : Kept s log) : Kept s' (events ++ log) := by
  have monotone : ∀ slot, s.pending slot = true → s'.pending slot = true := by
    intro slot pending
    cases move with
    | markWord other =>
      by_cases here : slot = other
      · simp [setTask, here]
      · simpa [setTask, here] using pending
    | _ => exact pending
  intro later slot newly old split
  by_cases absent : InboxEvent.marked slot newly ∈ events
  · cases move with
    | markWord other =>
      cases mem_singleton.mp absent
      exact .inl (by simp [setTask])
    | start other | markSummary other => cases absent
    | arm other => cases mem_singleton.mp absent
  obtain ⟨between, rfl, pre⟩ := split_of_not_mem split absent
  exact (kept between slot newly old pre).imp (monotone slot) (mem_append_right _)

/-- A delivery belongs to a drain that is under way or has ended since. -/
def Within (p : DrainPoint) (log : List InboxEvent) : Prop :=
  ∀ later slot earlier, log = later ++ .delivered slot :: earlier →
    p ≠ .idle ∨ ∃ consumed, .drainEnded consumed ∈ later

theorem DrainMove.within (move : DrainMove s p p' s' events)
    (within : Within p log) : Within p' (events ++ log) := by
  intro later slot old split
  cases move with
  | start | again used quiet | found idx used | disarm used
  | pass idx used clear more => exact .inl (by simp)
  | scan idx used | sweep idx first used rest => exact .inl ((afterSweep_claims ..).sees 0).2.1
  | done idx used clear last | leave used armed =>
    obtain ⟨between, rfl, pre⟩ := split_of_not_mem split (by simp)
    exact .inr ⟨used, mem_append_left _ mem_cons_self⟩

theorem PublisherMove.within (move : PublisherMove s q q' s' events)
    (within : Within p log) : Within p (events ++ log) := by
  intro later slot old split
  have absent : InboxEvent.delivered slot ∉ events := by cases move <;> simp
  obtain ⟨between, rfl, pre⟩ := split_of_not_mem split absent
  exact (within between slot old pre).imp_right fun ⟨used, mem⟩ =>
    ⟨used, mem_append_right _ mem⟩

/-- A drain that has started and ended has disarmed the inbox in between. -/
structure Disarms (p : DrainPoint) (log : List InboxEvent) : Prop where
  ended : ∀ later consumed between earlier,
    log = later ++ .drainEnded consumed :: (between ++ .drainStarted :: earlier) →
    .disarmed ∈ between
  ending : p.PastDisarm → ∀ later earlier, log = later ++ .drainStarted :: earlier →
    .disarmed ∈ later

theorem Disarms.more (disarms : Disarms p log)
    (ends : ∀ used, .drainEnded used ∉ events) (starts : .drainStarted ∉ events)
    (past : p'.PastDisarm → p.PastDisarm ∨ .disarmed ∈ events) : Disarms p' (events ++ log) := by
  constructor
  · intro later used between old split
    obtain ⟨rest, rfl, pre⟩ := split_of_not_mem split (ends used)
    exact disarms.ended rest used between old pre
  intro now later old split
  obtain ⟨rest, rfl, pre⟩ := split_of_not_mem split starts
  rw [mem_append]
  exact (past now).elim (fun then_ => .inr (disarms.ending then_ rest old pre)) .inl

theorem Disarms.finish (disarms : Disarms p log) (past : p.PastDisarm)
    (used : Nat) : Disarms .idle ([.drainEnded used] ++ log) := by
  constructor
  · intro later count between old split
    cases later with
    | nil =>
      cases split
      exact disarms.ending past between old rfl
    | cons first later =>
      rw [cons_append, cons_append, List.cons.injEq, nil_append] at split
      exact disarms.ended later count between old split.2
  · exact elim

theorem DrainMove.disarms (move : DrainMove s p p' s' events)
    (disarms : Disarms p log) : Disarms p' (events ++ log) := by
  cases move with
  | start =>
    constructor
    · intro later used between old split
      cases later with
      | nil => cases split
      | cons first later =>
        rw [cons_append, cons_append, List.cons.injEq, nil_append] at split
        exact disarms.ended later used between old split.2
    · exact elim
  | scan idx used | sweep idx first used rest =>
    exact disarms.more (by simp) (by simp) fun past => absurd past ((afterSweep_claims ..).sees 0).2.2
  | disarm used => exact disarms.more (by simp) (by simp) fun _ => .inr mem_cons_self
  | pass idx used clear more | found idx used =>
    exact disarms.more (by simp) (by simp) fun _ => .inl trivial
  | again used quiet => exact disarms.more (by simp) (by simp) elim
  | done idx used clear last | leave used armed => exact disarms.finish trivial used

theorem PublisherMove.disarms (move : PublisherMove s q q' s' events)
    (disarms : Disarms p log) : Disarms p (events ++ log) := by
  refine disarms.more ?_ ?_ .inl
  · intro used
    cases move <;> simp
  · cases move <;> simp

end Moves

def InboxConfig.Announcing (c : InboxConfig ι) (word : Nat) : Prop :=
  ∃ (i : ι) (slot : Fin maxTasks), c.publisher i = .markSummary slot ∧
    slot.val / taskBitsPerWord = word

def InboxConfig.Arming (c : InboxConfig ι) : Prop := ∃ i slot, c.publisher i = .arm slot

structure InboxFacts (c : InboxConfig ι) : Prop where
  covered : Covered c.Announcing c.drain.taken c.shared
  bounded : Bounded c.shared
  watched : Watched c.Arming c.drain c.shared
  armed : Armed c.drain c.shared c.log
  kept : Kept c.shared c.log
  within : Within c.drain c.log
  disarms : Disarms c.drain c.log

theorem inboxFacts_start : InboxFacts (inboxStart ι) where
  covered := fun _ pending => by cases pending
  bounded := fun _ summary => by cases summary
  watched := fun _ summary => by cases summary
  armed := fun armed => by cases armed
  kept := fun later _ _ _ split => by cases later <;> cases split
  within := fun later _ _ split => by cases later <;> cases split
  disarms := {
    ended := fun later _ _ _ split => by cases later <;> cases split
    ending := elim }

theorem inboxFacts_step [DecidableEq ι] {act : Σ i : Option ι, InboxChoice i} {c c' : InboxConfig ι}
    (facts : InboxFacts c) (step : Program.Step (inboxProgram ι) act c c') : InboxFacts c' := by
  rcases inboxStep_cases step with
    ⟨events, move, publishers, log⟩ | ⟨i, events, move, others, drain, log⟩
  · have announcing : c'.Announcing = c.Announcing := by
      unfold InboxConfig.Announcing
      simp only [publishers]
    have arming : c'.Arming = c.Arming := by
      unfold InboxConfig.Arming
      simp only [publishers]
    refine ⟨?_, move.bounded facts.bounded, ?_, ?_, ?_, ?_, ?_⟩
    · rw [announcing]
      exact move.covered facts.covered
    · rw [arming]
      exact move.watched facts.bounded facts.watched
    all_goals rw [log]
    · exact move.armed facts.armed
    · exact move.kept facts.kept
    · exact move.within facts.within
    · exact move.disarms facts.disarms
  refine ⟨?_, move.bounded facts.bounded, ?_, ?_, ?_, ?_, ?_⟩
  · rw [drain]
    refine move.covered facts.covered ?_ fun slot here => ⟨i, slot, here, rfl⟩
    rintro word ⟨j, slot, there, eq⟩
    by_cases self : j = i
    · exact .inr ⟨slot, self ▸ there, eq⟩
    · exact .inl ⟨j, slot, (others j self).trans there, eq⟩
  · rw [drain]
    refine move.watched facts.watched ?_ fun slot here => ⟨i, slot, here⟩
    rintro ⟨j, slot, there⟩
    by_cases self : j = i
    · exact .inr ⟨slot, self ▸ there⟩
    · exact .inl ⟨j, slot, (others j self).trans there⟩
  · rw [drain, log]
    exact move.armed facts.armed
  · rw [log]
    exact move.kept facts.kept
  · rw [drain, log]
    exact move.within facts.within
  rw [drain, log]
  exact move.disarms facts.disarms

def InboxConfig.Quiet (c : InboxConfig ι) : Prop := c.drain = .idle ∧ ∀ i, c.publisher i = .idle

section Alone
variable {s : InboxShared}

theorem sweep_alone (s : InboxShared) (idx : Nat) (dirty : List Nat) (consumed : Nat) :
    ∃ s' count events, alone drainStep (List.replicate dirty.length .step)
        (afterSweep idx dirty consumed) s = some (afterSweep idx [] count, s', events) ∧
      s'.summary = s.summary ∧
      (∀ slot, s'.pending slot = true ↔ s.pending slot = true ∧ slot / taskBitsPerWord ∉ dirty) ∧
      ∀ slot, s.pending slot = true → slot / taskBitsPerWord ∈ dirty → .delivered slot ∈ events := by
  induction dirty generalizing s consumed with
  | nil =>
    exact ⟨s, consumed, [], rfl, rfl, fun _ => (and_iff_left not_mem_nil).symm,
      fun _ _ mem => absurd mem not_mem_nil⟩
  | cons word rest ih =>
    obtain ⟨s', count, events, run, summary, left, gone⟩ :=
      ih (s.clearWord word) (consumed + (s.tasks word).length)
    refine ⟨s', count, events ++ (s.tasks word).reverse.map .delivered, ?_, summary, ?_, ?_⟩
    · have point : afterSweep idx (word :: rest) consumed = .sweep idx (word :: rest) consumed := rfl
      rw [length_cons, replicate_succ, point, alone]
      simp only [drainStep, run, map_some]
    · intro slot
      rw [left, mem_cons, not_or, ← and_assoc]
      simp only [clearWord, Bool.and_eq_true, bne_iff_ne]
    intro slot pending mem
    by_cases here : slot / taskBitsPerWord = word
    · refine mem_append_right _ (mem_map_of_mem ?_)
      exact mem_reverse.mpr (mem_tasks.mpr ⟨here, pending⟩)
    refine mem_append_left _ (gone slot ?_ ((mem_cons.mp mem).resolve_left here))
    simp [clearWord, pending, here]

theorem scan_alone (s : InboxShared) (idx used : Nat) :
    ∃ s' count events choices, alone drainStep choices (.scan idx used) s =
        some (afterSweep idx [] count, s', events) ∧
      s'.summary = (s.clearSummary idx).summary ∧
      (∀ slot, s'.pending slot = true ↔ s.pending slot = true ∧ slot / taskBitsPerWord ∉ s.dirty idx) ∧
      ∀ slot, s.pending slot = true → slot / taskBitsPerWord ∈ s.dirty idx → .delivered slot ∈ events := by
  obtain ⟨s', count, events, run, summary, left, gone⟩ :=
    sweep_alone (s.clearSummary idx) idx (s.dirty idx) used
  refine ⟨s', count, events, .step :: List.replicate (s.dirty idx).length .step, ?_, summary, left, gone⟩
  rw [alone]
  simp only [drainStep, run, map_some, append_nil]

/-- A drain that nobody interferes with delivers every announced slot and ends. -/
theorem drain_alone (bounded : Bounded s)
    (announced : ∀ slot, s.pending slot = true → s.summary (slot / taskBitsPerWord) = true) :
    ∃ s' events choices, alone drainStep choices .idle s = some (.idle, s', events) ∧
      (∀ slot, s'.pending slot = false) ∧ ∀ slot, s.pending slot = true → .delivered slot ∈ events := by
  obtain ⟨s₁, n₁, e₁, k₁, run₁, summary₁, left₁, gone₁⟩ := scan_alone s 0 0
  obtain ⟨s₂, n₂, e₂, k₂, run₂, summary₂, left₂, gone₂⟩ := scan_alone s₁ 1 n₁
  have started : alone drainStep [.drain] .idle s = some (.scan 0 0, s, [.drainStarted]) := rfl
  have both := alone_append (alone_append started run₁) run₂
  have idx : ∀ slot, s.pending slot = true → slot / taskBitsPerWord ∈ s.dirty 0 ∨
      slot / taskBitsPerWord ∈ s.dirty 1 := by
    intro slot pending
    have summary := announced slot pending
    have lt : slot / taskBitsPerWord / taskBitsPerWord < 2 := Nat.div_lt_of_lt_mul (bounded _ summary)
    rcases Nat.lt_succ_iff_lt_or_eq.mp lt with zero | one
    · exact .inl (mem_dirty.mpr ⟨Nat.lt_one_iff.mp zero, summary⟩)
    · exact .inr (mem_dirty.mpr ⟨one, summary⟩)
  have dirty₁ : ∀ word, word ∈ s.dirty 1 → word ∈ s₁.dirty 1 := by
    intro word mem
    obtain ⟨here, summary⟩ := mem_dirty.mp mem
    refine mem_dirty.mpr ⟨here, ?_⟩
    rw [summary₁]
    simp [clearSummary, summary, here]
  have clear : ∀ i < 2, s₂.dirty i = [] := by
    intro i small
    rw [eq_nil_iff_forall_not_mem]
    intro word mem
    obtain ⟨here, summary⟩ := mem_dirty.mp mem
    rw [summary₂] at summary
    simp only [clearSummary, summary₁, Bool.and_eq_true, bne_iff_ne] at summary
    omega
  have ends : alone drainStep [.step, .step, .step] (afterSweep 1 [] n₂) s₂ =
      some (.idle, { s₂ with armed := false }, [.drainEnded n₂, .disarmed]) := by
    have first : ({ s₂ with armed := false } : InboxShared).dirty 0 = [] := clear 0 (by decide)
    have second : ({ s₂ with armed := false } : InboxShared).dirty 1 = [] := clear 1 (by decide)
    simp [alone, afterSweep, drainStep, first, second, inboxSummaryWords, inboxWords, maxTasks, taskBitsPerWord]
  refine ⟨_, _, _, alone_append both ends, ?_, ?_⟩
  · intro slot
    by_contra set_
    obtain ⟨pending₁, outside₁⟩ := (left₂ slot).mp (by simpa using set_)
    obtain ⟨pending, out⟩ := (left₁ slot).mp pending₁
    rcases idx slot pending with zero | one
    · exact out zero
    · exact outside₁ (dirty₁ _ one)
  intro slot pending
  have delivered : .delivered slot ∈ e₂ ++ (e₁ ++ [.drainStarted]) := by
    by_cases zero : slot / taskBitsPerWord ∈ s.dirty 0
    · exact mem_append_right _ (mem_append_left _ (gone₁ slot pending zero))
    have one := (idx slot pending).resolve_left zero
    exact mem_append_left _ (gone₂ slot ((left₁ slot).mpr ⟨pending, zero⟩) (dirty₁ _ one))
  exact mem_append_right _ delivered

end Alone

section Quiet
variable {c : InboxConfig ι}
variable {slot : Nat}

namespace InboxFacts
variable (facts : InboxFacts c)
include facts

theorem announced (quiet : c.Quiet)
    (pending : c.shared.pending slot = true) : c.shared.summary (slot / taskBitsPerWord) = true := by
  rcases facts.covered slot pending with summary | ⟨i, other, here, -⟩ | taken
  · exact summary
  · rw [quiet.2 i] at here
    cases here
  rw [quiet.1] at taken
  cases taken

theorem quiet_armed (quiet : c.Quiet) (pending : c.shared.pending slot = true) : c.shared.armed = true := by
  rcases facts.watched _ (facts.announced quiet pending) with armed | ⟨i, other, here⟩ | sees
  · exact armed
  · rw [quiet.2 i] at here
    cases here
  rw [quiet.1] at sees
  exact sees.elim

/-- No drain has both started and ended since the interrupt was asked for. -/
theorem unanswered (quiet : c.Quiet)
    (armed : c.shared.armed = true) :
    ∃ later slot earlier, c.log = later ++ .finished slot true :: earlier ∧
      ¬∃ after consumed between before,
        later = after ++ .drainEnded consumed :: (between ++ .drainStarted :: before) := by
  obtain ⟨later, slot, earlier, log, since⟩ : ToldSince c.log :=
    (facts.armed armed).resolve_right (by rw [quiet.1]; exact id)
  refine ⟨later, slot, earlier, log, ?_⟩
  rintro ⟨after, consumed, between, before, rfl⟩
  have disarmed := facts.disarms.ended after consumed between
    (before ++ .finished slot true :: earlier) (by rw [log]; simp)
  exact since (by simp [disarmed])

/-- A marked slot is pending or was delivered later, by a drain that is under way or has ended
after the delivery. -/
theorem delivered {later old : List InboxEvent}
    {newly : Bool} (marked : c.log = later ++ .marked slot newly :: old) :
    c.shared.pending slot = true ∨ ∃ after between, later = after ++ .delivered slot :: between ∧
      (c.drain = .idle → ∃ used, .drainEnded used ∈ after) := by
  rcases facts.kept later slot newly old marked with pending | mem
  · exact .inl pending
  obtain ⟨after, between, rfl⟩ := append_of_mem mem
  refine .inr ⟨after, between, rfl, fun idle => ?_⟩
  have place : c.log = after ++ .delivered slot :: (between ++ .marked slot newly :: old) := by
    rw [marked, append_assoc, cons_append]
  exact (facts.within after slot _ place).resolve_left fun busy => busy idle

/-- From a quiet inbox the next drain, left alone, delivers every pending slot. -/
theorem drains [DecidableEq ι] (quiet : c.Quiet) :
    ∃ (c' : InboxConfig ι) (new : List InboxEvent),
      Runs (Program.Step (inboxProgram ι)) (fun _ _ => True) c c' ∧ c'.Quiet ∧
      (∀ slot, c'.shared.pending slot = false) ∧ c'.log = new ++ c.log ∧
      ∀ slot, c.shared.pending slot = true → .delivered slot ∈ new := by
  obtain ⟨s', events, choices, run, clear, delivered⟩ :=
    drain_alone facts.bounded fun slot pending => facts.announced quiet pending
  have idle : c.threads none = DrainPoint.idle := quiet.1
  rw [← idle] at run
  have runs := @Program.alone_runs _ _ _ _ _ _ (inboxProgram ι) c none choices _ _ _ run
  exact ⟨_, events, runs, quiet, clear, rfl, delivered⟩

end InboxFacts
end Quiet

/-- Under every interleaving a marked slot is pending or delivered by a drain that ends after it
was marked. Once nobody is at work, a pending bit means that the inbox is armed and that a
publisher was told to send an interrupt since which no drain has started and ended; and the
next drain delivers every pending slot. -/
theorem no_slot_stranded [DecidableEq ι] {c : InboxConfig ι}
    (run : Runs (Program.Step (inboxProgram ι)) (fun _ _ => True) (inboxStart ι) c) :
    (∀ later slot newly earlier, c.log = later ++ .marked slot newly :: earlier →
      c.shared.pending slot = true ∨ ∃ after between, later = after ++ .delivered slot :: between ∧
        (c.drain = .idle → ∃ consumed, .drainEnded consumed ∈ after)) ∧
    (c.Quiet → ∀ slot, c.shared.pending slot = true → c.shared.armed = true ∧
      ∃ later other earlier, c.log = later ++ .finished other true :: earlier ∧
        ¬∃ after consumed between before,
          later = after ++ .drainEnded consumed :: (between ++ .drainStarted :: before)) ∧
    (c.Quiet → ∃ (c' : InboxConfig ι) (new : List InboxEvent),
      Runs (Program.Step (inboxProgram ι)) (fun _ _ => True) c c' ∧ c'.Quiet ∧
      (∀ slot, c'.shared.pending slot = false) ∧ c'.log = new ++ c.log ∧
      ∀ slot, c.shared.pending slot = true → .delivered slot ∈ new) := by
  have facts : InboxFacts c :=
    run.invariant inboxFacts_start fun facts _ step => inboxFacts_step facts step
  refine ⟨fun _ _ _ _ marked => facts.delivered marked, fun quiet slot pending => ?_, facts.drains⟩
  have armed := facts.quiet_armed quiet pending
  exact ⟨armed, facts.unanswered quiet armed⟩

/-- A slot is published and drained, and then another one is published. -/
theorem no_slot_stranded_drained :
    ∃ c : InboxConfig Unit, c.shared.pending 71 = true ∧ c.shared.armed = true ∧
      c.log = [.finished 71 true, .marked 71 true, .drainEnded 1, .disarmed, .delivered 70,
        .drainStarted, .finished 70 true, .marked 70 true] := by
  have ran : ∃ c, (inboxProgram Unit).run
      (⟨some (), PublisherChoice.publish ⟨70, by decide⟩⟩ ::
        List.replicate 3 ⟨some (), PublisherChoice.step⟩ ++
        ⟨none, DrainChoice.drain⟩ :: List.replicate 6 ⟨none, DrainChoice.step⟩ ++
        ⟨some (), PublisherChoice.publish ⟨71, by decide⟩⟩ ::
        List.replicate 3 ⟨some (), PublisherChoice.step⟩) (inboxStart Unit) = some c ∧
      c.shared.pending 71 = true ∧
      c.log = [.finished 71 true, .marked 71 true, .drainEnded 1, .disarmed, .delivered 70,
        .drainStarted, .finished 70 true, .marked 70 true] ∧
      InboxConfig.Quiet c := ⟨_, rfl, rfl, rfl, rfl, fun _ => rfl⟩
  obtain ⟨c, ran, pending, log, quiet⟩ := ran
  exact ⟨c, pending, ((no_slot_stranded (run_runs ran)).2.1 quiet 71 pending).1, log⟩

end HuesOS.Sched
