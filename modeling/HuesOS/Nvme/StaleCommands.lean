import HuesOS.Nvme.Service

/-! Commands that timed out stay with the device while the transfer buffer is used for the next
transfer. -/

namespace HuesOS.Nvme
open List Service Job
variable {B : Type} {g : Geometry} {s t : Service B}

/-- The step keeps the promises: a write that the device carries out stores the blocks of its
request, and a read answered as successful returns what its blocks hold. -/
structure Keeps (k : Action B) (s t : Service B) : Prop where
  writes : ∀ i c lba data, k = .perform i none → s.outstanding[i]? = some c →
    c.op = .write lba data → ∀ j v, data[j]? = some v → t.medium (lba + j) = v
  reads : ∀ lba count blocks, t.answers = s.answers ++ [(.read lba count, .ok blocks)] →
    blocks = (List.range count).map fun j => t.medium (lba + j)

def Service.FreshId (s : Service B) : Prop := ∀ c ∈ s.performed ++ s.cq, c.cid ≠ s.cid

/-- A transfer starts only when every earlier command has been carried out, and a command is
submitted only under an id that no unread completion carries. -/
structure Settled (k : Action B) (s : Service B) : Prop where
  start : ∀ job, k = .host → s.phase = .looping job → job.next ≠ none →
    s.outstanding = [] ∧ s.FreshId
  retry : ∀ job op cid, k = .host → s.phase = .polling job op .first cid 0 → s.FreshId

def Loaded (op : Op B) (buffer : Nat → B) : Prop :=
  ∀ lba data, op = .write lba data → ∀ j v, data[j]? = some v → buffer j = v

def Fetched (op : Op B) (s : Service B) : Prop :=
  ∀ lba nlb, op = .read lba nlb → ∀ j < nlb, s.buffer j = s.medium (lba + j)

def Job.Sound (job : Job B) (medium : Nat → B) : Prop :=
  ∀ lba count, job.request = .read lba count →
    job.doneBlocks ≤ count ∧ job.blocks = (List.range job.doneBlocks).map fun j => medium (lba + j)

/-- What the service relies on in each phase, when all outstanding commands are for `op`. -/
def PhaseSound (op : Op B) (s : Service B) : Phase B → Prop
  | .idle => True
  | .looping job => job.Sound s.medium ∧ (job.doneBlocks = 0 ∨ ∀ lba count,
      job.request = .read lba count → ∀ lba data, op ≠ .write lba data)
  | .polling job op' _ cid _ => op' = op ∧ job.next = some op ∧ job.Sound s.medium ∧
      ((∃ c ∈ s.performed ++ s.cq, c.cid = cid ∧ c.failed = none) → Fetched op s)
  | .copying job op' => op' = op ∧ job.next = some op ∧ job.Sound s.medium ∧ Fetched op s
  | .resetting job op' => op' = op ∧ job.next = some op ∧ job.Sound s.medium

/-- Outstanding commands belong to one transfer, for which the buffer is loaded. -/
def Sound (s : Service B) : Prop :=
  ∃ op, (∀ c ∈ s.outstanding, c.op = op) ∧ Loaded op s.buffer ∧ PhaseSound op s s.phase

theorem Service.Fresh.sound (fresh : s.Fresh) : Sound s := by
  refine ⟨.flush, ?_, ?_, ?_⟩
  · simp [fresh.outstanding]
  · intro lba data h
    exact nomatch h
  rw [fresh.phase]
  trivial

section Jobs
variable {job : Job B} {op : Op B}
variable {lba : Nat} {medium : Nat → B}

theorem Job.next_of_read {count : Nat} (read : job.request = .read lba count)
    (next : job.next = some op) :
    ∃ nlb, op = .read (lba + job.doneBlocks) nlb ∧ job.doneBlocks + nlb ≤ count := by
  unfold Job.next at next
  rw [read] at next
  dsimp only at next
  split at next
  · cases next
    refine ⟨_, rfl, ?_⟩
    have small := Nat.min_le_right (max (transferChunkBytes / job.blockSize) 1) (count - job.doneBlocks)
    unfold chunkBlocks
    omega
  · exact nomatch next

theorem Job.next_not_write {count : Nat} (read : job.request = .read lba count)
    (next : job.next = some op) (at_ : Nat) (data : List B) : op ≠ .write at_ data := by
  obtain ⟨nlb, rfl, -⟩ := next_of_read read next
  exact fun h => nomatch h

theorem Job.Sound.of_medium {medium' : Nat → B} (sound : job.Sound medium)
    (eq : ∀ lba count, job.request = .read lba count → medium' = medium) :
    job.Sound medium' := by
  intro lba count read
  rw [eq lba count read]
  exact sound lba count read

@[simp] theorem Job.advance_request (job : Job B) (op : Op B) (blocks : List B) :
    (job.advance op blocks).request = job.request := by
  cases op <;> rfl

theorem Job.Sound.advance {buffer : Nat → B} {nlb : Nat} (sound : job.Sound medium)
    (next : job.next = some (.read lba nlb)) (fetched : ∀ j < nlb, buffer j = medium (lba + j)) :
    (job.advance (.read lba nlb) ((List.range nlb).map buffer)).Sound medium := by
  intro start count read
  rw [advance_request] at read
  obtain ⟨nlb', same, inside⟩ := next_of_read read next
  cases same
  obtain ⟨-, blocks⟩ := sound start count read
  refine ⟨inside, ?_⟩
  have copied : (List.range nlb).map buffer =
      (List.range nlb).map fun j => medium (start + (job.doneBlocks + j)) := by
    apply map_congr_left
    intro j mem
    rw [fetched j (mem_range.mp mem), Nat.add_assoc]
  simp only [advance, blocks, copied, range_add, map_append, map_map, Function.comp_def]

theorem Job.Sound.advance_other (next : job.next = some op)
    (other : ∀ lba nlb, op ≠ .read lba nlb) : (job.advance op []).Sound medium := by
  intro lba count read
  rw [advance_request] at read
  obtain ⟨nlb, same, -⟩ := next_of_read read next
  exact absurd same (other _ _)

end Jobs

variable {i lba : Nat} {job : Job B} {r : Request B}

theorem mem_of_eraseIdx {α : Type} {l : List α} {x : α} (h : x ∈ l.eraseIdx i) : x ∈ l :=
  (eraseIdx_sublist l i).subset h

/-- A step of the device that leaves the service's phase: what the phase relies on is kept when the
blocks of a read, the fetched buffer and the new completions are accounted for. -/
theorem PhaseSound.device {op : Op B} (sound : PhaseSound op s s.phase) (phase : t.phase = s.phase)
    (medium : (∀ lba data, op ≠ .write lba data) → t.medium = s.medium)
    (fetched : Fetched op s → Fetched op t)
    (completions : ∀ cid, (∃ c ∈ t.performed ++ t.cq, c.cid = cid ∧ c.failed = none) →
      (∃ c ∈ s.performed ++ s.cq, c.cid = cid ∧ c.failed = none) ∨ Fetched op t) :
    PhaseSound op t t.phase := by
  have jobs : ∀ {job : Job B}, job.next = some op → job.Sound s.medium → job.Sound t.medium :=
    fun next kept => kept.of_medium fun _ _ read => medium (next_not_write read next)
  rw [phase]
  cases current : s.phase with
  | idle => trivial
  | looping job =>
    rw [current] at sound
    obtain ⟨kept, quiet⟩ := sound
    refine ⟨?_, quiet⟩
    rcases quiet with fresh | quiet
    · intro lba count read
      have pre := kept lba count read
      rw [fresh] at pre ⊢
      exact pre
    · exact kept.of_medium fun lba count read => medium (quiet lba count read)
  | polling job op' attempt cid budget =>
    rw [current] at sound
    obtain ⟨eq, next, kept, ready⟩ := sound
    refine ⟨eq, next, jobs next kept, fun posted => ?_⟩
    rcases completions cid posted with pre | now
    · exact fetched (ready pre)
    · exact now
  | copying job op' =>
    rw [current] at sound
    obtain ⟨eq, next, kept, ready⟩ := sound
    exact ⟨eq, next, jobs next kept, fetched ready⟩
  | resetting job op' =>
    rw [current] at sound
    obtain ⟨eq, next, kept⟩ := sound
    exact ⟨eq, next, jobs next kept⟩

theorem Sound.perform_write {c : Command B} {data : List B} (sound : Sound s)
    (found : s.outstanding[i]? = some c) (write : c.op = .write lba data)
    (taken : s.perform i none = some t) (j : Nat) (v : B) (at_ : data[j]? = some v) :
    t.medium (lba + j) = v := by
  obtain ⟨op, same, loaded, -⟩ := sound
  have this : op = .write lba data := (same c (mem_of_getElem? found)).symm.trans write
  have lt : j < data.length := (List.getElem?_eq_some_iff.mp at_).1
  simp only [Service.perform, found, write, Option.some.injEq] at taken
  rw [← taken]
  dsimp only
  rw [if_pos ⟨by omega, by omega⟩, Nat.add_sub_cancel_left]
  exact loaded lba data this j v at_

theorem Sound.perform {failed : Option (Nat × Nat)} (sound : Sound s)
    (taken : s.perform i failed = some t) : Sound t := by
  obtain ⟨op, same, loaded, phase⟩ := sound
  unfold Service.perform at taken
  split at taken
  · exact nomatch taken
  rename_i c found
  have this : c.op = op := same c (mem_of_getElem? found)
  have rest : ∀ c' ∈ s.outstanding.eraseIdx i, c'.op = op := fun c' mem => same c' (mem_of_eraseIdx mem)
  -- A completion counts for the phase only when it reports success.
  have posted : ∀ (t : Service B), t.performed = s.performed ++ [⟨c.cid, failed⟩] → t.cq = s.cq →
      (failed = none → Fetched op t) → ∀ cid,
      (∃ c ∈ t.performed ++ t.cq, c.cid = cid ∧ c.failed = none) →
      (∃ c ∈ s.performed ++ s.cq, c.cid = cid ∧ c.failed = none) ∨ Fetched op t := by
    intro t performed cq now cid ⟨d, mem, id, success⟩
    rw [performed, cq] at mem
    simp only [mem_append, mem_singleton] at mem
    rcases mem with (old | new) | old
    · exact .inl ⟨d, mem_append_left _ old, id, success⟩
    · rw [new] at success
      exact .inr (now success)
    · exact .inl ⟨d, mem_append_right _ old, id, success⟩
  dsimp only at taken
  split at taken
  · -- A read fills the buffer.
    rename_i lba nlb isRead
    cases taken
    have isOp : op = .read lba nlb := this.symm.trans isRead
    have now : ∀ lba' nlb', op = .read lba' nlb' → ∀ j < nlb',
        (if j < nlb then s.medium (lba + j) else s.buffer j) = s.medium (lba' + j) := by
      intro lba' nlb' same' j inside
      rw [isOp] at same'
      cases same'
      rw [if_pos inside]
    refine ⟨op, rest, ?_, phase.device rfl (fun _ => rfl) (fun _ => now) (posted _ rfl rfl ?_)⟩
    · intro lba' data isWrite
      rw [isOp] at isWrite
      exact nomatch isWrite
    · exact fun _ => now
  · -- A write fills the device's blocks.
    rename_i lba data isWrite
    cases taken
    have isOp : op = .write lba data := this.symm.trans isWrite
    have notRead : ∀ {t : Service B}, Fetched op t := by
      intro t lba' nlb' isRead
      rw [isOp] at isRead
      exact nomatch isRead
    refine ⟨op, rest, loaded, phase.device rfl (fun other => absurd isOp (other lba data))
      (fun _ => notRead) (posted _ rfl rfl fun _ => notRead)⟩
  -- A flush, or a failure, moves no data.
  rename_i notRead notWrite
  cases taken
  refine ⟨op, rest, loaded, phase.device rfl (fun _ => rfl) (fun pre => pre)
    (posted _ rfl rfl fun success => ?_)⟩
  intro lba nlb isRead
  exact absurd (this.trans isRead) (notRead lba nlb success)

theorem Sound.post (sound : Sound s) (taken : s.post i = some t) : Sound t := by
  obtain ⟨op, same, loaded, phase⟩ := sound
  unfold Service.post at taken
  split at taken
  · exact nomatch taken
  rename_i c found
  cases taken
  refine ⟨op, same, loaded, phase.device rfl (fun _ => rfl) (fun pre => pre) ?_⟩
  intro cid ⟨d, mem, id, success⟩
  simp only [mem_append, mem_singleton] at mem
  refine .inl ⟨d, ?_, id, success⟩
  rw [mem_append]
  rcases mem with old | old | rfl
  · exact .inl (mem_of_eraseIdx old)
  · exact .inr old
  · exact .inl (mem_of_getElem? found)

def Held (s : Service B) : Prop := ∃ op, (∀ c ∈ s.outstanding, c.op = op) ∧ Loaded op s.buffer

def NoSuccess (s t : Service B) : Prop :=
  t.answers = s.answers ∨ ∃ r a, t.answers = s.answers ++ [(r, a)] ∧ ∀ blocks, a ≠ .ok blocks

theorem Sound.held (sound : Sound s) : Held s := by
  obtain ⟨op, same, loaded, -⟩ := sound
  exact ⟨op, same, loaded⟩

theorem Held.answer {a : Answer B} (held : Held s) : Sound (s.answer job a) := by
  obtain ⟨op, same, loaded⟩ := held
  exact ⟨op, same, loaded, trivial⟩

theorem noSuccess_answer {a : Answer B} (failure : ∀ blocks, a ≠ .ok blocks) :
    NoSuccess s (s.answer job a) := .inr ⟨_, _, rfl, failure⟩

section Transfers
variable {job : Job B} {op : Op B} {attempt : Attempt}

theorem loaded_load (s : Service B) (op : Op B) : Loaded op (s.load op) := by
  intro lba data isWrite j v at_
  rw [isWrite]
  change data.getD j (s.buffer j) = v
  rw [getD_eq_getElem?_getD, at_]
  rfl

/-- A command is submitted over none but commands of its own transfer. -/
theorem sound_submit (held : Held s) (eq : ∀ c ∈ s.outstanding, c.op = op)
    (next : job.next = some op) (kept : job.Sound s.medium) (fresh : s.FreshId) :
    Sound (s.submit g job op attempt) := by
  have sent : Sound (submit.send s job op attempt) := by
    refine ⟨op, ?_, loaded_load s op, rfl, next, kept, ?_⟩
    · intro c mem
      rcases mem_append.mp mem with old | new
      · exact eq c old
      · rw [mem_singleton.mp new]
    intro ⟨c, mem, id, _⟩
    exact absurd id (fresh c mem)
  unfold submit
  split
  · split
    · exact held.answer
    · exact sent
  · exact sent

theorem noSuccess_submit : NoSuccess s (s.submit g job op attempt) := by
  unfold submit
  split
  · split
    · exact noSuccess_answer (by simp)
    · exact .inl rfl
  · exact .inl rfl

theorem sound_controllerOp (held : Held s) (none_left : s.outstanding = [])
    (next : job.next = some op) (kept : job.Sound s.medium) (fresh : s.FreshId) :
    Sound (s.controllerOp g job op) := by
  unfold controllerOp
  dsimp only
  split
  · exact Held.answer held
  refine sound_submit (s := { s with tick := tickAdd s.tick 1 }) held ?_ next kept fresh
  simp [none_left]

theorem noSuccess_controllerOp : NoSuccess s (s.controllerOp g job op) := by
  unfold controllerOp
  dsimp only
  split
  · exact noSuccess_answer (s := { s with tick := tickAdd s.tick 1 }) (by simp)
  · exact noSuccess_submit (s := { s with tick := tickAdd s.tick 1 })

variable {cid budget : Nat}

theorem sound_timedOut (sound : Sound s) (phase : s.phase = .polling job op attempt cid budget)
    (fresh : attempt = .first → s.FreshId) : Sound (s.timedOut g job op attempt) := by
  have held := sound.held
  obtain ⟨op', same, loaded, relied⟩ := sound
  rw [phase] at relied
  obtain ⟨rfl, next, kept, -⟩ := relied
  cases attempt with
  | first => exact sound_submit held same next kept (fresh rfl)
  | retry =>
    unfold timedOut
    dsimp only
    split
    · exact Held.answer held
    · exact ⟨op, same, loaded, rfl, next, kept⟩
  | final => exact held.answer

theorem noSuccess_timedOut : NoSuccess s (s.timedOut g job op attempt) := by
  cases attempt with
  | first => exact noSuccess_submit
  | retry =>
    unfold timedOut
    dsimp only
    split
    · exact .inr ⟨_, _, rfl, by simp⟩
    · exact .inl rfl
  | final => exact noSuccess_answer (by simp)

theorem sound_completed {c : Completion} {rest : List Completion}
    (sound : Sound s) (phase : s.phase = .polling job op attempt cid budget)
    (read : s.cq = c :: rest) (id : c.cid = cid) :
    Sound ({ s with cq := rest }.completed job op c) := by
  have held := sound.held
  obtain ⟨op', same, loaded, relied⟩ := sound
  rw [phase] at relied
  obtain ⟨rfl, next, kept, ready⟩ := relied
  unfold completed
  split
  · exact Held.answer held
  · rename_i lba nlb success
    refine ⟨_, same, loaded, rfl, next, kept, ready ⟨c, ?_, id, success⟩⟩
    rw [read]
    simp
  rename_i success notRead
  refine ⟨_, same, loaded, Job.Sound.advance_other next notRead, .inr ?_⟩
  intro lba count isRead
  rw [advance_request] at isRead
  exact next_not_write isRead next

theorem noSuccess_completed {c : Completion} : NoSuccess s (s.completed job op c) := by
  unfold completed
  split
  · exact noSuccess_answer (by simp)
  · exact .inl rfl
  · exact .inl rfl

theorem sound_pollIo (sound : Sound s) (phase : s.phase = .polling job op attempt cid budget)
    (fresh : attempt = .first → budget = 0 → s.FreshId) :
    Sound (s.pollIo g job op attempt cid budget) := by
  unfold pollIo
  split
  · exact sound_timedOut sound phase fun first => fresh first rfl
  · obtain ⟨op', same, loaded, relied⟩ := sound
    rw [phase] at relied
    exact ⟨op', same, loaded, relied⟩
  rename_i budget c rest read
  split
  · rename_i id
    exact sound_completed sound phase read id
  obtain ⟨op', same, loaded, relied⟩ := sound
  rw [phase] at relied
  obtain ⟨isOp, next, kept, ready⟩ := relied
  refine ⟨op', same, loaded, isOp, next, kept, ?_⟩
  intro ⟨d, mem, id, success⟩
  refine ready ⟨d, ?_, id, success⟩
  rw [read]
  simp only [mem_append, mem_cons] at mem ⊢
  exact mem.imp_right .inr

theorem noSuccess_pollIo : NoSuccess s (s.pollIo g job op attempt cid budget) := by
  unfold pollIo
  split
  · exact noSuccess_timedOut
  · exact .inl rfl
  rename_i c rest read
  split
  · exact noSuccess_completed (s := { s with cq := rest })
  · exact .inl rfl

end Transfers

theorem sound_hostStep (sound : Sound s) (settled : Settled .host s)
    (taken : s.hostStep g = some t) : Sound t := by
  unfold hostStep at taken
  split at taken
  · exact nomatch taken
  · rename_i job phase
    split at taken
    · cases taken
      exact sound.held.answer
    rename_i op next
    cases taken
    obtain ⟨none_left, fresh⟩ := settled.start job rfl phase (by simp [next])
    have held := sound.held
    obtain ⟨op', -, -, relied⟩ := sound
    rw [phase] at relied
    exact sound_controllerOp held none_left next relied.1 fresh
  · rename_i job op attempt cid budget phase
    cases taken
    apply sound_pollIo sound phase
    rintro rfl rfl
    exact settled.retry job op cid rfl phase
  · rename_i job op phase
    obtain ⟨op', same, loaded, relied⟩ := sound
    rw [phase] at relied
    obtain ⟨rfl, next, kept, ready⟩ := relied
    cases op with
    | read lba nlb =>
      cases taken
      refine ⟨_, same, loaded, kept.advance next (ready lba nlb rfl), .inr ?_⟩
      exact fun _ _ _ lba data isWrite => nomatch isWrite
    | write lba data =>
      cases taken
      refine ⟨_, same, loaded, ?_, .inr ?_⟩
      · intro lba count isRead
        rw [advance_request] at isRead
        exact absurd rfl (next_not_write isRead next _ _)
      intro lba count isRead
      rw [advance_request] at isRead
      exact next_not_write isRead next
    | flush => exact nomatch taken
  · exact nomatch taken

/-- Only the end of a request answers success. -/
theorem hostStep_answers (sound : Sound s) (taken : s.hostStep g = some t) : NoSuccess s t ∨
    ∃ job : Job B, t.answers = s.answers ++ [(job.request, .ok job.blocks)] ∧
      job.next = none ∧ job.Sound t.medium := by
  unfold hostStep at taken
  split at taken
  · exact nomatch taken
  · rename_i job phase
    split at taken
    · rename_i next
      cases taken
      obtain ⟨op', -, -, relied⟩ := sound
      rw [phase] at relied
      exact .inr ⟨job, rfl, next, relied.1⟩
    cases taken
    exact .inl noSuccess_controllerOp
  · cases taken
    exact .inl noSuccess_pollIo
  · split at taken
    · cases taken
      exact .inl (.inl rfl)
    · exact nomatch taken
  · exact nomatch taken

theorem sound_accept (sound : Sound s) : Sound (s.accept g r) := by
  have held := sound.held
  have begun : Sound { s with phase := .looping ⟨r, g.lbaSize, 0, []⟩ } := by
    obtain ⟨op, same, loaded⟩ := held
    refine ⟨op, same, loaded, ?_, .inl rfl⟩
    exact fun lba count _ => ⟨Nat.zero_le _, rfl⟩
  unfold accept
  dsimp only
  split
  · exact begun
  split
  · exact held.answer
  split
  · exact held.answer
  · exact begun

theorem noSuccess_accept : NoSuccess s (s.accept g r) := by
  unfold accept
  dsimp only
  split
  · exact .inl rfl
  split
  · exact noSuccess_answer (by simp)
  split
  · exact noSuccess_answer (by simp)
  · exact .inl rfl

section Reset
variable [Inhabited B] {queues : Option Nat}

theorem sound_endReset (sound : Sound s) (taken : s.endReset g queues = some t) : Sound t := by
  obtain ⟨op', -, -, relied⟩ := sound
  unfold Service.endReset at taken
  split at taken
  · rename_i job op phase
    rw [phase] at relied
    obtain ⟨rfl, next, kept⟩ := relied
    have held : ∀ s' : Service B, s'.outstanding = [] → Held s' := by
      intro s' none_left
      refine ⟨.flush, ?_, fun lba data h => nomatch h⟩
      simp [none_left]
    cases queues with
    | some queues =>
      cases taken
      refine sound_submit (held _ rfl) ?_ next ?_ ?_
      · simp
      · exact kept
      · simp [Service.FreshId]
    | none =>
      cases taken
      exact (held _ rfl).answer
  · exact nomatch taken

theorem noSuccess_endReset (taken : s.endReset g queues = some t) : NoSuccess s t := by
  unfold Service.endReset at taken
  split at taken
  · cases queues with
    | some queues =>
      cases taken
      exact noSuccess_submit
    | none =>
      cases taken
      exact .inr ⟨_, _, rfl, by simp⟩
  · exact nomatch taken

end Reset

theorem NoSuccess.not_ok {blocks : List B} (silent : NoSuccess s t)
    (answered : t.answers = s.answers ++ [(r, .ok blocks)]) : False := by
  rcases silent with same | ⟨r', a, same, failure⟩
  · rw [same] at answered
    simpa using congrArg List.length answered
  rw [same] at answered
  have last := append_cancel_left answered
  exact failure blocks (by simpa using congrArg (List.map Prod.snd) last)

theorem Job.Sound.finished {medium : Nat → B} {count : Nat}
    (sound : job.Sound medium) (done : job.next = none) (read : job.request = .read lba count) :
    job.blocks = (List.range count).map fun j => medium (lba + j) := by
  obtain ⟨bound, blocks⟩ := sound lba count read
  unfold Job.next at done
  rw [read] at done
  have all : job.doneBlocks = count := by
    by_contra more
    dsimp only at done
    rw [if_pos (by omega)] at done
    exact nomatch done
  rw [blocks, all]

variable [Inhabited B]

theorem Sound.step {k : Action B} (sound : Sound s) (settled : Settled k s)
    (taken : step g s k = some t) : Sound t := by
  cases k with
  | request r =>
    unfold Nvme.step at taken
    dsimp only at taken
    split at taken
    · cases taken
      exact sound_accept sound
    · exact nomatch taken
  | host => exact sound_hostStep sound settled taken
  | endReset queues => exact sound_endReset sound taken
  | perform i failed => exact sound.perform taken
  | post i => exact sound.post taken

theorem Sound.reads {k : Action B} (sound : Sound s) (taken : Nvme.step g s k = some t)
    {count : Nat} {blocks : List B}
    (answered : t.answers = s.answers ++ [(.read lba count, .ok blocks)]) :
    blocks = (List.range count).map fun j => t.medium (lba + j) := by
  have silent : NoSuccess s t → blocks = (List.range count).map fun j => t.medium (lba + j) :=
    fun silent => (silent.not_ok answered).elim
  cases k with
  | request r =>
    unfold Nvme.step at taken
    dsimp only at taken
    split at taken
    · cases taken
      exact silent noSuccess_accept
    · exact nomatch taken
  | host =>
    rcases hostStep_answers sound taken with quiet | ⟨job, ok, done, kept⟩
    · exact silent quiet
    rw [ok] at answered
    have last := append_cancel_left answered
    simp only [List.cons.injEq, Prod.mk.injEq, Answer.ok.injEq, and_true] at last
    rw [← last.2]
    exact kept.finished done last.1
  | endReset queues => exact silent (noSuccess_endReset taken)
  | perform i failed =>
    refine silent (.inl ?_)
    unfold Nvme.step Service.perform at taken
    dsimp only at taken
    split at taken
    · exact nomatch taken
    · split at taken <;> cases taken <;> rfl
  | post i =>
    refine silent (.inl ?_)
    unfold Nvme.step Service.post at taken
    dsimp only at taken
    split at taken
    · exact nomatch taken
    cases taken
    rfl

def Steps (g : Geometry) (k : Action B) (s t : Service B) : Prop := step g s k = some t

/-- After every run in which no transfer starts over a command of an earlier one, every step keeps
the promises. -/
theorem settled_runs_keep_data {g : Geometry} {s t u : Service B} {k : Action B}
    (fresh : s.Fresh) (run : Runs (Steps g) Settled s t) (taken : Steps g k t u) :
    Keeps k t u := by
  have sound : Sound t := run.invariant fresh.sound fun pre allowed next =>
    pre.step allowed next
  constructor
  · intro i c lba data isPerform found write
    rw [isPerform] at taken
    exact sound.perform_write found write taken
  intro lba count blocks
  exact sound.reads taken

def smallDisk : Geometry := { nsze := 8, lbaSize := 512, mdts := 4096 }

/-- Eight zeroed blocks, the controller just brought up with one queue. -/
def started : Service Nat where
  cid := 5
  buffer _ := 0
  resetState := .online
  tick := 0
  phase := .idle
  answers := []
  medium _ := 0
  outstanding := []
  performed := []
  cq := []

theorem started_fresh : started.Fresh := ⟨rfl, rfl, rfl, rfl, rfl⟩

theorem polls_out {allowed : Action B → Service B → Prop} {op : Op B} {attempt : Attempt} {cid budget : Nat}
    (phase : s.phase = .polling job op attempt cid budget) (empty : s.cq = [])
    (each : ∀ budget, allowed .host { s with phase := .polling job op attempt cid (budget + 1) }) :
    Runs (Steps g) allowed s { s with phase := .polling job op attempt cid 0 } := by
  induction budget generalizing s with
  | zero =>
    rw [← phase]
    exact .start
  | succ budget ih =>
    have polled : Steps g .host s { s with phase := .polling job op attempt cid budget } := by
      unfold Steps step hostStep
      simp only [phase, pollIo, empty]
    have first := each budget
    rw [← phase] at first
    exact (Runs.one first polled).trans
      (ih (s := { s with phase := .polling job op attempt cid budget }) rfl empty each)

/-- A write times out and is tried again; its first command, carried out late, keeps the promises. -/
theorem settled_runs_keep_data_retried : ∃ t u : Service Nat,
    Runs (Steps smallDisk) Settled started t ∧
      t.outstanding = [⟨5, .write 0 [7]⟩, ⟨6, .write 0 [7]⟩] ∧ Steps smallDisk (.perform 0 none) t u ∧
      Keeps (.perform 0 none) t u := by
  have first : Settled (.request (.write 0 [7])) started := by
    constructor <;> intros <;> contradiction
  have second : Settled .host (started.accept smallDisk (.write 0 [7])) := by
    constructor
    · intro job _ _ _
      exact ⟨rfl, by simp [Service.FreshId, accept, smallDisk, started, transferChunkBytes, Request.blockCount]⟩
    intro job op cid _ phase
    exact nomatch phase
  have submitted : Runs (Steps smallDisk) Settled started _ := .next (.next .start first rfl) second rfl
  have spent := submitted.trans (polls_out rfl rfl fun _ => ⟨nofun, nofun⟩)
  have run := Runs.next spent ⟨nofun, fun _ _ _ _ _ => nofun⟩ rfl
  exact ⟨_, _, run, rfl, rfl, settled_runs_keep_data started_fresh run rfl⟩

/-- A write of block 0 times out and its retry succeeds. The first command is still outstanding
when a write of block 1 loads the buffer; carried out then, it stores the data of the second
request in block 0. -/
theorem stale_write_stores_other_data : ∃ t u : Service Nat,
    started.Fresh ∧ Runs (Steps smallDisk) (fun _ _ => True) started t ∧
      t.answers = [(.write 0 [7], .ok [])] ∧
      t.outstanding = [⟨5, .write 0 [7]⟩, ⟨7, .write 1 [9]⟩] ∧
      Steps smallDisk (.perform 0 none) t u ∧ t.medium 0 = 7 ∧ u.medium 0 = 9 ∧
      ¬Keeps (.perform 0 none) t u := by
  have submitted : Runs (Steps smallDisk) (fun _ _ => True) started _ :=
    Runs.of_foldlM (f := step smallDisk) [.request (.write 0 [7]), .host] rfl
  have spent := submitted.trans (polls_out rfl rfl fun _ => trivial)
  have again := spent.trans (Runs.of_foldlM (f := step smallDisk)
    [.host, .perform 1 none, .post 0, .host, .host, .request (.write 1 [9]), .host] rfl)
  refine ⟨_, _, started_fresh, again, rfl, rfl, rfl, rfl, rfl, ?_⟩
  intro keeps
  exact absurd (keeps.writes 0 _ 0 [7] rfl rfl rfl 0 7 rfl) (by decide)

end HuesOS.Nvme
