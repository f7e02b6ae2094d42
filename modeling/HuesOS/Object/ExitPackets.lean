import HuesOS.Object.ExitPorts

namespace HuesOS.Object
open List BinderChoice ProcessLifecycle ExiterChoice Program

namespace ProcessLifecycle
variable {l : ProcessLifecycle}

def alive (l : ProcessLifecycle) : Bool := canTransition l.state .exited

theorem alive_start : l.start.alive = l.alive := by
  unfold start
  split
  next created => simp only [alive, created]; rfl
  · rfl

theorem alive_addWaiter : l.addWaiter.alive = l.alive := by
  unfold addWaiter
  split <;> rfl

theorem alive_reap : l.reap.alive = l.alive := by
  unfold reap
  split
  next exited => simp only [alive, exited.1]; rfl
  · rfl

theorem exit_of_alive (code : Int64) (h : l.alive = true) :
    (l.exit code).1 = true ∧ (l.exit code).2.alive = false := by
  have taken : l.exit code = (true, _) := if_pos h
  rw [taken]
  exact ⟨rfl, rfl⟩

theorem exit_of_not_alive (code : Int64) (h : l.alive = false) : l.exit code = (false, l) :=
  if_neg (by rw [alive] at h; rw [h]; decide)

theorem exitInfo_of_alive (h : l.alive = true) : l.exitInfo = none := by
  apply if_neg
  unfold alive at h
  rintro (exited | reaped)
  · rw [exited] at h
    cases h
  rw [reaped] at h
  cases h

theorem exitInfo_of_not_alive (h : l.alive = false) : ∃ info, l.exitInfo = some info := by
  obtain ⟨code, found⟩ := Option.isSome_iff_exists.mp (l.coded h)
  refine ⟨⟨l.koid, l.generation, code⟩, ?_⟩
  have observable : l.state = .exited ∨ l.state = .reaped := by
    unfold alive at h
    cases state : l.state with
    | created => rw [state] at h; cases h
    | running => rw [state] at h; cases h
    | exited => exact .inl rfl
    | reaped => exact .inr rfl
  rw [exitInfo, if_pos observable, found, Option.map_some]

end ProcessLifecycle

section Counts
variable {b : ExitPortBinding} {log events : List ExitEvent}

def boundIn (b : ExitPortBinding) (log : List ExitEvent) : Nat :=
  log.count (.recorded b) + log.count (.late b)

def receivedIn (b : ExitPortBinding) (log : List ExitEvent) : Nat := log.count (.queued b)

def toldIn (b : ExitPortBinding) (log : List ExitEvent) : Nat :=
  log.count (.queued b) + log.count (.dropped b)

def lostIn (b : ExitPortBinding) : List ExitEvent → Nat
  | [] => 0
  | e :: log => lostIn b log + if e = .recorded b ∧ .snapshot ∈ log then 1 else 0

/-- No binding is recorded after the exit has read the list. -/
def RecordedInTime (log : List ExitEvent) : Prop :=
  ∀ later earlier, log = later ++ .snapshot :: earlier → ∀ b, .recorded b ∉ later

theorem boundIn_append : boundIn b (events ++ log) = boundIn b events + boundIn b log := by
  simp only [boundIn, count_append]
  omega

theorem toldIn_append : toldIn b (events ++ log) = toldIn b events + toldIn b log := by
  simp only [toldIn, count_append]
  omega

theorem lostIn_append (unrecorded : ∀ b, .recorded b ∉ events) : lostIn b (events ++ log) = lostIn b log := by
  induction events with
  | nil => rfl
  | cons e events ih =>
    have rest : ∀ b, .recorded b ∉ events := fun b mem =>
      unrecorded b (.tail e mem)
    have here : e ≠ .recorded b := by
      rintro rfl
      exact unrecorded b mem_cons_self
    rw [cons_append, lostIn, ih rest, if_neg fun both => here both.1, Nat.add_zero]

theorem lostIn_eq_zero : (∀ b, lostIn b log = 0) ↔ RecordedInTime log := by
  induction log with
  | nil =>
    refine ⟨fun _ later earlier split => ?_, fun _ b => rfl⟩
    exact absurd split (by simp)
  | cons e log ih =>
    constructor
    · intro none later earlier split b mem
      have rest : RecordedInTime log := ih.mp fun b => Nat.eq_zero_of_add_eq_zero_right (none b)
      cases later with
      | nil => cases mem
      | cons first later =>
        cases split
        rcases mem_cons.mp mem with eq | mem
        · have one := none b
          rw [lostIn, if_pos ⟨eq.symm, by simp⟩] at one
          omega
        · exact rest later earlier rfl b mem
    intro intime b
    have rest : RecordedInTime log := by
      intro later earlier split b mem
      exact intime (e :: later) earlier (by rw [split]; rfl) b (.tail e mem)
    rw [lostIn, ih.mpr rest b, if_neg]
    rintro ⟨rfl, mem⟩
    obtain ⟨later, earlier, split⟩ := append_of_mem mem
    exact intime (.recorded b :: later) earlier (by rw [split]; rfl) b mem_cons_self

end Counts

/-- How far the exit of the process is, and which thread carries it out. -/
inductive ExitPhase
  | running
  | marked (i : Nat)
  | informed (i : Nat) (info : ExitInfo)
  | walking (i : Nat) (info : ExitInfo) (rest : List ExitPortBinding)
  | done

namespace ExitPhase

def point : ExitPhase → Nat → ExiterPoint
  | .marked i, j => if j = i then .exited else .idle
  | .informed i info, j => if j = i then .informed info else .idle
  | .walking i info rest, j => if j = i then .walking info rest else .idle
  | _, _ => .idle

def pending : ExitPhase → List ExitPortBinding → List ExitPortBinding
  | .walking _ _ rest, _ => rest
  | .done, _ => []
  | _, recorded => recorded

def Taken : ExitPhase → Prop
  | .walking _ _ _ => True
  | .done => True
  | _ => False

variable {phase : ExitPhase} {recorded recorded' : List ExitPortBinding}

theorem eq_of_point {i : Nat} {t : ExiterPoint} (h : phase.point i = t) (busy : t ≠ .idle) :
    t = .exited ∧ phase = .marked i ∨ (∃ info, t = .informed info ∧ phase = .informed i info) ∨
      ∃ info rest, t = .walking info rest ∧ phase = .walking i info rest := by
  subst h
  cases phase with
  | running => exact absurd rfl busy
  | done => exact absurd rfl busy
  | marked j =>
    by_cases eq : i = j
    · subst eq
      exact .inl ⟨if_pos rfl, rfl⟩
    · exact absurd (if_neg eq) busy
  | informed j info =>
    by_cases eq : i = j
    · subst eq
      exact .inr (.inl ⟨info, if_pos rfl, rfl⟩)
    · exact absurd (if_neg eq) busy
  | walking j info rest =>
    by_cases eq : i = j
    · subst eq
      exact .inr (.inr ⟨info, rest, if_pos rfl, rfl⟩)
    · exact absurd (if_neg eq) busy

theorem pending_of_taken (h : phase.Taken) : phase.pending recorded = phase.pending recorded' := by
  cases phase with
  | walking => rfl
  | done => rfl
  | _ => exact absurd h id

theorem pending_of_not_taken (h : ¬phase.Taken) : phase.pending recorded = recorded := by
  cases phase with
  | walking => exact absurd trivial h
  | done => exact absurd trivial h
  | _ => rfl

end ExitPhase

open ExitPhase

/-- Every successful binding has got its packet, or waits for it, or was recorded too late. -/
structure ExitFacts (phase : ExitPhase) (s : ExitShared) (log : List ExitEvent) : Prop where
  alive : s.lifecycle.alive = true ↔ phase = .running
  few : s.exitPorts.length ≤ maxExitPorts
  taken : .snapshot ∈ log ↔ phase.Taken
  counts : ∀ b, boundIn b log = toldIn b log + (phase.pending s.exitPorts).count b + lostIn b log

section Steps
variable {phase : ExitPhase} {s s' : ExitShared} {log events : List ExitEvent} {b : ExitPortBinding}

/-- Nothing that matters changes: the ports, the waiters, and events that count for nothing. -/
theorem ExitFacts.same (h : ExitFacts phase s log) (alive : s'.lifecycle.alive = s.lifecycle.alive)
    (ports : s'.exitPorts = s.exitPorts) (unrecorded : ∀ b, .recorded b ∉ events)
    (snapshot : .snapshot ∉ events) (even : ∀ b, boundIn b events = toldIn b events) :
    ExitFacts phase s' (events ++ log) where
  alive := by rw [alive, h.alive]
  few := by rw [ports]; exact h.few
  taken := by rw [mem_append, or_iff_right snapshot, h.taken]
  counts := by
    intro b
    have pre := h.counts b
    rw [boundIn_append, toldIn_append, lostIn_append unrecorded, ports, even b]
    omega

theorem deliver_shared (b : ExitPortBinding) (info : ExitInfo) (s : ExitShared) :
    (s.deliver b info).2.lifecycle = s.lifecycle ∧ (s.deliver b info).2.exitPorts = s.exitPorts :=
  ⟨rfl, rfl⟩

theorem deliver_event (b : ExitPortBinding) (info : ExitInfo) (s : ExitShared) :
    (s.deliver b info).1 = .queued b ∨ (s.deliver b info).1 = .dropped b := by
  unfold ExitShared.deliver
  dsimp only
  split
  · exact .inl rfl
  · exact .inr rfl

namespace ExitFacts
variable (h : ExitFacts phase s log)
include h

/-- A recorded binding waits for its packet, or comes too late. -/
theorem record (room : s.exitPorts.length < maxExitPorts)
    (b : ExitPortBinding) :
    ExitFacts phase { s with exitPorts := s.exitPorts ++ [b] } ([.recorded b] ++ log) := by
  refine ⟨h.alive, ?_, by simp [h.taken], fun other => ?_⟩
  · rw [length_append, length_singleton]
    exact room
  have pre := h.counts other
  have bound : boundIn other ([.recorded b] ++ log) = boundIn other log + if b = other then 1 else 0 := by
    by_cases same : b = other
    · simp only [boundIn, same, singleton_append, count_cons_self, if_true]
      rw [count_cons_of_ne (by simp)]
      omega
    · simp [boundIn, same]
  have told : toldIn other ([.recorded b] ++ log) = toldIn other log := by simp [toldIn]
  have waiting : (s.exitPorts ++ [b]).count other = s.exitPorts.count other + if b = other then 1 else 0 := by
    rw [count_append, count_singleton]
    simp
  rw [bound, told, singleton_append, lostIn]
  by_cases taken : phase.Taken
  · have late : .snapshot ∈ log := h.taken.mpr taken
    have same : phase.pending (s.exitPorts ++ [b]) = phase.pending s.exitPorts := pending_of_taken taken
    simp only [late, and_true, ExitEvent.recorded.injEq, same]
    omega
  have early : .snapshot ∉ log := fun mem => taken (h.taken.mp mem)
  rw [pending_of_not_taken taken] at pre
  simp only [early, and_false, if_false, pending_of_not_taken taken]
  omega

theorem binderStep {k : BinderChoice} {t t' : BinderPoint}
    (step : binderStep k t s = some (t', s', events)) : ExitFacts phase s' (events ++ log) := by
  unfold Object.binderStep at step
  split at step
  · split at step
    · cases step
      exact h.same rfl rfl nofun nofun fun _ => rfl
    cases step
    exact h.same rfl rfl nofun nofun fun _ => rfl
  next b info =>
    cases step
    rcases deliver_event b info s with event | event
    · rw [event]
      refine h.same rfl rfl (by simp) (by simp) fun other => ?_
      by_cases eq : b = other <;> simp [boundIn, toldIn, eq]
    rw [event]
    refine h.same rfl rfl (by simp) (by simp) fun other => ?_
    by_cases eq : b = other <;> simp [boundIn, toldIn, eq]
  next memory registered b =>
    split_ifs at step with full memory registered
    · cases step
      exact h.same rfl rfl (by simp) (by simp) fun _ => rfl
    · cases step
      exact h.same rfl rfl (by simp) (by simp) fun _ => rfl
    · cases step
      exact h.same rfl rfl (by simp) (by simp) fun _ => rfl
    cases step
    exact h.record (Nat.lt_of_not_le full) b
  · cases step

theorem dead (started : phase ≠ .running) : s.lifecycle.alive = false := by
  rw [← Bool.not_eq_true, h.alive]
  exact started

theorem next {phase' : ExitPhase}
    (alive : s'.lifecycle.alive = true ↔ phase' = .running) (ports : s'.exitPorts = s.exitPorts)
    (early : ¬phase.Taken) (early' : ¬phase'.Taken) : ExitFacts phase' s' log where
  alive := alive
  few := by rw [ports]; exact h.few
  taken := by rw [h.taken, iff_false_intro early, iff_false_intro early']
  counts := by
    intro b
    have pre := h.counts b
    rw [pending_of_not_taken early] at pre
    rw [pending_of_not_taken early', ports, pre]

end ExitFacts

variable {i : Nat} {info : ExitInfo}

theorem ExitFacts.snapshot (h : ExitFacts (.informed i info) s log) :
    ExitFacts (.walking i info (s.exitPorts.take maxExitPorts)) s ([.snapshot] ++ log) where
  alive := by simp [h.dead nofun]
  few := h.few
  taken := by simp [ExitPhase.Taken]
  counts := by
    intro b
    have pre := h.counts b
    have nothing : boundIn b [.snapshot] = 0 ∧ toldIn b [.snapshot] = 0 := ⟨rfl, rfl⟩
    rw [pending_of_not_taken id] at pre
    rw [boundIn_append, toldIn_append, lostIn_append (by simp), nothing.1, nothing.2,
      pending, take_of_length_le h.few]
    omega

theorem ExitFacts.deliver {rest : List ExitPortBinding}
    (h : ExitFacts (.walking i info (b :: rest)) s log) :
    ExitFacts (.walking i info rest) (s.deliver b info).2 ([(s.deliver b info).1] ++ log) := by
  have dead := h.dead nofun
  have told : ∀ other, toldIn other [(s.deliver b info).1] = [b].count other := by
    intro other
    rcases deliver_event b info s with event | event
    · rw [event]
      by_cases eq : b = other <;> simp [toldIn, eq]
    rw [event]
    by_cases eq : b = other <;> simp [toldIn, eq]
  have unbound : ∀ other, boundIn other [(s.deliver b info).1] = 0 := by
    intro other
    rcases deliver_event b info s with event | event <;> simp [event, boundIn]
  have quiet : .snapshot ∉ [(s.deliver b info).1] ∧ ∀ b', .recorded b' ∉ [(s.deliver b info).1] := by
    rcases deliver_event b info s with event | event <;> simp [event]
  refine ⟨by simp [deliver_shared, dead], h.few, ?_, fun other => ?_⟩
  · rw [mem_append, or_iff_right quiet.1, h.taken]
    rfl
  have pre := h.counts other
  rw [pending, ← singleton_append, count_append] at pre
  rw [boundIn_append, toldIn_append, lostIn_append quiet.2, told, unbound, pending]
  omega

theorem ExitFacts.finish (h : ExitFacts (.walking i info []) s log) :
    ExitFacts .done s ([.exitReturned true] ++ log) := by
  have facts : ExitFacts (.walking i info []) s ([.exitReturned true] ++ log) :=
    h.same rfl rfl (by simp) (by simp) fun _ => rfl
  exact ⟨by simp [h.dead nofun], facts.few, facts.taken, facts.counts⟩

theorem ExitFacts.exiterStep {k : ExiterChoice} {t' : ExiterPoint}
    (h : ExitFacts phase s log) (step : exiterStep k (phase.point i) s = some (t', s', events)) :
    ∃ phase', ExitFacts phase' s' (events ++ log) ∧ phase'.point i = t' ∧
      ∀ j, j ≠ i → phase'.point j = phase.point j := by
  cases at_ : phase.point i with
  | idle =>
    rw [at_] at step
    cases k with
    | step => cases step
    | setExitCode code =>
      rw [Object.exiterStep] at step
      cases alive : s.lifecycle.alive with
      | true =>
        obtain rfl : phase = .running := h.alive.mp alive
        have exit := s.lifecycle.exit_of_alive code alive
        generalize s.lifecycle.exit code = res at step exit
        obtain ⟨exited, l⟩ := res
        obtain ⟨rfl, dead⟩ := exit
        cases step
        refine ⟨.marked i, h.next ?_ rfl id id, if_pos rfl, fun j other => if_neg other⟩
        rw [alive_reap, dead]
        simp
      | false =>
        rw [exit_of_not_alive code alive] at step
        cases step
        exact ⟨phase, h.same rfl rfl (by simp) (by simp) fun _ => rfl, at_, fun _ _ => rfl⟩
  | exited =>
    obtain ⟨-, rfl⟩ | ⟨_, same, -⟩ | ⟨_, _, same, -⟩ := eq_of_point at_ nofun
    · rw [at_] at step
      cases k with
      | setExitCode code => cases step
      | step =>
        obtain ⟨info, found⟩ := exitInfo_of_not_alive (h.dead nofun)
        rw [Object.exiterStep, found] at step
        cases step
        refine ⟨.informed i info, h.next ?_ rfl id id, if_pos rfl, fun j other => ?_⟩
        · simp [h.dead nofun]
        · exact (if_neg other).trans (if_neg other).symm
    · cases same
    · cases same
  | informed info =>
    obtain ⟨same, -⟩ | ⟨_, same, rfl⟩ | ⟨_, _, same, -⟩ := eq_of_point at_ nofun
    · cases same
    · cases same
      rw [at_] at step
      cases k with
      | setExitCode code => cases step
      | step =>
        cases step
        exact ⟨_, h.snapshot, if_pos rfl, fun j other => (if_neg other).trans (if_neg other).symm⟩
    · cases same
  | walking info rest =>
    obtain ⟨same, -⟩ | ⟨_, same, -⟩ | ⟨_, _, same, rfl⟩ := eq_of_point at_ nofun
    · cases same
    · cases same
    cases same
    rw [at_] at step
    cases k with
    | setExitCode code => cases step
    | step =>
      cases rest with
      | nil =>
        cases step
        exact ⟨_, h.finish, rfl, fun j other => (if_neg other).symm⟩
      | cons b rest =>
        cases step
        exact ⟨_, h.deliver, if_pos rfl, fun j other => (if_neg other).trans (if_neg other).symm⟩

theorem ExitFacts.otherStep {k : OtherChoice} {t t' : OtherPoint} (h : ExitFacts phase s log)
    (step : otherStep k t s = some (t', s', events)) : ExitFacts phase s' (events ++ log) := by
  unfold Object.otherStep at step
  split at step
  · cases step
    exact h.same alive_start rfl nofun nofun fun _ => rfl
  · cases step
    exact h.same alive_addWaiter rfl nofun nofun fun _ => rfl
  · cases step
    exact h.same alive_reap rfl nofun nofun fun _ => rfl
  · cases step
    exact h.same rfl rfl nofun nofun fun _ => rfl
  · split at step
    · cases step
      exact h.same rfl rfl nofun nofun fun _ => rfl
    cases step
    exact h.same rfl rfl nofun nofun fun _ => rfl
  · cases step
    exact h.same rfl rfl nofun nofun fun _ => rfl
  · cases step

end Steps

def InPhase (c : Config ExitShared ExitPoint ExitEvent) : Prop :=
  ∃ phase : ExitPhase, ExitFacts phase c.shared c.log ∧ ∀ j, c.threads (.exiter j) = phase.point j

theorem exitStart_inPhase (koid gen : UInt64) (ports : Koid → Port) : InPhase (exitStart koid gen ports) := by
  refine ⟨.running, ⟨?_, Nat.zero_le _, ?_, fun b => rfl⟩, fun j => rfl⟩
  · simp [exitStart, alive, new, canTransition]
  · simp [exitStart, ExitPhase.Taken]

theorem exitStep_inPhase {act : Σ i, ExitChoice i} {c c' : Config ExitShared ExitPoint ExitEvent}
    (h : InPhase c) (step : Program.Step exitProgram act c c') : InPhase c' := by
  obtain ⟨phase, facts, exiters⟩ := h
  obtain ⟨thread, k⟩ := act
  obtain ⟨events, taken, still, log⟩ := step.inversion
  unfold InPhase
  rw [log]
  cases thread with
  | binder i =>
    exact ⟨phase, facts.binderStep taken, fun j => (still (.exiter j) nofun).trans (exiters j)⟩
  | other i =>
    exact ⟨phase, facts.otherStep taken, fun j => (still (.exiter j) nofun).trans (exiters j)⟩
  | exiter i =>
    have taken' : exiterStep k (phase.point i) c.shared = some _ := exiters i ▸ taken
    obtain ⟨phase', facts', here, others⟩ := facts.exiterStep taken'
    refine ⟨phase', facts', fun j => ?_⟩
    by_cases eq : j = i
    · rw [eq, here]
    have stays := still (.exiter j) (by simpa using eq)
    exact stays.trans ((exiters j).trans (others j eq).symm)

/-- Once the exit has returned and no port was full, the packets match the successful bindings
exactly when no binding was recorded after the exit had read the list. -/
theorem exit_packets_iff (koid generation : UInt64) (ports : Koid → Port)
    (c : Config ExitShared ExitPoint ExitEvent)
    (run : Runs (Program.Step exitProgram) (fun _ _ => True) (exitStart koid generation ports) c)
    (exited : c.shared.lifecycle.exitInfo ≠ none)
    (returned : ∀ i, c.threads (.exiter i) = ExiterPoint.idle) (room : ∀ b, .dropped b ∉ c.log) :
    (∀ b, receivedIn b c.log = boundIn b c.log) ↔ RecordedInTime c.log := by
  obtain ⟨phase, facts, exiters⟩ :=
    run.invariant (exitStart_inPhase koid generation ports) fun h _ step => exitStep_inPhase h step
  have over_ : phase = .done := by
    cases phase with
    | running => exact absurd (exitInfo_of_alive (facts.alive.mpr rfl)) exited
    | done => rfl
    | marked i =>
      have busy := (exiters i).symm.trans (returned i)
      simp [point] at busy
    | informed i info =>
      have busy := (exiters i).symm.trans (returned i)
      simp [point] at busy
    | walking i info rest =>
      have busy := (exiters i).symm.trans (returned i)
      simp [point] at busy
  subst over_
  rw [← lostIn_eq_zero]
  refine forall_congr' fun b => ?_
  have counts := facts.counts b
  have undropped : c.log.count (.dropped b) = 0 := count_eq_zero.mpr (room b)
  simp only [pending, count_nil, toldIn, undropped] at counts
  unfold receivedIn
  omega

/-- A port is bound while the process runs, and then the process exits. -/
def bindThenExit : List (Σ i, ExitChoice i) :=
  [⟨.binder 0, bindExitPort ⟨1, 7⟩⟩, ⟨.binder 0, record true true⟩,
    ⟨.exiter 0, setExitCode 0⟩, ⟨.exiter 0, step⟩,
    ⟨.exiter 0, step⟩, ⟨.exiter 0, step⟩, ⟨.exiter 0, step⟩]

theorem exit_packets_of_bindThenExit :
    ∃ c, run exitProgram bindThenExit (exitStart 1 1 fun _ => .new 256) = some c ∧
      boundIn ⟨1, 7⟩ c.log = 1 ∧
      ((∀ b, receivedIn b c.log = boundIn b c.log) ↔ RecordedInTime c.log) := by
  have run : run exitProgram bindThenExit (exitStart 1 1 fun _ => .new 256) = some _ := rfl
  refine ⟨_, run, by decide, exit_packets_iff 1 1 (fun _ => .new 256) _ (run_runs run)
    nofun (fun i => ?_) (fun b => ?_)⟩
  · rcases i with _ | i <;> rfl
  change _ ∉ [ExitEvent.exitReturned true, .queued ⟨1, 7⟩, .snapshot, .recorded ⟨1, 7⟩]
  simp

/-- The exit reads the list between the two sections of a binding call. -/
def missedBinding : List (Σ i, ExitChoice i) :=
  [⟨.binder 0, bindExitPort ⟨1, 7⟩⟩, ⟨.exiter 0, setExitCode 0⟩,
    ⟨.exiter 0, step⟩, ⟨.exiter 0, step⟩, ⟨.exiter 0, step⟩,
    ⟨.binder 0, record true true⟩]

theorem bound_without_packet :
    ∃ c, run exitProgram missedBinding (exitStart 1 1 fun _ => .new 256) = some c ∧
      c.threads (.exiter 0) = ExiterPoint.idle ∧ c.threads (.binder 0) = BinderPoint.idle ∧
      boundIn ⟨1, 7⟩ c.log = 1 ∧ receivedIn ⟨1, 7⟩ c.log = 0 := by
  exact ⟨_, rfl, rfl, rfl, by decide, by decide⟩

/-- In every interleaving each binding is told of the exit at most once, also if the process is
told to exit by several threads, and at most eight bindings are kept. -/
theorem exit_told_at_most_once (koid generation : UInt64) (ports : Koid → Port)
    (c : Config ExitShared ExitPoint ExitEvent)
    (run : Runs (Program.Step exitProgram) (fun _ _ => True) (exitStart koid generation ports) c) :
    c.shared.exitPorts.length ≤ maxExitPorts ∧ ∀ b, receivedIn b c.log ≤ boundIn b c.log := by
  obtain ⟨phase, facts, -⟩ :=
    run.invariant (exitStart_inPhase koid generation ports) fun h _ step => exitStep_inPhase h step
  refine ⟨facts.few, fun b => ?_⟩
  have counts := facts.counts b
  unfold toldIn at counts
  unfold receivedIn
  omega

theorem exit_told_once_of_bindThenExit :
    ∃ c, run exitProgram bindThenExit (exitStart 1 1 fun _ => .new 256) = some c ∧
      receivedIn ⟨1, 7⟩ c.log ≤ boundIn ⟨1, 7⟩ c.log := by
  have run : run exitProgram bindThenExit (exitStart 1 1 fun _ => .new 256) = some _ := rfl
  exact ⟨_, run, (exit_told_at_most_once 1 1 (fun _ => .new 256) _ (run_runs run)).2 _⟩

end HuesOS.Object
