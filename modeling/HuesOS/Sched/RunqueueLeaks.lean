import Mathlib.Data.Fintype.Basic
import HuesOS.Sched.RunqueueGuards

/-! When the token comes back. -/

namespace HuesOS.Sched
open Finset Program
variable {cpu : Fin kernelCpus} {i j : Requester cpu} {s s' : TokenWords cpu}
  {c c' : TokenConfig cpu}

/-- The owner is between its look at a pending request and the end of its answer. -/
def OwnerStage.Granting : OwnerStage → Prop
  | .idle | .loadState | .ticking => False
  | _ => True

structure TokenQuiet (c : TokenConfig cpu) : Prop where
  mailbox : c.shared.mailbox = .empty
  requesters : ∀ i, requesterAt c i = .idle
  owner : ¬ (ownerAt c).Granting

/-- The token is not leaked: once everything is quiet, it is free. -/
def TokenReturned (c : TokenConfig cpu) : Prop := TokenQuiet c → c.shared.token = runqueueTokenFree

/-- A requester that gives its grant up does not find the token in another's name. -/
def GivesOwn : (Σ t, TokenChoice cpu t) → TokenConfig cpu → Prop
  | ⟨some i, .step⟩, c => ∀ id, requesterAt c i = .cancelToken id →
      c.shared.token = i.1 ∨ c.shared.token = runqueueTokenFree
  | _, _ => True

/-- The counter does not wrap, and grants that are given up carry the right name. -/
def Careful (act : Σ t, TokenChoice cpu t) (c : TokenConfig cpu) : Prop :=
  FreshNumber act c ∧ GivesOwn act c

theorem requester_step {i : Requester cpu} {k : RequesterChoice}
    (step : Program.Step (tokenProgram cpu) ⟨some i, k⟩ c c') :
    ∃ events, requesterStep i k (requesterAt c i) c.shared =
        some (requesterAt c' i, c'.shared, events) ∧
      (∀ j, j ≠ i → requesterAt c' j = requesterAt c j) ∧ ownerAt c' = ownerAt c := by
  obtain ⟨events, moved, others, -⟩ := step.inversion
  exact ⟨events, moved, fun j ne => others (some j) fun equal =>
    ne (Option.some.inj equal), others none nofun⟩

theorem requesterStep_abandoned {k : RequesterChoice} {r r' : RequesterPoint} {log : List Empty}
    (step : requesterStep i k r s = some (r', s', log)) :
    s'.abandoned = s.abandoned ∨ k = .step ∧ (∃ id, r = .cancelToken id) ∧
      s.token ≠ i.1 ∧ s'.abandoned = (s.abandoned || decide (s.token ≠ runqueueTokenFree)) := by
  fun_cases requesterStep i k r s with
  | _ => grind [requesterStep, TokenWords.numbered, TokenWords.counted]

theorem tokenOwnerStep_abandoned {k : OwnerMove} {r r' : OwnerStage} {log : List Empty}
    (step : tokenOwnerStep k r s = some (r', s', log)) : s'.abandoned = s.abandoned := by
  fun_cases tokenOwnerStep k r s with
  | _ => grind [tokenOwnerStep, TokenWords.counted]

theorem careful_step {act : Σ t, TokenChoice cpu t} (kept : c.shared.abandoned = false)
    (careful : Careful act c) (step : Program.Step (tokenProgram cpu) act c c') :
    c'.shared.abandoned = false := by
  obtain ⟨t, k⟩ := act
  cases t with
  | none =>
    obtain ⟨events, taken, -, -⟩ := step.inversion
    exact (tokenOwnerStep_abandoned taken).trans kept
  | some i =>
    obtain ⟨events, taken, -, -⟩ := requester_step step
    rcases requesterStep_abandoned taken with eq | ⟨rfl, ⟨id, point⟩, other, res⟩
    · exact eq.trans kept
    have free := (careful.2 id point).resolve_left other
    rw [res, kept, free]
    rfl

theorem careful_run (run : Runs (Program.Step (tokenProgram cpu)) Careful (tokenStart cpu) c) :
    c.shared.abandoned = false :=
  Runs.invariant (P := fun c => c.shared.abandoned = false) rfl careful_step run

theorem tokenReturned_of_kept (owner : TokenOwnerFacts c.shared (ownerAt c))
    (kept : c.shared.abandoned = false) : TokenReturned c := by
  rintro ⟨mailbox, -, calm⟩
  by_contra taken
  have backed : c.shared.mailbox.isGranted = true := by
    cases stage : ownerAt c <;> simp only [stage] at owner calm
    case idle | loadState | ticking => exact owner.2 taken kept
    all_goals exact absurd trivial calm
  rw [mailbox] at backed
  cases backed

/-- The requester gets from one point to another by careful steps that change no word. -/
def Passes (i : Requester cpu) (s : TokenWords cpu) (r r' : RequesterPoint) : Prop :=
  Program.Retires (tokenProgram cpu) Careful s (some i) r r'

theorem Passes.step {r r₁ r₂ : RequesterPoint} (later : Passes i s r₁ r₂)
    (point : ∀ id, r ≠ .cancelToken id)
    (taken : requesterStep i .step r s = some (r₁, s, [])) : Passes i s r r₂ :=
  Program.Retires.step (k := RequesterChoice.step) taken
    (fun _ _ here => ⟨fun numbers => numbers.elim, fun id there => absurd (here.symm.trans there)
      (point id)⟩) later

section GivingUp
variable {id : Nat} (elsewhere : s.requestId ≠ id)
include elsewhere

theorem cancelLoad_leaves : Passes i s (.cancelLoad id) .idle :=
  Passes.step .refl nofun (by simp [requesterStep, elsewhere])

/-- A requester whose number is not in the mailbox waits in vain. -/
theorem polling_leaves (left : Nat) : Passes i s (.polling id left) .idle := by
  induction left with
  | zero => exact (cancelLoad_leaves elsewhere).step nofun rfl
  | succ left ih => exact ih.step nofun (by simp [requesterStep, elsewhere])

theorem claiming_leaves (occupied : s.mailbox ≠ .empty) (left : Nat) :
    Passes i s (.claiming id left) .idle := by
  induction left with
  | zero => exact (polling_leaves elsewhere _).step nofun rfl
  | succ left ih => exact ih.step nofun (by simp [requesterStep, occupied])

end GivingUp

/-- While the mailbox holds the grant of one requester, every other one can leave. -/
theorem RequesterFacts.leaves {r : RequesterPoint} (facts : RequesterFacts j s r)
    (granted : s.mailbox = .granted i) (other : j ≠ i) : Passes j s r .idle := by
  have notFilling : s.mailbox ≠ .filling j := by rw [granted]; nofun
  have notWaiting : ¬ (s.mailbox = .pending j ∨ s.Live j) := by
    rintro (pending | ⟨own, -⟩)
    · rw [granted] at pending
      cases pending
    · exact other (Mailbox.granted.inj (own.symm.trans granted))
  have staked := facts.staked
  cases r with
  | idle => exact .refl
  | claiming id left => exact claiming_leaves staked.2.1 (by rw [granted]; nofun) left
  | polling id left =>
    rcases staked.2 with ⟨elsewhere, -⟩ | ⟨-, waits⟩
    · exact polling_leaves elsewhere left
    · exact absurd waits notWaiting
  | cancelLoad id =>
    rcases staked.2 with ⟨elsewhere, -⟩ | ⟨-, waits⟩
    · exact cancelLoad_leaves elsewhere
    · exact absurd waits notWaiting
  | storeRequester id | storeId id | storePending id => exact absurd staked.2.2 notFilling
  | checking id left | cancelPending id => exact absurd staked.2.2 notWaiting
  | guarding id | changing id | cancelReload id | cancelState id | cancelToken id =>
    exact absurd (.inr staked.2.2) notWaiting
  | dropLoad id | dropStore id | cancelGranted id =>
    exact absurd (Mailbox.granted.inj (staked.2.2.1.symm.trans granted)) other

/-- A grant given up under another's name abandons the token. -/
theorem abandons_of_not_givesOwn {act : Σ t, TokenChoice cpu t} (wrong : ¬ GivesOwn act c)
    (step : Program.Step (tokenProgram cpu) act c c') :
    ∃ i id, c'.shared.abandoned = true ∧ requesterAt c' i = .cancelGranted id := by
  obtain ⟨t, k⟩ := act
  cases t with
  | none => exact absurd trivial wrong
  | some i =>
    cases k with
    | step =>
      simp only [GivesOwn] at wrong
      push Not at wrong
      obtain ⟨id, point, other, taken⟩ := wrong
      obtain ⟨events, moved, -, -⟩ := requester_step step
      simp only [point, requesterStep, if_neg other, Option.some.injEq, Prod.mk.injEq] at moved
      obtain ⟨here, words, -⟩ := moved
      refine ⟨i, id, ?_, here.symm⟩
      rw [← words]
      simp [taken]
    | _ => exact absurd trivial wrong

/-- After a grant was given up with the token in another's name, everything can become quiet
with the token still taken. -/
theorem abandoned_leaks {id : Nat} (words : WordFacts c.shared)
    (owner : TokenOwnerFacts c.shared (ownerAt c))
    (requesters : ∀ i, RequesterFacts i c.shared (requesterAt c i))
    (lost : c.shared.abandoned = true) (point : requesterAt c i = .cancelGranted id) :
    ∃ d, Runs (Program.Step (tokenProgram cpu)) Careful c d ∧ ¬ TokenReturned d := by
  have granted : c.shared.mailbox = .granted i := by
    have facts := (requesters i).staked
    rw [point] at facts
    exact facts.2.2.1
  have calm : ¬ (ownerAt c).Granting := by
    intro granting
    cases stage : ownerAt c <;> rw [stage] at owner granting
    case idle | loadState | ticking => exact granting
    case clearMailbox => exact owner
    all_goals
      have closed := owner.2.1
      rw [granted] at closed
      cases closed
  -- the others leave while the mailbox is still occupied
  obtain ⟨d, left, shared, gone, kept⟩ := Program.Retires.all (tokenStart cpu).threads
    ((Finset.univ.erase i).toList.map some) (fun t mem => by
      obtain ⟨j, other, rfl⟩ := List.mem_map.mp mem
      rw [mem_toList, mem_erase] at other
      exact (requesters j).leaves granted other.1)
  have still : requesterAt d i = .cancelGranted id := by
    refine (kept (some i) fun mem => ?_).trans point
    obtain ⟨j, other, eq⟩ := List.mem_map.mp mem
    rw [mem_toList, mem_erase] at other
    exact other.1 (Option.some.inj eq)
  have closes : requesterStep i .step (requesterAt d i) d.shared =
      some (.idle, { c.shared with mailbox := .empty }, []) := by
    rw [still, shared]
    simp [requesterStep, granted]
  have careful : Careful ⟨some i, RequesterChoice.step⟩ d :=
    ⟨fun numbers => numbers.elim, fun id there => by rw [still] at there; cases there⟩
  obtain ⟨e, step⟩ : ∃ e, Program.Step (tokenProgram cpu) ⟨some i, RequesterChoice.step⟩ d e :=
    ⟨_, _, _, _, closes, rfl⟩
  obtain ⟨events, moved, others, owner'⟩ := requester_step step
  simp only [closes, Option.some.injEq, Prod.mk.injEq] at moved
  obtain ⟨here, after, -⟩ := moved
  refine ⟨e, left.next careful step, fun returned => words.abandoned lost ?_⟩
  have free := returned ⟨?_, fun j => ?_, ?_⟩
  · rw [← after] at free
    exact free
  · rw [← after]
  · by_cases eq : j = i
    · rw [eq, here]
    refine (others j eq).trans (gone (some j) (List.mem_map_of_mem ?_))
    rw [mem_toList, mem_erase]
    exact ⟨eq, mem_univ j⟩
  · rwa [owner', show ownerAt d = ownerAt c from kept none (by simp)]

/-- The token comes back along every run whose grants are given up only under their own name,
while the request numbers do not repeat. A step that gives a grant up under another's name can
always be followed by such a run to a quiet state in which the token is taken. -/
theorem token_returned_iff
    (run : Runs (Program.Step (tokenProgram cpu)) Careful (tokenStart cpu) c) :
    TokenReturned c ∧
      ∀ act c', FreshNumber act c → Program.Step (tokenProgram cpu) act c c' →
        (GivesOwn act c ↔ ∀ d, Runs (Program.Step (tokenProgram cpu)) Careful c' d → TokenReturned d) := by
  have returned : ∀ {d}, Runs (Program.Step (tokenProgram cpu)) Careful (tokenStart cpu) d →
      TokenReturned d := fun reached =>
    tokenReturned_of_kept (token_facts (reached.mono fun _ _ careful => careful.1)).2.1 (careful_run reached)
  refine ⟨returned run, fun act c' fresh step => ⟨fun gives d later => ?_, fun always => ?_⟩⟩
  · exact returned ((run.next ⟨fresh, gives⟩ step).trans later)
  by_contra wrong
  obtain ⟨words, owner, requesters⟩ :=
    token_facts ((run.mono fun _ _ careful => careful.1).next fresh step)
  obtain ⟨i, id, lost, point⟩ := abandons_of_not_givesOwn wrong step
  obtain ⟨d, later, leaked⟩ := abandoned_leaks words owner requesters lost point
  exact leaked (always d later)

def thirdCpu : Requester bootCpu := ⟨⟨2, by decide⟩, by decide⟩

def requesterSteps (i : Requester bootCpu) (n : Nat) : List (Σ t, TokenChoice bootCpu t) :=
  List.replicate n ⟨some i, RequesterChoice.step⟩

theorem polling_times_out {id : Nat} (waiting : s.mailbox.isGranted = false) (left : Nat) :
    Passes i s (.polling id left) (.cancelLoad id) := by
  induction left with
  | zero => exact Passes.step .refl (by simp) rfl
  | succ left ih =>
    by_cases eq : s.requestId = id
    · have polls := ih.step (r := .checking id left) (by simp) (by simp [requesterStep, waiting])
      exact polls.step (by simp) (by simp [requesterStep, eq])
    · exact ih.step (by simp) (by simp [requesterStep, eq])

theorem times_out_fresh {id left : Nat} (point : requesterAt c i = .polling id left)
    (waiting : c.shared.mailbox.isGranted = false) :
    Runs (Program.Step (tokenProgram cpu)) FreshNumber c
      { c with threads := Function.update c.threads (some i) (RequesterPoint.cancelLoad id) } :=
  (polling_times_out waiting left c rfl point).mono fun _ _ careful => careful.1

/-- The second processor asks, the owner takes the token in its name, the second processor gives
up, the third one asks, and the owner grants its request just as it gives up, too. -/
theorem late_grant_reached :
    ∃ c : TokenConfig bootCpu,
      Runs (Program.Step (tokenProgram bootCpu)) FreshNumber (tokenStart bootCpu) c ∧
      c.shared.token = 1 ∧ c.shared.abandoned = false ∧
      requesterAt c thirdCpu = .cancelToken 2 := by
  have taken := asked_reached.trans (run_runs_of (fresh_of_not_numbers
    (requesterSteps secondCpu 4 ++ ⟨none, OwnerMove.process⟩ :: List.replicate 3 ⟨none, OwnerMove.step⟩)
    (by decide)) rfl)
  have waited := taken.trans (times_out_fresh (i := secondCpu) rfl rfl)
  have withdrawn := waited.trans
    (run_runs_of (fresh_of_not_numbers (requesterSteps secondCpu 2) (by decide)) rfl)
  have asked := withdrawn.next (k := ⟨some thirdCpu, RequesterChoice.request⟩) (fun _ => by decide)
    ⟨_, _, [], rfl, rfl⟩
  have posted := asked.trans (run_runs_of (fresh_of_not_numbers (requesterSteps thirdCpu 4) (by decide)) rfl)
  have waitedToo := posted.trans (times_out_fresh (i := thirdCpu) rfl rfl)
  have granted := waitedToo.trans (run_runs_of (fresh_of_not_numbers
    (⟨none, OwnerMove.step⟩ :: requesterSteps thirdCpu 4) (by decide)) rfl)
  exact ⟨_, granted, rfl, rfl, rfl⟩

theorem step_abandoned {act : Σ t, TokenChoice cpu t}
    (step : Program.Step (tokenProgram cpu) act c c') (kept : c'.shared.abandoned = false) :
    c.shared.abandoned = false := by
  obtain ⟨t, k⟩ := act
  cases t with
  | none =>
    obtain ⟨events, taken, -, -⟩ := step.inversion
    exact (tokenOwnerStep_abandoned taken).symm.trans kept
  | some i =>
    obtain ⟨events, taken, -, -⟩ := requester_step step
    rcases requesterStep_abandoned taken with eq | ⟨-, -, -, res⟩
    · exact eq.symm.trans kept
    rw [kept] at res
    exact (Bool.or_eq_false_iff.mp res.symm).1

theorem careful_of_kept (run : Runs (Program.Step (tokenProgram cpu)) FreshNumber c c')
    (kept : c'.shared.abandoned = false) : Runs (Program.Step (tokenProgram cpu)) Careful c c' := by
  induction run with
  | start => exact .start
  | @next d e act pre fresh step ih =>
    refine (ih (step_abandoned step kept)).next ⟨fresh, ?_⟩ step
    by_contra wrong
    obtain ⟨_, _, lost, -⟩ := abandons_of_not_givesOwn wrong step
    rw [kept] at lost
    cases lost

theorem fresh_step (i : Requester cpu) (c : TokenConfig cpu) :
    FreshNumber ⟨some i, RequesterChoice.step⟩ c := fun numbers => numbers.elim

theorem late_grant_step {c : TokenConfig bootCpu} {id : Nat}
    (point : requesterAt c thirdCpu = .cancelToken id) :
    ∃ c', Program.Step (tokenProgram bootCpu) ⟨some thirdCpu, RequesterChoice.step⟩ c c' :=
  ⟨_, _, _, _, (congrArg (requesterStep thirdCpu .step · c.shared) point).trans rfl, rfl⟩

/-- Giving up the late grant can be followed by a leak. -/
theorem token_returned_iff_late_grant :
    ∃ c c' : TokenConfig bootCpu, TokenReturned c ∧
      Program.Step (tokenProgram bootCpu) ⟨some thirdCpu, RequesterChoice.step⟩ c c' ∧
      ¬ ∀ d, Runs (Program.Step (tokenProgram bootCpu)) Careful c' d → TokenReturned d := by
  obtain ⟨c, reached, token, kept, point⟩ := late_grant_reached
  obtain ⟨c', step⟩ := late_grant_step point
  have settled := token_returned_iff (careful_of_kept reached kept)
  refine ⟨c, c', settled.1, step, fun always => ?_⟩
  have gives := (settled.2 _ c' (fresh_step thirdCpu c) step).mpr always 2 point
  rw [token] at gives
  exact absurd gives (by decide)

/-- The late grant leads to a quiet state in which the token is still taken. -/
theorem late_grant_leaks :
    ∃ c : TokenConfig bootCpu,
      Runs (Program.Step (tokenProgram bootCpu)) FreshNumber (tokenStart bootCpu) c ∧
      ¬ TokenReturned c := by
  obtain ⟨c, reached, token, -, point⟩ := late_grant_reached
  obtain ⟨c', step⟩ := late_grant_step point
  have gone := reached.next (fresh_step thirdCpu c) step
  obtain ⟨words, owner, requesters⟩ := token_facts gone
  obtain ⟨i, id, lost, point'⟩ := abandons_of_not_givesOwn (fun gives => by
    have own := gives 2 point
    rw [token] at own
    exact absurd own (by decide)) step
  obtain ⟨d, later, leaked⟩ := abandoned_leaks words owner requesters lost point'
  exact ⟨d, gone.trans (later.mono fun _ _ careful => careful.1), leaked⟩

end HuesOS.Sched
