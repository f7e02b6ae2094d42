import Mathlib
import HuesOS.Sched.Directory

namespace HuesOS.Sched
open Finset Function

structure TrustDomainId where
  raw : UInt64
  nonzero : raw ≠ 0
  deriving DecidableEq

inductive SmtPolicy
  | off | isolated | trusted

inductive SmtGateError
  | smtDisabled | incompatibleDomain | alreadyActive | notActive

structure SmtCoreGate where
  policy : SmtPolicy
  activeDomain : Option TrustDomainId
  activeSiblings : Finset CpuIndex
  epoch : UInt64

namespace SmtCoreGate

def new (policy : SmtPolicy) : SmtCoreGate := ⟨policy, none, ∅, 0⟩

def withSiblings (activeDomain : Option TrustDomainId) (activeSiblings : Finset CpuIndex)
    (gate : SmtCoreGate) : SmtCoreGate :=
  { gate with activeDomain, activeSiblings, epoch := max (gate.epoch + 1) 1 }

/-- The gate after the claim, whose epoch the call returns. -/
def claim (gate : SmtCoreGate) (cpu : CpuIndex) (domain : TrustDomainId) :
    Except SmtGateError SmtCoreGate :=
  if cpu ∈ gate.activeSiblings then .error .alreadyActive
  else
    let siblings := insert cpu gate.activeSiblings
    match gate.policy with
    | .off => .error .smtDisabled
    | .isolated =>
      if gate.activeDomain.any (· ≠ domain) then .error .incompatibleDomain
      else .ok (gate.withSiblings (some domain) siblings)
    | .trusted => .ok (gate.withSiblings gate.activeDomain siblings)

def release (gate : SmtCoreGate) (cpu : CpuIndex) : Except SmtGateError SmtCoreGate :=
  if cpu ∉ gate.activeSiblings then .error .notActive
  else
    let siblings := gate.activeSiblings.erase cpu
    .ok (gate.withSiblings (if siblings = ∅ then none else gate.activeDomain) siblings)

end SmtCoreGate

inductive GateCall
  | claim (cpu : CpuIndex) (domain : TrustDomainId)
  | release (cpu : CpuIndex)

/-- A core together with the domain of every claim that was accepted and not released. -/
structure SmtCore where
  gate : SmtCoreGate
  holder : CpuIndex → Option TrustDomainId

namespace SmtCore

def new (policy : SmtPolicy) : SmtCore := ⟨.new policy, fun _ => none⟩

def step (core : SmtCore) : GateCall → SmtCore
  | .claim cpu domain =>
    match core.gate.claim cpu domain with
    | .ok gate => ⟨gate, update core.holder cpu (some domain)⟩
    | .error _ => core
  | .release cpu =>
    match core.gate.release cpu with
    | .ok gate => ⟨gate, update core.holder cpu none⟩
    | .error _ => core

/-- The siblings in userspace hold the cookie of the core, and no cookie outlives them. -/
structure Isolated (core : SmtCore) : Prop where
  policy : core.gate.policy = .isolated
  holders : ∀ cpu, core.holder cpu =
    if cpu ∈ core.gate.activeSiblings then core.gate.activeDomain else none
  cookie : core.gate.activeDomain = none ↔ core.gate.activeSiblings = ∅

theorem step_isolated {core : SmtCore} (isolated : core.Isolated) (call : GateCall) :
    (core.step call).Isolated := by
  obtain ⟨policy, holders, cookie⟩ := isolated
  cases call with
  | claim cpu domain =>
    unfold step SmtCoreGate.claim
    by_cases present : cpu ∈ core.gate.activeSiblings
    · simpa only [if_pos present] using ⟨policy, holders, cookie⟩
    simp only [if_neg present, policy]
    split
    next _ claimed =>
      split at claimed
      · cases claimed
      next compatible =>
      cases claimed
      refine ⟨policy, fun other => ?_, by simp [SmtCoreGate.withSiblings]⟩
      by_cases same : other = cpu
      · simp [same, SmtCoreGate.withSiblings]
      simp only [SmtCoreGate.withSiblings, update_of_ne same, mem_insert, same, false_or, holders other]
      split
      next mem =>
        cases active : core.gate.activeDomain with
        | none => simp [cookie.mp active] at mem
        | some held => simpa [active] using compatible
      · rfl
    · exact ⟨policy, holders, cookie⟩
  | release cpu =>
    unfold step SmtCoreGate.release
    by_cases present : cpu ∈ core.gate.activeSiblings
    · simp only [present, not_true_eq_false, if_false]
      refine ⟨policy, fun other => ?_, ?_⟩
      · by_cases same : other = cpu
        · simp [same, SmtCoreGate.withSiblings]
        simp only [SmtCoreGate.withSiblings, update_of_ne same, mem_erase, ne_eq,
          same, not_false_eq_true, true_and, holders other]
        split
        next mem =>
          rw [if_neg (ne_empty_of_mem (mem_erase.mpr ⟨same, mem⟩))]
        · rfl
      · simp only [SmtCoreGate.withSiblings]
        split
        next empty => simp [empty]
        next occupied => simp [occupied, cookie, ne_empty_of_mem present]
    · simpa only [present, not_false_eq_true, if_true] using ⟨policy, holders, cookie⟩

/-- Whatever the siblings do, those in userspace are of one domain, and an idle core accepts
any domain. -/
theorem isolated_core (calls : List GateCall) :
    (∀ cpu other domain domain', (calls.foldl step (new .isolated)).holder cpu = some domain →
        (calls.foldl step (new .isolated)).holder other = some domain' → domain = domain') ∧
      ((∀ cpu, (calls.foldl step (new .isolated)).holder cpu = none) → ∀ cpu domain,
        ((calls.foldl step (new .isolated)).gate.claim cpu domain).isOk) := by
  have start : (new .isolated).Isolated := ⟨rfl, fun _ => rfl, by simp [new, SmtCoreGate.new]⟩
  have isolated : (calls.foldl step (new .isolated)).Isolated :=
    List.foldlRecOn calls step start fun _ kept call _ => step_isolated kept call
  generalize calls.foldl step (new .isolated) = core at isolated
  obtain ⟨policy, holders, cookie⟩ := isolated
  constructor
  · intro cpu other domain domain' held held'
    rw [holders] at held held'
    split at held <;> split at held' <;> simp_all
  · intro idle cpu domain
    have empty : core.gate.activeSiblings = ∅ := by
      refine eq_empty_of_forall_notMem fun mem inside => ?_
      have unclaimed := (holders mem).symm.trans (idle mem)
      rw [if_pos inside, cookie] at unclaimed
      simp [unclaimed] at inside
    simp [SmtCoreGate.claim, empty, policy, cookie.mpr empty, Except.isOk, Except.toBool]

end SmtCore
end HuesOS.Sched
