import HuesOS.Lib.Exec
import HuesOS.Pci.Topology

namespace HuesOS.Pci
open Exec

inductive LeaseError
  | invalidIdentity | invalidGeneration | generationExhausted | staleGeneration
  | invalidTransition | relocationForbidden | invalidDmaDomain
  deriving DecidableEq

abbrev NonzeroId := { n : Nat // n ≠ 0 ∧ n < 2 ^ 64 }

abbrev DeviceId := NonzeroId
abbrev LeaseGeneration := NonzeroId

def LeaseGeneration.next (g : LeaseGeneration) : Except LeaseError LeaseGeneration :=
  if room : g.val + 1 < 2 ^ 64 then .ok ⟨g.val + 1, Nat.succ_ne_zero _, room⟩
  else .error .generationExhausted

inductive RelocationClass
  | fixed | restart | quiesceRemap
  deriving DecidableEq

inductive DmaIsolation
  | trusted
  | iommuDomain (id : Nat)
  deriving DecidableEq

inductive LeaseState
  | discovered | configured | driverStarting | online | quiescing | rebalancing | removing
  | removed | failed
  deriving DecidableEq

inductive Intent
  | relocate | remove
  deriving DecidableEq

inductive LeaseEvent
  | configure
  | startDriver (processKoid : Nat)
  | driverReady
  | beginRelocation
  | beginRemoval
  | driverQuiesced
  | commitRelocation (newAddress : PciAddress)
  | completeRemoval
  | surpriseRemove
  | fail
  deriving DecidableEq

structure LeaseTransition where
  source : LeaseState
  target : LeaseState
  generation : LeaseGeneration
  generationChanged : Bool
  deriving DecidableEq

structure DeviceLeasePolicy where
  deviceId : DeviceId
  generation : LeaseGeneration
  address : PciAddress
  state : LeaseState
  relocation : RelocationClass
  dmaIsolation : DmaIsolation
  driverProcess : Option Nat
  intent : Option Intent
  deriving DecidableEq

namespace DeviceLeasePolicy

def tryNew (deviceId : DeviceId) (generation : LeaseGeneration) (address : PciAddress)
    (relocation : RelocationClass) (dmaIsolation : DmaIsolation) :
    Except LeaseError DeviceLeasePolicy :=
  if dmaIsolation = .iommuDomain 0 then .error .invalidDmaDomain
  else .ok ⟨deviceId, generation, address, .discovered, relocation, dmaIsolation, none, none⟩

def canMintResources (lease : DeviceLeasePolicy) (generation : LeaseGeneration) : Bool :=
  generation = lease.generation &&
    (lease.state = .configured || lease.state = .driverStarting || lease.state = .online)

def acceptsIo (lease : DeviceLeasePolicy) (generation : LeaseGeneration) : Bool :=
  generation = lease.generation && lease.state = .online

abbrev LeaseM := Exec DeviceLeasePolicy LeaseError

def revokeGeneration : LeaseM Unit := do
  let generation ← gets (·.generation)
  let next ← lift generation.next
  modify fun s => { s with generation := next }
  modify fun s => { s with driverProcess := none }

def setState (state : LeaseState) : LeaseM Unit := modify fun s => { s with state := state }

def setIntent (intent : Option Intent) : LeaseM Unit := modify fun s => { s with intent := intent }

def transition (self : DeviceLeasePolicy) (event : LeaseEvent) : LeaseM Unit :=
  match event, self.state, self.intent with
  | .configure, .discovered, _ => setState .configured
  | .startDriver koid, .configured, _ =>
    if koid = 0 then stop .invalidIdentity
    else do
      modify fun s => { s with driverProcess := some koid }
      setState .driverStarting
  | .driverReady, .driverStarting, _ => setState .online
  | .beginRelocation, .online, _ =>
    if self.relocation = .fixed then stop .relocationForbidden
    else do
      setIntent (some .relocate)
      setState .quiescing
  | .beginRemoval, .driverStarting, _ | .beginRemoval, .online, _ => do
    setIntent (some .remove)
    setState .quiescing
  | .beginRemoval, .discovered, _ | .beginRemoval, .configured, _ => do
    revokeGeneration
    setState .removing
  | .driverQuiesced, .quiescing, some .relocate => do
    revokeGeneration
    setState .rebalancing
    setIntent none
  | .driverQuiesced, .quiescing, some .remove => do
    revokeGeneration
    setState .removing
    setIntent none
  | .commitRelocation newAddress, .rebalancing, _ => do
    modify fun s => { s with address := newAddress }
    setState .configured
  | .completeRemoval, .removing, _ => setState .removed
  | .surpriseRemove, .removed, _ | .surpriseRemove, .failed, _ => stop .invalidTransition
  | .surpriseRemove, _, _ => do
    revokeGeneration
    setState .removed
    setIntent none
  | .fail, .removed, _ | .fail, .failed, _ => stop .invalidTransition
  | .fail, _, _ => do
    revokeGeneration
    setState .failed
    setIntent none
  | _, _, _ => stop .invalidTransition

def apply (expectedGeneration : LeaseGeneration) (event : LeaseEvent) : LeaseM LeaseTransition := do
  let self ← gets id
  if expectedGeneration ≠ self.generation then stop .staleGeneration
  else do
    transition self event
    let after ← gets id
    pure ⟨self.state, after.state, after.generation, self.generation ≠ after.generation⟩

/-- The lease after a sequence of events, each with the generation its sender expects. -/
def after (lease : DeviceLeasePolicy) (events : List (LeaseGeneration × LeaseEvent)) :
    DeviceLeasePolicy :=
  events.foldl (fun s e => (apply e.1 e.2 s).2) lease

/-- The moves of the lifecycle. Every revocation raises the generation by one and detaches the
driver. -/
inductive Moves (s : DeviceLeasePolicy) : DeviceLeasePolicy → Prop
  | configure (now : s.state = .discovered) : Moves s { s with state := .configured }
  | start (koid : Nat) (now : s.state = .configured) :
      Moves s { s with driverProcess := some koid, state := .driverStarting }
  | ready (now : s.state = .driverStarting) : Moves s { s with state := .online }
  | quiesce (intent : Intent) (now : s.state = .driverStarting ∨ s.state = .online) :
      Moves s { s with intent := some intent, state := .quiescing }
  | revoke (g : LeaseGeneration) (state : LeaseState) (intent : Option Intent)
      (next : g.val = s.generation.val + 1) (running : s.state ≠ .removed ∧ s.state ≠ .failed)
      (revoked : state = .removing ∨ state = .rebalancing ∨ state = .removed ∨ state = .failed) :
      Moves s { s with generation := g, driverProcess := none, state := state, intent := intent }
  | commit (address : PciAddress) (now : s.state = .rebalancing) :
      Moves s { s with address := address, state := .configured }
  | complete (now : s.state = .removing) : Moves s { s with state := .removed }

theorem revokeGeneration_cases (s : DeviceLeasePolicy) :
    (∃ e, revokeGeneration s = (.error e, s)) ∨
      ∃ g : LeaseGeneration, g.val = s.generation.val + 1 ∧
        revokeGeneration s = (.ok (), { s with generation := g, driverProcess := none }) := by
  by_cases room : s.generation.val + 1 < 2 ^ 64
  · right
    refine ⟨⟨s.generation.val + 1, Nat.succ_ne_zero _, room⟩, rfl, ?_⟩
    simp only [revokeGeneration, gets_bind, LeaseGeneration.next, dif_pos room]
    rfl
  left
  refine ⟨.generationExhausted, ?_⟩
  simp only [revokeGeneration, gets_bind, LeaseGeneration.next, dif_neg room]
  rfl

def Settled (s : DeviceLeasePolicy) (result : Except LeaseError Unit × DeviceLeasePolicy) : Prop :=
  (∃ e, result = (.error e, s)) ∨ ∃ t, result = (.ok (), t) ∧ Moves s t

variable {s t : DeviceLeasePolicy} {g : LeaseGeneration}

theorem settled_revoke {rest : LeaseM Unit} (state : LeaseState)
    (intent : Option Intent) (run : s.state ≠ .removed ∧ s.state ≠ .failed)
    (revoked : state = .removing ∨ state = .rebalancing ∨ state = .removed ∨ state = .failed)
    (finish : ∀ u : DeviceLeasePolicy, u.intent = s.intent →
      rest u = (.ok (), { u with state := state, intent := intent })) :
    Settled s ((do revokeGeneration; rest : LeaseM Unit) s) := by
  rcases revokeGeneration_cases s with ⟨e, stopped⟩ | ⟨g, next, done⟩
  · exact .inl ⟨e, bind_of_error stopped⟩
  right
  refine ⟨_, (bind_of_ok done).trans (finish _ rfl), ?_⟩
  exact Moves.revoke g state intent next run revoked

theorem settled_transition (s : DeviceLeasePolicy) (event : LeaseEvent) :
    Settled s (transition s event s) := by
  fun_cases transition s event
  case case1 now => exact .inr ⟨_, rfl, Moves.configure now⟩
  case case3 koid now _ => exact .inr ⟨_, rfl, Moves.start koid now⟩
  case case4 now => exact .inr ⟨_, rfl, Moves.ready now⟩
  case case6 now _ => exact .inr ⟨_, rfl, Moves.quiesce .relocate (.inr now)⟩
  case case7 now => exact .inr ⟨_, rfl, Moves.quiesce .remove (.inl now)⟩
  case case8 now => exact .inr ⟨_, rfl, Moves.quiesce .remove (.inr now)⟩
  case case9 now =>
    exact settled_revoke .removing s.intent (by simp [now]) (by simp) (fun u eq => by rw [← eq]; rfl)
  case case10 now =>
    exact settled_revoke .removing s.intent (by simp [now]) (by simp) (fun u eq => by rw [← eq]; rfl)
  case case11 now => exact settled_revoke .rebalancing none (by simp [now]) (by simp) (fun _ _ => rfl)
  case case12 now => exact settled_revoke .removing none (by simp [now]) (by simp) (fun _ _ => rfl)
  case case13 address now => exact .inr ⟨_, rfl, Moves.commit address now⟩
  case case14 now => exact .inr ⟨_, rfl, Moves.complete now⟩
  case case17 removed failed =>
    exact settled_revoke .removed none ⟨removed, failed⟩ (by simp) (fun _ _ => rfl)
  case case20 removed failed =>
    exact settled_revoke .failed none ⟨removed, failed⟩ (by simp) (fun _ _ => rfl)
  all_goals exact .inl ⟨_, rfl⟩

/-- Every event leaves the lease as it was, with an error, or makes one move. -/
theorem apply_cases (s : DeviceLeasePolicy) (expected : LeaseGeneration) (event : LeaseEvent) :
    (∃ e, apply expected event s = (.error e, s)) ∨ ∃ r t, apply expected event s = (.ok r, t) ∧ Moves s t := by
  by_cases stale : expected ≠ s.generation
  · left
    refine ⟨.staleGeneration, ?_⟩
    simp only [apply, gets_bind, id_eq, if_pos stale, stop_run]
  simp only [apply, gets_bind, id_eq, if_neg stale]
  rcases settled_transition s event with ⟨e, stopped⟩ | ⟨t, done, moved⟩
  · exact .inl ⟨e, bind_of_error stopped⟩
  · exact .inr ⟨_, t, bind_of_ok done, moved⟩

theorem apply_error_unchanged {expected : LeaseGeneration}
    {event : LeaseEvent} {e : LeaseError} (run : apply expected event s = (.error e, t)) :
    t = s := by
  rcases apply_cases s expected event with ⟨_, kept⟩ | ⟨_, _, done, _⟩
  · rw [kept] at run
    exact (Prod.mk.inj run).2.symm
  rw [done] at run
  cases run

/-- A property that every move keeps holds after every history. -/
theorem after_invariant {P : DeviceLeasePolicy → Prop} (initial : P s)
    (preserved : ∀ {t u}, P t → Moves t u → P u) (events : List (LeaseGeneration × LeaseEvent)) :
    P (s.after events) := by
  induction events generalizing s with
  | nil => exact initial
  | cons event rest ih =>
    apply ih
    rcases apply_cases s event.1 event.2 with ⟨e, kept⟩ | ⟨r, t, done, moved⟩
    · change P (apply event.1 event.2 s).2
      rw [kept]
      exact initial
    change P (apply event.1 event.2 s).2
    rw [done]
    exact preserved initial moved

def Unattached (s : DeviceLeasePolicy) : Prop :=
  s.state = .discovered ∨ s.state = .configured ∨ s.state = .rebalancing → s.driverProcess = none

theorem Moves.unattached (pre : Unattached s) (move : Moves s t) : Unattached t := by
  intro early
  cases move with
  | configure now => exact pre (.inl now)
  | commit address now => exact pre (.inr (.inr now))
  | revoke => rfl
  | start | ready | quiesce | complete => simp at early

theorem Moves.generation_le (move : Moves s t) : s.generation.val ≤ t.generation.val := by
  cases move with
  | revoke g state intent next => exact next.symm ▸ Nat.le_succ _
  | _ => exact le_rfl

theorem Moves.running (move : Moves s t) : s.state ≠ .removed ∧ s.state ≠ .failed := by
  cases move with
  | configure now | start _ now | ready now | commit _ now | complete now => simp [now]
  | quiesce _ now => rcases now with now | now <;> simp [now]
  | revoke _ _ _ _ run => exact run

/-- The states of a generation from which resources have been minted. -/
def Granted (state : LeaseState) : Prop :=
  state = .configured ∨ state = .driverStarting ∨ state = .online ∨ state = .quiescing

/-- What a later moment of the same generation still has of a moment `s` with minting authority:
the address, and the driver once one is attached. -/
structure SameGrant (s t : DeviceLeasePolicy) : Prop where
  granted : Granted t.state
  address : t.address = s.address
  driver : s.state ≠ .configured → t.state ≠ .configured ∧ t.driverProcess = s.driverProcess

/-- The generation has advanced, or the grant is the same. -/
def Outlives (s t : DeviceLeasePolicy) : Prop :=
  s.generation.val < t.generation.val ∨ t.generation = s.generation ∧ SameGrant s t

theorem Moves.outlives {u : DeviceLeasePolicy} (pre : Outlives s t) (move : Moves t u) : Outlives s u := by
  rcases pre with advanced | ⟨eq, granted, address, driver⟩
  · exact .inl (lt_of_lt_of_le advanced move.generation_le)
  cases move with
  | configure now | commit _ now | complete now => simp [Granted, now] at granted
  | start koid now =>
    refine .inr ⟨eq, by simp [Granted], address, fun attached => ?_⟩
    exact absurd now (driver attached).1
  | ready now | quiesce _ now =>
    exact .inr ⟨eq, by simp [Granted], address, fun attached =>
      ⟨by simp, (driver attached).2⟩⟩
  | revoke g state intent next =>
    exact .inl (by rw [← eq, next]; exact Nat.lt_succ_self _)

theorem canMintResources_iff :
    s.canMintResources g = true ↔ g = s.generation ∧
      (s.state = .configured ∨ s.state = .driverStarting ∨ s.state = .online) := by
  simp [canMintResources, or_assoc]

theorem acceptsIo_canMint (accepts : s.acceptsIo g = true) : s.canMintResources g = true := by
  simp only [acceptsIo, Bool.and_eq_true, decide_eq_true_eq] at accepts
  exact canMintResources_iff.mpr ⟨accepts.1, .inr (.inr accepts.2)⟩

theorem not_canMint_of_advanced
    (later : s.generation.val ≤ t.generation.val) (past : g.val < s.generation.val) :
    t.canMintResources g = false := by
  rw [← Bool.not_eq_true]
  intro minted
  rw [(canMintResources_iff.mp minted).1] at past
  exact absurd past (not_lt.mpr later)

/-- What the lease promises about two moments of one history, `t` the later one. -/
structure Promises (s t : DeviceLeasePolicy) : Prop where
  /-- a generation that was passed has no authority any more -/
  past : ∀ g : LeaseGeneration, g.val < s.generation.val →
    t.canMintResources g = false ∧ t.acceptsIo g = false
  /-- moments that mint for one generation show one address and at most one driver -/
  grant : ∀ g, s.canMintResources g = true → t.canMintResources g = true →
    t.address = s.address ∧ ∀ p q, s.driverProcess = some p → t.driverProcess = some q → q = p
  /-- the end states are never left -/
  final : s.state = .removed ∨ s.state = .failed → t.state = s.state

theorem promises_after (unattached : Unattached s)
    (events : List (LeaseGeneration × LeaseEvent)) : Promises s (s.after events) := by
  have later : s.generation.val ≤ (s.after events).generation.val :=
    after_invariant (P := fun t => s.generation.val ≤ t.generation.val) le_rfl
      (fun pre move => le_trans pre move.generation_le) events
  constructor
  · intro g past
    have unminted := not_canMint_of_advanced later past
    refine ⟨unminted, ?_⟩
    rw [← Bool.not_eq_true] at unminted ⊢
    exact fun accepts => unminted (acceptsIo_canMint accepts)
  · intro g minted mintedLater
    rw [canMintResources_iff] at minted mintedLater
    have granted : Granted s.state := by
      rcases minted.2 with now | now | now <;> simp [Granted, now]
    have outlives := after_invariant (P := Outlives s)
      (.inr ⟨rfl, granted, rfl, fun attached => ⟨attached, rfl⟩⟩) Moves.outlives events
    rcases outlives with advanced | ⟨_, grant⟩
    · rw [← minted.1, ← mintedLater.1] at advanced
      exact absurd advanced (lt_irrefl _)
    refine ⟨grant.address, fun p q first second => ?_⟩
    have attached : s.state ≠ .configured := by
      intro now
      rw [unattached (.inr (.inl now))] at first
      cases first
    rw [(grant.driver attached).2, first] at second
    exact (Option.some.inj second).symm
  intro ended
  refine after_invariant (P := fun t => t.state = s.state) rfl ?_ events
  intro t u eq move
  have run := move.running
  rw [eq] at run
  rcases ended with removed | failed
  · exact absurd removed run.1
  · exact absurd failed run.2

theorem after_append (s : DeviceLeasePolicy) (events more : List (LeaseGeneration × LeaseEvent)) :
    s.after (events ++ more) = (s.after events).after more :=
  List.foldl_append

/-- Over every history of a new lease: the moment after `events` and the one after `more` events
keep the lease's promises, and an event that is refused at either changes nothing. -/
theorem history_keeps_promises (deviceId : DeviceId) (generation : LeaseGeneration)
    (address : PciAddress) (relocation : RelocationClass) (dmaIsolation : DmaIsolation)
    (lease : DeviceLeasePolicy)
    (created : tryNew deviceId generation address relocation dmaIsolation = .ok lease)
    (events more : List (LeaseGeneration × LeaseEvent)) :
    Promises (lease.after events) (lease.after (events ++ more)) ∧
      ∀ expected event error t,
        apply expected event (lease.after events) = (.error error, t) → t = lease.after events := by
  refine ⟨?_, fun _ _ _ _ => apply_error_unchanged⟩
  rw [after_append]
  refine promises_after (after_invariant ?_ (fun pre move => move.unattached pre) events) more
  unfold tryNew at created
  split at created
  · cases created
  cases created
  exact fun _ => rfl

/-- Device 7 at 0:1:0.0, found at generation 1 with a driver that may be restarted. -/
def restartable : DeviceLeasePolicy :=
  ⟨⟨7, by decide⟩, ⟨1, by decide⟩, ⟨0, 1, 0, 0⟩, .discovered, .restart, .trusted, none, none⟩

/-- The events up to a running driver, and its relocation to bus 2. -/
theorem history_keeps_promises_relocation :
    tryNew ⟨7, by decide⟩ ⟨1, by decide⟩ ⟨0, 1, 0, 0⟩ .restart .trusted = .ok restartable ∧
    Promises
      (restartable.after
        [(⟨1, by decide⟩, .configure), (⟨1, by decide⟩, .startDriver 5), (⟨1, by decide⟩, .driverReady)])
      (restartable.after
        ([(⟨1, by decide⟩, .configure), (⟨1, by decide⟩, .startDriver 5),
            (⟨1, by decide⟩, .driverReady)] ++
          [(⟨1, by decide⟩, .beginRelocation), (⟨1, by decide⟩, .driverQuiesced),
            (⟨2, by decide⟩, .commitRelocation ⟨0, 2, 0, 0⟩)])) :=
  ⟨by decide, (history_keeps_promises ⟨7, by decide⟩ ⟨1, by decide⟩ ⟨0, 1, 0, 0⟩ .restart .trusted
    restartable (by decide) _ _).1⟩

end DeviceLeasePolicy
end HuesOS.Pci
