import HuesOS.Sched.RunqueueToken

namespace HuesOS.Sched
open Function TokenWords Option RequesterChoice
variable {cpu : Fin kernelCpus} {i j : Requester cpu} {s s' : TokenWords cpu}

def TokenWords.Live (s : TokenWords cpu) (i : Requester cpu) : Prop :=
  s.mailbox = .granted i ∧ s.token ≠ runqueueTokenFree ∧ s.abandoned = false

/-- How far a request has come. -/
inductive Stake
  | out | waiting | filling | filled | asked | posted | live | spent

def RequesterPoint.stake : RequesterPoint → Nat × Stake
  | .idle => (0, .out)
  | .claiming id _ => (id, .waiting)
  | .storeRequester id | .storeId id => (id, .filling)
  | .storePending id => (id, .filled)
  | .polling id _ | .cancelLoad id => (id, .asked)
  | .checking id _ | .cancelPending id => (id, .posted)
  | .guarding id | .changing id | .cancelReload id | .cancelState id | .cancelToken id =>
    (id, .live)
  | .dropLoad id | .dropStore id | .cancelGranted id => (id, .spent)

/-- What a stake in the words amounts to. A request that waits for its grant may never have
reached the mailbox. -/
def Staked (i : Requester cpu) (s : TokenWords cpu) : Nat × Stake → Prop
  | (_, .out) => s.mailbox.filler ≠ some i
  | (id, .waiting) => s.issuedTo id = some i ∧ s.requestId ≠ id ∧ s.mailbox.filler ≠ some i
  | (id, .filling) => s.issuedTo id = some i ∧ s.requestId ≠ id ∧ s.mailbox = .filling i
  | (id, .filled) => s.issuedTo id = some i ∧ s.requestId = id ∧ s.mailbox = .filling i
  | (id, .asked) => s.issuedTo id = some i ∧
      (s.requestId ≠ id ∧ s.mailbox.filler ≠ some i ∨ s.requestId = id ∧ (s.mailbox = .pending i ∨ s.Live i))
  | (id, .posted) => s.issuedTo id = some i ∧ s.requestId = id ∧ (s.mailbox = .pending i ∨ s.Live i)
  | (id, .live) => s.issuedTo id = some i ∧ s.requestId = id ∧ s.Live i
  | (id, .spent) => s.issuedTo id = some i ∧ s.requestId = id ∧ s.mailbox = .granted i ∧
      (s.abandoned = false → s.token = runqueueTokenFree)

def RequesterPoint.Inside : RequesterPoint → Prop
  | .changing _ => True
  | _ => False

structure RequesterFacts (i : Requester cpu) (s : TokenWords cpu) (r : RequesterPoint) : Prop where
  staked : Staked i s r.stake
  lock : s.lock = some i.1.1 ↔ r.Inside

/-- While it is not about to grant a request, the owner has seen to it that a token that is taken
belongs to a granted request, unless it was abandoned. -/
def TokenOwnerFacts (s : TokenWords cpu) : OwnerStage → Prop
  | .idle | .loadState => s.lock ≠ some cpu.1 ∧
      (s.token ≠ runqueueTokenFree → s.abandoned = false → s.mailbox.isGranted = true)
  | .ticking => s.lock = some cpu.1 ∧
      (s.token ≠ runqueueTokenFree → s.abandoned = false → s.mailbox.isGranted = true)
  | .loadRequester => s.lock ≠ some cpu.1 ∧ s.mailbox.isGranted = false ∧
      (s.token ≠ runqueueTokenFree → s.abandoned = true)
  | .takeToken requester => s.lock ≠ some cpu.1 ∧ s.mailbox.isGranted = false ∧
      (s.token ≠ runqueueTokenFree → s.abandoned = true) ∧ requester < kernelCpus
  | .grant | .freeToken => s.lock ≠ some cpu.1 ∧ s.mailbox.isGranted = false ∧
      s.token ≠ runqueueTokenFree ∧ s.abandoned = false
  | .clearMailbox => False

structure WordFacts (s : TokenWords cpu) : Prop where
  issued : ∀ {id i}, s.issuedTo id = some i → id ≤ s.issued
  current : s.requestId ≤ s.issued
  next : s.nextRequestId = (s.issued + 1) % 2 ^ 64
  requester : s.requester < kernelCpus
  abandoned : s.abandoned = true → s.token ≠ runqueueTokenFree

structure Apart (i : Requester cpu) (s s' : TokenWords cpu) : Prop where
  issued : ∀ {id}, s.issuedTo id = some i → s'.issuedTo id = some i
  kept : s.mailbox.filler = some i → s'.requestId = s.requestId
  other : ∀ {id}, s.issuedTo id = some i → s.requestId ≠ id → s'.requestId ≠ id
  mailbox : s.mailbox.filler = some i → s'.mailbox = s.mailbox ∨ s.mailbox = .pending i ∧ s'.Live i
  absent : s.mailbox.filler ≠ some i → s'.mailbox.filler ≠ some i
  token : s.mailbox = .granted i → s'.token = s.token ∧ s'.abandoned = s.abandoned
  lock : s'.lock = some i.1.1 ↔ s.lock = some i.1.1

structure OwnerApart (s s' : TokenWords cpu) : Prop where
  granted : s'.mailbox.isGranted = true → s.mailbox.isGranted = true
  same : s.mailbox.isGranted = false → s'.token = s.token ∧ s'.abandoned = s.abandoned
  closed : s.mailbox.isGranted = true → s'.mailbox.isGranted = false →
    s'.token ≠ runqueueTokenFree → s'.abandoned = true
  lock : s'.lock = some cpu.1 ↔ s.lock = some cpu.1

theorem Apart.live (apart : Apart i s s') (live : s.Live i) : s'.Live i := by
  obtain ⟨granted, taken, kept⟩ := live
  have filler : s.mailbox.filler = some i := by rw [granted]; rfl
  obtain ⟨token, abandoned⟩ := apart.token granted
  rcases apart.mailbox filler with eq | ⟨pending, _⟩
  · exact ⟨eq.trans granted, token ▸ taken, abandoned.trans kept⟩
  rw [granted] at pending
  cases pending

theorem Apart.pending (apart : Apart i s s') (pending : s.mailbox = .pending i) :
    s'.mailbox = .pending i ∨ s'.Live i := by
  rcases apart.mailbox (by rw [pending]; rfl) with eq | ⟨_, live⟩
  · exact .inl (eq.trans pending)
  · exact .inr live

theorem Apart.filling (apart : Apart i s s') (filling : s.mailbox = .filling i) :
    s'.mailbox = .filling i := by
  rcases apart.mailbox (by rw [filling]; rfl) with eq | ⟨pending, _⟩
  · exact eq.trans filling
  rw [filling] at pending
  cases pending

theorem TokenWords.Live.filler (live : s.Live i) : s.mailbox.filler = some i := by
  rw [live.1]
  rfl

theorem Apart.waits (apart : Apart i s s') (waits : s.mailbox = .pending i ∨ s.Live i) :
    s'.mailbox = .pending i ∨ s'.Live i := by
  rcases waits with pending | live
  · exact apart.pending pending
  · exact .inr (apart.live live)

theorem Apart.waits_kept (apart : Apart i s s') (waits : s.mailbox = .pending i ∨ s.Live i) :
    s'.requestId = s.requestId := by
  refine apart.kept ?_
  rcases waits with pending | live
  · rw [pending]
    rfl
  · exact live.filler

theorem Apart.staked (apart : Apart i s s') {p : Nat × Stake} (staked : Staked i s p) : Staked i s' p := by
  obtain ⟨id, stake⟩ := p
  cases stake with
  | out => exact apart.absent staked
  | waiting => exact ⟨apart.issued staked.1, apart.other staked.1 staked.2.1, apart.absent staked.2.2⟩
  | filling => exact ⟨apart.issued staked.1, apart.other staked.1 staked.2.1, apart.filling staked.2.2⟩
  | filled =>
    obtain ⟨issued, here, filling⟩ := staked
    exact ⟨apart.issued issued, (apart.kept (by rw [filling]; rfl)).trans here, apart.filling filling⟩
  | asked =>
    obtain ⟨issued, ⟨elsewhere, absent⟩ | ⟨here, waits⟩⟩ := staked
    · exact ⟨apart.issued issued, .inl ⟨apart.other issued elsewhere, apart.absent absent⟩⟩
    · exact ⟨apart.issued issued, .inr ⟨(apart.waits_kept waits).trans here, apart.waits waits⟩⟩
  | posted =>
    obtain ⟨issued, here, waits⟩ := staked
    exact ⟨apart.issued issued, (apart.waits_kept waits).trans here, apart.waits waits⟩
  | live =>
    obtain ⟨issued, here, live⟩ := staked
    exact ⟨apart.issued issued, (apart.kept live.filler).trans here, apart.live live⟩
  | spent =>
    obtain ⟨issued, here, granted, free⟩ := staked
    have filler : s.mailbox.filler = some i := by rw [granted]; rfl
    obtain ⟨token, abandoned⟩ := apart.token granted
    refine ⟨apart.issued issued, (apart.kept filler).trans here, ?_, ?_⟩
    · rcases apart.mailbox filler with eq | ⟨pending, _⟩
      · exact eq.trans granted
      rw [granted] at pending
      cases pending
    rw [token, abandoned]
    exact free

theorem RequesterFacts.apart {r : RequesterPoint} (facts : RequesterFacts i s r)
    (apart : Apart i s s') : RequesterFacts i s' r :=
  ⟨apart.staked facts.staked, apart.lock.trans facts.lock⟩

theorem OwnerApart.backed (apart : OwnerApart s s')
    (backed : s.token ≠ runqueueTokenFree → s.abandoned = false → s.mailbox.isGranted = true) :
    s'.token ≠ runqueueTokenFree → s'.abandoned = false → s'.mailbox.isGranted = true := by
  intro taken kept
  cases pre : s.mailbox.isGranted with
  | true =>
    cases after : s'.mailbox.isGranted with
    | true => rfl
    | false =>
      rw [apart.closed pre after taken] at kept
      cases kept
  | false =>
    obtain ⟨token, abandoned⟩ := apart.same pre
    rw [token] at taken
    rw [abandoned] at kept
    rw [backed taken kept] at pre
    cases pre

theorem OwnerApart.ungranted (apart : OwnerApart s s') (pre : s.mailbox.isGranted = false) :
    s'.mailbox.isGranted = false := by
  cases after : s'.mailbox.isGranted with
  | false => rfl
  | true =>
    rw [apart.granted after] at pre
    cases pre

theorem TokenOwnerFacts.apart {r : OwnerStage} (facts : TokenOwnerFacts s r) (apart : OwnerApart s s') :
    TokenOwnerFacts s' r := by
  cases r with
  | idle | loadState => exact ⟨fun held => facts.1 (apart.lock.mp held), apart.backed facts.2⟩
  | ticking => exact ⟨apart.lock.mpr facts.1, apart.backed facts.2⟩
  | loadRequester =>
    obtain ⟨lock, closed, taken⟩ := facts
    obtain ⟨token, abandoned⟩ := apart.same closed
    refine ⟨fun held => lock (apart.lock.mp held), apart.ungranted closed, ?_⟩
    rw [token, abandoned]
    exact taken
  | takeToken requester =>
    obtain ⟨lock, closed, taken, inside⟩ := facts
    obtain ⟨token, abandoned⟩ := apart.same closed
    refine ⟨fun held => lock (apart.lock.mp held), apart.ungranted closed, ?_, inside⟩
    rw [token, abandoned]
    exact taken
  | grant | freeToken =>
    obtain ⟨lock, closed, taken, kept⟩ := facts
    obtain ⟨token, abandoned⟩ := apart.same closed
    refine ⟨fun held => lock (apart.lock.mp held), apart.ungranted closed, ?_, ?_⟩
    · rw [token]
      exact taken
    rw [abandoned]
    exact kept
  | clearMailbox => exact facts

structure Harmless (i : Requester cpu) (s s' : TokenWords cpu) : Prop where
  words : WordFacts s'
  others : ∀ j, j ≠ i → Apart j s s'
  owner : OwnerApart s s'

theorem Apart.refl (i : Requester cpu) (s : TokenWords cpu) : Apart i s s :=
  ⟨id, fun _ => rfl, fun _ => id, fun _ => .inl rfl, id, fun _ => ⟨rfl, rfl⟩, Iff.rfl⟩

theorem OwnerApart.refl (s : TokenWords cpu) : OwnerApart s s := by
  refine ⟨id, fun _ => ⟨rfl, rfl⟩, fun pre after => ?_, Iff.rfl⟩
  rw [pre] at after
  cases after

theorem Harmless.refl (i : Requester cpu) (words : WordFacts s) : Harmless i s s :=
  ⟨words, fun j _ => .refl j s, .refl s⟩

theorem WordFacts.freshId (words : WordFacts s) (room : s.issued + 1 < 2 ^ 64) :
    s.freshId = s.issued + 1 := by
  unfold TokenWords.freshId
  rw [words.next, Nat.mod_eq_of_lt room]
  omega

theorem WordFacts.counted (words : WordFacts s) : WordFacts s.counted where
  issued held := Nat.le_succ_of_le (words.issued held)
  current := Nat.le_succ_of_le words.current
  next := by
    show (s.nextRequestId + 1) % 2 ^ 64 = (s.issued + 1 + 1) % 2 ^ 64
    rw [words.next, Nat.mod_add_mod]
  requester := words.requester
  abandoned := words.abandoned

theorem Harmless.counted (i : Requester cpu) (words : WordFacts s) : Harmless i s s.counted where
  words := words.counted
  others _ _ := ⟨id, fun _ => rfl, fun _ => id, fun _ => .inl rfl, id, fun _ => ⟨rfl, rfl⟩, Iff.rfl⟩
  owner := ⟨id, fun _ => ⟨rfl, rfl⟩, (OwnerApart.refl s).closed, Iff.rfl⟩

namespace Harmless
variable (words : WordFacts s)
include words

theorem request (room : s.issued + 1 < 2 ^ 64) : Harmless i s (s.numbered i) := by
  have fresh := words.freshId room
  have unused : ∀ {id j}, s.issuedTo id = some j → id ≠ s.freshId := by
    intro id j held eq
    have := words.issued held
    omega
  refine ⟨⟨?_, words.counted.current, words.counted.next, words.requester, words.abandoned⟩, ?_, ?_⟩
  · intro id k held
    by_cases eq : id = s.freshId
    · rw [eq, fresh]
      exact le_rfl
    dsimp only [numbered] at held
    rw [update_of_ne eq] at held
    exact Nat.le_succ_of_le (words.issued held)
  · intro j _
    refine ⟨fun held => ?_, fun _ => rfl, fun _ => id, fun _ => .inl rfl, id, fun _ => ⟨rfl, rfl⟩, Iff.rfl⟩
    dsimp only [numbered]
    rw [update_of_ne (unused held)]
    exact held
  · exact ⟨id, fun _ => ⟨rfl, rfl⟩, (OwnerApart.refl s).closed, Iff.rfl⟩

theorem mailbox {m : Mailbox cpu}
    (pre : s.mailbox.filler = none ∨ s.mailbox.filler = some i)
    (after : m.filler = none ∨ m.filler = some i) (ungranted : m.isGranted = false)
    (closed : s.mailbox.isGranted = true → s.token ≠ runqueueTokenFree → s.abandoned = true) :
    Harmless i s { s with mailbox := m } := by
  have out : ∀ {o : Option (Requester cpu)} {j}, j ≠ i → o = none ∨ o = some i → o ≠ some j := by
    rintro o j apart (rfl | rfl) eq
    · cases eq
    · exact apart (some.inj eq).symm
  refine ⟨⟨words.issued, words.current, words.next, words.requester, words.abandoned⟩, ?_, ?_⟩
  · intro j apart
    have absent := out apart pre
    refine ⟨id, fun here => absurd here absent, fun _ => id, fun here => absurd here absent,
      fun _ => out apart after, fun here => absurd (by rw [here]; rfl) absent, Iff.rfl⟩
  refine ⟨fun granted => ?_, fun _ => ⟨rfl, rfl⟩, fun here _ => closed here, Iff.rfl⟩
  rw [show m.isGranted = true from granted] at ungranted
  cases ungranted

theorem setRequester : Harmless i s { s with requester := i.1 } where
  words := ⟨words.issued, words.current, words.next, i.1.2, words.abandoned⟩
  others _ _ := ⟨id, fun _ => rfl, fun _ => id, fun _ => .inl rfl, id, fun _ => ⟨rfl, rfl⟩, Iff.rfl⟩
  owner := ⟨id, fun _ => ⟨rfl, rfl⟩, (OwnerApart.refl s).closed, Iff.rfl⟩

theorem setId {id : Nat} (issued : s.issuedTo id = some i)
    (filling : s.mailbox = .filling i) : Harmless i s { s with requestId := id } where
  words := ⟨words.issued, words.issued issued, words.next, words.requester, words.abandoned⟩
  others j apart := by
    have absent : s.mailbox.filler ≠ some j := by
      rw [filling]
      exact fun eq => apart (some.inj eq).symm
    refine ⟨fun h => h, fun here => absurd here absent, fun other _ eq => ?_,
      fun here => absurd here absent, fun h => h, fun _ => ⟨rfl, rfl⟩, Iff.rfl⟩
    rw [show id = _ from eq, other] at issued
    exact apart (some.inj issued)
  owner := ⟨fun h => h, fun _ => ⟨rfl, rfl⟩, (OwnerApart.refl s).closed, Iff.rfl⟩

/-- A requester whose request is granted gives the token back, or fails to. -/
theorem setToken {token : Nat} {abandoned : Bool}
    (granted : s.mailbox = .granted i) (consistent : abandoned = true → token ≠ runqueueTokenFree) :
    Harmless i s { s with token, abandoned } where
  words := ⟨words.issued, words.current, words.next, words.requester, consistent⟩
  others j apart := by
    have absent : s.mailbox.filler ≠ some j := by
      rw [granted]
      exact fun eq => apart (some.inj eq).symm
    exact ⟨id, fun here => absurd here absent, fun _ => id, fun here => absurd here absent, id,
      fun here => absurd (by rw [here]; rfl) absent, Iff.rfl⟩
  owner := by
    have here : s.mailbox.isGranted = true := by rw [granted]; rfl
    refine ⟨id, fun other => ?_, fun _ other => ?_, Iff.rfl⟩
    · rw [here] at other
      cases other
    rw [show s.mailbox.isGranted = false from other] at here
    cases here

theorem setLock {lock : Option Nat}
    (pre : s.lock = none ∨ s.lock = some i.1.1) (after : lock = none ∨ lock = some i.1.1) :
    Harmless i s { s with lock } := by
  have out : ∀ {o : Option Nat} {k : Fin kernelCpus}, k ≠ i.1 → o = none ∨ o = some i.1.1 → o ≠ some k.1 := by
    rintro o k apart (rfl | rfl) eq
    · cases eq
    · exact apart (Fin.ext (some.inj eq).symm)
  refine ⟨⟨words.issued, words.current, words.next, words.requester, words.abandoned⟩, ?_, ?_⟩
  · intro j apart
    have ne : j.1 ≠ i.1 := fun eq => apart (Subtype.ext eq)
    exact ⟨id, fun _ => rfl, fun _ => id, fun _ => .inl rfl, id, fun _ => ⟨rfl, rfl⟩,
      iff_of_false (out ne after) (out ne pre)⟩
  exact ⟨id, fun _ => ⟨rfl, rfl⟩, (OwnerApart.refl s).closed,
    iff_of_false (out i.2.symm after) (out i.2.symm pre)⟩

/-- A request that has been granted leaves the mailbox once its token is free. -/
theorem close (granted : s.mailbox = .granted i)
    (free : s.abandoned = false → s.token = runqueueTokenFree) :
    Harmless i s { s with mailbox := .empty } := by
  refine .mailbox words (.inr (by rw [granted]; rfl)) (.inl rfl) rfl fun _ taken => ?_
  cases gone : s.abandoned with
  | true => rfl
  | false => exact absurd (free gone) taken

end Harmless

theorem not_filler_of_empty (empty : s.mailbox = .empty) : s.mailbox.filler = none := by
  rw [empty]
  rfl

/-- Every step of a requester leads to a point whose facts hold, and does no harm. -/
theorem requesterStep_facts {choice : RequesterChoice} {r r' : RequesterPoint} {log : List Empty}
    (words : WordFacts s) (facts : RequesterFacts i s r)
    (room : @Numbers cpu ⟨some i, choice⟩ → s.issued + 1 < 2 ^ 64)
    (step : requesterStep i choice r s = some (r', s', log)) :
    Harmless i s s' ∧ RequesterFacts i s' r' := by
  obtain ⟨staked, lock⟩ := facts
  cases choice with
  | request =>
    cases r with
    | idle =>
      cases step
      have harmless := Harmless.request (i := i) words (room trivial)
      have unused := words.freshId (room trivial)
      have current := words.current
      refine ⟨harmless, ⟨?_, ?_, staked⟩, lock⟩
      · dsimp only [numbered]
        rw [update_self]
      dsimp only [numbered]
      omega
    | _ => cases step
  | elsewhere =>
    cases r with
    | idle =>
      cases step
      exact ⟨.counted i words, staked, lock⟩
    | _ => cases step
  | enter =>
    cases r with
    | guarding id =>
      obtain ⟨issued, here, live⟩ := staked
      simp only [requesterStep] at step
      split at step
      next free =>
        cases step
        exact ⟨.setLock words (.inl free) (.inr rfl), ⟨issued, here, live⟩, iff_of_true rfl trivial⟩
      · cases step
    | _ => cases step
  | drop =>
    cases r with
    | guarding id =>
      obtain ⟨issued, here, live⟩ := staked
      cases step
      refine ⟨?_, ⟨issued, here, live.1, fun _ => rfl⟩, lock⟩
      exact @Harmless.setToken _ _ _ words runqueueTokenFree s.abandoned live.1
        fun gone => by rw [live.2.2] at gone; cases gone
    | _ => cases step
  | step =>
    cases r with
    | idle | guarding => cases step
    | claiming id left =>
      obtain ⟨issued, other, absent⟩ := staked
      cases left with
      | zero =>
        cases step
        exact ⟨.refl i words, ⟨issued, .inl ⟨other, absent⟩⟩, lock⟩
      | succ left =>
        simp only [requesterStep] at step
        split at step
        next empty =>
          cases step
          refine ⟨.mailbox words (.inl (not_filler_of_empty empty)) (.inr rfl) rfl ?_,
            ⟨issued, other, rfl⟩, lock⟩
          rw [empty]
          exact fun granted => by cases granted
        cases step
        exact ⟨.refl i words, ⟨issued, other, absent⟩, lock⟩
    | storeRequester id =>
      cases step
      exact ⟨.setRequester words, staked, lock⟩
    | storeId id =>
      cases step
      obtain ⟨issued, other, filling⟩ := staked
      exact ⟨.setId words issued filling, ⟨issued, rfl, filling⟩, lock⟩
    | storePending id =>
      cases step
      obtain ⟨issued, here, filling⟩ := staked
      refine ⟨.mailbox words (.inr (by rw [filling]; rfl)) (.inr rfl) rfl ?_,
        ⟨issued, .inr ⟨here, .inl rfl⟩⟩, lock⟩
      rw [filling]
      exact fun granted => by cases granted
    | polling id left =>
      obtain ⟨issued, place⟩ := staked
      cases left with
      | zero =>
        cases step
        exact ⟨.refl i words, ⟨issued, place⟩, lock⟩
      | succ left =>
        cases step
        refine ⟨.refl i words, ?_⟩
        split
        next here =>
          rcases place with ⟨other, _⟩ | ⟨_, waits⟩
          · exact absurd here other
          · exact ⟨⟨issued, here, waits⟩, lock⟩
        · exact ⟨⟨issued, place⟩, lock⟩
    | checking id left =>
      obtain ⟨issued, here, waits⟩ := staked
      cases step
      refine ⟨.refl i words, ?_⟩
      split
      next granted =>
        rcases waits with pending | live
        · rw [pending] at granted
          cases granted
        · exact ⟨⟨issued, here, live⟩, lock⟩
      · exact ⟨⟨issued, .inr ⟨here, waits⟩⟩, lock⟩
    | changing id =>
      cases step
      exact ⟨.setLock words (.inr (lock.mpr trivial)) (.inl rfl), staked,
        iff_of_false (fun held => by cases held) fun inside => inside⟩
    | dropLoad id =>
      cases step
      obtain ⟨issued, here, granted, free⟩ := staked
      rw [if_pos here]
      exact ⟨.refl i words, ⟨issued, here, granted, free⟩, lock⟩
    | dropStore id =>
      cases step
      obtain ⟨_, _, granted, free⟩ := staked
      exact ⟨.close words granted free, nofun, lock⟩
    | cancelLoad id =>
      cases step
      obtain ⟨issued, ⟨other, absent⟩ | ⟨here, waits⟩⟩ := staked
      · rw [if_pos other]
        exact ⟨.refl i words, absent, lock⟩
      rw [if_neg (not_not.mpr here)]
      exact ⟨.refl i words, ⟨issued, here, waits⟩, lock⟩
    | cancelPending id =>
      obtain ⟨issued, here, pending | live⟩ := staked
      · simp only [requesterStep, pending] at step
        cases step
        refine ⟨.mailbox words (.inr (by rw [pending]; rfl)) (.inl rfl) rfl ?_, nofun, lock⟩
        rw [pending]
        exact fun granted => by cases granted
      simp only [requesterStep, live.1] at step
      cases step
      exact ⟨.refl i words, ⟨issued, here, live⟩, lock⟩
    | cancelReload id =>
      cases step
      obtain ⟨issued, here, live⟩ := staked
      rw [if_pos here]
      exact ⟨.refl i words, ⟨issued, here, live⟩, lock⟩
    | cancelState id =>
      cases step
      obtain ⟨issued, here, live⟩ := staked
      rw [live.1]
      exact ⟨.refl i words, ⟨issued, here, live⟩, lock⟩
    | cancelToken id =>
      obtain ⟨issued, here, live⟩ := staked
      simp only [requesterStep] at step
      split at step
      · cases step
        refine ⟨?_, ⟨issued, here, live.1, fun _ => rfl⟩, lock⟩
        exact @Harmless.setToken _ _ _ words runqueueTokenFree s.abandoned live.1
          fun gone => by rw [live.2.2] at gone; cases gone
      cases step
      -- the token is taken in another name and stays so
      refine ⟨?_, ⟨issued, here, live.1, fun kept => ?_⟩, lock⟩
      · exact @Harmless.setToken _ _ _ words s.token _ live.1 fun _ => live.2.1
      rw [live.2.2, decide_eq_true live.2.1] at kept
      cases kept
    | cancelGranted id =>
      obtain ⟨_, _, granted, free⟩ := staked
      simp only [requesterStep, granted] at step
      cases step
      exact ⟨.close words granted free, nofun, lock⟩

/-- The owner touches the token only while no request is granted. -/
theorem Apart.setToken (i : Requester cpu) (token : Nat) (closed : s.mailbox.isGranted = false) :
    Apart i s { s with token } := by
  refine ⟨id, fun _ => rfl, fun _ => id, fun _ => .inl rfl, id, fun granted => ?_, Iff.rfl⟩
  rw [granted] at closed
  cases closed

theorem Apart.grant (i j : Requester cpu) (pending : s.mailbox = .pending j)
    (taken : s.token ≠ runqueueTokenFree) (kept : s.abandoned = false) :
    Apart i s { s with mailbox := .granted j } := by
  have filler : s.mailbox.filler = some j := by rw [pending]; rfl
  refine ⟨id, fun _ => rfl, fun _ => id, fun here => ?_, fun absent => ?_, fun granted => ?_, Iff.rfl⟩
  · obtain rfl : j = i := some.inj (filler.symm.trans here)
    exact .inr ⟨pending, rfl, taken, kept⟩
  · rw [filler] at absent
    exact absent
  rw [pending] at granted
  cases granted

theorem Apart.setLock (i : Requester cpu) {lock : Option Nat}
    (pre : s.lock = none ∨ s.lock = some cpu.1) (after : lock = none ∨ lock = some cpu.1) :
    Apart i s { s with lock } := by
  have out : ∀ {o : Option Nat}, o = none ∨ o = some cpu.1 → o ≠ some i.1.1 := by
    rintro o (rfl | rfl) eq
    · cases eq
    · exact i.2 (Fin.ext (some.inj eq).symm)
  exact ⟨id, fun _ => rfl, fun _ => id, fun _ => .inl rfl, id, fun _ => ⟨rfl, rfl⟩,
    iff_of_false (out after) (out pre)⟩

theorem WordFacts.setLock (words : WordFacts s) (lock : Option Nat) :
    WordFacts { s with lock } :=
  ⟨words.issued, words.current, words.next, words.requester, words.abandoned⟩

theorem requester_ne_free {requester : Nat} (lt : requester < kernelCpus) :
    requester ≠ runqueueTokenFree := by
  have small : kernelCpus < runqueueTokenFree := by decide
  omega

theorem tokenOwnerStep_facts {move : OwnerMove} {r r' : OwnerStage} {log : List Empty}
    (words : WordFacts s) (facts : TokenOwnerFacts s r)
    (step : tokenOwnerStep move r s = some (r', s', log)) :
    WordFacts s' ∧ TokenOwnerFacts s' r' ∧ ∀ i, Apart i s s' := by
  have still : ∀ i, Apart i s s := fun i => .refl i s
  cases move with
  | process =>
    cases r with
    | idle =>
      cases step
      exact ⟨words, facts, still⟩
    | _ => cases step
  | tick =>
    cases r with
    | idle =>
      simp only [tokenOwnerStep] at step
      split at step
      next free =>
        cases step
        exact ⟨words.setLock _, ⟨rfl, facts.2⟩, fun i => .setLock i (.inl free) (.inr rfl)⟩
      · cases step
    | _ => cases step
  | elsewhere =>
    cases r with
    | idle =>
      cases step
      exact ⟨words.counted, facts, fun i => ⟨id, fun _ => rfl, fun _ => id, fun _ => .inl rfl, id,
        fun _ => ⟨rfl, rfl⟩, Iff.rfl⟩⟩
    | _ => cases step
  | step =>
    cases r with
    | idle => cases step
    | loadState =>
      cases held : s.mailbox with
      | pending j =>
        simp only [tokenOwnerStep, held] at step
        cases step
        refine ⟨words, ⟨facts.1, by rw [held]; rfl, fun taken => ?_⟩, still⟩
        cases gone : s.abandoned with
        | true => rfl
        | false =>
          have granted := facts.2 taken gone
          rw [held] at granted
          cases granted
      | _ =>
        simp only [tokenOwnerStep, held] at step
        cases step
        exact ⟨words, facts, still⟩
    | loadRequester =>
      cases step
      obtain ⟨lock, closed, taken⟩ := facts
      rw [if_neg (not_le.mpr words.requester)]
      exact ⟨words, ⟨lock, closed, taken, words.requester⟩, still⟩
    | takeToken requester =>
      obtain ⟨lock, closed, taken, inside⟩ := facts
      simp only [tokenOwnerStep] at step
      split at step
      next free =>
        cases step
        have kept : s.abandoned = false := by
          cases gone : s.abandoned with
          | false => rfl
          | true => exact absurd free (words.abandoned gone)
        exact ⟨⟨words.issued, words.current, words.next, words.requester,
          fun _ => requester_ne_free inside⟩,
          ⟨lock, closed, requester_ne_free inside, kept⟩, fun i => .setToken i _ closed⟩
      next busy =>
      cases step
      refine ⟨words, ⟨lock, fun _ kept => ?_⟩, still⟩
      rw [taken busy] at kept
      cases kept
    | grant =>
      obtain ⟨lock, closed, taken, kept⟩ := facts
      cases held : s.mailbox with
      | pending j =>
        simp only [tokenOwnerStep, held] at step
        cases step
        exact ⟨⟨words.issued, words.current, words.next, words.requester, words.abandoned⟩,
          ⟨lock, fun _ _ => rfl⟩, fun i => .grant i j held taken kept⟩
      | _ =>
        simp only [tokenOwnerStep, held] at step
        cases step
        exact ⟨words, ⟨lock, closed, taken, kept⟩, still⟩
    | freeToken =>
      obtain ⟨lock, closed, _, kept⟩ := facts
      cases step
      refine ⟨⟨words.issued, words.current, words.next, words.requester, fun gone => ?_⟩,
        ⟨lock, fun taken => absurd rfl taken⟩, fun i => .setToken i _ closed⟩
      rw [kept] at gone
      cases gone
    | clearMailbox => exact facts.elim
    | ticking =>
      cases step
      exact ⟨words.setLock _, ⟨nofun, facts.2⟩, fun i => .setLock i (.inr facts.1) (.inl rfl)⟩

def TokenFacts : ∀ t : Option (Requester cpu), TokenPoint cpu t → TokenWords cpu → List Empty → Prop
  | none, r, s, _ => TokenOwnerFacts s r
  | some i, r, s, _ => RequesterFacts i s r

theorem tokenOutline (cpu : Fin kernelCpus) :
    Program.Outline (tokenProgram cpu) FreshNumber (fun s _ => WordFacts s) TokenFacts where
  own := by
    intro c t k r s log fresh words facts step
    cases t with
    | none =>
      obtain ⟨after, here, _⟩ := tokenOwnerStep_facts words (facts none) step
      exact ⟨after, here⟩
    | some i =>
      obtain ⟨harmless, here⟩ := requesterStep_facts words (facts (some i)) fresh step
      exact ⟨harmless.words, here⟩
  others := by
    intro c t u k r s log fresh ne words facts step
    cases t with
    | none =>
      obtain ⟨_, _, apart⟩ := tokenOwnerStep_facts words (facts none) step
      cases u with
      | none => exact absurd rfl ne
      | some j => exact RequesterFacts.apart (facts (some j)) (apart j)
    | some i =>
      obtain ⟨harmless, _⟩ := requesterStep_facts words (facts (some i)) fresh step
      cases u with
      | none => exact TokenOwnerFacts.apart (facts none) harmless.owner
      | some j =>
        refine RequesterFacts.apart (facts (some j)) (harmless.others j fun eq => ?_)
        exact ne (congrArg some eq.symm)

theorem tokenStart_facts (cpu : Fin kernelCpus) : WordFacts (tokenStart cpu).shared ∧
    ∀ t, TokenFacts t ((tokenStart cpu).threads t) (tokenStart cpu).shared (tokenStart cpu).log := by
  refine ⟨⟨nofun, Nat.le_refl 0, rfl, Nat.zero_lt_succ _, nofun⟩, fun t => ?_⟩
  cases t with
  | none => exact ⟨nofun, fun taken => absurd rfl taken⟩
  | some i => exact ⟨nofun, iff_of_false nofun fun inside => inside⟩

theorem token_facts {c : TokenConfig cpu}
    (run : Runs (Program.Step (tokenProgram cpu)) FreshNumber (tokenStart cpu) c) :
    WordFacts c.shared ∧ TokenOwnerFacts c.shared (ownerAt c) ∧
      ∀ i, RequesterFacts i c.shared (requesterAt c i) := by
  obtain ⟨words, points⟩ := (tokenOutline cpu).holds (tokenStart_facts cpu).1 (tokenStart_facts cpu).2 run
  exact ⟨words, points none, fun i => points (some i)⟩

def RequesterPoint.Guards : RequesterPoint → Prop
  | .guarding _ | .changing _ => True
  | _ => False

theorem RequesterFacts.granted {r : RequesterPoint} (facts : RequesterFacts i s r)
    (guards : r.Guards) : s.mailbox = .granted i := by
  cases r with
  | guarding id => exact facts.staked.2.2.1
  | changing id => exact facts.staked.2.2.1
  | _ => exact guards.elim

/-- As long as the numbers of the requests do not repeat, at most one guard is alive. The run
queue itself is changed by one processor at a time, under its lock: the guard alone does not keep
the owner out. -/
theorem guards_exclusive {c : TokenConfig cpu}
    (run : Runs (Program.Step (tokenProgram cpu)) FreshNumber (tokenStart cpu) c) :
    (∀ i j, (requesterAt c i).Guards → (requesterAt c j).Guards → i = j) ∧
      ∀ i, (requesterAt c i).Inside → ownerAt c ≠ .ticking ∧ ∀ j, (requesterAt c j).Inside → j = i := by
  obtain ⟨words, owner, requesters⟩ := token_facts run
  refine ⟨fun i j first second => ?_, fun i inside => ⟨fun ticking => ?_, fun j other => ?_⟩⟩
  · have one := (requesters i).granted first
    have two := (requesters j).granted second
    exact Mailbox.granted.inj (one.symm.trans two)
  · rw [ticking] at owner
    have held := (requesters i).lock.mpr inside
    exact i.2 (Fin.ext (some.inj (held.symm.trans owner.1)))
  have first := (requesters i).lock.mpr inside
  have second := (requesters j).lock.mpr other
  exact Subtype.ext (Fin.ext (some.inj (second.symm.trans first)))

def bootCpu : Fin kernelCpus := ⟨0, zero_lt_kernelCpus⟩

def secondCpu : Requester bootCpu := ⟨⟨1, by decide⟩, by decide⟩

def askedConfig : TokenConfig bootCpu :=
  ⟨new.numbered secondCpu,
    update (tokenStart bootCpu).threads (some secondCpu) (RequesterPoint.claiming 1 tokenWaitIters), []⟩

def grantSteps : List (Σ t, TokenChoice bootCpu t) :=
  List.replicate 4 ⟨some secondCpu, step⟩ ++
    ⟨none, OwnerMove.process⟩ :: List.replicate 4 ⟨none, OwnerMove.step⟩ ++
    List.replicate 2 ⟨some secondCpu, step⟩

theorem asked_reached :
    Runs (Program.Step (tokenProgram bootCpu)) FreshNumber (tokenStart bootCpu) askedConfig :=
  @Runs.one _ _ _ _ _ _ ⟨some secondCpu, request⟩ (fun _ => by decide) ⟨_, _, [], rfl, rfl⟩

theorem granted_reached :
    ∃ c : TokenConfig bootCpu,
      Runs (Program.Step (tokenProgram bootCpu)) FreshNumber (tokenStart bootCpu) c ∧
      (requesterAt c secondCpu).Guards ∧ ownerAt c = .idle ∧ c.shared.lock = none :=
  ⟨_, asked_reached.trans (Program.run_runs_of (fresh_of_not_numbers grantSteps (by decide)) rfl),
    trivial, rfl, rfl⟩

/-- A granted request under way, with its guard alive. -/
theorem guards_exclusive_granted :
    ∃ c : TokenConfig bootCpu,
      Runs (Program.Step (tokenProgram bootCpu)) FreshNumber (tokenStart bootCpu) c ∧
      (requesterAt c secondCpu).Guards ∧
      ∀ j, (requesterAt c j).Guards → j = secondCpu := by
  obtain ⟨c, reached, guards, -⟩ := granted_reached
  exact ⟨c, reached, guards, fun j other => (guards_exclusive reached).1 j secondCpu other guards⟩

/-- The owner changes its run queue while the guard of another processor is alive. -/
theorem owner_ticks_under_guard :
    ∃ c : TokenConfig bootCpu,
      Runs (Program.Step (tokenProgram bootCpu)) FreshNumber (tokenStart bootCpu) c ∧
      (requesterAt c secondCpu).Guards ∧ ownerAt c = .ticking := by
  refine ⟨_, (asked_reached.trans (Program.run_runs_of
    (fresh_of_not_numbers grantSteps (by decide)) rfl)).next (k := ⟨none, OwnerMove.tick⟩)
    (fun numbers => numbers.elim) ⟨_, _, [], rfl, rfl⟩, ?_, rfl⟩
  trivial

end HuesOS.Sched
