import HuesOS.Ipc.Handles
import HuesOS.Lib.Lists

namespace HuesOS.Ipc
open List Option HandleTable
open Object

theorem count_first (first : Koid) (rest : List Koid) (k : Koid) :
    (first :: rest).count k = [first].count k + rest.count k := by
  rw [← count_append, singleton_append]

theorem count_here (koids : List Koid) (koid k : Koid) :
    koids.count k = if k = koid then koids.count koid else koids.count k := by
  split
  next eq => rw [eq]
  · rfl

namespace HandleTable
variable {t t' : HandleTable} {value i : HandleValue} {handle h : Handle} {k : Koid}

def ofSlot (slot : Option Handle) : List Koid := (slot.map Handle.koid).toList

theorem koids_eq_flatMap (t : HandleTable) : t.koids = t.flatMap ofSlot := by
  rw [koids, filterMap_eq_flatMap_toList]
  rfl

theorem count_koids_set {slot : Option Handle} (found : t[i]? = some slot) (new : Option Handle) :
    (ofSlot slot).count k + (koids (t.set i new)).count k = (ofSlot new).count k + t.koids.count k := by
  have perm := (Lists.flatMap_set_perm ofSlot found new).count_eq k
  simpa only [koids_eq_flatMap, count_append] using perm

theorem count_koids_vacate (found : t[i]?.join = some handle) :
    t.koids.count k = [handle.koid].count k + (t.vacate i).koids.count k := by
  have slot : t[i]? = some (some handle) := by simpa [join_eq_some_iff] using found
  have counts := count_koids_set (k := k) slot none
  simp only [ofSlot, map_some, map_none, toList_some, toList_none, count_nil] at counts
  rw [vacate]
  omega

theorem get_join (found : t.get value = some handle) : t[value]?.join = some handle := by
  unfold get at found
  split at found
  · cases found
  · exact found

theorem koids_reserved : t.reserved.koids = t.koids := by
  unfold reserved
  split
  next empty =>
    rw [isEmpty_iff.mp empty]
    rfl
  · rfl

theorem join_reserved (found : t[i]?.join = some handle) : t.reserved[i]?.join = some handle := by
  unfold reserved
  split
  next empty =>
    rw [isEmpty_iff.mp empty] at found
    simp at found
  · exact found

theorem addExisting_spec (t : HandleTable) (handle : Handle) :
    (t.addExisting handle).2[(t.addExisting handle).1]?.join = some handle ∧
      (∀ k, (t.addExisting handle).2.koids.count k = [handle.koid].count k + t.koids.count k) ∧
      ∀ i h, t[i]?.join = some h →
        i ≠ (t.addExisting handle).1 ∧ (t.addExisting handle).2[i]?.join = some h := by
  have eq : t.reserved.koids = t.koids := koids_reserved
  have kept := fun i h (found : t[i]?.join = some h) => join_reserved found
  unfold addExisting
  generalize t.reserved = r at kept eq
  rw [← eq]
  split
  next relative free =>
    have slot : r[relative + 1]? = some none := by
      obtain ⟨inside, empty, -⟩ := findIdx?_eq_some_iff_getElem.mp free
      rw [length_drop] at inside
      rw [getElem?_eq_getElem (by omega)]
      simpa [Nat.add_comm] using empty
    have inside : relative + 1 < r.length := (List.getElem?_eq_some_iff.mp slot).1
    refine ⟨by simp [inside], fun k => ?_, fun i h found => ?_⟩
    · have counts := count_koids_set (k := k) slot (some handle)
      simp only [ofSlot, map_some, map_none, toList_some, toList_none, count_nil] at counts
      dsimp only
      omega
    have other : i ≠ relative + 1 := by
      rintro rfl
      have taken := kept _ h found
      rw [slot] at taken
      cases taken
    refine ⟨other, ?_⟩
    rw [getElem?_set_ne (Ne.symm other)]
    exact kept i h found
  refine ⟨by simp, fun k => ?_, fun i h found => ?_⟩
  · simp [koids, Nat.add_comm]
  have inside : i < r.length := by
    by_contra beyond
    have taken := kept i h found
    rw [getElem?_eq_none (not_lt.mp beyond)] at taken
    cases taken
  refine ⟨ne_of_lt inside, ?_⟩
  rw [getElem?_append_left inside]
  exact kept i h found

theorem count_koids_addExistingMany (handles : List Handle) (t : HandleTable) (k : Koid) :
    (t.addExistingMany handles).2.koids.count k = (handles.map Handle.koid).count k + t.koids.count k := by
  induction handles generalizing t with
  | nil => simp [addExistingMany]
  | cons handle rest ih =>
    have first := (addExisting_spec t handle).2.1 k
    have more := count_first handle.koid (rest.map Handle.koid) k
    rw [addExistingMany, ih, first, map_cons]
    omega

theorem length_addExistingMany (handles : List Handle) (t : HandleTable) :
    (t.addExistingMany handles).1.length = handles.length := by
  induction handles generalizing t with
  | nil => rfl
  | cons handle rest ih => rw [addExistingMany, length_cons, ih, length_cons]

theorem takeBack_spec (values : List HandleValue) (t : HandleTable) :
    (t.takeBack values).1.length ≤ values.length ∧
      ∀ k, t.koids.count k = (t.takeBack values).1.count k + (t.takeBack values).2.koids.count k := by
  induction values generalizing t with
  | nil => simp [takeBack]
  | cons value rest ih =>
    rw [takeBack]
    split
    · obtain ⟨len, counts⟩ := ih t
      exact ⟨Nat.le_succ_of_le len, counts⟩
    next handle found =>
    obtain ⟨len, counts⟩ := ih (t.vacate value)
    refine ⟨Nat.succ_le_succ len, fun k => ?_⟩
    have more := count_first handle.koid (takeBack rest (t.vacate value)).1 k
    rw [count_koids_vacate found, counts k]
    dsimp only
    omega

theorem koids_clear : t.clear.koids = [] := by
  simp [koids, clear]

theorem restoreExistingAt_spec (value : HandleValue) (handle : Handle) (t : HandleTable) :
    (∃ t', t.restoreExistingAt value handle = (.error handle, t') ∧ t'.koids = t.koids) ∨
      ∃ t', t.restoreExistingAt value handle = (.ok (), t') ∧
        ∀ k, t'.koids.count k = [handle.koid].count k + t.koids.count k := by
  have longer : ∀ n, koids (t ++ List.replicate n none) = t.koids := by
    intro n
    simp [koids]
  unfold restoreExistingAt
  by_cases zero : value = 0
  · exact .inl ⟨t, by rw [if_pos zero], rfl⟩
  rw [if_neg zero]
  dsimp only
  have lt : value < (t ++ List.replicate (value + 1 - t.length) none).length := by
    rw [length_append, length_replicate, Nat.add_comm]
    exact Nat.le_add_of_sub_le le_rfl
  have eq := longer (value + 1 - t.length)
  generalize t ++ List.replicate (value + 1 - t.length) none = r at lt eq
  cases found : get r value with
  | some taken => exact .inl ⟨r, rfl, eq⟩
  | none =>
    refine .inr ⟨_, rfl, fun k => ?_⟩
    have slot : r[value]? = some none := by
      rw [get, if_neg zero, getElem?_eq_getElem lt] at found
      rw [getElem?_eq_getElem lt]
      exact congrArg some found
    have counts := count_koids_set (k := k) slot (some handle)
    simp only [ofSlot, map_some, map_none, toList_some, toList_none, count_nil] at counts
    rw [← eq]
    omega

theorem get_vacate (other : i ≠ value) : (t.vacate value).get i = t.get i := by
  unfold get vacate
  rw [getElem?_set_ne (Ne.symm other)]

theorem takeMany_spec (values : List HandleValue) (t : HandleTable) (once : values.Nodup)
    (there : ∀ value ∈ values, (t.get value).isSome = true) :
    ∃ handles t', t.takeMany values = (.ok handles, t') ∧
      ∀ k, t.koids.count k = (handles.1.map Handle.koid).count k + t'.koids.count k := by
  induction values generalizing t with
  | nil => exact ⟨⟨[], rfl⟩, t, rfl, fun k => by simp⟩
  | cons value rest ih =>
    obtain ⟨absent, once⟩ := nodup_cons.mp once
    obtain ⟨handle, found⟩ := isSome_iff_exists.mp (there value mem_cons_self)
    obtain ⟨handles, t', taken, counts⟩ := ih (t.vacate value) once (by
      intro other mem
      have ne : other ≠ value := by
        rintro rfl
        exact absent mem
      rw [get_vacate ne]
      exact there other (.tail _ mem))
    refine ⟨⟨handle :: handles.1, congrArg (· + 1) handles.2⟩, t', ?_, fun k => ?_⟩
    · rw [takeMany, found]
      rw [taken]
    have more := count_first handle.koid (handles.1.map Handle.koid) k
    rw [count_koids_vacate (get_join found), counts k, map_cons]
    omega

theorem checkMany_ok {pre values : List HandleValue} (ok : t.checkMany pre values = .ok ()) :
    values.Nodup ∧ (∀ value ∈ values, value ∉ pre) ∧ ∀ value ∈ values, (t.get value).isSome = true := by
  induction values generalizing pre with
  | nil => exact ⟨.nil, nofun, nofun⟩
  | cons value rest ih =>
    rw [checkMany] at ok
    split at ok
    · cases ok
    next new =>
    split at ok
    · cases ok
    next there =>
    obtain ⟨once, apart, present⟩ := ih ok
    refine ⟨nodup_cons.mpr ⟨fun mem => ?_, once⟩, ?_, ?_⟩
    · exact apart value mem mem_cons_self
    · refine forall_mem_cons.mpr ⟨new, fun other mem old => ?_⟩
      exact apart other mem (.tail _ old)
    refine forall_mem_cons.mpr ⟨?_, present⟩
    simpa [isSome_iff_ne_none] using there

theorem removeManyKeepAlive_spec (values : List HandleValue) (storage : Bool) (t : HandleTable) :
    (∃ e, t.removeManyKeepAlive values storage = (.error e, t)) ∨
      ∃ handles t', t.removeManyKeepAlive values storage = (.ok handles, t') ∧
        ∀ k, t.koids.count k = (handles.1.map Handle.koid).count k + t'.koids.count k := by
  unfold removeManyKeepAlive
  cases checked : t.checkMany [] values with
  | error e => exact .inl ⟨e, rfl⟩
  | ok _ =>
    obtain ⟨once, -, there⟩ := checkMany_ok checked
    cases storage with
    | false => exact .inl ⟨_, rfl⟩
    | true => exact .inr (takeMany_spec values t once there)

end HandleTable

def ChannelPair.koids (c : ChannelPair) : List Koid := c.toFirst.koids ++ c.toSecond.koids

namespace MessageQueue
variable {q q' : MessageQueue} {message : ChannelMessage} {k : Koid}

theorem koids_enqueue (sent : q.enqueue message = (.ok (), q')) : q'.koids = q.koids ++ message.koids := by
  unfold enqueue at sent
  dsimp only at sent
  split at sent
  · cases sent
  split at sent <;> cases sent
  simp [koids, ChannelMessage.koids]

theorem koids_dequeue (got : q.dequeue = (some message, q')) : q.koids = message.koids ++ q'.koids := by
  unfold dequeue at got
  split at got
  · cases got
  next first rest found =>
  cases got
  simp [koids, found]

theorem fetch_some {cookie : Option UInt64} {byteCapacity handleCapacity : Nat}
    (got : HandleWorld.fetch cookie byteCapacity handleCapacity q = (.ok (some message), q')) :
    q.dequeue = (some message, q') ∧ message.handles.asList.length ≤ handleCapacity := by
  have fits : ∀ front, q.messages.head? = some front → ¬handleCapacity < front.handleCount →
      ((.ok q.dequeue.1, q.dequeue.2) : Except ChannelRecvError (Option ChannelMessage) × _) =
        (.ok (some message), q') →
      q.dequeue = (some message, q') ∧ message.handles.asList.length ≤ handleCapacity := by
    intro front found few eq
    simp only [Prod.mk.injEq, Except.ok.injEq] at eq
    have here : q.dequeue = (some message, q') := Prod.ext eq.1 eq.2
    refine ⟨here, ?_⟩
    cases all : q.messages with
    | nil =>
      rw [all] at found
      cases found
    | cons first rest =>
      rw [all] at found
      cases found
      simp only [dequeue, all, Prod.mk.injEq, Option.some.injEq] at here
      rw [← here.1, Stored.length_asList]
      exact not_lt.mp few
  unfold HandleWorld.fetch at got
  cases cookie with
  | none =>
    simp only [recvIfFits] at got
    split at got
    · cases got
    next front found =>
    split at got
    · cases got
    split at got
    · cases got
    next few => exact fits front found few got
  | some cookie =>
    simp only [consumeIfFits] at got
    split at got
    · cases got
    next front found =>
    split at got
    · cases got
    split at got
    · cases got
    split at got
    · cases got
    next few => exact fits front found few got

end MessageQueue

theorem ChannelPair.count_koids_setInbox (c : ChannelPair) (second : Bool) (q : MessageQueue)
    (k : Koid) : (c.setInbox second q).koids.count k + (c.inbox second).koids.count k =
      c.koids.count k + q.koids.count k := by
  cases second <;> simp [ChannelPair.koids, setInbox, inbox] <;> omega

namespace HandleWorld
variable {w w' : HandleWorld} {pid pair : Nat} {p : HandleProcess} {c : ChannelPair} {k : Koid}

theorem named_setTable (found : w.processes[pid]? = some p) (t : HandleTable) :
    (p.table.koids ++ (w.setTable pid t).named).Perm (t.koids ++ w.named) := by
  have modified : (w.processes.modify pid fun p => { p with table := t }) =
      w.processes.set pid { p with table := t } := by
    rw [modify_eq_set_getElem?, found]
    rfl
  have tables := Lists.flatMap_set_perm (fun p : HandleProcess => p.table.koids) found { p with table := t }
  simp only [named, inTables, inFlight, setTable, modified]
  simp only [← append_assoc]
  exact (tables.append_right _).append_right _

theorem named_setChannel (found : w.channels[pair]? = some c) (c' : ChannelPair) :
    (c.koids ++ (w.setChannel pair c').named).Perm (c'.koids ++ w.named) := by
  have channels := Lists.flatMap_set_perm ChannelPair.koids found c'
  have around : ∀ (a b : List Koid), (a ++ (w.inTables ++ b ++ w.closing)).Perm
      (w.inTables ++ (a ++ b) ++ w.closing) := by
    intro a b
    rw [append_assoc, append_assoc, append_assoc]
    exact perm_append_comm_assoc _ _ _
  refine (around _ _).trans (List.Perm.trans ?_ (around _ _).symm)
  exact (channels.append_left _).append_right _

theorem named_closeAll {koids : List Koid} : (w.closeAll koids).named.Perm (koids ++ w.named) := by
  exact perm_append_comm_assoc _ _ _

theorem count_setTable (found : w.processes[pid]? = some p) (t : HandleTable) (k : Koid) :
    (w.setTable pid t).named.count k + p.table.koids.count k = w.named.count k + t.koids.count k := by
  have counts := (named_setTable found t).count_eq k
  rw [count_append, count_append] at counts
  omega

theorem count_setChannel (found : w.channels[pair]? = some c) (c' : ChannelPair) (k : Koid) :
    (w.setChannel pair c').named.count k + c.koids.count k = w.named.count k + c'.koids.count k := by
  have counts := (named_setChannel found c').count_eq k
  rw [count_append, count_append] at counts
  omega

theorem count_closeAll {koids : List Koid} (k : Koid) :
    (w.closeAll koids).named.count k = w.named.count k + koids.count k := by
  have perm : (w.closeAll koids).named.Perm (koids ++ w.named) := named_closeAll
  have counts := perm.count_eq k
  rw [count_append] at counts
  omega

/-- What an object held is still there when it goes, on the list of what is to be closed. -/
theorem named_dropObject (kind : ObjectKind) : (w.dropObject kind).named.Perm w.named := by
  cases kind with
  | endpoint pair second =>
    rw [dropObject]
    cases found : w.channels[pair]? with
    | none => exact .refl _
    | some c =>
      dsimp only
      have eq : (c.kill second).koids = c.koids := by cases second <;> rfl
      split
      · have kept := named_setChannel found (c.kill second)
        rw [eq] at kept
        exact (perm_append_left_iff _).mp kept
      refine named_closeAll.trans ?_
      have emptied := named_setChannel found { c.kill second with
        toFirst := { (c.kill second).toFirst with messages := [] }
        toSecond := { (c.kill second).toSecond with messages := [] } }
      refine List.Perm.trans (List.Perm.append_right _ ?_) emptied
      cases second
      · exact .refl _
      · exact perm_append_comm
  | process pid =>
    rw [dropObject]
    cases found : w.processes[pid]? with
    | none => exact .refl _
    | some p =>
      refine named_closeAll.trans ?_
      have cleared := named_setTable found p.table.clear
      rw [koids_clear] at cleared
      exact cleared
  | job => exact .refl _
  | plain => exact .refl _

def books (w : HandleWorld) : Registry ObjectKind × List Koid × List RegistryEvent × Koid :=
  (w.registry, w.kernelRefs, w.log, w.nextKoid)

theorem dropObject_books (kind : ObjectKind) : (w.dropObject kind).books = w.books := by
  cases kind with
  | endpoint pair second =>
    rw [dropObject]
    split
    · rfl
    dsimp only
    split <;> rfl
  | process pid =>
    rw [dropObject]
    split <;> rfl
  | job | plain => rfl

theorem giveUp_same (koid : Koid) (removed : Option ObjectKind) :
    (w.giveUp koid removed).named.Perm w.named ∧ (w.giveUp koid removed).books =
      { w with log := if removed.isSome then .collected koid :: w.log else w.log }.books := by
  cases removed with
  | none => exact ⟨.refl _, rfl⟩
  | some kind =>
    rw [giveUp]
    split
    · exact ⟨.refl _, rfl⟩
    · exact ⟨(named_dropObject kind).trans (.refl _), dropObject_books kind⟩

def handleCount (w : HandleWorld) (k : Koid) : Nat :=
  ((w.registry.account k).map RefAccount.handleRefs).getD 0

def kernelCount (w : HandleWorld) (k : Koid) : Nat :=
  ((w.registry.account k).map RefAccount.kernelRefs).getD 0

structure KoidView where
  account : Option RefAccount
  present : Bool
  handles : Nat
  kernelRefs : Nat
  opened : Bool
  collections : Nat
  removed : Bool

def view (w : HandleWorld) (k : Koid) : KoidView where
  account := w.registry.account k
  present := (w.registry.object k).isSome
  handles := w.named.count k
  kernelRefs := w.kernelRefs.count k
  opened := .opened k ∈ w.log
  collections := w.log.count (.collected k)
  removed := .removed k ∈ w.log

structure KoidView.Known (k next : Koid) (inUse : Prop) (v : KoidView) : Prop where
  account : v.account = some ⟨v.handles, v.kernelRefs, true, false⟩
  present : v.present = true
  valid : k ≠ 0
  old : k < next
  alive : v.collections = 0
  used : inUse → v.opened = true → 0 < v.handles + v.kernelRefs
  kept : v.removed = false

structure KoidView.Unknown (k next : Koid) (v : KoidView) : Prop where
  account : v.account = none
  present : v.present = false
  handles : v.handles = 0
  kernelRefs : v.kernelRefs = 0
  gone : v.opened = true → v.collections = 1
  once : v.collections ≤ 1
  old : 0 < v.collections → k < next
  kept : v.removed = false

def KoidView.Sound (k next : Koid) (inUse : Prop) (v : KoidView) : Prop :=
  v.Known k next inUse ∨ v.Unknown k next

theorem KoidView.Sound.mono {v : KoidView} {next next' : Koid} {inUse inUse' : Prop}
    (h : v.Sound k next inUse) (later : next ≤ next') (weaker : inUse' → inUse) :
    v.Sound k next' inUse' := by
  rcases h with h | h
  · exact .inl { h with
      old := lt_of_lt_of_le h.old later
      used := fun strict => h.used (weaker strict) }
  · exact .inr { h with old := fun seen => lt_of_lt_of_le (h.old seen) later }

/-- The facts that hold between any two steps, for all objects but one: that one may be out of use
and still be registered. -/
structure SoundBut (but : Koid → Prop) (w : HandleWorld) : Prop where
  views : ∀ k, (w.view k).Sound k w.nextKoid (¬but k)
  positive : 0 < w.nextKoid

abbrev Sound (w : HandleWorld) : Prop := SoundBut (fun _ => False) w

variable {but : Koid → Prop} {koid : Koid} {a : RefAccount}

namespace SoundBut
variable (h : w.SoundBut but)
include h

theorem known (found : (w.registry.account k).isSome = true) : (w.view k).Known k w.nextKoid (¬but k) := by
  refine (h.views k).resolve_right fun unknown => ?_
  rw [show w.registry.account k = none from unknown.account] at found
  cases found

theorem unknown (missing : w.registry.account k = none) : (w.view k).Unknown k w.nextKoid := by
  refine (h.views k).resolve_left fun known => ?_
  cases missing.symm.trans known.account

theorem fresh (later : w.nextKoid ≤ k) :
    (w.view k).Unknown k w.nextKoid :=
  (h.views k).resolve_left fun known => not_lt.mpr later known.old

theorem unchanged (eq : ∀ k, w'.view k = w.view k)
    (next : w.nextKoid ≤ w'.nextKoid) : w'.SoundBut but :=
  ⟨fun k => eq k ▸ (h.views k).mono next id, lt_of_lt_of_le h.positive next⟩

theorem moved (eq : w'.books = w.books)
    (counts : ∀ k, w'.named.count k = w.named.count k) : w'.SoundBut but := by
  simp only [books, Prod.mk.injEq] at eq
  obtain ⟨registry, kernel, log, next⟩ := eq
  refine h.unchanged (fun k => ?_) (le_of_eq next.symm)
  simp [view, registry, kernel, log, counts]

end SoundBut

theorem Sound.anyBut (h : w.Sound) : w.SoundBut (· = koid) :=
  ⟨fun k => (h.views k).mono le_rfl fun _ => id, h.positive⟩

theorem SoundBut.change {v : KoidView} (h : w.SoundBut (· = koid))
    (effect : ∀ k, w'.view k = if k = koid then v else w.view k)
    (next : w.nextKoid ≤ w'.nextKoid) (own : v.Sound koid w'.nextKoid (¬but koid)) :
    w'.SoundBut but := by
  refine ⟨fun k => ?_, lt_of_lt_of_le h.positive next⟩
  rw [effect]
  by_cases eq : k = koid
  · rw [if_pos eq, eq]
    exact own
  · rw [if_neg eq]
    exact (h.views k).mono next fun _ => eq

theorem Sound.registerObject (h : w.Sound) (kind : ObjectKind) : (w.registerObject kind).Sound := by
  have fresh := h.fresh (Nat.le_refl w.nextKoid)
  have alive : (w.view w.nextKoid).collections = 0 :=
    Nat.eq_zero_of_not_pos fun seen => lt_irrefl _ (fresh.old seen)
  refine SoundBut.change (w := w) h.anyBut
    (v := { w.view w.nextKoid with account := some .new, present := true }) (fun k => ?_)
    (Nat.le_succ _) (.inl ⟨?_, rfl, ne_of_gt h.positive, Nat.lt_succ_self _, alive, ?_, fresh.kept⟩)
  · simp only [view, HandleWorld.registerObject, Registry.account_registerObject,
      Registry.object_registerObject]
    split
    next eq => rw [eq]; rfl
    · rfl
  · simp only [fresh.handles, fresh.kernelRefs]
    rfl
  · intro _ seen
    cases alive.symm.trans (fresh.gone seen)

theorem Sound.recounted (h : w.Sound) (handles kernelRefs : Nat)
    (found : (w.registry.account koid).isSome = true)
    (account : ∀ k, w'.registry.account k =
      if k = koid then some ⟨handles, kernelRefs, true, false⟩ else w.registry.account k)
    (object : w'.registry.object = w.registry.object)
    (log : w'.log = .opened koid :: w.log ∨ w'.log = w.log) (next : w'.nextKoid = w.nextKoid)
    (counts : ∀ k, w'.named.count k = if k = koid then handles else w.named.count k)
    (kernel : ∀ k, w'.kernelRefs.count k = if k = koid then kernelRefs else w.kernelRefs.count k)
    (used : ¬but koid → 0 < handles + kernelRefs) : w'.SoundBut but := by
  have known := h.known found
  refine h.anyBut.change (v := ⟨some ⟨handles, kernelRefs, true, false⟩, (w.view koid).present,
      handles, kernelRefs, .opened koid ∈ w'.log, (w.view koid).collections,
      (w.view koid).removed⟩) (fun k => ?_) (le_of_eq next.symm)
    (.inl ⟨rfl, known.present, known.valid, next ▸ known.old, known.alive, fun b _ => used b, known.kept⟩)
  rw [view, account, object, counts, kernel]
  split
  next eq => rcases log with log | log <;> simp [eq, view, log]
  next other => rcases log with log | log <;> simp [view, log, other]

theorem Sound.noteHandleOpen (h : w.Sound) (found : (w.registry.account koid).isSome = true)
    (eq : w'.books = (w.noteHandleOpen koid).books)
    (counts : ∀ k, w'.named.count k = w.named.count k + [koid].count k) : w'.Sound := by
  have known := h.known found
  have account : w.registry.account koid = _ := known.account
  simp only [books, HandleWorld.noteHandleOpen, found, if_true, Prod.mk.injEq] at eq
  obtain ⟨registry, kernel, log, next⟩ := eq
  refine h.recounted (w.named.count koid + 1) (w.kernelRefs.count koid)
    found (fun k => ?_) ?_ (.inl log) next (fun k => ?_) (kernel ▸ count_here _ koid) fun _ => by omega
  · rw [registry, Registry.noteHandleOpen, if_neg known.valid, Registry.account_updateAccount, account]
    rfl
  · rw [registry, Registry.object_noteHandleOpen]
  · rw [counts]
    split
    next eq => rw [eq, count_singleton_self]
    next other => simp [Ne.symm other]

theorem SoundBut.sound (h : w.SoundBut (· = koid))
    (used : (w.registry.account koid).isSome = true →
      0 < w.named.count koid + w.kernelRefs.count koid) : w.Sound := by
  refine h.change (v := w.view koid) (fun k => ?_) le_rfl ?_
  · split
    next eq => rw [eq]
    · rfl
  refine (h.views koid).imp (fun known => { known with used := fun _ _ => used ?_ }) id
  rw [show w.registry.account koid = _ from known.account]
  rfl

/-- An object that is out of use goes, and its collection is recorded. -/
theorem SoundBut.unregister (h : w.SoundBut (· = koid))
    (known : (w.view koid).Known koid w.nextKoid False) (handles : w.named.count koid = 0)
    (kernelRefs : w.kernelRefs.count koid = 0) (named : w'.named.Perm w.named)
    (eq : w'.books = (w.registry.unregisterObject koid, w.kernelRefs, .collected koid :: w.log,
      w.nextKoid)) : w'.Sound := by
  simp only [books, Prod.mk.injEq] at eq
  obtain ⟨registry, kernel, log, next⟩ := eq
  have alive : w.log.count (.collected koid) = 0 := known.alive
  refine h.change (v := ⟨none, false, 0, 0, (w.view koid).opened, 1, (w.view koid).removed⟩)
    (fun k => ?_) (le_of_eq next.symm)
    (.inr ⟨rfl, rfl, rfl, rfl, fun _ => rfl, le_rfl, fun _ => next ▸ known.old, known.kept⟩)
  rw [view, registry, kernel, log, named.count_eq, Registry.account_unregisterObject,
    Registry.object_unregisterObject_eq]
  split
  next here => simp [here, view, handles, kernelRefs, alive]
  next other => simp [view, Ne.symm other]

/-- The registry gives up an object if nothing is left in its account. -/
theorem SoundBut.collect (h : w.SoundBut (· = koid)) :
    ({ w with registry := (w.registry.collectObject koid).2 }.giveUp koid
      (w.registry.collectObject koid).1).Sound := by
  rw [Registry.collectObject_eq]
  cases found : w.registry.account koid with
  | none => exact h.sound fun known => by rw [found] at known; cases known
  | some a =>
    have known := h.known (by rw [found]; rfl)
    cases found.symm.trans known.account
    rw [any_some]
    split
    next may =>
      simp only [RefAccount.mayCollect, Bool.and_eq_true, decide_eq_true_eq] at may
      obtain ⟨named, eq⟩ := giveUp_same
        (w := { w with registry := w.registry.unregisterObject koid }) koid (w.registry.object koid)
      rw [show (w.registry.object koid).isSome = true from known.present, if_pos rfl] at eq
      exact h.unregister { known with used := False.elim } may.1.2 may.2 named eq
    next kept =>
      refine h.sound fun _ => Nat.pos_of_ne_zero fun none => kept ?_
      obtain ⟨handles, kernelRefs⟩ := Nat.add_eq_zero_iff.mp none
      simp [RefAccount.mayCollect, view, handles, kernelRefs]

theorem named_pop {rest : List Koid} (closing : w.closing = koid :: rest) :
    w.named.Perm (koid :: HandleWorld.named { w with closing := rest }) := by
  rw [named, closing]
  exact perm_middle

theorem SoundBut.known_of_named (h : w.SoundBut but) (mem : k ∈ w.named) :
    (w.registry.account k).isSome = true := by
  rcases h.views k with known | unknown
  · rw [show w.registry.account k = _ from known.account]
    rfl
  · exact absurd unknown.handles (ne_of_gt (count_pos_iff.mpr mem))

theorem Sound.closeNext (h : w.Sound) : w.closeNext.Sound := by
  rw [HandleWorld.closeNext]
  cases closing : w.closing with
  | nil => exact h
  | cons koid rest =>
    have perm := named_pop closing
    have found := h.known_of_named (perm.mem_iff.mpr mem_cons_self)
    have known := h.known found
    have account : w.registry.account koid = _ := known.account
    dsimp only
    rw [Registry.noteHandleClose, if_neg known.valid]
    refine SoundBut.collect (w := { w with
      registry := w.registry.updateAccount koid (RefAccount.closeHandles 1), closing := rest }) ?_
    refine h.recounted (w.named.count koid - 1) (w.kernelRefs.count koid) found (fun k => ?_)
      (Registry.object_updateAccount _) (.inr rfl) rfl (fun k => ?_) (count_here _ koid) (absurd rfl ·)
    · rw [Registry.account_updateAccount, account]
      rfl
    · have popped := perm.count_eq k
      rw [count_first] at popped
      change (HandleWorld.named { w with closing := rest }).count k = _
      split
      next eq =>
        rw [eq, count_singleton_self] at popped
        rw [eq]
        omega
      next other => simpa [Ne.symm other] using popped.symm

theorem named_closeNext {rest : List Koid} (closing : w.closing = koid :: rest) :
    w.named.length = w.closeNext.named.length + 1 := by
  rw [HandleWorld.closeNext, closing]
  rw [(giveUp_same koid _).1.length_eq, (named_pop closing).length_eq]
  rfl

/-- All closings come to an end, and nothing is lost on the way. -/
theorem Sound.settle (h : w.Sound) : w.settle.Sound ∧ w.settle.closing = [] := by
  have many : ∀ n (w : HandleWorld), w.Sound → w.named.length ≤ n →
      (HandleWorld.closeNext^[n] w).Sound ∧ (HandleWorld.closeNext^[n] w).closing = [] := by
    intro n
    induction n with
    | zero =>
      intro w h none
      have empty : w.named = [] := eq_nil_of_length_eq_zero (Nat.le_zero.mp none)
      exact ⟨h, (append_eq_nil_iff.mp empty).2⟩
    | succ n ih =>
      intro w h few
      cases closing : w.closing with
      | nil =>
        have eq : w.closeNext = w := by rw [HandleWorld.closeNext, closing]
        rw [Function.iterate_fixed eq]
        exact ⟨h, closing⟩
      | cons koid rest =>
        have one := named_closeNext closing
        exact ih _ h.closeNext (by omega)
  exact many _ w h le_rfl

section Steps
variable {handle first second : Handle} {value : HandleValue}

theorem Sound.addWithCommit (h : w.Sound) (found : (w.registry.account handle.koid).isSome = true)
    (pid : Nat) (commit : Bool) : (w.addWithCommit pid handle commit).2.Sound := by
  rw [HandleWorld.addWithCommit]
  cases there : w.processes[pid]? with
  | none => exact h
  | some p =>
    obtain ⟨slot, added, -⟩ := addExisting_spec p.table handle
    dsimp only
    split
    · refine h.noteHandleOpen found rfl fun k => ?_
      have table := count_setTable (w := w.noteHandleOpen handle.koid) there (p.table.addExisting handle).2 k
      have new := added k
      change _ = w.named.count k + _ at table
      dsimp only
      omega
    refine h.noteHandleOpen found rfl fun k => ?_
    have table := count_setTable (w := w.noteHandleOpen handle.koid) there
      ((p.table.addExisting handle).2.vacate (p.table.addExisting handle).1) k
    have new := added k
    have back := count_koids_vacate (k := k) slot
    rw [count_closeAll]
    change _ = w.named.count k + _ at table
    omega

theorem Sound.addPairWithCommit (h : w.Sound)
    (foundFirst : (w.registry.account first.koid).isSome = true)
    (foundSecond : (w.registry.account second.koid).isSome = true) (pid : Nat) (commit : Bool) :
    (w.addPairWithCommit pid first second commit).2.Sound := by
  rw [HandleWorld.addPairWithCommit]
  cases there : w.processes[pid]? with
  | none => exact h
  | some p =>
    -- The first handle counts as about to be closed while the second one is opened.
    have half : ((w.noteHandleOpen first.koid).closeAll [first.koid]).Sound :=
      h.noteHandleOpen foundFirst rfl fun k => count_closeAll k
    have half_counts : ∀ k, ((w.noteHandleOpen first.koid).closeAll [first.koid]).named.count k =
        w.named.count k + [first.koid].count k := fun k => count_closeAll k
    have found : (((w.noteHandleOpen first.koid).closeAll
        [first.koid]).registry.account second.koid).isSome = true :=
      Registry.isSome_account_noteHandleOpen.trans foundSecond
    obtain ⟨slotFirst, addedFirst, -⟩ := addExisting_spec p.table first
    obtain ⟨slotSecond, addedSecond, kept⟩ := addExisting_spec (p.table.addExisting first).2 second
    obtain ⟨apart, still⟩ := kept _ _ slotFirst
    dsimp only
    split
    · refine half.noteHandleOpen found rfl fun k => ?_
      have table := count_setTable
        (w := (w.noteHandleOpen first.koid).noteHandleOpen second.koid) there
        ((p.table.addExisting first).2.addExisting second).2 k
      have one := addedFirst k
      have two := addedSecond k
      change _ = w.named.count k + _ at table
      rw [half_counts]
      dsimp only
      omega
    refine half.noteHandleOpen found rfl fun k => ?_
    have slot : (((p.table.addExisting first).2.addExisting second).2.vacate
        (p.table.addExisting first).1)[((p.table.addExisting first).2.addExisting
          second).1]?.join = some second := by
      rw [vacate, getElem?_set_ne apart]
      exact slotSecond
    have table := count_setTable
      (w := (w.noteHandleOpen first.koid).noteHandleOpen second.koid) there
      ((((p.table.addExisting first).2.addExisting second).2.vacate
        (p.table.addExisting first).1).vacate
        ((p.table.addExisting first).2.addExisting second).1) k
    have one := addedFirst k
    have two := addedSecond k
    have backFirst := count_koids_vacate (k := k) still
    have backSecond := count_koids_vacate (k := k) slot
    have both := count_first first.koid [second.koid] k
    change _ = w.named.count k + _ at table
    rw [half_counts, count_closeAll]
    omega

theorem Sound.insertAt (h : w.Sound) (found : (w.registry.account handle.koid).isSome = true)
    (pid : Nat) (value : HandleValue) : (w.insertAt pid value handle).2.Sound := by
  rw [HandleWorld.insertAt]
  cases there : w.processes[pid]? with
  | none => exact h
  | some p =>
    dsimp only
    rcases restoreExistingAt_spec value handle p.table with
      ⟨t, refused, eq⟩ | ⟨t, done, counts⟩
    · rw [refused]
      refine SoundBut.moved h rfl fun k => ?_
      have table := count_setTable there t k
      rw [eq] at table
      dsimp only
      omega
    rw [done]
    refine h.noteHandleOpen found rfl fun k => ?_
    have table := count_setTable (w := w.noteHandleOpen handle.koid) there t k
    have new := counts k
    change _ = w.named.count k + _ at table
    dsimp only
    omega

theorem Sound.remove (h : w.Sound) (pid : Nat) (value : HandleValue) : (w.remove pid value).2.Sound := by
  rw [HandleWorld.remove]
  cases there : w.processes[pid]? with
  | none => exact h
  | some p =>
    dsimp only
    cases found : p.table.get value with
    | none => exact h
    | some handle =>
      refine SoundBut.moved h rfl fun k => ?_
      have table := count_setTable there (p.table.vacate value) k
      have gone := count_koids_vacate (k := k) (get_join found)
      rw [count_closeAll]
      omega

theorem known_registerObject {kind : ObjectKind}
    (known : k = w.nextKoid ∨ (w.registry.account k).isSome = true) :
    ((w.registerObject kind).registry.account k).isSome = true := by
  change ((w.registry.registerObject w.nextKoid kind).account k).isSome = true
  rw [Registry.account_registerObject]
  split
  · rfl
  next other => exact known.resolve_left other

theorem Sound.createObject (h : w.Sound) (pid : Nat) (kind : ObjectKind) (rights : Vm.Rights)
    (commit : Bool) : (w.createObject pid kind rights commit).2.Sound :=
  (h.registerObject kind).addWithCommit (known_registerObject (.inl rfl)) pid commit

theorem Sound.jobCreate (h : w.Sound) (pid : Nat) (parent : HandleValue) (fits commit : Bool) :
    (w.jobCreate pid parent fits commit).2.Sound := by
  rw [HandleWorld.jobCreate]
  split
  · exact h
  split
  · exact h
  split
  · exact h
  · split
    · exact h.createObject pid .job _ commit
    · exact h
  · exact h

theorem count_newChannel (storage : QueueStorage × QueueStorage) (k : Koid) :
    (w.newChannel storage).named.count k = w.named.count k := by
  change (HandleWorld.named { w with channels := w.channels ++ [ChannelPair.new storage] }).count k = _
  simp [named, inTables, inFlight, ChannelPair.new, MessageQueue.new, MessageQueue.koids]

theorem Sound.newChannel (h : w.Sound) (storage : QueueStorage × QueueStorage) :
    (w.newChannel storage).Sound := by
  have longer : HandleWorld.Sound { w with channels := w.channels ++ [ChannelPair.new storage] } :=
    SoundBut.moved h rfl (count_newChannel storage)
  exact (longer.registerObject _).registerObject _

theorem known_newChannel (storage : QueueStorage × QueueStorage) :
    ((w.newChannel storage).registry.account w.nextKoid).isSome = true ∧
      ((w.newChannel storage).registry.account (w.nextKoid + 1)).isSome = true :=
  ⟨known_registerObject (.inr (known_registerObject (.inl rfl))), known_registerObject (.inl rfl)⟩

theorem Sound.channelCreate (h : w.Sound) (pid : Nat) (storage : QueueStorage × QueueStorage)
    (commit : Bool) : (w.channelCreate pid storage commit).2.Sound :=
  (h.newChannel storage).addPairWithCommit (known_newChannel storage).1 (known_newChannel storage).2
    pid commit

theorem Sound.newProcess (h : w.Sound) (pid : Nat) (job : Koid) (commit : Bool) :
    (w.newProcess pid job commit).2.Sound := by
  have registered := (h.registerObject (.process w.processes.length)).registerObject .plain
  refine Sound.addPairWithCommit ?_ ?_ ?_ pid commit
  · refine SoundBut.moved registered rfl fun k => ?_
    simp [named, inTables, inFlight, koids]
  · exact known_registerObject (.inr (known_registerObject (.inl rfl)))
  · exact known_registerObject (.inl rfl)

theorem Sound.processCreateInJob (h : w.Sound) (pid : Nat) (job : HandleValue) (commit : Bool) :
    (w.processCreateInJob pid job commit).2.Sound := by
  rw [HandleWorld.processCreateInJob]
  split
  · exact h
  split
  · exact h
  split
  · exact h
  · exact h.newProcess pid _ commit
  · exact h

theorem SoundBut.known_of_get {but : Koid → Prop} (h : w.SoundBut but)
    (found : (w.processes[pid]?.bind fun p => p.table.get value) = some handle) :
    (w.registry.account handle.koid).isSome = true := by
  obtain ⟨p, there, got⟩ := bind_eq_some_iff.mp found
  have mem : handle.koid ∈ w.named := by
    refine mem_append_left _ (mem_append_left _ ?_)
    refine mem_flatMap.mpr ⟨p, mem_of_getElem? there, ?_⟩
    have slot : p.table[value]? = some (some handle) := by
      simpa [join_eq_some_iff] using get_join got
    exact mem_filterMap.mpr ⟨some handle, mem_of_getElem? slot, rfl⟩
  exact h.known_of_named mem

theorem Sound.handleDuplicate (h : w.Sound) (pid : Nat) (value : HandleValue) (rights : Vm.Rights)
    (commit : Bool) : (w.handleDuplicate pid value rights commit).2.Sound := by
  rw [HandleWorld.handleDuplicate]
  split
  · exact h
  split
  · exact h
  next handle found =>
  have known := SoundBut.known_of_get h found
  split
  · exact h
  split
  · exact h.addWithCommit known pid commit
  split
  · exact h
  split
  · exact h
  have reduced : (w.registry.account (Handle.mk handle.koid rights).koid).isSome = true := known
  exact h.addWithCommit reduced pid commit

theorem Sound.handleClose (h : w.Sound) (pid : Nat) (value : HandleValue) :
    (w.handleClose pid value).2.Sound := by
  have removed := h.remove pid value
  rw [HandleWorld.handleClose]
  split
  next gone =>
    rw [gone] at removed
    exact removed
  next gone =>
  rw [gone] at removed
  exact removed

theorem insertAt_refused {back : Handle} {w₁ : HandleWorld}
    (refused : w.insertAt pid value handle = (.error back, w₁)) :
    w₁.books = w.books ∧ ∀ k, w₁.named.count k = w.named.count k := by
  rw [HandleWorld.insertAt] at refused
  cases there : w.processes[pid]? with
  | none =>
    rw [there] at refused
    cases refused
    exact ⟨rfl, fun _ => rfl⟩
  | some p =>
    rw [there] at refused
    dsimp only at refused
    rcases restoreExistingAt_spec value handle p.table with
      ⟨t, lost, eq⟩ | ⟨t, done, -⟩
    · rw [lost] at refused
      cases refused
      refine ⟨rfl, fun k => ?_⟩
      have table := count_setTable there t k
      rw [eq] at table
      omega
    rw [done] at refused
    cases refused

theorem known_insertAt (known : (w.registry.account k).isSome = true) :
    ((w.insertAt pid value handle).2.registry.account k).isSome = true := by
  rw [HandleWorld.insertAt]
  split
  · exact known
  split
  · exact known
  · exact Registry.isSome_account_noteHandleOpen.trans known

theorem Sound.threadStart (h : w.Sound) (pid child : Nat) (storage : QueueStorage × QueueStorage)
    (commit started : Bool) : (w.threadStart pid child storage commit started).2.Sound := by
  have made := h.newChannel storage
  obtain ⟨parent, end_⟩ := known_newChannel (w := w) storage
  have inserted : ((w.newChannel storage).insertAt child bootstrapHandle
      ⟨w.nextKoid + 1, defaultRights⟩).2.Sound := made.insertAt end_ child bootstrapHandle
  have known : (((w.newChannel storage).insertAt child bootstrapHandle
      ⟨w.nextKoid + 1, defaultRights⟩).2.registry.account w.nextKoid).isSome = true :=
    known_insertAt parent
  rw [HandleWorld.threadStart]
  split
  next back w₁ refused =>
    obtain ⟨eq, counts⟩ := insertAt_refused refused
    simp only [books, Prod.mk.injEq] at eq
    obtain ⟨registry, kernel, log, next⟩ := eq
    refine h.unchanged (fun k => ?_) (next.symm ▸ Nat.le_add_right _ 2)
    have first := h.fresh (Nat.le_refl w.nextKoid)
    have second := h.fresh (Nat.le_succ w.nextKoid)
    -- Both ends go again, so each koid has the entries it had before.
    have entries : (((w₁.registry.unregisterObject w.nextKoid).unregisterObject
          (w.nextKoid + 1)).account k, (((w₁.registry.unregisterObject
            w.nextKoid).unregisterObject (w.nextKoid + 1)).object k).isSome) =
        (w.registry.account k, (w.registry.object k).isSome) := by
      simp only [registry, HandleWorld.newChannel, HandleWorld.registerObject,
        Registry.account_unregisterObject, Registry.account_registerObject,
        Registry.object_unregisterObject_eq, Registry.object_registerObject]
      split
      next eq => exact eq ▸ (Prod.ext second.account second.present).symm
      split
      next eq => exact eq ▸ (Prod.ext first.account first.present).symm
      · rfl
    simp only [view, KoidView.mk.injEq]
    exact ⟨congrArg Prod.fst entries, congrArg Prod.snd entries,
      (counts k).trans (count_newChannel storage k), congrArg (List.count k) kernel,
      congrArg (fun log => decide (RegistryEvent.opened k ∈ log)) log, congrArg (List.count _) log,
      congrArg (fun log => decide (RegistryEvent.removed k ∈ log)) log⟩
  next w₁ done =>
  rw [done] at inserted known
  have opened : (w₁.addWithCommit pid ⟨w.nextKoid, defaultRights⟩ commit).2.Sound :=
    inserted.addWithCommit known pid commit
  split
  next e w₂ failed =>
    rw [failed] at opened
    exact opened.remove child bootstrapHandle
  next value w₂ ok =>
  rw [ok] at opened
  split
  · exact opened
  · exact (opened.remove child bootstrapHandle).remove pid value

/-- A failed send leaves every handle in its table or about to be closed. -/
theorem restoreAll_spec (there : w.processes[pid]? = some p)
    (pairs : List (HandleValue × Handle)) (t : HandleTable) :
    (w.restoreAll pid pairs t).books = w.books ∧
      ∀ k, (w.restoreAll pid pairs t).named.count k + p.table.koids.count k =
        w.named.count k + t.koids.count k + (pairs.map fun pair => pair.2.koid).count k := by
  induction pairs generalizing w t with
  | nil => exact ⟨rfl, fun k => count_setTable there t k⟩
  | cons pair rest ih =>
    obtain ⟨value, handle⟩ := pair
    have more := count_first handle.koid (rest.map fun pair => pair.2.koid)
    rw [restoreAll]
    rcases restoreExistingAt_spec value handle t with
      ⟨t', refused, eq⟩ | ⟨t', done, counts⟩
    · rw [refused]
      obtain ⟨same_books, total⟩ := ih (w := { w with closing := w.closing ++ [handle.koid] }) there t'
      refine ⟨same_books, fun k => ?_⟩
      have listed : (HandleWorld.named { w with closing := w.closing ++ [handle.koid] }).count k =
          w.named.count k + [handle.koid].count k := by
        simp [named, inTables, inFlight, Nat.add_assoc]
      have here := total k
      rw [listed, eq] at here
      rw [map_cons, more]
      dsimp only
      omega
    rw [done]
    obtain ⟨same_books, total⟩ := ih there t'
    refine ⟨same_books, fun k => ?_⟩
    have here := total k
    have new := counts k
    rw [map_cons, more]
    dsimp only
    omega

theorem channelEnd_ok {required : Vm.Rights} {t : HandleTable} {side : Bool}
    (found : w.channelEnd pid value required = .ok (t, pair, side, c)) :
    (∃ p, w.processes[pid]? = some p ∧ p.table = t) ∧ w.channels[pair]? = some c := by
  rw [channelEnd] at found
  split at found
  · cases found
  next p there =>
  split at found
  · cases found
  split at found
  · cases found
  split at found
  · cases found
  · split at found
    · cases found
    next c here =>
    cases found
    exact ⟨⟨p, there, rfl⟩, here⟩
  · cases found

namespace Sound
variable (h : w.Sound)
include h

/-- A message takes its handles along, or leaves them all behind. -/
theorem sendOrRestore (there : w.processes[pid]? = some p)
    (here : w.channels[pair]? = some c) {side : Bool} {values : List HandleValue}
    {message : ChannelMessage} {t : HandleTable}
    (eq : message.handles.asList.length = values.length)
    (moved : ∀ k, p.table.koids.count k = message.koids.count k + t.koids.count k) :
    (w.sendOrRestore pid pair side c values message t).2.Sound := by
  have restored : (w.restoreAll pid (values.zip message.handles.asList) t).Sound := by
    obtain ⟨same_books, counts⟩ := restoreAll_spec there (values.zip message.handles.asList) t
    refine SoundBut.moved h same_books fun k => ?_
    have back : ((values.zip message.handles.asList).map fun pair => pair.2.koid) = message.koids := by
      have second := map_snd_zip (le_of_eq eq)
      rw [ChannelMessage.koids]
      nth_rewrite 2 [← second]
      exact map_map.symm
    have total := counts k
    have all := moved k
    rw [back] at total
    omega
  rw [HandleWorld.sendOrRestore]
  split
  · exact restored
  split
  next q sent =>
    refine SoundBut.moved h rfl fun k => ?_
    have table := count_setTable there t k
    have channel := count_setChannel (w := w.setTable pid t) here (c.setInbox (!side) q) k
    have inbox := ChannelPair.count_koids_setInbox c (!side) q k
    have all := moved k
    rw [MessageQueue.koids_enqueue sent, count_append] at inbox
    dsimp only
    omega
  · exact restored

theorem channelWrite (pid : Nat) (channel : HandleValue) (data : Vec UInt8)
    (values : List HandleValue) (storage : Bool) :
    (w.channelWrite pid channel data values storage).2.Sound := by
  rw [HandleWorld.channelWrite]
  split
  · exact h
  split
  next few =>
    cases found : w.channelEnd pid channel .write with
    | error e => exact h
    | ok target =>
      obtain ⟨t, pair, side, c⟩ := target
      obtain ⟨⟨p, there, eq⟩, here⟩ := channelEnd_ok found
      subst eq
      dsimp only
      cases validateMoveDispositions p.table values with
      | error e => exact h
      | ok =>
        rcases removeManyKeepAlive_spec values storage p.table with
          ⟨e, kept⟩ | ⟨handles, t, taken, counts⟩
        · rw [kept]
          refine SoundBut.moved h rfl fun k => ?_
          exact Nat.add_right_cancel (count_setTable there p.table k)
        rw [taken]
        refine h.sendOrRestore there here ?_ fun k => ?_
        · rw [ChannelMessage.new, Stored.asList_fromVec]
          exact handles.2
        rw [ChannelMessage.koids, ChannelMessage.new, Stored.asList_fromVec]
        exact counts k
  · exact h

/-- A message that is taken off its queue is put in a table or closed. -/
theorem channelRead (pid : Nat) (channel : HandleValue)
    (cookie : Option UInt64) (byteCapacity handleCapacity : Nat) (copied commit : Bool) :
    (w.channelRead pid channel cookie byteCapacity handleCapacity copied commit).2.Sound := by
  rw [HandleWorld.channelRead]
  split
  · exact h
  next fit =>
  cases found : w.channelEnd pid channel .read with
  | error e => exact h
  | ok target =>
    obtain ⟨t, pair, side, c⟩ := target
    obtain ⟨⟨p, there, eq⟩, here⟩ := channelEnd_ok found
    subst eq
    dsimp only
    split
    · exact h
    · split
      · exact h
      · split <;> exact h
    next message q got =>
    obtain ⟨front, few⟩ := MessageQueue.fetch_some got
    have taken : ∀ k, (w.setChannel pair (c.setInbox side q)).named.count k +
        message.koids.count k = w.named.count k := by
      intro k
      have channel := count_setChannel here (c.setInbox side q) k
      have inbox := ChannelPair.count_koids_setInbox c side q k
      rw [MessageQueue.koids_dequeue front, count_append] at inbox
      omega
    have added := count_koids_addExistingMany message.handles.asList p.table
    split
    · refine SoundBut.moved h rfl fun k => ?_
      have gone := taken k
      rw [count_closeAll]
      omega
    split
    · refine SoundBut.moved h rfl fun k => ?_
      have gone := taken k
      have table := count_setTable (w := w.setChannel pair (c.setInbox side q)) there
        (p.table.addExistingMany message.handles.asList).2 k
      have new := added k
      rw [← ChannelMessage.koids] at new
      dsimp only
      omega
    refine SoundBut.moved h rfl fun k => ?_
    obtain ⟨len, back⟩ := takeBack_spec
      (p.table.addExistingMany message.handles.asList).1
      (p.table.addExistingMany message.handles.asList).2
    rw [length_addExistingMany] at len
    have gone := taken k
    have table := count_setTable (w := w.setChannel pair (c.setInbox side q)) there
      ((p.table.addExistingMany message.handles.asList).2.takeBack
        (p.table.addExistingMany message.handles.asList).1).2 k
    have new := added k
    have all := back k
    rw [← ChannelMessage.koids] at new
    rw [take_of_length_le (by unfold maxChannelHandles at fit; omega), count_closeAll]
    omega

theorem kernelRefOpen (koid : Koid) : (w.kernelRefOpen koid).Sound := by
  rw [HandleWorld.kernelRefOpen]
  cases found : w.registry.account koid with
  | none =>
    have refused : (w.registry.acquireKernelRef koid).1 = none := by
      rw [Registry.acquireKernelRef, found]
      split
      · rfl
      · cases w.registry.object koid <;> rfl
    rw [refused]
    exact h
  | some a =>
    have known := h.known (by rw [found]; rfl)
    have account : w.registry.account koid = _ := known.account
    obtain ⟨kind, registered⟩ := isSome_iff_exists.mp known.present
    rw [Registry.acquireKernelRef, if_neg known.valid, registered, found]
    dsimp only
    refine h.recounted (w.named.count koid) (w.kernelRefs.count koid + 1) (by rw [found]; rfl) (fun k => ?_)
      (Registry.object_updateAccount _) (.inl rfl) rfl (count_here _ koid) (fun k => ?_) fun _ => by omega
    · rw [Registry.account_updateAccount, account]
      rfl
    · split
      next eq => rw [eq, count_cons_self]
      next other => rw [count_cons_of_ne (Ne.symm other)]

theorem kernelRefClose (koid : Koid) : (w.kernelRefClose koid).Sound := by
  rw [HandleWorld.kernelRefClose, Registry.noteKernelRefClose]
  cases found : w.registry.account koid with
  | none =>
    have absent : koid ∉ w.kernelRefs := count_eq_zero.mp (h.unknown found).kernelRefs
    rw [erase_of_not_mem absent]
    split
    · exact h
    · rw [Registry.updateAccount, found]
      exact SoundBut.collect h.anyBut
  | some a =>
    have known := h.known (by rw [found]; rfl)
    have account : w.registry.account koid = _ := known.account
    rw [if_neg known.valid]
    refine SoundBut.collect (w := { w with
      registry := w.registry.updateAccount koid (RefAccount.closeKernelRefs 1)
      kernelRefs := w.kernelRefs.erase koid }) ?_
    refine h.recounted (w.named.count koid) (w.kernelRefs.count koid - 1) (by rw [found]; rfl) (fun k => ?_)
      (Registry.object_updateAccount _) (.inr rfl) rfl (count_here _ koid) (fun k => ?_) (absurd rfl ·)
    · rw [Registry.account_updateAccount, account]
      rfl
    · split
      next eq => rw [eq, count_erase_self]
      next other => rw [count_erase_of_ne other]

theorem hold (koid : Koid) : (w.hold koid).Sound := by
  rw [HandleWorld.hold]
  split
  · exact SoundBut.moved h rfl fun _ => rfl
  · exact h

theorem dropObject (kind : ObjectKind) : (w.dropObject kind).Sound :=
  SoundBut.moved h (dropObject_books kind) (named_dropObject kind).count_eq

theorem release (koid : Koid) : (w.release koid).Sound := by
  have eq : ∀ held orphans, HandleWorld.Sound { w with held, orphans } := fun held orphans =>
    SoundBut.moved h rfl fun _ => rfl
  rw [HandleWorld.release]
  split
  · exact eq _ _
  split
  · exact eq _ _
  · exact (eq _ _).dropObject _

theorem dropRuntime (there : w.processes[pid]? = some p)
    (unused : ∀ vmar a, p.rootVmar = some vmar → w.registry.account vmar = some a →
      a.handleRefs = 0 ∧ a.kernelRefs = 0) : (w.dropRuntime pid p).Sound := by
  rw [HandleWorld.dropRuntime]
  cases root : p.rootVmar with
  | none => exact h
  | some vmar =>
    have modified : (w.processes.modify pid fun p => { p with rootVmar := none }) =
        w.processes.set pid { p with rootVmar := none } := by
      rw [modify_eq_set_getElem?, there]
      rfl
    have tables : (w.processes.modify pid fun p => { p with rootVmar := none }).flatMap
        (fun p => p.table.koids) |>.Perm w.inTables := by
      rw [modified]
      have moved := Lists.flatMap_set_perm (fun p : HandleProcess => p.table.koids) there
        { p with rootVmar := none }
      exact (perm_append_left_iff _).mp moved
    dsimp only
    rw [removal]
    cases found : w.registry.account vmar with
    | none =>
      have unknown := h.unknown found
      refine h.unchanged (fun k => ?_) le_rfl
      have counts := ((tables.append_right w.inFlight).append_right w.closing).count_eq k
      have entries : ((w.registry.unregisterObject vmar).account k,
          ((w.registry.unregisterObject vmar).object k).isSome) =
          (w.registry.account k, (w.registry.object k).isSome) := by
        rw [Registry.account_unregisterObject, Registry.object_unregisterObject_eq]
        split
        next eq => exact eq ▸ (Prod.ext unknown.account unknown.present).symm
        · rfl
      simp only [view, KoidView.mk.injEq]
      exact ⟨congrArg Prod.fst entries, congrArg Prod.snd entries, counts, rfl, rfl, rfl, rfl⟩
    | some a =>
      have known := h.known (by rw [found]; rfl)
      have none := unused vmar a root found
      cases found.symm.trans known.account
      dsimp only at none ⊢
      rw [if_pos none]
      exact SoundBut.unregister h.anyBut { known with used := False.elim } none.1 none.2
        ((tables.append_right _).append_right _) rfl

theorem exit (pid : Nat) (unused : ∀ p vmar a, w.processes[pid]? = some p → p.rootVmar = some vmar →
    w.registry.account vmar = some a → a.handleRefs = 0 ∧ a.kernelRefs = 0) : (w.exit pid).Sound := by
  rw [HandleWorld.exit]
  cases there : w.processes[pid]? with
  | none => exact h
  | some p =>
    have dropped := h.dropRuntime there fun vmar a => unused p vmar a there
    have still : ∃ q, (w.dropRuntime pid p).processes[pid]? = some q ∧ q.table = p.table := by
      rw [HandleWorld.dropRuntime]
      split
      · exact ⟨p, there, rfl⟩
      · exact ⟨{ p with rootVmar := none }, by rw [getElem?_modify_eq, there]; rfl, rfl⟩
    obtain ⟨q, there, table⟩ := still
    dsimp only
    rw [← table]
    have cleared : (((w.dropRuntime pid p).setTable pid q.table.clear).closeAll q.table.koids).Sound := by
      refine SoundBut.moved dropped rfl fun k => ?_
      have table := count_setTable there q.table.clear k
      rw [koids_clear, count_nil] at table
      rw [count_closeAll]
      omega
    exact SoundBut.collect (cleared.release p.koid).anyBut

end Sound
end Steps
end HandleWorld
end HuesOS.Ipc
