import HuesOS.Lib.Ring
import Mathlib.Data.List.Basic

/-! The bounded store of finished tasks: a ring that evicts its oldest record when it is full and
is compacted in place, and the list with a bound that it stands for. -/

namespace HuesOS.Sched
open List Function Ring

inductive InsertOutcome (M : Type)
  | retained
  | evicted (record : M)
  deriving DecidableEq

def u64Max : Nat := 2 ^ 64 - 1

def countUp (counter n : Nat) : Nat := min (counter + n) u64Max

structure BoundedZombieStore (M : Type) (N : Nat) where
  slots : Fin N → Option M
  head : Nat
  len : Nat
  nextGeneration : Nat
  inserted : Nat
  evicted : Nat
  reaped : Nat
  /-- the head is the index of a slot -/
  inside : 0 < N → head < N

namespace BoundedZombieStore
variable {M : Type} {N : Nat}

def new : BoundedZombieStore M N := ⟨fun _ => none, 0, 0, 1, 0, 0, 0, id⟩

def allocGeneration (s : BoundedZombieStore M N) : Nat × BoundedZombieStore M N :=
  (s.nextGeneration, { s with nextGeneration := countUp s.nextGeneration 1 })

def insert (record : M) (s : BoundedZombieStore M N) :
    InsertOutcome M × BoundedZombieStore M N :=
  let s := { s with inserted := countUp s.inserted 1 }
  if pos : 0 < N then
    if s.len = N then
      let old := s.slots ⟨s.head, s.inside pos⟩
      let slots : Fin N → Option M := update s.slots ⟨s.head, s.inside pos⟩ (some record)
      let s := { s with
        slots := slots, head := (s.head + 1) % N, inside := fun _ => Nat.mod_lt _ pos }
      match old with
      | some entry => (.evicted entry, { s with evicted := countUp s.evicted 1 })
      | none => (.retained, s)
    else
      let slots : Fin N → Option M := update s.slots (slot pos s.head s.len) (some record)
      (.retained, { s with slots := slots, len := s.len + 1 })
  else (.evicted record, { s with evicted := countUp s.evicted 1 })

def reapOldest (s : BoundedZombieStore M N) : Option M × BoundedZombieStore M N :=
  if pos : 0 < N then
    if s.len = 0 then (none, s)
    else
      let old := s.slots ⟨s.head, s.inside pos⟩
      let slots : Fin N → Option M := update s.slots ⟨s.head, s.inside pos⟩ none
      let s := { s with
        slots := slots, head := (s.head + 1) % N, len := s.len - 1
        inside := fun _ => Nat.mod_lt _ pos }
      (old, if old.isSome then { s with reaped := countUp s.reaped 1 } else s)
  else (none, s)

/-- The compaction loop over the next `n` records. The predicate may remember the records that it
has already been asked about, here `seen`. -/
def retainLoop (pos : 0 < N) (head : Nat) (keep : List M → M → Bool) :
    Nat → Nat → Nat → List M → (Fin N → Option M) → (Fin N → Option M) × Nat
  | 0, _, write, _, slots => (slots, write)
  | n + 1, read, write, seen, slots =>
    let rphys := slot pos head read
    match slots rphys with
    | none => retainLoop pos head keep n (read + 1) write seen (update slots rphys none)
    | some m =>
      if keep seen m then
        let wphys := slot pos head write
        let moved := if wphys ≠ rphys then
          update (update slots rphys none) wphys (some m) else slots
        retainLoop pos head keep n (read + 1) (write + 1) (seen ++ [m]) moved
      else
        retainLoop pos head keep n (read + 1) write (seen ++ [m]) (update slots rphys none)

def retain (keep : List M → M → Bool) (s : BoundedZombieStore M N) :
    Nat × BoundedZombieStore M N :=
  if pos : 0 < N then
    let done := retainLoop pos s.head keep s.len 0 0 [] s.slots
    let removed := s.len - done.2
    (removed, { s with slots := done.1, len := done.2, reaped := countUp s.reaped removed })
  else (0, s)

def iter (s : BoundedZombieStore M N) : List M :=
  if pos : 0 < N then (range s.len).filterMap fun i => s.slots (slot pos s.head i)
  else []

end BoundedZombieStore

open BoundedZombieStore

structure FinishedTask where
  koid : Nat
  generation : Nat
  exitCode : Int
  exitTick : Nat
  deriving DecidableEq

abbrev TaskGraveyard (N : Nat) := BoundedZombieStore FinishedTask N

namespace TaskGraveyard
variable {N : Nat}

def find (yard : TaskGraveyard N) (koid generation : Nat) : Option FinishedTask :=
  yard.iter.find? fun task => task.koid = koid ∧ task.generation = generation

end TaskGraveyard

open TaskGraveyard

/-- Filtering in order, by a predicate that remembers what it was asked. -/
def filterSeen {M : Type} (keep : List M → M → Bool) : List M → List M → List M
  | _, [] => []
  | seen, m :: rest =>
    if keep seen m then m :: filterSeen keep (seen ++ [m]) rest
    else filterSeen keep (seen ++ [m]) rest

theorem filterSeen_const {M : Type} (p : M → Bool) (seen xs : List M) :
    filterSeen (fun _ => p) seen xs = xs.filter p := by
  induction xs generalizing seen with
  | nil => rfl
  | cons m rest ih => simp only [filterSeen, filter_cons, ih]

theorem filterSeen_perm {M : Type} (keep : List M → M → Bool) (seen xs : List M) :
    xs.Perm (filterSeen keep seen xs ++ filterSeen (fun seen m => !keep seen m) seen xs) := by
  induction xs generalizing seen with
  | nil => exact List.Perm.refl _
  | cons m rest ih =>
    rw [filterSeen, filterSeen]
    by_cases keeps : keep seen m = true
    · simp only [keeps, Bool.not_true, if_true, Bool.false_eq_true, if_false, cons_append]
      exact (ih _).cons m
    simp only [keeps, Bool.not_false, if_true, Bool.false_eq_true, if_false]
    exact ((ih _).cons m).trans perm_middle.symm

theorem filterMap_getElem? {M : Type} (xs : List M) : (range xs.length).filterMap (fun i => xs[i]?) = xs := by
  induction xs with
  | nil => rfl
  | cons x rest ih =>
    rw [length_cons, range_succ_eq_map, filterMap_cons, filterMap_map]
    exact congrArg (x :: ·) ih

/-- A first in, first out list of at most `N` records, with the records that left it. -/
structure Fifo (M : Type) where
  items : List M
  inserted : List M
  evicted : List M
  reaped : List M

namespace Fifo
variable {M : Type}

def empty : Fifo M := ⟨[], [], [], []⟩

/-- Append while there is room; otherwise the first record has to go, or the new one when nothing
can be stored. -/
def insert (N : Nat) (m : M) (f : Fifo M) : InsertOutcome M × Fifo M :=
  let f := { f with inserted := f.inserted ++ [m] }
  if f.items.length < N then (.retained, { f with items := f.items ++ [m] })
  else
    match f.items with
    | [] => (.evicted m, { f with evicted := f.evicted ++ [m] })
    | first :: rest =>
      (.evicted first, { f with items := rest ++ [m], evicted := f.evicted ++ [first] })

def reapOldest (f : Fifo M) : Option M × Fifo M :=
  match f.items with
  | [] => (none, f)
  | first :: rest => (some first, { f with items := rest, reaped := f.reaped ++ [first] })

def retain (keep : List M → M → Bool) (f : Fifo M) : Nat × Fifo M :=
  let dropped := filterSeen (fun seen m => !keep seen m) [] f.items
  (dropped.length, { f with items := filterSeen keep [] f.items, reaped := f.reaped ++ dropped })

end Fifo

inductive ZombieCall (M : Type)
  | insert (record : M)
  | reapOldest
  | retain (keep : List M → M → Bool)
  | allocGeneration

inductive ZombieAnswer (M : Type)
  | outcome (o : InsertOutcome M)
  | oldest (record : Option M)
  | removed (n : Nat)
  | generation

namespace ZombieCall
variable {M : Type} {N : Nat}

def onStore (s : BoundedZombieStore M N) : ZombieCall M → ZombieAnswer M × BoundedZombieStore M N
  | .insert m => ((.outcome (s.insert m).1), (s.insert m).2)
  | .reapOldest => (.oldest s.reapOldest.1, s.reapOldest.2)
  | .retain keep => (.removed (s.retain keep).1, (s.retain keep).2)
  | .allocGeneration => (.generation, s.allocGeneration.2)

def onFifo (N : Nat) (f : Fifo M) : ZombieCall M → ZombieAnswer M × Fifo M
  | .insert m => ((.outcome (f.insert N m).1), (f.insert N m).2)
  | .reapOldest => (.oldest f.reapOldest.1, f.reapOldest.2)
  | .retain keep => (.removed (f.retain keep).1, (f.retain keep).2)
  | .allocGeneration => (.generation, f)

def runStore (s : BoundedZombieStore M N) :
    List (ZombieCall M) → List (ZombieAnswer M) × BoundedZombieStore M N
  | [] => ([], s)
  | call :: rest =>
    let after := runStore (call.onStore s).2 rest
    ((call.onStore s).1 :: after.1, after.2)

def runFifo (N : Nat) (f : Fifo M) : List (ZombieCall M) → List (ZombieAnswer M) × Fifo M
  | [] => ([], f)
  | call :: rest =>
    let after := runFifo N (call.onFifo N f).2 rest
    ((call.onFifo N f).1 :: after.1, after.2)

end ZombieCall

open ZombieCall

/-- The store `s` stands for the list `f`; its counters are the numbers of records, up to the
maximum of a counter. -/
structure Represents {M : Type} {N : Nat} (s : BoundedZombieStore M N) (f : Fifo M) : Prop where
  holds : Ring.Holds s.slots s.head f.items
  len : s.len = f.items.length
  inserted : s.inserted = min f.inserted.length u64Max
  evicted : s.evicted = min f.evicted.length u64Max
  reaped : s.reaped = min f.reaped.length u64Max

variable {M : Type} {N : Nat}

theorem countUp_min (a b : Nat) : countUp (min a u64Max) b = min (a + b) u64Max := by
  unfold countUp
  omega

namespace Represents
variable {s : BoundedZombieStore M N} {f : Fifo M}

theorem new : Represents (new : BoundedZombieStore M N) Fifo.empty :=
  ⟨Ring.Holds.empty 0, rfl, rfl, rfl, rfl⟩

theorem bounded (r : Represents s f) : f.items.length ≤ N := r.holds.1

theorem items_of_full (r : Represents s f) (pos : 0 < N) (full : s.len = N) :
    ∃ first rest, f.items = first :: rest ∧ rest.length + 1 = N := by
  cases shape : f.items with
  | nil => rw [r.len, shape] at full; exact absurd full (by simp; omega)
  | cons first rest => exact ⟨first, rest, rfl, by rw [← full, r.len, shape]; rfl⟩

theorem replace_holds {slots : Fin N → Option M} {head : Nat} {first : M} {rest : List M}
    (pos : 0 < N) (record : M) (holds : Ring.Holds slots head (first :: rest))
    (full : rest.length + 1 = N) :
    Ring.Holds (update slots (slot pos head 0) (some record)) ((head + 1) % N) (rest ++ [record]) := by
  have pushed := (holds.pop pos).push pos record (by omega)
  rwa [slot_next, show rest.length = N - 1 by omega, slot_last pos, update_idem] at pushed

theorem insert (r : Represents s f) (record : M) :
    (s.insert record).1 = (f.insert N record).1 ∧ Represents (s.insert record).2 (f.insert N record).2 := by
  have counted : countUp s.inserted 1 = min (f.inserted ++ [record]).length u64Max := by
    rw [r.inserted, countUp_min, length_append]
    rfl
  have evicted (first : M) : countUp s.evicted 1 = min (f.evicted ++ [first]).length u64Max := by
    rw [r.evicted, countUp_min, length_append]
    rfl
  by_cases pos : 0 < N
  · by_cases full : s.len = N
    · obtain ⟨first, rest, shape, len⟩ := r.items_of_full pos full
      have holds := r.holds
      rw [shape] at holds
      have oldest : s.slots ⟨s.head, s.inside pos⟩ = some first := by
        rw [← slot_zero (s.inside pos)]
        exact holds.2 pos 0 pos
      have grown : ¬ (first :: rest).length < N := by rw [length_cons]; omega
      simp only [BoundedZombieStore.insert, dif_pos pos, if_pos full, oldest, Fifo.insert, shape, if_neg grown]
      refine ⟨trivial, ?_, ?_, counted, evicted first, r.reaped⟩
      · rw [← slot_zero (s.inside pos)]
        exact replace_holds pos record holds len
      change s.len = _
      rw [full, length_append]
      exact len.symm
    have room : f.items.length < N := by
      have := r.bounded
      have := r.len
      omega
    simp only [BoundedZombieStore.insert, dif_pos pos, if_neg full, Fifo.insert, if_pos room]
    refine ⟨trivial, ?_, ?_, counted, r.evicted, r.reaped⟩
    · rw [r.len]
      exact r.holds.push pos record room
    change s.len + 1 = _
    rw [r.len, length_append]
    rfl
  have none : f.items = [] := eq_nil_of_length_eq_zero (by have := r.bounded; omega)
  simp only [BoundedZombieStore.insert, dif_neg pos, Fifo.insert, none, length_nil, if_neg pos]
  exact ⟨trivial, none ▸ r.holds, none ▸ r.len, counted, evicted record, r.reaped⟩

theorem reapOldest (r : Represents s f) :
    s.reapOldest.1 = f.reapOldest.1 ∧ Represents s.reapOldest.2 f.reapOldest.2 := by
  cases shape : f.items with
  | nil =>
    have none : s.len = 0 := by rw [r.len, shape]; rfl
    have store : s.reapOldest = (Option.none, s) := by
      unfold BoundedZombieStore.reapOldest
      split <;> rfl
    have list : f.reapOldest = (Option.none, f) := by simp only [Fifo.reapOldest, shape]
    rw [store, list]
    exact ⟨rfl, r⟩
  | cons first rest =>
    have holds := r.holds
    rw [shape] at holds
    have pos : 0 < N := lt_of_lt_of_le (Nat.succ_pos _) holds.1
    have some_ : ¬ s.len = 0 := by rw [r.len, shape]; simp
    have oldest : s.slots ⟨s.head, s.inside pos⟩ = some first := by
      rw [← slot_zero (s.inside pos)]
      exact holds.2 pos 0 pos
    simp only [BoundedZombieStore.reapOldest, dif_pos pos, if_neg some_, oldest, Fifo.reapOldest,
      shape, Option.isSome_some, if_true]
    refine ⟨trivial, ?_, ?_, r.inserted, r.evicted, ?_⟩
    · rw [← slot_zero (s.inside pos)]
      exact holds.pop pos
    · change s.len - 1 = _
      rw [r.len, shape]
      rfl
    change countUp s.reaped 1 = _
    rw [r.reaped, countUp_min, length_append]
    rfl

/-- The compaction loop: the first `write` slots hold what was kept, those up to `read` are empty,
and the rest is still to be read. -/
theorem retainLoop_holds (pos : 0 < N) (head : Nat) (keep : List M → M → Bool)
    (rest : List M) : ∀ (kept seen : List M) (gap : Nat) (slots : Fin N → Option M),
    kept.length + gap + rest.length ≤ N →
    (∀ i, i < N → slots (slot pos head i) =
      if i < kept.length + gap then kept[i]? else rest[i - (kept.length + gap)]?) →
    let done := retainLoop pos head keep rest.length (kept.length + gap)
      kept.length seen slots
    Ring.Holds done.1 head (kept ++ filterSeen keep seen rest) ∧
      done.2 = (kept ++ filterSeen keep seen rest).length := by
  induction rest with
  | nil =>
    intro kept seen gap slots fits layout
    simp only [retainLoop, length_nil, filterSeen, append_nil]
    refine ⟨⟨by omega, fun _ i hi => ?_⟩, trivial⟩
    rw [layout i hi]
    split
    · rfl
    · rw [getElem?_eq_none (by simp), getElem?_eq_none (by omega)]
  | cons m rest ih =>
    intro kept seen gap slots fits layout
    rw [length_cons] at fits
    have here : slots (slot pos head (kept.length + gap)) = some m := by
      rw [layout _ (by omega), if_neg (lt_irrefl _), Nat.sub_self]
      rfl
    simp only [retainLoop, length_cons, here, filterSeen]
    by_cases keeps : keep seen m = true
    · simp only [if_pos keeps]
      rw [append_cons kept]
      have next := ih (kept ++ [m]) (seen ++ [m]) gap (if slot pos head kept.length ≠
          slot pos head (kept.length + gap) then update (update slots
            (slot pos head (kept.length + gap)) none) (slot pos head kept.length) (some m)
          else slots) (by rw [length_append, length_singleton]; omega) ?_
      · rw [length_append, length_singleton, Nat.add_right_comm] at next
        exact next
      intro i hi
      rw [length_append, length_singleton, getElem?_append]
      split
      · rw [update_slot _ _ (by omega) hi, update_slot _ _ (by omega) hi, layout i hi]
        grind
      rename_i eq
      rw [not_not, slot_inj (by omega) (by omega)] at eq
      rw [layout i hi]
      grind
    simp only [if_neg keeps]
    refine ih kept (seen ++ [m]) (gap + 1) _ (by omega) ?_
    intro i hi
    rw [update_slot slots _ (by omega) hi, layout i hi]
    grind

theorem retain (r : Represents s f) (keep : List M → M → Bool) :
    (s.retain keep).1 = (f.retain keep).1 ∧ Represents (s.retain keep).2 (f.retain keep).2 := by
  have split := (filterSeen_perm keep [] f.items).length_eq
  rw [length_append] at split
  by_cases pos : 0 < N
  · obtain ⟨holds, write⟩ := retainLoop_holds pos s.head keep f.items [] [] 0 s.slots
      (by simpa using r.bounded) (fun i hi => by simpa using r.holds.2 pos i hi)
    simp only [length_nil, Nat.zero_add, nil_append, ← r.len] at holds write
    have removed : s.len - (filterSeen keep [] f.items).length =
        (filterSeen (fun seen m => !keep seen m) [] f.items).length := by
      rw [r.len]
      omega
    simp only [BoundedZombieStore.retain, dif_pos pos, Fifo.retain, write, removed]
    refine ⟨trivial, holds, rfl, r.inserted, r.evicted, ?_⟩
    change countUp s.reaped _ = _
    rw [r.reaped, countUp_min, length_append]
  have none : f.items = [] := eq_nil_of_length_eq_zero (by have := r.bounded; omega)
  simp only [BoundedZombieStore.retain, dif_neg pos, Fifo.retain, none, filterSeen, length_nil, append_nil]
  exact ⟨trivial, none ▸ r.holds, none ▸ r.len, r.inserted, r.evicted, r.reaped⟩

theorem iter (r : Represents s f) : s.iter = f.items := by
  by_cases pos : 0 < N
  · rw [BoundedZombieStore.iter, dif_pos pos, r.len]
    have slots : ∀ i ∈ range f.items.length, s.slots (slot pos s.head i) = f.items[i]? := by
      intro i mem
      exact r.holds.2 pos i (lt_of_lt_of_le (mem_range.mp mem) r.bounded)
    rw [filterMap_congr slots]
    exact filterMap_getElem? f.items
  rw [BoundedZombieStore.iter, dif_neg pos]
  exact (eq_nil_of_length_eq_zero (by have := r.bounded; omega)).symm

/-- Each call answers as on the list and keeps the representation. -/
theorem onCall (r : Represents s f) (call : ZombieCall M) :
    (call.onStore s).1 = (call.onFifo N f).1 ∧ Represents (call.onStore s).2 (call.onFifo N f).2 := by
  cases call with
  | insert record =>
    obtain ⟨answer, after⟩ := r.insert record
    exact ⟨congrArg ZombieAnswer.outcome answer, after⟩
  | reapOldest =>
    obtain ⟨answer, after⟩ := r.reapOldest
    exact ⟨congrArg ZombieAnswer.oldest answer, after⟩
  | retain keep =>
    obtain ⟨answer, after⟩ := r.retain keep
    exact ⟨congrArg ZombieAnswer.removed answer, after⟩
  | allocGeneration => exact ⟨rfl, r.holds, r.len, r.inserted, r.evicted, r.reaped⟩

theorem run (r : Represents s f) (calls : List (ZombieCall M)) :
    (runStore s calls).1 = (runFifo N f calls).1 ∧ Represents (runStore s calls).2 (runFifo N f calls).2 := by
  induction calls generalizing s f with
  | nil => exact ⟨rfl, r⟩
  | cons call rest ih =>
    obtain ⟨answer, next⟩ := r.onCall call
    obtain ⟨answers, last⟩ := ih next
    exact ⟨congrArg₂ List.cons answer answers, last⟩

end Represents

namespace Fifo
variable {f : Fifo M}

/-- The inserted records are the evicted, the reaped and the present ones. -/
def Accounted (f : Fifo M) : Prop := f.inserted.Perm (f.evicted ++ f.reaped ++ f.items)

theorem Accounted.onCall (pre : Accounted f) (call : ZombieCall M) : Accounted (call.onFifo N f).2 := by
  classical
  unfold Accounted at pre ⊢
  rw [perm_iff_count] at pre ⊢
  intro a
  have counted := pre a
  simp only [count_append] at counted
  cases call with
  | insert record =>
    simp only [onFifo, insert]
    split
    · simp only [count_append]
      omega
    cases shape : f.items with
    | nil =>
      rw [shape] at counted
      simp only [count_append]
      omega
    | cons first rest =>
      rw [shape, count_cons] at counted
      simp only [count_append, count_cons, count_nil]
      omega
  | reapOldest =>
    simp only [onFifo, reapOldest]
    cases shape : f.items with
    | nil => simpa [shape, count_append] using counted
    | cons first rest =>
      rw [shape, count_cons] at counted
      simp only [count_append, count_cons, count_nil]
      omega
  | retain keep =>
    have parts := (filterSeen_perm keep [] f.items).count_eq a
    simp only [count_append] at parts
    simp only [onFifo, retain, count_append]
    omega
  | allocGeneration =>
    simp only [onFifo, count_append]
    exact counted

theorem Accounted.run (pre : Accounted f) (calls : List (ZombieCall M)) :
    Accounted (runFifo N f calls).2 := by
  induction calls generalizing f with
  | nil => exact pre
  | cons call rest ih => exact ih (pre.onCall call)

end Fifo

def storeAfter (N : Nat) (calls : List (ZombieCall M)) : BoundedZombieStore M N :=
  (runStore new calls).2

def fifoAfter (N : Nat) (calls : List (ZombieCall M)) : Fifo M := (runFifo N Fifo.empty calls).2

theorem represents_after (calls : List (ZombieCall M)) :
    Represents (storeAfter N calls) (fifoAfter N calls) := (Represents.new.run calls).2

theorem accounted_after (N : Nat) (calls : List (ZombieCall M)) : (fifoAfter N calls).Accounted := by
  have initial : (Fifo.empty : Fifo M).Accounted := List.Perm.refl []
  exact initial.run calls

theorem inserted_length_after (N : Nat) (calls : List (ZombieCall M)) :
    (fifoAfter N calls).inserted.length = (fifoAfter N calls).evicted.length +
      (fifoAfter N calls).reaped.length + (fifoAfter N calls).items.length := by
  rw [(accounted_after N calls).length_eq, length_append, length_append]

theorem TaskGraveyard.find_of_mem {yard : TaskGraveyard N} {r : FinishedTask}
    (stored : r ∈ yard.iter) : ∃ found ∈ yard.iter,
      find yard r.koid r.generation = some found ∧ found.koid = r.koid ∧ found.generation = r.generation := by
  cases shape : find yard r.koid r.generation with
  | none =>
    have all := find?_eq_none.mp shape r stored
    simp at all
  | some found =>
    have matches_ := find?_some shape
    exact ⟨found, mem_of_find?_eq_some shape, rfl, by simpa using matches_⟩

/-- What the store is for, after any calls: the answers and the stored records are those of the
list, `retain` filters, every record is present, evicted or reaped, the counters add up while they
can count, and a stored exit record is found as long as no other stored record has its key. -/
theorem store_behaves_as_fifo (N : Nat) :
    (∀ (M : Type) (calls : List (ZombieCall M)),
      (runStore (new : BoundedZombieStore M N) calls).1 =
          (runFifo N Fifo.empty calls).1 ∧
        (storeAfter N calls).iter = (fifoAfter N calls).items ∧
        (fifoAfter N calls).items.length ≤ N ∧
        (∀ p : M → Bool, ((storeAfter N calls).retain fun _ => p).2.iter = (storeAfter N calls).iter.filter p) ∧
        (fifoAfter N calls).Accounted ∧
        ((fifoAfter N calls).inserted.length < 2 ^ 64 →
          (storeAfter N calls).inserted = (fifoAfter N calls).inserted.length ∧
          (storeAfter N calls).inserted = (storeAfter N calls).evicted +
            (storeAfter N calls).reaped + (storeAfter N calls).len)) ∧
      ∀ (calls : List (ZombieCall FinishedTask)) (r : FinishedTask),
        r ∈ (fifoAfter N calls).inserted →
          r ∈ (fifoAfter N calls).evicted ∨ r ∈ (fifoAfter N calls).reaped ∨
            (∃ found, find (storeAfter N calls) r.koid r.generation = some found ∧
              found.koid = r.koid ∧ found.generation = r.generation) ∧
            ((∀ other ∈ (storeAfter N calls).iter, other.koid = r.koid →
                other.generation = r.generation → other = r) →
              find (storeAfter N calls) r.koid r.generation = some r) := by
  constructor
  · intro M calls
    have r : Represents (storeAfter N calls) (fifoAfter N calls) := represents_after calls
    have total := inserted_length_after N calls
    refine ⟨(Represents.new.run calls).1, r.iter, r.bounded, fun p => ?_, accounted_after N calls,
      fun few => ?_⟩
    · rw [(r.retain _).2.iter, r.iter]
      exact filterSeen_const p [] _
    have inserted := r.inserted
    have evicted := r.evicted
    have reaped := r.reaped
    have len := r.len
    unfold u64Max at inserted evicted reaped
    omega
  intro calls r inserted
  have mem := (accounted_after N calls).mem_iff.mp inserted
  rw [mem_append, mem_append, or_assoc] at mem
  refine mem.imp_right (Or.imp_right fun present => ?_)
  rw [← (represents_after calls).iter] at present
  obtain ⟨found, stored, answer, koid, gen⟩ := find_of_mem present
  refine ⟨⟨found, answer, koid, gen⟩, fun alone => ?_⟩
  rw [answer, alone found stored koid gen]

theorem fifoAfter_concat (N : Nat) (calls : List (ZombieCall M)) (call : ZombieCall M) :
    fifoAfter N (calls ++ [call]) = (call.onFifo N (fifoAfter N calls)).2 := by
  unfold fifoAfter
  generalize (Fifo.empty : Fifo M) = f
  induction calls generalizing f with
  | nil => rfl
  | cons first rest ih => exact ih _

theorem inserted_replicate (N n : Nat) (m : M) :
    (fifoAfter N (replicate n (.insert m))).inserted.length = n := by
  induction n with
  | zero => rfl
  | succ n ih =>
    rw [replicate_succ', fifoAfter_concat]
    simp only [onFifo, Fifo.insert]
    split
    · simp [ih]
    · split <;> simp [ih]

theorem items_replicate_ne_nil {n : Nat} (m : M) (pos : 0 < N) (some_ : n ≠ 0) :
    (fifoAfter N (replicate n (.insert m))).items ≠ [] := by
  obtain ⟨n, rfl⟩ := Nat.exists_eq_succ_of_ne_zero some_
  rw [Nat.succ_eq_add_one, replicate_succ', fifoAfter_concat]
  simp only [onFifo, Fifo.insert]
  split
  · simp
  rename_i full
  cases shape : (fifoAfter N (replicate n (.insert m))).items with
  | nil => rw [shape] at full; exact absurd pos full
  | cons first rest => simp

/-- More insertions than a counter can count leave counters that do not add up. -/
theorem counters_do_not_add_up {n : Nat} (m : M) (pos : 0 < N) (many : u64Max + N ≤ n) :
    (storeAfter N (replicate n (.insert m))).inserted ≠
      (storeAfter N (replicate n (.insert m))).evicted +
        (storeAfter N (replicate n (.insert m))).reaped +
        (storeAfter N (replicate n (.insert m))).len := by
  have r : Represents (storeAfter N (replicate n (.insert m))) _ := represents_after _
  have total := inserted_length_after N (replicate n (.insert m))
  rw [inserted_replicate] at total
  have stored := length_pos_iff.mpr (items_replicate_ne_nil m pos (n := n) (by omega))
  have bounded := r.bounded
  rw [r.inserted, r.evicted, r.reaped, r.len, inserted_replicate]
  unfold u64Max at many ⊢
  omega

def firstExit : FinishedTask := ⟨5, 1, 0, 10⟩
def secondExit : FinishedTask := ⟨5, 1, 9, 11⟩

/-- After 2^64 insertions into a store of one record the counters do not add up; and of two stored
exits with one key only the older is found. -/
theorem store_counters_and_lookup_limits :
    ((storeAfter 1 (replicate (2 ^ 64) (.insert firstExit))).inserted ≠
      (storeAfter 1 (replicate (2 ^ 64) (.insert firstExit))).evicted +
        (storeAfter 1 (replicate (2 ^ 64) (.insert firstExit))).reaped +
        (storeAfter 1 (replicate (2 ^ 64) (.insert firstExit))).len) ∧
    (storeAfter 2 [.insert firstExit, .insert secondExit]).iter = [firstExit, secondExit] ∧
    find (storeAfter 2 [.insert firstExit, .insert secondExit]) 5 1 = some firstExit :=
  ⟨counters_do_not_add_up firstExit (by decide) (by decide), by decide, by decide⟩

end HuesOS.Sched
