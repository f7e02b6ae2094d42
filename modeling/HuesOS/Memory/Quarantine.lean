import Mathlib
import HuesOS.Lib.Ring
import HuesOS.Lib.Runs

namespace HuesOS.Memory
open List Function Ring

structure QuarantinedChunk where
  offset : Nat
  sizeClass : Option UInt8
  requestSize : Nat

namespace Quarantine

def capacity : Nat := 64

def maxBytes : Nat := 256 * 1024

theorem capacity_pos : 0 < capacity := by decide

end Quarantine

structure Quarantine where
  entries : Fin Quarantine.capacity → Option QuarantinedChunk
  head : Fin Quarantine.capacity
  len : Nat
  bytes : Nat

namespace Quarantine

def new : Quarantine := ⟨fun _ => none, ⟨0, capacity_pos⟩, 0, 0⟩

def popOldest (q : Quarantine) : Option QuarantinedChunk × Quarantine :=
  if q.len = 0 then (none, q)
  else
    let entry := q.entries q.head
    let bytes := match entry with
      | some chunk => q.bytes - chunk.requestSize
      | none => q.bytes
    (entry, ⟨update q.entries q.head none, slot capacity_pos q.head 1, q.len - 1, bytes⟩)

def evict (q : Quarantine) (chunk : QuarantinedChunk) : Option QuarantinedChunk × Quarantine :=
  if q.len = capacity ∨ maxBytes < q.bytes + chunk.requestSize then q.popOldest else (none, q)

def park (q : Quarantine) (chunk : QuarantinedChunk) : Quarantine :=
  { q with
    entries := update q.entries (slot capacity_pos q.head q.len) (some chunk)
    len := q.len + 1
    bytes := q.bytes + chunk.requestSize }

/-- There is no result when the byte counter overflows, which panics. -/
def push (q : Quarantine) (chunk : QuarantinedChunk) :
    Option (Option QuarantinedChunk × Quarantine) :=
  if q.len ≠ capacity ∧ 2 ^ 64 ≤ q.bytes + chunk.requestSize then none
  else
    let (evicted, q) := q.evict chunk
    if 2 ^ 64 ≤ q.bytes + chunk.requestSize then none
    else some (evicted, q.park chunk)

end Quarantine

inductive QuarantineCall
  | push (chunk : QuarantinedChunk)
  | popOldest

/-- The quarantine with all the chunks pushed so far and all it has returned. -/
structure QuarantineHistory where
  queue : Quarantine := .new
  pushed : List QuarantinedChunk := []
  returned : List QuarantinedChunk := []

namespace QuarantineHistory

def step (h : QuarantineHistory) : QuarantineCall → Option QuarantineHistory
  | .push chunk => (h.queue.push chunk).map fun (evicted, queue) =>
    ⟨queue, h.pushed ++ [chunk], h.returned ++ evicted.toList⟩
  | .popOldest => some ⟨h.queue.popOldest.2, h.pushed, h.returned ++ h.queue.popOldest.1.toList⟩

def Takes (call : QuarantineCall) (h t : QuarantineHistory) : Prop := h.step call = some t

/-- The chunks that have not come out. -/
def held (h : QuarantineHistory) : List QuarantinedChunk := h.pushed.drop h.returned.length

/-- With two or more chunks waiting, a new one goes over the budget by no more than the size of the
oldest. -/
def Fits : QuarantineCall → QuarantineHistory → Prop
  | .push chunk, h => ∀ oldest rest, h.held = oldest :: rest → rest ≠ [] →
    (h.held.map QuarantinedChunk.requestSize).sum + chunk.requestSize ≤
      Quarantine.maxBytes + oldest.requestSize
  | .popOldest, _ => True

end QuarantineHistory

namespace Quarantine
variable {q : Quarantine} {held : List QuarantinedChunk} {chunk : QuarantinedChunk}

structure Represents (q : Quarantine) (held : List QuarantinedChunk) : Prop where
  ring : Holds q.entries q.head held
  len : q.len = held.length
  bytes : q.bytes = (held.map QuarantinedChunk.requestSize).sum

def WithinBudget (q : Quarantine) : Prop := q.len ≤ 1 ∨ q.bytes ≤ maxBytes

theorem WithinBudget.popOldest (within : q.WithinBudget) : q.popOldest.2.WithinBudget := by
  unfold Quarantine.popOldest
  split
  · exact within
  rcases within with short | small
  · exact .inl (by dsimp only; omega)
  · refine .inr ?_
    dsimp only
    split <;> omega

theorem Represents.popOldest (represents : q.Represents held) :
    ∃ kept, q.popOldest.2.Represents kept ∧ held = q.popOldest.1.toList ++ kept ∧ kept.length < capacity := by
  cases held with
  | nil =>
    have empty : q.len = 0 := represents.len
    rw [Quarantine.popOldest, if_pos empty]
    exact ⟨[], represents, rfl, capacity_pos⟩
  | cons chunk kept =>
    obtain ⟨ring, len, bytes⟩ := represents
    have first := ring.2 capacity_pos 0 capacity_pos
    have popped := ring.pop capacity_pos
    rw [slot_zero q.head.isLt] at first popped
    rw [length_cons] at len
    rw [map_cons, sum_cons] at bytes
    rw [Quarantine.popOldest, if_neg (by omega), first]
    refine ⟨kept, ⟨popped, ?_, ?_⟩, rfl, ring.1⟩
    · dsimp only
      omega
    · dsimp only [getElem?_cons_zero]
      omega

theorem Represents.evict (represents : q.Represents held) (chunk : QuarantinedChunk) :
    ∃ kept, (q.evict chunk).2.Represents kept ∧ held = (q.evict chunk).1.toList ++ kept ∧
      kept.length < capacity := by
  have bounded := represents.ring.1
  have len := represents.len
  unfold Quarantine.evict
  split
  · exact represents.popOldest
  · exact ⟨held, represents, rfl, by omega⟩

theorem push_eq_some {evicted : Option QuarantinedChunk} {q' : Quarantine}
    (pushed : q.push chunk = some (evicted, q')) :
    evicted = (q.evict chunk).1 ∧ q' = (q.evict chunk).2.park chunk := by
  unfold push at pushed
  split at pushed
  · cases pushed
  dsimp only at pushed
  split at pushed
  · cases pushed
  · cases pushed
    exact ⟨rfl, rfl⟩

theorem Represents.park (represents : q.Represents held) (chunk : QuarantinedChunk)
    (room : held.length < capacity) : (q.park chunk).Represents (held ++ [chunk]) := by
  obtain ⟨ring, len, bytes⟩ := represents
  rw [Quarantine.park, len, bytes]
  exact ⟨ring.push capacity_pos chunk room, by simp, by simp⟩

end Quarantine

namespace QuarantineHistory
open Quarantine
variable {h t : QuarantineHistory} {call : QuarantineCall}

/-- The chunks came out in the order they went in, and at most 64 have not come out. -/
def Ordered (h : QuarantineHistory) : Prop :=
  ∃ held, h.queue.Represents held ∧ h.pushed = h.returned ++ held ∧ held.length ≤ capacity

theorem Ordered.step (ordered : h.Ordered) (taken : Takes call h t) : t.Ordered := by
  obtain ⟨held, represents, order, _⟩ := ordered
  cases call with
  | push chunk =>
    obtain ⟨⟨evicted, q⟩, pushed, rfl⟩ := Option.map_eq_some_iff.mp taken
    obtain ⟨rfl, rfl⟩ := push_eq_some pushed
    obtain ⟨kept, rest, split, room⟩ := represents.evict chunk
    refine ⟨kept ++ [chunk], rest.park chunk room, ?_, by simpa using room⟩
    simp [order, split]
  | popOldest =>
    cases taken
    obtain ⟨kept, rest, split, room⟩ := represents.popOldest
    exact ⟨kept, rest, by simp [order, split], room.le⟩

theorem Ordered.represents (ordered : h.Ordered) : h.queue.Represents h.held := by
  obtain ⟨held, represents, order, -⟩ := ordered
  rwa [QuarantineHistory.held, order, drop_left]

theorem Ordered.push_iff (ordered : h.Ordered) (chunk : QuarantinedChunk) :
    ((h.queue.evict chunk).2.park chunk).WithinBudget ↔ Fits (.push chunk) h := by
  have represents := ordered.represents
  have len := represents.len
  have bytes := represents.bytes
  obtain ⟨kept, after, split, -⟩ := represents.evict chunk
  have left := after.len
  have size := after.bytes
  simp only [WithinBudget, park, left, size, Fits]
  unfold evict at split
  split at split
  next full =>
    cases waiting : h.held with
    | nil =>
      rw [waiting] at split
      have empty : kept = [] := (append_eq_nil_iff.mp split.symm).2
      simp [empty]
    | cons oldest rest =>
      have popped : h.queue.popOldest.1 = some oldest := by
        have ring := represents.ring.2 capacity_pos 0 capacity_pos
        rw [slot_zero h.queue.head.isLt, waiting] at ring
        rw [popOldest, if_neg (by rw [len, waiting]; simp)]
        exact ring
      rw [waiting, popped] at split
      obtain rfl : rest = kept := (cons.inj split).2
      rw [map_cons, sum_cons]
      cases rest with
      | nil => simp
      | cons second others =>
        constructor
        · intro within o r same _
          cases same
          simp only [length_cons] at within
          omega
        · intro fits
          have := fits oldest _ rfl nofun
          omega
  next fits =>
    have same : h.held = kept := split
    rw [← same, ← bytes]
    have room : h.queue.bytes + chunk.requestSize ≤ maxBytes := by omega
    exact iff_of_true (.inr room) fun oldest rest _ _ => room.trans (Nat.le_add_right ..)

theorem within_step_iff (ordered : h.Ordered) (within : h.queue.WithinBudget) (taken : Takes call h t) :
    t.queue.WithinBudget ↔ Fits call h := by
  cases call with
  | push chunk =>
    obtain ⟨⟨evicted, q⟩, pushed, rfl⟩ := Option.map_eq_some_iff.mp taken
    obtain ⟨rfl, rfl⟩ := push_eq_some pushed
    exact ordered.push_iff chunk
  | popOldest =>
    cases taken
    exact iff_of_true within.popOldest trivial

theorem ordered_new : Ordered {} := ⟨[], ⟨.empty _, rfl, rfl⟩, rfl, capacity_pos.le⟩

/-- In every run chunks are returned in order, each once, and at most 64 wait; the budget is kept
in the runs whose pushes fit, and the next call keeps it exactly when it fits. -/
theorem fifo_within_iff (run : Runs Takes (fun _ _ => True) {} h) : h.Ordered ∧
    (Runs Takes Fits {} h → h.queue.WithinBudget) ∧
      (h.queue.WithinBudget → ∀ call t, Takes call h t → (t.queue.WithinBudget ↔ Fits call h)) := by
  have ordered : h.Ordered := run.invariant ordered_new fun ordered _ taken => ordered.step taken
  refine ⟨ordered, fun fitting => ?_, fun within call t taken => within_step_iff ordered within taken⟩
  refine (fitting.invariant (P := fun h => h.Ordered ∧ h.queue.WithinBudget)
    ⟨ordered_new, .inl zero_le_one⟩ ?_).2
  rintro call h t ⟨ordered, within⟩ fits taken
  exact ⟨ordered.step taken, (within_step_iff ordered within taken).mpr fits⟩

/-- The second and the fourth push evict the chunk that is the oldest then. -/
theorem fifo_within_evicting : ∃ h : QuarantineHistory,
    h.returned.map QuarantinedChunk.offset = [0, 1] ∧ h.Ordered ∧ h.queue.WithinBudget := by
  have begun : Runs Takes Fits {} _ := .start
  have one := begun.next (k := QuarantineCall.push ⟨0, none, 200000⟩) (nomatch ·, ·, ·) rfl
  have two := one.next (k := QuarantineCall.push ⟨1, none, 100000⟩) (by rintro _ _ ⟨⟩ some; exact absurd rfl some) rfl
  have three := two.next (k := QuarantineCall.push ⟨2, none, 150000⟩) (by rintro _ _ ⟨⟩ some; exact absurd rfl some) rfl
  have four := three.next (k := QuarantineCall.push ⟨3, none, 60000⟩) (by rintro _ _ ⟨⟩ -; decide) rfl
  have all := fifo_within_iff (four.mono fun _ _ _ => trivial)
  exact ⟨_, rfl, all.1, all.2.1 four⟩

/-- One eviction does not make room for a chunk as large as the budget. -/
theorem over_budget : ∃ h, [⟨0, none, 1⟩, ⟨32, none, 1⟩, ⟨64, none, maxBytes⟩].foldlM
    (fun h chunk => step h (.push chunk)) {} = some h ∧ ¬h.queue.WithinBudget :=
  ⟨_, rfl, by unfold WithinBudget; decide⟩

end QuarantineHistory
end HuesOS.Memory
