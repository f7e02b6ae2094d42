import HuesOS.Lib.Ring
import Mathlib

/-! The broker's audit log: a ring that retains its latest entries. -/

namespace HuesOS.Broker
open List Function Ring

inductive AuditOutcome
  | allowed | denied | error

structure AuditEntry where
  sequence : UInt64
  opcode : UInt8
  outcome : AuditOutcome
  argument : UInt64

structure AuditLog (N : Nat) where
  slots : Fin N → Option AuditEntry
  head : Fin N
  len : Nat
  sequence : UInt64

namespace AuditLog
variable {N : Nat}

def new (pos : 0 < N) : AuditLog N := ⟨fun _ => none, ⟨0, pos⟩, 0, 0⟩

variable (log : AuditLog N)

def record (opcode : UInt8) (outcome : AuditOutcome) (argument : UInt64) : AuditEntry × AuditLog N :=
  let entry := ⟨log.sequence, opcode, outcome, argument⟩
  (entry, { sequence := log.sequence + 1
            slots := update log.slots log.head (some entry)
            head := slot log.head.pos log.head 1
            len := if log.len < N then log.len + 1 else log.len })

/-- What an iterator has at position `i`. -/
def next (i : Nat) : Option AuditEntry :=
  if log.len ≤ i then none
  else log.slots (slot log.head.pos (if log.len < N then 0 else log.head) i)

/-- An iterator ends where it first has nothing. -/
def iter : List AuditEntry := (((range log.len).map log.next).takeWhile Option.isSome).reduceOption

abbrev Decision := UInt8 × AuditOutcome × UInt64

def recordAll (decisions : List Decision) (log : AuditLog N) : AuditLog N :=
  decisions.foldl (fun log d => (log.record d.1 d.2.1 d.2.2).2) log

def entries (decisions : List Decision) : List AuditEntry :=
  decisions.zipIdx.map fun (d, i) => ⟨.ofNat i, d.1, d.2.1, d.2.2⟩

/-- The log retains the latest of the entries recorded, entry `k` in slot `k % N`. -/
structure Retains (log : AuditLog N) (all : List AuditEntry) : Prop where
  sequence : log.sequence = .ofNat all.length
  len : log.len = min all.length N
  head : log.head = slot log.head.pos 0 all.length
  latest : ∀ k < all.length, all.length ≤ k + N → log.slots (slot log.head.pos 0 k) = all[k]?

variable {log} {all : List AuditEntry}

theorem Retains.record (h : log.Retains all) (d : Decision) : Retains (log.record d.1 d.2.1 d.2.2).2
    (all ++ [⟨.ofNat all.length, d.1, d.2.1, d.2.2⟩]) := by
  obtain ⟨sequence, len, head, latest⟩ := h
  refine ⟨by simp [AuditLog.record, sequence], ?_, ?_, fun k lt near => ?_⟩
  · rw [AuditLog.record, length_append, length_singleton]
    grind
  · simp [AuditLog.record, slot, Fin.ext_iff.mp head]
  rw [length_append, length_singleton] at lt near
  simp only [AuditLog.record, sequence]
  by_cases last : k = all.length
  · rw [last, ← head, update_self, getElem?_concat_length]
  -- the slots of the latest `N` entries differ
  have other : slot log.head.pos 0 k ≠ log.head := fun eq => by
    have residues := Nat.sub_mod_eq_zero_of_mod_eq (Fin.ext_iff.mp (eq.trans head)).symm
    rw [Nat.mod_eq_of_lt (by omega)] at residues
    omega
  rw [update_of_ne other, latest k (by omega) (by omega), getElem?_append_left (by omega)]

theorem Retains.next (h : log.Retains all) (i : Nat) : log.next i = (all.drop (all.length - N))[i]? := by
  have pos := log.head.pos
  have len := h.len
  rw [AuditLog.next, getElem?_drop]
  split_ifs with done wrapped
  · rw [getElem?_eq_none (by omega)]
  · rw [h.latest i (by omega) (by omega), show all.length - N = 0 by omega, Nat.zero_add]
  · rw [← h.latest _ (by omega) (by omega), Fin.ext_iff.mp h.head]
    congr 1
    simp only [slot, Fin.mk.injEq, Nat.zero_add, Nat.mod_add_mod]
    rw [← Nat.add_mod_right (all.length - N + i)]
    congr 1
    omega

/-- However many decisions were recorded, an iterator yields the latest of them, as many as the log
can hold, in their order and under their own numbers. -/
theorem iter_recordAll (pos : 0 < N) (decisions : List Decision) :
    iter (recordAll decisions (new pos)) = (entries decisions).drop (decisions.length - N) := by
  have retains : (recordAll decisions (new pos)).Retains (entries decisions) := by
    induction decisions using reverseRecOn with
    | nil => exact ⟨rfl, (Nat.zero_min N).symm, Fin.ext (Nat.zero_mod N).symm, nofun⟩
    | append_singleton front d ih => simpa [recordAll, entries, zipIdx_append] using ih.record d
  generalize recordAll decisions (new pos) = log at retains
  have length : decisions.length = (entries decisions).length := by simp [entries]
  have all : (range log.len).map log.next = ((entries decisions).drop (decisions.length - N)).map some := by
    refine ext_getElem (by simp [retains.len, length]; omega) fun i here there => ?_
    simp [retains.next, length]
  rw [iter, all, takeWhile_eq_self_iff.mpr (forall_mem_map.mpr fun _ _ => rfl), reduceOption, filterMap_map]
  exact filterMap_some

theorem iter_recordAll_wrapped :
    (recordAll [(7, .denied, 4), (8, .allowed, 5), (9, .error, 6)] (new Nat.two_pos)).iter =
      [⟨1, 8, .allowed, 5⟩, ⟨2, 9, .error, 6⟩] :=
  iter_recordAll Nat.two_pos _

end AuditLog
end HuesOS.Broker
