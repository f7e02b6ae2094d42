import Mathlib.Data.List.Basic
import Mathlib.Data.List.Perm.Basic
import Mathlib.Data.List.TakeWhile
import Mathlib.Tactic.Common

/-! Fixed capacity tables. -/

abbrev Slots (α : Type) := List (Option α)

namespace Slots
open List
variable {α β : Type}

def empty (capacity : Nat) : Slots α := List.replicate capacity none

def live (table : Slots α) : List α := table.filterMap id

def put (a : α) : Slots α → Option (Slots α)
  | [] => none
  | none :: rest => some (some a :: rest)
  | some b :: rest => (put a rest).map (some b :: ·)

def dropFirst (p : α → Bool) : Slots α → Slots α
  | [] => []
  | none :: rest => none :: dropFirst p rest
  | some b :: rest => if p b then none :: rest else some b :: dropFirst p rest

def modifyFirst (p : α → Bool) (f : α → α) : Slots α → Slots α
  | [] => []
  | none :: rest => none :: modifyFirst p f rest
  | some b :: rest => if p b then some (f b) :: rest else some b :: modifyFirst p f rest

def dropAll (p : α → Bool) : Slots α → Slots α
  | [] => []
  | none :: rest => none :: dropAll p rest
  | some b :: rest => (if p b then none else some b) :: dropAll p rest

@[simp] theorem live_nil : live ([] : Slots α) = [] := rfl

@[simp] theorem live_none (rest : Slots α) : live (none :: rest) = live rest := rfl

@[simp] theorem live_some (a : α) (rest : Slots α) : live (some a :: rest) = a :: live rest := rfl

@[simp] theorem live_append (front back : Slots α) :
    live (front ++ back) = live front ++ live back := filterMap_append

@[simp] theorem live_empty (capacity : Nat) : live (empty capacity : Slots α) = [] := by
  induction capacity with
  | zero => rfl
  | succ n ih => simpa [empty, replicate_succ] using ih

@[simp] theorem mem_live {a : α} {table : Slots α} : a ∈ live table ↔ some a ∈ table := by
  simp [live]

theorem live_length_le (table : Slots α) : (live table).length ≤ table.length :=
  length_filterMap_le _ _

theorem live_perm {front back : Slots α} (h : front.Perm back) : (live front).Perm (live back) :=
  h.filterMap _

theorem live_sublist {front back : Slots α} (h : front.Sublist back) :
    (live front).Sublist (live back) := h.filterMap _

theorem live_drop_used (table : Slots α) :
    live (table.drop (table.length - (table.reverse.takeWhile Option.isNone).length)) = [] := by
  have split : table = (table.reverse.dropWhile Option.isNone).reverse ++
      (table.reverse.takeWhile Option.isNone).reverse := by
    rw [← reverse_append, takeWhile_append_dropWhile, reverse_reverse]
  have lengths := congrArg List.length split
  rw [length_append, length_reverse, length_reverse] at lengths
  have front : table.length - (table.reverse.takeWhile Option.isNone).length =
      (table.reverse.dropWhile Option.isNone).reverse.length := by
    rw [length_reverse]
    omega
  have back : table.drop (table.length - (table.reverse.takeWhile Option.isNone).length) =
      (table.reverse.takeWhile Option.isNone).reverse := by
    conv_lhs => rw [front]; arg 2; rw [split]
    exact drop_left
  rw [back, eq_nil_iff_forall_not_mem]
  intro a mem
  have isNone := mem_takeWhile_imp (mem_reverse.mp (mem_live.mp mem))
  simp at isNone

section Put
variable {a : α} {table after : Slots α}

theorem put_cases (h : put a table = some after) :
    ∃ front back, table = front ++ none :: back ∧ after = front ++ some a :: back ∧ none ∉ front := by
  induction table generalizing after with
  | nil => simp [put] at h
  | cons slot rest ih =>
    cases slot with
    | none =>
      simp only [put, Option.some.injEq] at h
      exact ⟨[], rest, rfl, by simp [h], by simp⟩
    | some b =>
      obtain ⟨after', hafter, rfl⟩ := Option.map_eq_some_iff.mp h
      obtain ⟨front, back, rfl, rfl, full⟩ := ih hafter
      exact ⟨some b :: front, back, rfl, rfl, by simpa using full⟩

theorem put_eq_none : put a table = none ↔ none ∉ table := by
  induction table with
  | nil => simp [put]
  | cons slot rest ih => cases slot <;> simp [put, ih]

theorem length_put (h : put a table = some after) : after.length = table.length := by
  obtain ⟨front, back, rfl, rfl, -⟩ := put_cases h
  simp

theorem live_put (h : put a table = some after) : (live after).Perm (a :: live table) := by
  obtain ⟨front, back, rfl, rfl, -⟩ := put_cases h
  simp

theorem live_set {idx : Nat} (lt : idx < table.length) (found : table[idx] = some a) :
    ∃ others, (live table).Perm (a :: others) ∧
      ∀ next, (live (table.set idx (some next))).Perm (next :: others) := by
  refine ⟨live (table.take idx) ++ live (table.drop (idx + 1)), ?_, fun next => ?_⟩
  · conv_lhs => rw [← take_append_drop idx table, drop_eq_getElem_cons lt, found]
    simp
  · rw [set_eq_take_append_cons_drop, if_pos lt]
    simp

theorem mem_live_put {b : α} (h : put a table = some after) : b ∈ live after ↔ b = a ∨ b ∈ live table := by
  rw [(live_put h).mem_iff, mem_cons]

end Put

section Drop
variable (p : α → Bool)

theorem live_dropFirst (table : Slots α) : live (dropFirst p table) = (live table).eraseP p := by
  induction table with
  | nil => rfl
  | cons slot rest ih =>
    cases slot with
    | none => simpa [dropFirst] using ih
    | some b =>
      by_cases hb : p b
      · simp [dropFirst, hb]
      · simp [dropFirst, hb, ih]

theorem live_perm_dropFirst {table : Slots α} {a : α} (found : (live table).find? p = some a) :
    (live table).Perm (a :: live (dropFirst p table)) := by
  rw [live_dropFirst]
  generalize live table = records at found
  induction records with
  | nil => simp at found
  | cons b rest ih =>
    by_cases hb : p b = true
    · rw [find?_cons_of_pos hb] at found
      cases found
      rw [eraseP_cons_of_pos hb]
    rw [find?_cons_of_neg hb] at found
    rw [eraseP_cons_of_neg hb]
    exact ((ih found).cons b).trans (List.Perm.swap a b _)

theorem none_mem_dropFirst {table : Slots α} {a : α} (mem : a ∈ live table)
    (matched : p a = true) : none ∈ dropFirst p table := by
  induction table with
  | nil => simp at mem
  | cons slot rest ih =>
    cases slot with
    | none => simp [dropFirst]
    | some b =>
      by_cases hb : p b = true
      · simp [dropFirst, hb]
      rcases mem_cons.mp mem with rfl | later
      · exact absurd matched hb
      · simpa [dropFirst, hb] using ih later

@[simp] theorem length_dropAll (table : Slots α) : (dropAll p table).length = table.length := by
  induction table with
  | nil => rfl
  | cons slot rest ih => cases slot <;> simp [dropAll, ih]

theorem live_dropAll (table : Slots α) : live (dropAll p table) = (live table).filter (!p ·) := by
  induction table with
  | nil => rfl
  | cons slot rest ih =>
    cases slot with
    | none => simpa [dropAll] using ih
    | some b =>
      by_cases hb : p b
      · simp [dropAll, hb, ih]
      · simp [dropAll, hb, ih]

theorem map_live_modifyFirst (f : α → α) (g : α → β) (eq : ∀ a, p a = true → g (f a) = g a)
    (table : Slots α) : (live (modifyFirst p f table)).map g = (live table).map g := by
  induction table with
  | nil => rfl
  | cons slot rest ih =>
    cases slot with
    | none => simpa [modifyFirst] using ih
    | some b =>
      by_cases hb : p b
      · simp [modifyFirst, hb, eq b hb]
      · simp [modifyFirst, hb, ih]

theorem find?_live_modifyFirst (f : α → α) (eq : ∀ a, p a = true → p (f a) = true)
    (table : Slots α) :
    (live (modifyFirst p f table)).find? p = ((live table).find? p).map f := by
  induction table with
  | nil => rfl
  | cons slot rest ih =>
    cases slot with
    | none => simpa [modifyFirst] using ih
    | some b =>
      by_cases hb : p b = true
      · simp [modifyFirst, hb, eq b hb]
      · simp [modifyFirst, hb, ih]

theorem find?_live_modifyFirst_other (f : α → α) {q : α → Bool}
    (pre : ∀ a, p a = true → q a = false) (after : ∀ a, p a = true → q (f a) = false)
    (table : Slots α) : (live (modifyFirst p f table)).find? q = (live table).find? q := by
  induction table with
  | nil => rfl
  | cons slot rest ih =>
    cases slot with
    | none => simpa [modifyFirst] using ih
    | some b =>
      by_cases hb : p b = true
      · simp [modifyFirst, hb, pre b hb, after b hb]
      by_cases hq : q b = true
      · simp [modifyFirst, hb, hq]
      · simp [modifyFirst, hb, hq, ih]

end Drop
end Slots
