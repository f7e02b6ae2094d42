import HuesOS.Sched.EevdfMap

namespace HuesOS.Sched
open BinTree TreeCall

namespace EevdfTree
variable {N : Nat} {t t' : EevdfTree N} {tree : BinTree (Fin N)} {shape : BinTree (EevdfKey × Nat)}

/-- The arena is a search tree of its live slots. -/
structure WellFormed (t : EevdfTree N) (tree : BinTree (Fin N)) : Prop where
  /-- Root, parent and child links are those of the tree. -/
  linked : t.root = tree.rootLink ∧ Linked t.cell none tree
  ordered : (tree.items.map t.keyOf).Pairwise (· < ·)
  /-- A slot is live exactly when a walk from the root passes it, and it does so once. -/
  once : tree.items.Nodup ∧ ∀ i, (t.nodes i).isSome ↔ i ∈ tree.items
  partition : (tree.items ++ t.free).Perm (List.finRange N)
  len : t.len = tree.items.length
  /-- Every node records the least finish of its subtree. -/
  least : ∀ above l i r, tree = plug above (node l i r) → ∃ n, t.nodes i = some n ∧
    (∀ j ∈ (node l i r).items, n.minFinish ≤ (t.entryOf j).2) ∧
    ∃ j ∈ (node l i r).items, (t.entryOf j).2 = n.minFinish

theorem Sound.wellFormed (h : t.Sound tree) : t.WellFormed tree where
  linked := ⟨h.layout.root, h.layout.linked⟩
  ordered := h.sorted
  once := ⟨(List.nodup_append.mp h.layout.nodup).1, fun _ => h.layout.live_iff⟩
  partition := h.layout.slots
  len := h.layout.len
  least := by
    rintro above l i r rfl
    obtain ⟨-, ⟨n, found, least⟩, -, -⟩ := augmented_plug h.augmented
    obtain ⟨bound, reached⟩ := leastFinish_spec least.symm
    exact ⟨n, found, bound, reached⟩

theorem runCalls_onShape (h : t.Holds shape) (calls : List TreeCall) :
    ∃ t', runCalls (fun c s => call c s) calls t =
        ((runCalls (onShape N) calls shape).1, t') ∧
      t'.Holds (runCalls (onShape N) calls shape).2 := by
  induction calls generalizing t shape with
  | nil => exact ⟨t, rfl, h⟩
  | cons c rest ih =>
    obtain ⟨u, first, holds⟩ := call_onShape h c
    obtain ⟨t', later, holds'⟩ := ih holds
    refine ⟨t', ?_, holds'⟩
    rw [runCalls, runCalls, first]
    dsimp only
    rw [later]

theorem runCalls_onMap (h : t.Holds shape) (calls : List TreeCall) :
    (runCalls (onShape N) calls shape).1 =
        (runCalls (onMap N) calls shape.items).1 ∧
      (runCalls (onShape N) calls shape).2.items = (runCalls (onMap N) calls shape.items).2 := by
  induction calls generalizing t shape with
  | nil => exact ⟨rfl, rfl⟩
  | cons c rest ih =>
    obtain ⟨u, -, holds⟩ := call_onShape h c
    obtain ⟨answer, items⟩ := c.onShape_onMap N h.sorted
    obtain ⟨answers, last⟩ := ih holds
    rw [runCalls, runCalls]
    dsimp only
    rw [answers, last, answer, items]
    exact ⟨rfl, rfl⟩

/-- The map only ever reports that it is full or that a key is not as it should be. -/
theorem onMap_answer (c : TreeCall) (m : List (EevdfKey × Nat)) :
    (c.onMap N m).1 ≠ .error (.error .invariantBroken) ∧ (c.onMap N m).1 ≠ .error .unfinished := by
  cases c with
  | insert key finish =>
    rw [onMap]
    split
    · exact ⟨by simp, by simp⟩
    split
    · exact ⟨by simp, by simp⟩
    · exact ⟨by simp, by simp⟩
  | remove key =>
    rw [onMap]
    split
    · exact ⟨by simp, by simp⟩
    · exact ⟨by simp, by simp⟩
  | popMin => cases m <;> exact ⟨by simp [onMap], by simp [onMap]⟩

theorem runCalls_answers (calls : List TreeCall) (m : List (EevdfKey × Nat)) :
    ∀ a ∈ (runCalls (onMap N) calls m).1, a ≠ .error (.error .invariantBroken) ∧ a ≠ .error .unfinished := by
  induction calls generalizing m with
  | nil => simp [runCalls]
  | cons c rest ih =>
    intro a mem
    rw [runCalls] at mem
    rcases List.mem_cons.mp mem with rfl | later
    · exact onMap_answer c m
    · exact ih _ a later

theorem Holds.insert_failed (h : t.Holds shape) {key : EevdfKey} {finish : Nat} {e : TreeStop}
    (failed : insert key finish t = (.error e, t')) : t' = t := by
  by_cases full : shape.items.length = N
  · cases (h.insert_full full).symm.trans failed
    rfl
  by_cases known : key ∈ shape.items.map Prod.fst
  · cases (h.insert_duplicate full known).symm.trans failed
    rfl
  obtain ⟨u, run, -⟩ := @Holds.insert_new N t shape key finish h full known
  cases run.symm.trans failed

/-- Every sequence of calls on an empty queue answers as the sorted finite map under the same
calls and never reports a broken invariant. The arena is then well formed with the map's
contents, and an insertion that fails on it changes nothing. -/
theorem queue_is_sorted_map (N : Nat) (calls : List TreeCall) :
    ∃ (t : EevdfTree N) (tree : BinTree (Fin N)),
      runCalls (fun c s => call c s) calls (new N) = ((runCalls (onMap N) calls []).1, t) ∧
      (∀ a ∈ (runCalls (onMap N) calls []).1, a ≠ .error (.error .invariantBroken) ∧ a ≠ .error .unfinished) ∧
      t.WellFormed tree ∧
      t.entries tree = (runCalls (onMap N) calls []).2 ∧
      ∀ key finish e t', insert key finish t = (.error e, t') → t' = t := by
  obtain ⟨t, run, holds⟩ := runCalls_onShape (holds_new N) calls
  obtain ⟨answers, items⟩ := runCalls_onMap (holds_new N) calls
  have unchanged : ∀ key finish e t', insert key finish t = (.error e, t') → t' = t :=
    fun _ _ _ _ => holds.insert_failed
  obtain ⟨tree, sound, shape⟩ := holds
  refine ⟨t, tree, ?_, runCalls_answers calls [], sound.wellFormed, ?_, unchanged⟩
  · rw [run, answers]
    rfl
  rw [entries, ← items_map, shape, items]
  rfl

def heightFrom (t : EevdfTree N) : Nat → Option (Fin N) → Nat
  | 0, _ => 0
  | _ + 1, none => 0
  | fuel + 1, some i =>
    match t.nodes i with
    | none => 0
    | some n => max (t.heightFrom fuel n.left) (t.heightFrom fuel n.right) + 1

def height (t : EevdfTree N) : Nat := t.heightFrom (turns N) t.root

/-- A descent with enough turns for a linked node has enough for both of its subtrees. -/
theorem descend {l r : BinTree (Fin N)} {i : Fin N} {fuel : Nat} {parent : Option (Fin N)}
    (enough : (node l i r).height ≤ fuel) (linked : Linked t.cell parent (node l i r)) :
    ∃ fuel' n, fuel = fuel' + 1 ∧ t.nodes i = some n ∧
      (n.left = l.rootLink ∧ l.height ≤ fuel' ∧ Linked t.cell (some i) l) ∧
      n.right = r.rootLink ∧ r.height ≤ fuel' ∧ Linked t.cell (some i) r := by
  rw [BinTree.height] at enough
  obtain ⟨here, left, right⟩ := linked
  obtain ⟨n, found, -, hl, hr⟩ := cell_eq_some.mp here
  exact ⟨fuel - 1, n, by omega, found, ⟨hl, by omega, left⟩, hr, by omega, right⟩

theorem heightFrom_eq {fuel : Nat} {parent : Option (Fin N)} (enough : tree.height ≤ fuel)
    (linked : Linked t.cell parent tree) : t.heightFrom fuel tree.rootLink = tree.height := by
  induction tree generalizing fuel parent with
  | leaf => cases fuel <;> rfl
  | node l i r ihl ihr =>
    obtain ⟨fuel, n, rfl, found, ⟨hl, enoughl, left⟩, hr, enoughr, right⟩ := descend enough linked
    rw [rootLink, heightFrom, found]
    dsimp only
    rw [hl, hr, ihl enoughl left, ihr enoughr right, BinTree.height]

theorem Holds.height_eq (h : t.Holds shape) : t.height = shape.height := by
  obtain ⟨tree, sound, rfl⟩ := h
  rw [height, sound.layout.root, heightFrom_eq sound.layout.height_le sound.layout.linked, height_map]

theorem Holds.len_eq (h : t.Holds shape) : t.len = shape.items.length := by
  obtain ⟨tree, sound, rfl⟩ := h
  rw [sound.layout.len, items_map, List.length_map]

def ascending (n : Nat) : List TreeCall := (List.range n).map fun k => .insert ⟨k, k⟩ k

/-- The entities that `ascending` queues. -/
def arrivals (n : Nat) : List (EevdfKey × Nat) := (List.range n).map fun k => (⟨k, k⟩, k)

/-- A tree with right children only. -/
def rightPath : List (EevdfKey × Nat) → BinTree (EevdfKey × Nat)
  | [] => leaf
  | x :: rest => node leaf x (rightPath rest)

theorem items_rightPath (l : List (EevdfKey × Nat)) : (rightPath l).items = l := by
  induction l with
  | nil => rfl
  | cons x rest ih => rw [rightPath, items, ih]; rfl

theorem height_rightPath (l : List (EevdfKey × Nat)) : (rightPath l).height = l.length := by
  induction l with
  | nil => rfl
  | cons x rest ih => rw [rightPath, BinTree.height, ih, BinTree.height, Nat.max_eq_right (Nat.zero_le _)]; rfl

theorem insertBy_rightPath {x : EevdfKey × Nat} {l : List (EevdfKey × Nat)} (last : ∀ y ∈ l, y.1 < x.1) :
    insertBy Prod.fst x (rightPath l) = rightPath (l ++ [x]) := by
  induction l with
  | nil => rfl
  | cons y rest ih =>
    have above := last y List.mem_cons_self
    rw [rightPath, insertBy, if_neg above.ne', if_neg above.not_gt,
      ih fun z mem => last z (List.mem_cons_of_mem y mem)]
    rfl

theorem lt_of_mem_arrivals {n : Nat} {y : EevdfKey × Nat} (mem : y ∈ arrivals n) : y.1 < ⟨n, n⟩ := by
  obtain ⟨k, below, rfl⟩ := List.mem_map.mp mem
  exact Prod.Lex.toLex_lt_toLex.mpr (.inl (List.mem_range.mp below))

/-- A new entity with the greatest key goes to the end of the path. -/
theorem runCalls_arrivals {k m : Nat} (fits : k + m ≤ N) :
    (runCalls (onShape N) ((List.range' k m).map fun k => .insert ⟨k, k⟩ k) (rightPath (arrivals k))).2 =
      rightPath (arrivals (k + m)) := by
  induction m generalizing k with
  | zero => rfl
  | succ m ih =>
    have room : (rightPath (arrivals k)).items.length ≠ N := by
      rw [items_rightPath, arrivals, List.length_map, List.length_range]
      omega
    have fresh : (⟨k, k⟩ : EevdfKey) ∉ (rightPath (arrivals k)).items.map Prod.fst := by
      rw [items_rightPath]
      intro mem
      obtain ⟨y, here, eq⟩ := List.mem_map.mp mem
      exact absurd (lt_of_mem_arrivals here) (by rw [eq]; exact lt_irrefl _)
    have next : arrivals k ++ [(⟨k, k⟩, k)] = arrivals (k + 1) := by
      rw [arrivals, arrivals, List.range_succ, List.map_append]
      rfl
    rw [List.range'_succ, List.map_cons, runCalls, onShape, if_neg room, if_neg fresh,
      insertBy_rightPath fun y mem => lt_of_mem_arrivals mem, next, ← Nat.add_assoc, Nat.add_right_comm]
    exact ih (by omega)

theorem height_le_log_iff (h n : Nat) : (h : ℝ) ≤ 2 * Real.logb 2 (n + 1) ↔ 2 ^ h ≤ (n + 1) ^ 2 := by
  have positive : (0 : ℝ) < n + 1 := by positivity
  have square : 2 * Real.logb 2 (n + 1) = Real.logb 2 ((n + 1 : ℝ) ^ 2) := by
    rw [Real.logb_pow]
    norm_num
  rw [square, Real.le_logb_iff_rpow_le (by norm_num) (by positivity), Real.rpow_natCast]
  exact_mod_cast Iff.rfl

theorem sq_lt_two_pow {n : Nat} (many : 6 ≤ n) : (n + 1) ^ 2 < 2 ^ n := by
  induction n, many using Nat.le_induction with
  | base => decide
  | succ n many ih =>
    rw [Nat.pow_succ 2 n]
    nlinarith

/-- The height is within the logarithmic bound whatever the calls were exactly when at most five
entities are left, or more than the arena can hold. -/
theorem height_bound_iff (N n : Nat) :
    (∀ calls, (runCalls (fun c s => call c s) calls (new N)).2.len = n →
      ((runCalls (fun c s => call c s) calls (new N)).2.height : ℝ) ≤ 2 * Real.logb 2 (n + 1)) ↔
      n ≤ 5 ∨ N < n := by
  constructor
  · intro bounded
    by_contra more
    obtain ⟨many, fits⟩ := not_or.mp more
    obtain ⟨t, run, holds⟩ := runCalls_onShape (holds_new N) (ascending n)
    have path : (runCalls (onShape N) (ascending n) leaf).2 = rightPath (arrivals n) := by
      have built := runCalls_arrivals (N := N) (k := 0) (m := n) (by omega)
      rwa [Nat.zero_add, ← List.range_eq_range'] at built
    rw [path] at holds
    have length : (arrivals n).length = n := by rw [arrivals, List.length_map, List.length_range]
    have bound := bounded (ascending n)
    rw [run, holds.len_eq, holds.height_eq, items_rightPath, height_rightPath, length] at bound
    have within := (height_le_log_iff n n).mp (bound rfl)
    exact absurd (sq_lt_two_pow (n := n) (by omega)) (not_lt.mpr within)
  intro few calls left
  obtain ⟨t, run, holds⟩ := runCalls_onShape (holds_new N) calls
  rw [run] at left ⊢
  rw [holds.len_eq] at left
  have capacity := holds.length_le
  have low : t.height ≤ n := by
    rw [holds.height_eq, ← left]
    exact height_le_length _
  have small : n ≤ 5 := by omega
  rw [height_le_log_iff]
  refine (Nat.pow_le_pow_right (by decide) low).trans ?_
  interval_cases n <;> decide

/-- Fifteen entities queued in ascending order hang in one path of fifteen nodes, where the
bound is eight. -/
theorem ascending_breaks_height :
    ¬(((runCalls (fun c s => call c s) (ascending 15) (new 15)).2.height : ℝ) ≤
      2 * Real.logb 2 ((runCalls (fun c s => call c s) (ascending 15) (new 15)).2.len + 1)) := by
  obtain ⟨t, run, holds⟩ := runCalls_onShape (holds_new 15) (ascending 15)
  have tall : (runCalls (onShape 15) (ascending 15) leaf).2.height = 15 := by
    decide +kernel
  have many : (runCalls (onShape 15) (ascending 15) leaf).2.items.length = 15 := by
    decide +kernel
  rw [run, holds.height_eq, holds.len_eq, tall, many]
  rw [height_le_log_iff]
  decide

end EevdfTree
end HuesOS.Sched
