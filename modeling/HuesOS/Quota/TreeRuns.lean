import HuesOS.Lib.ParentForest
import HuesOS.Quota.Tree

namespace HuesOS.Quotas
open List Option ParentForest

namespace QuotaTree
variable {t t' : QuotaTree} {i j above : Nat} {n : Node} {res : Resource} {amount : UInt64}

def parentOf (t : QuotaTree) (i : Nat) : Option Nat := t.nodes[i]?.bind Node.parent

def usedAt (t : QuotaTree) (res : Resource) (i : Nat) : Nat :=
  match t.nodes[i]? with
  | none => 0
  | some n => (n.used res).toNat

def Below (t : QuotaTree) : Nat → Nat → Prop :=
  Relation.ReflTransGen fun child above => t.parentOf child = some above

open scoped Classical in
noncomputable def exactUsage (t : QuotaTree) (res : Resource) (i : Nat) : Nat :=
  ∑ j ∈ (Finset.range t.nodes.length).filter fun j => t.Below j i, t.usedAt res j

def Room (t : QuotaTree) (res : Resource) (amount : UInt64) (i : Nat) : Prop :=
  ∀ n, t.nodes[i]? = some n →
    n.limits res = unlimited ∨ t.exactUsage res i + amount.toNat ≤ (n.limits res).toNat

/-- Parents come before their children, and the lists of children say the same as the links to the
parents. -/
structure Ordered (t : QuotaTree) : Prop where
  before : ∀ i above, t.parentOf i = some above → above < i
  once : ∀ (i : Nat) (n : Node), t.nodes[i]? = some n → n.children.Nodup
  linked : ∀ (i : Nat) (n : Node), t.nodes[i]? = some n → ∀ c, c ∈ n.children ↔ t.parentOf c = some i

structure Sound (t : QuotaTree) : Prop extends Ordered t where
  bounded : ∀ (i : Nat) (n : Node), t.nodes[i]? = some n → ∀ res, n.limits res ≠ unlimited →
    t.exactUsage res i ≤ (n.limits res).toNat

theorem Ordered.of_nodes (pre : ∀ i above, t.parentOf i = some above → above < i)
    (each : ∀ (i : Nat) (n : Node), t.nodes[i]? = some n →
      n.children.Nodup ∧ ∀ c, c ∈ n.children ↔ t.parentOf c = some i) : t.Ordered :=
  ⟨pre, fun i n found => (each i n found).1, fun i n found => (each i n found).2⟩

theorem lt_of_parentOf (h : t.parentOf i = some above) : i < t.nodes.length := by
  by_contra out
  rw [parentOf, getElem?_eq_none (not_lt.mp out)] at h
  cases h

def Ordered.forest (h : t.Ordered) : ParentForest := ⟨t.parentOf, h.before _ _⟩

theorem Ordered.exactUsage_eq (h : t.Ordered) :
    t.exactUsage res i = h.forest.total t.nodes.length (t.usedAt res) i := rfl

theorem Ordered.exactUsage_node (h : t.Ordered) (found : t.nodes[i]? = some n) :
    t.exactUsage res i = (n.used res).toNat + (n.children.map (t.exactUsage res)).sum := by
  have inside := (List.getElem?_eq_some_iff.mp found).1
  have members : ∀ c, c ∈ n.children ↔ c < t.nodes.length ∧ h.forest.parent c = some i := by
    intro c
    rw [h.linked i n found c]
    constructor
    · intro parent
      exact ⟨lt_of_parentOf parent, parent⟩
    · exact And.right
  have split : h.forest.total t.nodes.length (t.usedAt res) i = _ :=
    total_eq inside (h.once i n found) members
  rw [h.exactUsage_eq, split, usedAt, found]
  rfl

/-- Sums that saturate are the exact ones cut off at the largest word. -/
theorem foldlM_addUsage {f : Nat → Option Usage} {exact : Resource → Nat → Nat} (cs : List Nat)
    (each : ∀ c ∈ cs, ∃ u, f c = some u ∧ ∀ res, (u res).toNat = min (exact res c) (2 ^ 64 - 1))
    (start : Usage) (base : Resource → Nat)
    (begins : ∀ res, (start res).toNat = min (base res) (2 ^ 64 - 1)) :
    ∃ u, (cs.foldlM (fun total c => do
        let below ← f c
        return Usage.addUsage total below) start) = some u ∧
      ∀ res, (u res).toNat = min (base res + (cs.map (exact res)).sum) (2 ^ 64 - 1) := by
  induction cs generalizing start base with
  | nil => exact ⟨start, rfl, fun res => by simpa using begins res⟩
  | cons c cs ih =>
    obtain ⟨below, answer, val⟩ := each c mem_cons_self
    have later : ∀ c' ∈ cs, ∃ u, f c' = some u ∧
        ∀ res, (u res).toNat = min (exact res c') (2 ^ 64 - 1) :=
      fun c' mem => each c' (.tail c mem)
    have next : ∀ res, (Usage.addUsage start below res).toNat = min (base res + exact res c) (2 ^ 64 - 1) := by
      intro res
      have first := begins res
      have second := val res
      rw [Usage.addUsage, toNat_saturatingAdd]
      omega
    obtain ⟨u, run, total⟩ := ih later (Usage.addUsage start below) _ next
    refine ⟨u, ?_, fun res => ?_⟩
    · rw [foldlM_cons, answer]
      exact run
    · rw [total, map_cons, sum_cons, Nat.add_assoc]

/-- The recursion ends, and finds the exact usage unless that does not fit into a word. -/
theorem Ordered.subtreeUsageIndex_run (h : t.Ordered) (fuel : Nat) (found : t.nodes[i]? = some n)
    (enough : t.nodes.length ≤ i + fuel) :
    ∃ u, t.subtreeUsageIndex fuel i = some u ∧
      ∀ res, (u res).toNat = min (t.exactUsage res i) (2 ^ 64 - 1) := by
  induction fuel generalizing i n with
  | zero =>
    have := (List.getElem?_eq_some_iff.mp found).1
    omega
  | succ fuel ih =>
    have each : ∀ c ∈ n.children, ∃ u, t.subtreeUsageIndex fuel c = some u ∧
        ∀ res, (u res).toNat = min (t.exactUsage res c) (2 ^ 64 - 1) := by
      intro c mem
      have parent := (h.linked i n found c).mp mem
      have later := h.before c i parent
      obtain ⟨child, there⟩ : ∃ child, t.nodes[c]? = some child :=
        ⟨_, List.getElem?_eq_getElem (lt_of_parentOf parent)⟩
      exact ih there (by omega)
    have begins : ∀ res, (n.used res).toNat = min (n.used res).toNat (2 ^ 64 - 1) := by
      intro res
      have := (n.used res).toNat_lt
      omega
    obtain ⟨u, run, total⟩ := foldlM_addUsage n.children each n.used (fun res => (n.used res).toNat) begins
    refine ⟨u, ?_, fun res => ?_⟩
    · rw [subtreeUsageIndex, found]
      exact run
    · rw [total, h.exactUsage_node found]

theorem Ordered.subtreeUsage_run (h : t.Ordered) (found : t.nodes[i]? = some n) :
    ∃ u, t.subtreeUsage i = some u ∧ ∀ res, (u res).toNat = min (t.exactUsage res i) (2 ^ 64 - 1) :=
  h.subtreeUsageIndex_run t.nodes.length found (by omega)

theorem toNat_lt_of_limited {limit : UInt64} (limited : limit ≠ unlimited) : limit.toNat < 2 ^ 64 - 1 := by
  have small := limit.toNat_lt
  have other : limit.toNat ≠ 2 ^ 64 - 1 := fun eq => limited (UInt64.toNat_inj.mp eq)
  omega

theorem room_iff {u : Usage} (found : t.nodes[i]? = some n)
    (usage : (u res).toNat = min (t.exactUsage res i) (2 ^ 64 - 1)) :
    t.Room res amount i ↔ ¬(n.limits res ≠ unlimited ∧ saturatingAdd (u res) amount > n.limits res) := by
  unfold Room
  simp only [found, Option.some.injEq, forall_eq', not_and, gt_iff_lt, UInt64.not_lt,
    UInt64.le_iff_toNat_le, toNat_saturatingAdd, usage]
  by_cases limited : n.limits res = unlimited
  · simp [limited]
  have small := toNat_lt_of_limited limited
  simp only [limited, false_or, ne_eq, not_false_eq_true, true_implies]
  omega

theorem below_iff : t.Below i j ↔ i = j ∨ ∃ above, t.parentOf i = some above ∧ t.Below above j :=
  Relation.ReflTransGen.cases_head_iff

theorem Ordered.hasRoom_run (h : t.Ordered) (fuel : Nat) (found : t.nodes[i]? = some n)
    (lt : i < fuel) :
    ∃ room, t.hasRoom res amount fuel (some i) = some room ∧
      (room = true ↔ ∀ a, t.Below i a → t.Room res amount a) := by
  induction fuel generalizing i n with
  | zero => omega
  | succ fuel ih =>
    obtain ⟨u, run, usage⟩ := h.subtreeUsage_run found
    have here : t.Room res amount i ↔ _ := room_iff found (usage res)
    have parent : t.parentOf i = n.parent := by rw [parentOf, found, bind_some]
    rw [hasRoom, found, bind_eq_bind, bind_some, run, bind_eq_bind, bind_some]
    split
    next full =>
      refine ⟨false, rfl, ?_⟩
      simp only [Bool.false_eq_true, false_iff, not_forall]
      exact ⟨i, .refl, fun room => here.mp room full⟩
    next fits =>
    have room := here.mpr fits
    cases top : n.parent with
    | none =>
      refine ⟨true, by cases fuel <;> rfl, ?_⟩
      simp only [true_iff]
      intro a below
      rcases below_iff.mp below with eq | ⟨above, step, -⟩
      · exact eq ▸ room
      rw [parent, top] at step
      cases step
    | some above =>
      have less := h.before i above (parent.trans top)
      obtain ⟨m, there⟩ : ∃ m, t.nodes[above]? = some m := by
        have inside := (List.getElem?_eq_some_iff.mp found).1
        exact ⟨_, List.getElem?_eq_getElem (lt_trans less inside)⟩
      obtain ⟨rest, walk, iff⟩ := ih there (by omega)
      refine ⟨rest, walk, iff.trans ⟨fun all a below => ?_, fun all a below => ?_⟩⟩
      · rcases below_iff.mp below with eq | ⟨above', step, up⟩
        · exact eq ▸ room
        rw [parent, top] at step
        cases step
        exact all a up
      · exact all a (below_iff.mpr (.inr ⟨above, parent.trans top, below⟩))

section Modify
variable {f : Node → Node}

theorem nodes_modifyNode : (t.modifyNode i f).nodes[j]? =
    if i = j then t.nodes[j]?.map f else t.nodes[j]? := by
  rw [modifyNode, getElem?_modify]
  split <;> simp

theorem length_modifyNode : (t.modifyNode i f).nodes.length = t.nodes.length := by
  rw [modifyNode, length_modify]

variable (keeps : ∀ n, (f n).parent = n.parent ∧ (f n).children = n.children)
include keeps in
theorem parentOf_modifyNode : (t.modifyNode i f).parentOf = t.parentOf := by
  funext j
  rw [parentOf, nodes_modifyNode, parentOf]
  split
  · cases t.nodes[j]? with
    | none => rfl
    | some n => exact (keeps n).1
  · rfl

theorem Ordered.modify (h : t.Ordered)
    (keeps : ∀ n, (f n).parent = n.parent ∧ (f n).children = n.children) :
    (t.modifyNode i f).Ordered := by
  have parents : (t.modifyNode i f).parentOf = t.parentOf := parentOf_modifyNode keeps
  have node : ∀ (j : Nat) (m : Node), (t.modifyNode i f).nodes[j]? = some m →
      ∃ n, t.nodes[j]? = some n ∧ m.children = n.children := by
    intro j m found
    rw [nodes_modifyNode] at found
    split at found
    · obtain ⟨n, before, rfl⟩ := map_eq_some_iff.mp found
      exact ⟨n, before, (keeps n).2⟩
    · exact ⟨m, found, rfl⟩
  refine .of_nodes (fun k above => ?_) fun j m found => ?_
  · rw [parents]
    exact h.before k above
  obtain ⟨n, before, eq⟩ := node j m found
  rw [eq, parents]
  exact ⟨h.once j n before, h.linked j n before⟩

theorem Ordered.exactUsage_of_same (h : t.Ordered) (parents : t'.parentOf = t.parentOf)
    (len : t'.nodes.length = t.nodes.length) :
    t'.exactUsage res i = h.forest.total t.nodes.length (t'.usedAt res) i := by
  have below : t'.Below = t.Below := by
    unfold Below
    rw [parents]
  rw [exactUsage, below, len]
  rfl

end Modify

theorem usedAt_of (found : t.nodes[i]? = some n) : t.usedAt res i = (n.used res).toNat := by
  rw [usedAt, found]

def reuse (t : QuotaTree) (i : Nat) (g : Usage → Usage) : QuotaTree :=
  t.modifyNode i fun n => { n with used := g n.used }

section Reuse
variable {g : Usage → Usage}

theorem keeps_reuse (n : Node) : ({ n with used := g n.used } : Node).parent = n.parent ∧
    ({ n with used := g n.used } : Node).children = n.children := ⟨rfl, rfl⟩

theorem usedAt_reuse_self (found : t.nodes[i]? = some n) :
    (t.reuse i g).usedAt res i = (g n.used res).toNat := by
  have after : (t.reuse i g).nodes[i]? = some { n with used := g n.used } := by
    rw [reuse, nodes_modifyNode, if_pos rfl, found, map_some]
  exact usedAt_of after

theorem usedAt_reuse_other (ne : j ≠ i) : (t.reuse i g).usedAt res j = t.usedAt res j := by
  rw [usedAt, usedAt, reuse, nodes_modifyNode, if_neg ne.symm]

theorem Sound.reuse (h : t.Sound)
    (fits : ∀ a n kind, t.nodes[a]? = some n → n.limits kind ≠ unlimited →
      h.toOrdered.forest.total t.nodes.length ((t.reuse i g).usedAt kind) a ≤
        (n.limits kind).toNat) : (t.reuse i g).Sound := by
  refine ⟨h.toOrdered.modify keeps_reuse, fun a m found kind limited => ?_⟩
  have eq : (t.reuse i g).exactUsage kind a = _ :=
    h.toOrdered.exactUsage_of_same (parentOf_modifyNode keeps_reuse) length_modifyNode
  rw [eq]
  rw [QuotaTree.reuse, nodes_modifyNode] at found
  split at found
  · obtain ⟨n, before, rfl⟩ := map_eq_some_iff.mp found
    exact fits a n kind before limited
  · exact fits a m kind found limited

end Reuse

theorem toNat_add_le (u : Usage) (kind : Resource) :
    (u kind).toNat ≤ (u.add res amount kind).toNat ∧
      (u.add res amount kind).toNat ≤ (u kind).toNat + if kind = res then amount.toNat else 0 := by
  by_cases eq : kind = res
  · subst eq
    have := (u kind).toNat_lt
    rw [Usage.add, Function.update_self, toNat_saturatingAdd, if_pos rfl]
    omega
  rw [Usage.add, Function.update_of_ne eq, if_neg eq]
  omega

theorem toNat_sub_le (u : Usage) (kind : Resource) : (u.sub res amount kind).toNat ≤ (u kind).toNat := by
  by_cases eq : kind = res
  · subst eq
    rw [Usage.sub, Function.update_self, toNat_saturatingSub]
    omega
  · rw [Usage.sub, Function.update_of_ne eq]

theorem Sound.acquire (h : t.Sound) (found : t.nodes[i]? = some n)
    (room : ∀ a, t.Below i a → t.Room res amount a) : (t.reuse i (Usage.add res amount)).Sound := by
  have inside := (List.getElem?_eq_some_iff.mp found).1
  refine h.reuse fun a m kind there limited => ?_
  have growth := @toNat_add_le res amount n.used kind
  have here : (t.reuse i (Usage.add res amount)).usedAt kind i = t.usedAt kind i +
      ((n.used.add res amount kind).toNat - (n.used kind).toNat) := by
    rw [usedAt_reuse_self found, usedAt_of found]
    omega
  rw [total_raise inside here fun k ne => usedAt_reuse_other ne, ← h.toOrdered.exactUsage_eq]
  have bound := h.bounded a m there kind limited
  split
  next below =>
    by_cases charged : kind = res
    · subst charged
      rw [if_pos rfl] at growth
      rcases room a below m there with free | fits
      · exact absurd free limited
      · omega
    rw [if_neg charged] at growth
    omega
  · omega

theorem Sound.release (h : t.Sound) (found : t.nodes[i]? = some n) :
    (t.reuse i (Usage.sub res amount)).Sound := by
  refine h.reuse fun a m kind there limited => ?_
  refine le_trans (Finset.sum_le_sum fun k _ => ?_) (h.bounded a m there kind limited)
  by_cases here : k = i
  · subst here
    rw [usedAt_reuse_self found, usedAt_of found]
    exact toNat_sub_le n.used kind
  · exact le_of_eq (usedAt_reuse_other here)

theorem usedAt_relimit {limits : Limits} :
    (t.modifyNode i fun n => { n with limits }).usedAt res = t.usedAt res := by
  funext k
  rw [usedAt, usedAt, nodes_modifyNode]
  by_cases here : i = k
  · rw [if_pos here]
    cases t.nodes[k]? <;> rfl
  · rw [if_neg here]

theorem Sound.relimit (h : t.Sound) {limits : Limits}
    (fits : ∀ kind, limits kind ≠ unlimited → t.exactUsage kind i ≤ (limits kind).toNat) :
    (t.modifyNode i fun n => { n with limits }).Sound := by
  have keeps : ∀ n : Node, ({ n with limits } : Node).parent = n.parent ∧
      ({ n with limits } : Node).children = n.children := fun n => ⟨rfl, rfl⟩
  refine ⟨h.toOrdered.modify keeps, fun a m found kind limited => ?_⟩
  have eq : (t.modifyNode i fun n => { n with limits }).exactUsage kind a = _ :=
    h.toOrdered.exactUsage_of_same (parentOf_modifyNode keeps) length_modifyNode
  rw [eq, usedAt_relimit, ← h.toOrdered.exactUsage_eq]
  rw [nodes_modifyNode] at found
  split at found
  next here =>
    obtain ⟨n, -, rfl⟩ := map_eq_some_iff.mp found
    exact here ▸ fits kind limited
  · exact h.bounded a m found kind limited

def leaf (above : Nat) (limits : Limits) : Node :=
  { parent := some above, children := [], limits, used := .none, active := true }

def grow (t : QuotaTree) (above : Nat) (limits : Limits) : QuotaTree :=
  QuotaTree.modifyNode { t with nodes := t.nodes ++ [leaf above limits] } above
    fun n => { n with children := n.children ++ [t.nodes.length] }

section Grow
variable {limits : Limits}

theorem nodes_grow (lt : above < t.nodes.length) : (t.grow above limits).nodes[j]? =
    if j = t.nodes.length then some (leaf above limits)
    else if above = j then
      t.nodes[j]?.map fun n => { n with children := n.children ++ [t.nodes.length] }
    else t.nodes[j]? := by
  rw [grow, nodes_modifyNode]
  by_cases new : j = t.nodes.length
  · subst new
    simp [ne_of_lt lt]
  rw [if_neg new]
  by_cases small : j < t.nodes.length
  · simp [getElem?_append_left small]
  have out : (t.nodes ++ [leaf above limits])[j]? = none := by
    rw [getElem?_eq_none]
    simp only [length_append, length_singleton]
    omega
  have none : t.nodes[j]? = none := getElem?_eq_none (by omega)
  simp [out, none]

theorem parentOf_grow (lt : above < t.nodes.length) : (t.grow above limits).parentOf j =
    if j = t.nodes.length then some above else t.parentOf j := by
  rw [parentOf, nodes_grow lt]
  split
  · rfl
  split
  · rw [parentOf]
    cases t.nodes[j]? <;> rfl
  · rfl

theorem Ordered.grow (h : t.Ordered) (lt : above < t.nodes.length) : (t.grow above limits).Ordered := by
  have fresh : ∀ (k : Nat) (n : Node), t.nodes[k]? = some n → t.nodes.length ∉ n.children := by
    intro k n found mem
    have := lt_of_parentOf ((h.linked k n found _).mp mem)
    omega
  have unborn : t.parentOf t.nodes.length = none := by
    rw [parentOf, getElem?_eq_none le_rfl]
    rfl
  refine .of_nodes (fun k p parent => ?_) fun k m found => ?_
  · rw [parentOf_grow lt] at parent
    split at parent
    · cases parent
      omega
    · exact h.before k p parent
  simp only [parentOf_grow lt]
  rw [nodes_grow lt] at found
  split at found
  next new =>
    cases found
    subst new
    refine ⟨.nil, fun c => ?_⟩
    simp only [leaf, not_mem_nil, false_iff]
    split
    · intro eq
      cases eq
      omega
    intro parent
    have := h.before c _ parent
    have := lt_of_parentOf parent
    omega
  split at found
  next here =>
    subst here
    obtain ⟨n, before, rfl⟩ := map_eq_some_iff.mp found
    refine ⟨List.Nodup.append (h.once above n before) (nodup_singleton _) ?_, fun c => ?_⟩
    · simpa using fresh above n before
    simp only [mem_append, mem_singleton, h.linked above n before c]
    split
    next new => simp [new]
    next other => simp [other]
  next elsewhere =>
  refine ⟨h.once k m found, fun c => ?_⟩
  rw [h.linked k m found c]
  split
  next new =>
    rw [new, unborn]
    simp [elsewhere]
  · exact Iff.rfl

theorem usedAt_grow (lt : above < t.nodes.length) : (t.grow above limits).usedAt res = t.usedAt res := by
  funext k
  rw [usedAt, nodes_grow lt, usedAt]
  by_cases new : k = t.nodes.length
  · rw [if_pos new, getElem?_eq_none (le_of_eq new.symm)]
    rfl
  split_ifs
  · cases t.nodes[k]? <;> rfl
  · rfl

theorem length_grow : (t.grow above limits).nodes.length = t.nodes.length + 1 := by
  rw [grow, length_modifyNode, length_append, length_singleton]

theorem Ordered.exactUsage_grow (h : t.Ordered) (lt : above < t.nodes.length) :
    (t.grow above limits).exactUsage res i = t.exactUsage res i := by
  have grown : (t.grow above limits).Ordered := h.grow lt
  have unused : ∀ k, ¬k < t.nodes.length → t.usedAt res k = 0 := by
    intro k out
    rw [usedAt, getElem?_eq_none (not_lt.mp out)]
  rw [grown.exactUsage_eq, h.exactUsage_eq, usedAt_grow lt, length_grow]
  refine @ParentForest.total_congr h.forest i _ _ _ grown.forest _ (fun k => k < t.nodes.length)
    (fun k old => ?_) (fun k p old parent => ?_) (fun k old => ?_) (fun _ _ => rfl) unused unused
  · exact (parentOf_grow lt).trans (if_neg (ne_of_lt old))
  · exact lt_trans (h.before k p parent) old
  · omega

theorem Sound.grow (h : t.Sound) (lt : above < t.nodes.length) : (t.grow above limits).Sound := by
  refine ⟨h.toOrdered.grow lt, fun a m found kind limited => ?_⟩
  rw [h.toOrdered.exactUsage_grow lt]
  rw [nodes_grow lt] at found
  split at found
  next new =>
    subst new
    have nothing : t.exactUsage kind t.nodes.length = 0 := by
      rw [h.toOrdered.exactUsage_eq]
      exact total_outside le_rfl
    rw [nothing]
    exact Nat.zero_le _
  split at found
  · obtain ⟨n, before, rfl⟩ := map_eq_some_iff.mp found
    exact h.bounded a n before kind limited
  · exact h.bounded a m found kind limited

end Grow

def cut (t : QuotaTree) (above i : Nat) : QuotaTree :=
  (t.modifyNode above fun n => { n with children := n.children.filter (· ≠ i) }).modifyNode i
    fun n => { n with active := false, parent := none, limits := fun _ => unlimited }

section Cut

theorem nodes_cut (ne : above ≠ i) : (t.cut above i).nodes[j]? =
    if i = j then t.nodes[j]?.map fun n =>
      { n with active := false, parent := none, limits := fun _ => unlimited }
    else if above = j then t.nodes[j]?.map fun n =>
      { n with children := n.children.filter (· ≠ i) }
    else t.nodes[j]? := by
  rw [cut, nodes_modifyNode, nodes_modifyNode]
  by_cases here : i = j
  · subst here
    simp [ne]
  · simp [here]

theorem parentOf_cut (ne : above ≠ i) : (t.cut above i).parentOf j =
    if i = j then none else t.parentOf j := by
  rw [parentOf, nodes_cut ne, parentOf]
  split_ifs
  · cases t.nodes[j]? <;> rfl
  · cases t.nodes[j]? <;> rfl
  · rfl

theorem usedAt_cut (ne : above ≠ i) : (t.cut above i).usedAt res = t.usedAt res := by
  funext k
  rw [usedAt, nodes_cut ne, usedAt]
  split_ifs
  · cases t.nodes[k]? <;> rfl
  · cases t.nodes[k]? <;> rfl
  · rfl

variable (h : t.Sound) (found : t.nodes[i]? = some n) (parent : n.parent = some above)
  (childless : n.children = [])

include h found childless in
theorem Ordered.no_child (c : Nat) : t.parentOf c ≠ some i := by
  intro child
  have := (h.linked i n found c).mpr child
  rw [childless] at this
  cases this

include h found parent childless in
theorem Ordered.cut : above ≠ i ∧ (t.cut above i).Ordered := by
  have up : t.parentOf i = some above := by rw [parentOf, found, bind_some, parent]
  have ne : above ≠ i := ne_of_lt (h.before i above up)
  refine ⟨ne, .of_nodes (fun k p step => ?_) fun k m there => ?_⟩
  · rw [parentOf_cut ne] at step
    split at step
    · cases step
    · exact h.before k p step
  simp only [parentOf_cut ne]
  rw [nodes_cut ne] at there
  split at there
  next here =>
    subst here
    obtain ⟨m', before, rfl⟩ := map_eq_some_iff.mp there
    rw [found] at before
    cases before
    refine ⟨h.once i n found, fun c => ?_⟩
    rw [childless]
    simp [Ordered.no_child h found childless c]
  split at there
  next here =>
    subst here
    obtain ⟨m', before, rfl⟩ := map_eq_some_iff.mp there
    refine ⟨(h.once above m' before).filter _, fun c => ?_⟩
    simp only [mem_filter, h.linked above m' before c, decide_eq_true_eq]
    by_cases gone : i = c
    · simp [gone]
    · simp [gone, Ne.symm gone]
  next elsewhere =>
  refine ⟨h.once k m there, fun c => ?_⟩
  rw [h.linked k m there c]
  split
  next gone =>
    subst gone
    rw [up]
    simpa using elsewhere
  · exact Iff.rfl

include h found parent childless in
theorem Sound.cut (unused : n.used = .none) : (t.cut above i).Sound := by
  have links := Ordered.cut h found parent childless
  have ne := links.1
  refine ⟨links.2, fun a m there kind limited => ?_⟩
  have weightless : ∀ k, ¬k ≠ i → t.usedAt kind k = 0 := by
    intro k here
    rw [not_not.mp here, usedAt_of found, unused]
    rfl
  have eq : (t.cut above i).exactUsage kind a = t.exactUsage kind a := by
    have len : (t.cut above i).nodes.length = t.nodes.length := by
      rw [QuotaTree.cut, length_modifyNode, length_modifyNode]
    rw [links.2.exactUsage_eq, h.toOrdered.exactUsage_eq, usedAt_cut ne, len]
    refine @ParentForest.total_congr h.toOrdered.forest a _ _ _ links.2.forest _ (fun k => k ≠ i)
      (fun k other => ?_) (fun k p _ step => ?_) (fun k _ => Iff.rfl) (fun _ _ => rfl)
      weightless weightless
    · exact (parentOf_cut ne).trans (if_neg (Ne.symm other))
    intro eq
    subst eq
    exact Ordered.no_child h found childless k step
  rw [eq]
  rw [nodes_cut ne] at there
  split at there
  · obtain ⟨m', before, rfl⟩ := map_eq_some_iff.mp there
    exact absurd rfl limited
  split at there
  · obtain ⟨m', before, rfl⟩ := map_eq_some_iff.mp there
    exact h.bounded a m' before kind limited
  · exact h.bounded a m there kind limited

end Cut

theorem indexOf_ok {node : NodeId} (h : t.indexOf node = .ok i) : ∃ n, t.nodes[i]? = some n := by
  unfold indexOf at h
  split at h
  · cases h
  cases found : t.nodes[node.index]? with
  | none =>
    rw [found] at h
    cases h
  | some n =>
    simp only [found] at h
    split at h
    · cases h
      exact ⟨n, found⟩
    · cases h

theorem sound_withRoot (treeId : Nat) (limits : Limits) : (withRoot treeId limits).Sound := by
  have alone : ∀ i n, (withRoot treeId limits).nodes[i]? = some n → i = 0 ∧
      n = { parent := none, children := [], limits, used := .none, active := true } := by
    intro i n found
    cases i with
    | zero =>
      cases found
      exact ⟨rfl, rfl⟩
    | succ i => cases found
  have parents : ∀ i, (withRoot treeId limits).parentOf i = none := by
    intro i
    unfold parentOf
    cases found : (withRoot treeId limits).nodes[i]? with
    | none => rfl
    | some n => rw [(alone i n found).2, bind_some]
  have ordered : (withRoot treeId limits).Ordered := by
    refine .of_nodes (fun i above h => ?_) fun i n found => ?_
    · rw [parents i] at h
      cases h
    · simp [(alone i n found).2, parents]
  refine ⟨ordered, fun i n found res _ => ?_⟩
  rw [ordered.exactUsage_node found, (alone i n found).2]
  exact Nat.zero_le _

/-- What an operation can do: it fails and changes nothing, or it makes one change at a node that
is there. -/
inductive Does (t : QuotaTree) : QuotaOp → Bool → QuotaTree → Prop
  | fails (op : QuotaOp) : Does t op false t
  | child {parent : NodeId} {above : Nat} (limits : Limits) (valid : t.indexOf parent = .ok above) :
      Does t (.child parent limits) true (t.grow above limits)
  | charge {node : NodeId} {i : Nat} (res : Resource) (amount : UInt64)
      (valid : t.indexOf node = .ok i) (room : ∀ a, t.Below i a → t.Room res amount a) :
      Does t (.charge node res amount) true (t.reuse i (Usage.add res amount))
  | release {node : NodeId} {i : Nat} (res : Resource) (amount : UInt64)
      (valid : t.indexOf node = .ok i) :
      Does t (.release node res amount) true (t.reuse i (Usage.sub res amount))
  | setLimits {node : NodeId} {i : Nat} (limits : Limits) (valid : t.indexOf node = .ok i)
      (fits : ∀ kind, limits kind ≠ unlimited → t.exactUsage kind i ≤ (limits kind).toNat) :
      Does t (.setLimits node limits) true (t.modifyNode i fun n => { n with limits })
  | removeLeaf {node : NodeId} {i above : Nat} {n : Node} (valid : t.indexOf node = .ok i)
      (found : t.nodes[i]? = some n) (parent : n.parent = some above) (childless : n.children = [])
      (unused : n.used = .none) : Does t (.removeLeaf node) true (t.cut above i)

/-- A charge goes through exactly when the node and everything above it have room. -/
theorem Ordered.tryAcquire_run (h : t.Ordered) (node : NodeId) (res : Resource) (amount : UInt64) :
    ∃ done t', t.tryAcquire node res amount = some (done, t') ∧
      t.Does (.charge node res amount) done t' ∧
      (done = true ↔ ∃ i, t.indexOf node = .ok i ∧ ∀ a, t.Below i a → t.Room res amount a) := by
  unfold tryAcquire
  cases at_ : t.indexOf node with
  | error e => exact ⟨false, t, rfl, .fails _, by simp⟩
  | ok i =>
    obtain ⟨n, found⟩ := indexOf_ok at_
    have inside := (List.getElem?_eq_some_iff.mp found).1
    obtain ⟨room, walk, enough⟩ : ∃ room, t.hasRoom res amount _ (some i) = some room ∧ _ :=
      h.hasRoom_run t.nodes.length found inside
    simp only [walk, bind_eq_bind, bind_some, Except.ok.injEq, exists_eq_left', ← enough]
    cases room with
    | true => exact ⟨true, _, rfl, .charge res amount at_ (enough.mp rfl), Iff.rfl⟩
    | false => exact ⟨false, t, rfl, .fails _, Iff.rfl⟩

theorem Ordered.setLimits_run (h : t.Ordered) (node : NodeId) (limits : Limits) :
    ∃ done t', t.setLimits node limits = some (done, t') ∧ t.Does (.setLimits node limits) done t' := by
  unfold QuotaTree.setLimits
  cases at_ : t.indexOf node with
  | error e => exact ⟨false, t, rfl, .fails _⟩
  | ok i =>
    obtain ⟨n, found⟩ := indexOf_ok at_
    obtain ⟨u, run, usage⟩ := h.subtreeUsage_run found
    simp only [run, bind_eq_bind, bind_some]
    by_cases more : ∃ res, limits res ≠ unlimited ∧ u res > limits res
    · rw [if_pos more]
      exact ⟨false, t, rfl, .fails _⟩
    rw [if_neg more]
    refine ⟨true, _, rfl, .setLimits limits at_ fun kind limited => ?_⟩
    have within : u kind ≤ limits kind := by
      by_contra above
      exact more ⟨kind, limited, UInt64.not_le.mp above⟩
    have := usage kind
    have := toNat_lt_of_limited limited
    have := UInt64.le_iff_toNat_le.mp within
    omega

theorem removeLeaf_run (node : NodeId) :
    ∃ done t', (QuotaOp.removeLeaf node).run t = some (done, t') ∧ t.Does (.removeLeaf node) done t' := by
  have refused : t.removeLeaf node = (.error .invalidNode, t) → ∃ done t',
      (QuotaOp.removeLeaf node).run t = some (done, t') ∧ t.Does (.removeLeaf node) done t' := by
    intro run
    refine ⟨false, t, ?_, .fails _⟩
    simp only [QuotaOp.run, run]
  cases at_ : t.indexOf node with
  | error e =>
    cases e
    apply refused
    simp only [removeLeaf, at_]
  | ok i =>
    obtain ⟨n, found⟩ := indexOf_ok at_
    cases up : n.parent with
    | none =>
      apply refused
      simp only [removeLeaf, at_, found, up]
    | some above =>
      by_cases busy : n.children ≠ [] ∨ n.used ≠ .none
      · apply refused
        simp only [removeLeaf, at_, found, up, if_pos busy]
      obtain ⟨childless, unused⟩ := not_or.mp busy
      refine ⟨true, t.cut above i, ?_, .removeLeaf at_ found up (not_not.mp childless) (not_not.mp unused)⟩
      simp only [QuotaOp.run, removeLeaf, at_, found, up, if_neg busy]
      rfl

theorem Ordered.run_does (h : t.Ordered) (op : QuotaOp) :
    ∃ done t', op.run t = some (done, t') ∧ t.Does op done t' := by
  cases op with
  | child parent limits =>
    simp only [QuotaOp.run, addChild]
    cases at_ : t.indexOf parent with
    | error e => exact ⟨false, t, rfl, .fails _⟩
    | ok above => exact ⟨true, t.grow above limits, rfl, .child limits at_⟩
  | charge node res amount =>
    obtain ⟨done, t', run, does, -⟩ := h.tryAcquire_run node res amount
    exact ⟨done, t', run, does⟩
  | release node res amount =>
    simp only [QuotaOp.run, QuotaTree.release]
    cases at_ : t.indexOf node with
    | error e => exact ⟨false, t, rfl, .fails _⟩
    | ok i => exact ⟨true, t.reuse i (Usage.sub res amount), rfl, .release res amount at_⟩
  | setLimits node limits => exact h.setLimits_run node limits
  | removeLeaf node => exact removeLeaf_run node

theorem Does.unchanged {op : QuotaOp} (does : t.Does op false t') : t' = t := by
  cases does
  rfl

theorem Sound.does {op : QuotaOp} {done : Bool} (h : t.Sound) (does : t.Does op done t') : t'.Sound := by
  cases does with
  | fails => exact h
  | child limits valid =>
    obtain ⟨n, found⟩ := indexOf_ok valid
    exact h.grow (List.getElem?_eq_some_iff.mp found).1
  | charge res amount valid room =>
    obtain ⟨n, found⟩ := indexOf_ok valid
    exact h.acquire found room
  | release res amount valid =>
    obtain ⟨n, found⟩ := indexOf_ok valid
    exact h.release found
  | setLimits limits valid fits => exact h.relimit fits
  | removeLeaf valid found parent childless unused => exact h.cut found parent childless unused

theorem Sound.runAll (h : t.Sound) (ops : List QuotaOp) :
    ∃ t', QuotaOp.runAll ops t = some t' ∧ t'.Sound := by
  induction ops generalizing t with
  | nil => exact ⟨t, rfl, h⟩
  | cons op rest ih =>
    obtain ⟨done, next, run, does⟩ := h.toOrdered.run_does op
    obtain ⟨t', later, final⟩ := ih (h.does does)
    refine ⟨t', ?_, final⟩
    rw [QuotaOp.runAll, run]
    exact later

theorem Ordered.acyclic (h : t.Ordered) (i : Nat) :
    ¬Relation.TransGen (fun child above => t.parentOf child = some above) i i := by
  have down : ∀ j, Relation.TransGen (fun child above => t.parentOf child = some above) i j → j < i := by
    intro j path
    induction path with
    | single step => exact h.before _ _ step
    | tail _ step ih => exact lt_trans (h.before _ _ step) ih
  intro cycle
  exact lt_irrefl i (down i cycle)

/-- After any operations the tree has no cycle and every limit holds the usage below it; charges are
decided by the room above them, and operations that fail change nothing. -/
theorem reachable_within_limits (treeId : Nat) (limits : Limits) (ops : List QuotaOp) :
    ∃ t, QuotaOp.runAll ops (withRoot treeId limits) = some t ∧
      (∀ i, ¬Relation.TransGen (fun child above => t.parentOf child = some above) i i) ∧
      (∀ (i : Nat) (n : Node), t.nodes[i]? = some n → ∀ c, c ∈ n.children ↔ t.parentOf c = some i) ∧
      (∀ (i : Nat) (n : Node), t.nodes[i]? = some n → ∀ res, n.limits res ≠ unlimited →
        t.exactUsage res i ≤ (n.limits res).toNat) ∧
      (∀ node res amount, ∃ done t', t.tryAcquire node res amount = some (done, t') ∧
        (done = true ↔ ∃ i, t.indexOf node = .ok i ∧ ∀ a, t.Below i a → t.Room res amount a)) ∧
      ∀ op : QuotaOp, ∃ done t', op.run t = some (done, t') ∧ (done = false → t' = t) := by
  obtain ⟨t, run, sound⟩ := (sound_withRoot treeId limits).runAll ops
  refine ⟨t, run, sound.toOrdered.acyclic, sound.linked, sound.bounded,
    fun node res amount => ?_, fun op => ?_⟩
  · obtain ⟨done, t', acquired, -, exact⟩ := sound.toOrdered.tryAcquire_run node res amount
    exact ⟨done, t', acquired, exact⟩
  obtain ⟨done, t', ran, does⟩ := sound.toOrdered.run_does op
  refine ⟨done, t', ran, fun failed => ?_⟩
  subst failed
  exact does.unchanged

end QuotaTree
end HuesOS.Quotas
