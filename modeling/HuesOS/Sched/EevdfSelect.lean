import HuesOS.Lib.Lists
import HuesOS.Sched.EevdfModel
import HuesOS.Sched.EevdfRuns

/-! The choice of the run queue against the choice of the oracle. -/

namespace HuesOS.Sched
open List Exec Option EevdfModel EevdfEntity
open BinTree

namespace EevdfTree
variable {N : Nat} {t : EevdfTree N} {tree : BinTree (Fin N)} {shape : BinTree (EevdfKey × Nat)}

theorem walk_run {fuel : Nat} {parent : Option (Fin N)} (enough : tree.height ≤ fuel)
    (linked : Linked t.cell parent tree) :
    walk fuel tree.rootLink t = (.ok (tree.items.map t.entryOf), t) := by
  induction tree generalizing fuel parent with
  | leaf => cases fuel <;> rfl
  | node l i r ihl ihr =>
    obtain ⟨fuel, n, rfl, found, ⟨hl, enoughl, left⟩, hr, enoughr, right⟩ := descend enough linked
    have first : walk fuel l.rootLink t = _ := ihl enoughl left
    have second : walk fuel r.rootLink t = _ := ihr enoughr right
    rw [rootLink, walk, gets_bind, found]
    dsimp only
    rw [hl, hr, bind_of_ok first, bind_of_ok second, items_node, map_append, map_cons, entryOf_of_node found]
    rfl

theorem firstFrom_run {fuel : Nat} {parent : Option (Fin N)} (enough : tree.height ≤ fuel)
    (linked : Linked t.cell parent tree) :
    ∃ first, firstFrom fuel tree.rootLink t = (.ok first, t) ∧
      first.map (·.key) = tree.items.head?.map t.keyOf := by
  induction tree generalizing fuel parent with
  | leaf => cases fuel <;> exact ⟨none, rfl, rfl⟩
  | node l i r ihl _ =>
    obtain ⟨fuel, n, rfl, found, ⟨hl, enoughl, left⟩, -⟩ := descend enough linked
    rw [rootLink, firstFrom, gets_bind, found]
    dsimp only
    rw [hl]
    cases l with
    | leaf => exact ⟨some n, rfl, by rw [map_some, ← keyOf_of_node found]; rfl⟩
    | node ll j lr =>
      obtain ⟨first, run, key⟩ := @ihl fuel _ enoughl left
      refine ⟨first, run, ?_⟩
      have nonempty : (node ll j lr).items ≠ [] := by simp
      rw [key, items_node _ r, head?_append_of_ne_nil _ nonempty]

theorem Holds.walk_root (h : t.Holds shape) : walk (turns N) t.root t = (.ok shape.items, t) := by
  obtain ⟨tree, sound, rfl⟩ := h
  rw [sound.layout.root, walk_run sound.layout.height_le sound.layout.linked, items_map]

theorem Holds.minStart_run (h : t.Holds shape) :
    minStart t = (.ok (shape.items.head?.map (·.1.virtualStart)), t) := by
  obtain ⟨tree, sound, rfl⟩ := h
  obtain ⟨first, run, key⟩ := firstFrom_run sound.layout.height_le sound.layout.linked
  rw [← sound.layout.root] at run
  have start : first.map (·.key.virtualStart) = (tree.items.head?.map t.keyOf).map EevdfKey.virtualStart := by
    rw [← key, Option.map_map]
    rfl
  rw [minStart, gets_bind, bind_of_ok run, pure_run, start, items_map,
    List.head?_map, Option.map_map, Option.map_map]
  rfl

def choiceRank (e : EevdfKey × Nat) : Nat ×ₗ EevdfKey := toLex (e.2, e.1)

theorem better_eq_argAux : better = List.argAux fun a b => choiceRank a < choiceRank b := by
  funext best entry
  cases best with
  | none => rfl
  | some current =>
    have order : choiceRank entry < choiceRank current ↔
        entry.2 < current.2 ∨ entry.2 = current.2 ∧ entry.1 < current.1 :=
      Prod.Lex.toLex_lt_toLex
    simp only [better, List.argAux, order]

theorem Holds.pickEligible_run (h : t.Holds shape) (now : Nat) :
    pickEligible now t =
      (.ok (((shape.items.filter (·.1.virtualStart ≤ now)).argmin choiceRank).map Prod.fst), t) := by
  rw [pickEligible, gets_bind, bind_of_ok h.walk_root, pure_run, better_eq_argAux]
  rfl

/-- The choice of a caller that follows the snap rule: when nobody is eligible, choose again at
the earliest start. -/
def select (now : Nat) : TreeM N (Option EevdfKey) := do
  match ← pickEligible now with
  | some key => return some key
  | none =>
    match ← minStart with
    | none => return none
    | some start => pickEligible start

end EevdfTree

def EevdfEntity.entry (e : EevdfEntity) : EevdfKey × Nat :=
  (⟨e.virtualStart, e.id.raw⟩, e.virtualFinish)

def Contends (entities : List EevdfEntity) (now : Nat) (e : EevdfEntity) : Prop :=
  e ∈ entities ∧ e.virtualStart ≤ now ∧
    ∀ f ∈ entities, f.virtualStart ≤ now → e.virtualFinish ≤ f.virtualFinish

/-- One of the entities tied for the earliest finish has both the earliest start and the smallest
identity of them. -/
def TiesAgree (entities : List EevdfEntity) (now : Nat) : Prop :=
  ∃ e, Contends entities now e ∧
    ∀ f, Contends entities now f → e.virtualStart ≤ f.virtualStart ∧ e.id.raw ≤ f.id.raw

variable {entities : List EevdfEntity} {now : Nat}

namespace EevdfModel

theorem snapped_of_eligible {e : EevdfEntity} (mem : e ∈ entities) (early : e.virtualStart ≤ now) :
    snapped entities now = now := by
  rw [snapped, if_pos]
  exact any_eq_true.mpr ⟨e, mem, decide_eq_true early⟩

theorem snapped_of_waiting {e : EevdfEntity} (waiting : ∀ f ∈ entities, now < f.virtualStart)
    (mem : e ∈ entities) (earliest : ∀ f ∈ entities, e.virtualStart ≤ f.virtualStart) :
    snapped entities now = e.virtualStart := by
  have none_yet : ¬(entities.any fun f => f.virtualStart ≤ now) = true := by
    intro some_yet
    obtain ⟨f, inside, early⟩ := any_eq_true.mp some_yet
    have := waiting f inside
    have := of_decide_eq_true early
    omega
  have least : (entities.map (·.virtualStart)).min? = some e.virtualStart := by
    rw [min?_eq_some_iff]
    refine ⟨mem_map_of_mem mem, ?_⟩
    intro start listed
    obtain ⟨f, inside, rfl⟩ := mem_map.mp listed
    exact earliest f inside
  rw [snapped, if_neg none_yet, least, getD_some]

theorem exists_eligible (nonempty : entities ≠ []) :
    ∃ e ∈ entities, e.virtualStart ≤ snapped entities now := by
  by_cases eligible : ∃ e ∈ entities, e.virtualStart ≤ now
  · obtain ⟨e, mem, early⟩ := eligible
    exact ⟨e, mem, by rwa [snapped_of_eligible mem early]⟩
  obtain ⟨e, mem, -, earliest⟩ := Lists.exists_argmin virtualStart nonempty
  refine ⟨e, mem, le_of_eq (snapped_of_waiting ?_ mem earliest).symm⟩
  intro f inside
  by_contra early
  exact eligible ⟨f, inside, by omega⟩

/-- The oracle takes the smallest identity of those that contend. -/
theorem pick_contender {m : EevdfModel} (nonempty : m.live ≠ []) :
    ∃ b, (pick m).1 = .ok (some b.id) ∧ Contends m.live (snapped m.live m.virtualTime) b ∧
      ∀ f, Contends m.live (snapped m.live m.virtualTime) f → b.id.raw ≤ f.id.raw := by
  obtain ⟨e, mem, early⟩ := @exists_eligible _ m.virtualTime nonempty
  obtain ⟨now, time⟩ : ∃ now, now = snapped m.live m.virtualTime := ⟨_, rfl⟩
  rw [← time] at early ⊢
  have some_eligible : m.live.filter (·.virtualStart ≤ now) ≠ [] :=
    ne_nil_of_mem (mem_filter.mpr ⟨mem, decide_eq_true early⟩)
  obtain ⟨b, chosen, argmin, least⟩ :=
    Lists.exists_argmin (fun e : EevdfEntity => toLex (e.virtualFinish, e.id.raw)) some_eligible
  obtain ⟨inside, start⟩ := mem_filter.mp chosen
  have order : ∀ f ∈ m.live, f.virtualStart ≤ now → b.virtualFinish < f.virtualFinish ∨
      b.virtualFinish = f.virtualFinish ∧ b.id.raw ≤ f.id.raw := by
    intro f listed eligible
    exact Prod.Lex.toLex_le_toLex.mp (least f (mem_filter.mpr ⟨listed, decide_eq_true eligible⟩))
  refine ⟨b, ?_, ⟨inside, of_decide_eq_true start, ?_⟩, ?_⟩
  · have some_live : m.live.isEmpty = false := isEmpty_eq_false_iff.mpr nonempty
    rw [pick, gets_bind, some_live, ← time]
    exact congrArg (fun o => Except.ok (o.map EevdfEntity.id)) argmin
  · intro f listed eligible
    rcases order f listed eligible with less | ⟨eq, -⟩
    · exact le_of_lt less
    · exact le_of_eq eq
  rintro f ⟨listed, eligible, earliest⟩
  have := earliest b inside (of_decide_eq_true start)
  rcases order f listed eligible with less | ⟨-, smaller⟩
  · omega
  · exact smaller

end EevdfModel

namespace EevdfTree
variable {N : Nat} {t : EevdfTree N} {shape : BinTree (EevdfKey × Nat)}

namespace Holds
variable (h : t.Holds shape)
include h

theorem select_of_eligible {e : EevdfKey × Nat} (mem : e ∈ shape.items)
    (early : e.1.virtualStart ≤ now) : select now t = pickEligible now t := by
  have nonempty : shape.items.filter (·.1.virtualStart ≤ now) ≠ [] :=
    ne_nil_of_mem (mem_filter.mpr ⟨mem, decide_eq_true early⟩)
  obtain ⟨a, -, argmin, -⟩ := Lists.exists_argmin choiceRank nonempty
  have chosen := h.pickEligible_run now
  rw [argmin, map_some] at chosen
  rw [select, bind_of_ok chosen, chosen]
  rfl

theorem select_of_waiting {first : EevdfKey × Nat}
    (waiting : ∀ e ∈ shape.items, now < e.1.virtualStart) (head : shape.items.head? = some first) :
    select now t = pickEligible first.1.virtualStart t := by
  have nobody : shape.items.filter (·.1.virtualStart ≤ now) = [] := by
    rw [filter_eq_nil_iff]
    intro e mem early
    have := waiting e mem
    have := of_decide_eq_true early
    omega
  have chosen := h.pickEligible_run now
  rw [nobody, argmin_nil, map_none] at chosen
  have start := h.minStart_run
  rw [head, map_some] at start
  rw [select, bind_of_ok chosen]
  exact bind_of_ok start

theorem head_earliest {first : EevdfKey × Nat}
    (head : shape.items.head? = some first) :
    ∀ e ∈ shape.items, first.1.virtualStart ≤ e.1.virtualStart := by
  obtain ⟨rest, listed⟩ := head?_eq_some_iff.mp head
  have sorted : (shape.items.map Prod.fst).Pairwise (· < ·) := h.sorted
  rw [listed, map_cons, pairwise_cons] at sorted
  intro e mem
  rw [listed] at mem
  rcases mem_cons.mp mem with rfl | later
  · exact le_rfl
  rcases Prod.lex_def.mp (sorted.1 _ (mem_map_of_mem later)) with less | ⟨eq, -⟩
  · exact le_of_lt less
  · exact le_of_eq eq

/-- The queue chooses at the time at which the oracle does. -/
theorem select_run (nonempty : entities ≠ [])
    (eq : shape.items.Perm (entities.map entry)) (now : Nat) :
    select now t = pickEligible (snapped entities now) t := by
  by_cases eligible : ∃ e ∈ entities, e.virtualStart ≤ now
  · obtain ⟨e, mem, early⟩ := eligible
    rw [snapped_of_eligible mem early]
    exact h.select_of_eligible (eq.mem_iff.mpr (mem_map_of_mem mem)) early
  have waiting : ∀ f ∈ entities, now < f.virtualStart := by
    intro f mem
    by_contra early
    exact eligible ⟨f, mem, by omega⟩
  have some_item : shape.items ≠ [] := by
    intro empty
    rw [empty] at eq
    exact nonempty (map_eq_nil_iff.mp eq.nil_eq.symm)
  obtain ⟨first, rest, listed⟩ := exists_cons_of_ne_nil some_item
  have head : shape.items.head? = some first := by rw [listed, head?_cons]
  obtain ⟨e, mem, rfl⟩ := mem_map.mp (eq.mem_iff.mp (mem_of_head? head))
  have earliest : ∀ f ∈ entities, e.virtualStart ≤ f.virtualStart := fun f inside =>
    h.head_earliest head f.entry (eq.mem_iff.mpr (mem_map_of_mem inside))
  rw [snapped_of_waiting waiting mem earliest]
  refine h.select_of_waiting ?_ head
  intro item listed
  obtain ⟨f, inside, rfl⟩ := mem_map.mp (eq.mem_iff.mp listed)
  exact waiting f inside

theorem select_contender (nonempty : entities ≠ [])
    (eq : shape.items.Perm (entities.map entry)) (now : Nat) :
    ∃ a, (select now t).1 = .ok (some a.entry.1) ∧
      Contends entities (snapped entities now) a ∧
      ∀ f, Contends entities (snapped entities now) f → a.entry.1 ≤ f.entry.1 := by
  obtain ⟨e, mem, early⟩ := @EevdfModel.exists_eligible _ now nonempty
  rw [h.select_run nonempty eq]
  generalize snapped entities now = time at *
  have listed : ∀ f ∈ entities, f.virtualStart ≤ time →
      f.entry ∈ shape.items.filter (·.1.virtualStart ≤ time) := by
    intro f inside eligible
    exact mem_filter.mpr ⟨eq.mem_iff.mpr (mem_map_of_mem inside), decide_eq_true eligible⟩
  obtain ⟨item, chosen, argmin, least⟩ := Lists.exists_argmin choiceRank (ne_nil_of_mem (listed e mem early))
  obtain ⟨inside, start⟩ := mem_filter.mp chosen
  obtain ⟨a, known, rfl⟩ := mem_map.mp (eq.mem_iff.mp inside)
  have eligible : a.virtualStart ≤ time := of_decide_eq_true start
  have order : ∀ f ∈ entities, f.virtualStart ≤ time → a.virtualFinish < f.virtualFinish ∨
      a.virtualFinish = f.virtualFinish ∧ a.entry.1 ≤ f.entry.1 := by
    intro f here soon
    exact Prod.Lex.toLex_le_toLex.mp (least f.entry (listed f here soon))
  refine ⟨a, ?_, ⟨known, eligible, ?_⟩, ?_⟩
  · rw [h.pickEligible_run, argmin]
    rfl
  · intro f here soon
    rcases order f here soon with less | ⟨equal, -⟩
    · exact le_of_lt less
    · exact le_of_eq equal
  rintro f ⟨here, soon, earliest⟩
  have := earliest a known eligible
  rcases order f here soon with less | ⟨-, smaller⟩
  · omega
  · exact smaller

theorem select_empty (empty : shape.items = []) (now : Nat) : (select now t).1 = .ok none := by
  have chosen := h.pickEligible_run now
  rw [empty, filter_nil, argmin_nil, map_none] at chosen
  have start := h.minStart_run
  rw [empty, head?_nil, map_none] at start
  rw [select, bind_of_ok chosen]
  exact congrArg Prod.fst (bind_of_ok start)

end Holds

/-- Two contenders that are least by start and identity, and least by identity, are the same
exactly when the ties agree. -/
theorem contenders_eq_iff {a b : EevdfEntity} (first : Contends entities now a)
    (second : Contends entities now b)
    (early : ∀ f, Contends entities now f → a.entry.1 ≤ f.entry.1)
    (small : ∀ f, Contends entities now f → b.id.raw ≤ f.id.raw) :
    a.id.raw = b.id.raw ↔ TiesAgree entities now := by
  have order : ∀ f, Contends entities now f → a.virtualStart < f.virtualStart ∨
      a.virtualStart = f.virtualStart ∧ a.id.raw ≤ f.id.raw := fun f contends =>
    Prod.Lex.toLex_le_toLex.mp (early f contends)
  constructor
  · intro eq
    refine ⟨a, first, fun f contends => ⟨?_, eq.trans_le (small f contends)⟩⟩
    rcases order f contends with less | ⟨equal, -⟩
    · exact le_of_lt less
    · exact le_of_eq equal
  rintro ⟨e, contends, least⟩
  have := least a first
  have := least b second
  have := small e contends
  rcases order e contends with less | ⟨-, smaller⟩
  · omega
  · omega

/-- A queue and an oracle that hold the same entities choose the same one exactly when there is
none to choose or the ties for the earliest finish agree. -/
theorem select_eq_pick_iff (N : Nat) (calls : List TreeCall) (m : EevdfModel)
    (same : (runCalls (TreeCall.onMap N) calls []).2.Perm (m.live.map entry)) :
    ∃ key id, (select m.virtualTime (runCalls (fun c s => call c s) calls (new N)).2).1 = .ok key ∧
      (m.pick).1 = .ok id ∧
      (key.map (·.taskId) = id.map (·.raw) ↔
        m.live = [] ∨ TiesAgree m.live (snapped m.live m.virtualTime)) := by
  obtain ⟨t, run, holds⟩ := runCalls_onShape (holds_new N) calls
  obtain ⟨-, items⟩ := runCalls_onMap (holds_new N) calls
  rw [items_leaf] at items
  rw [← items] at same
  rw [run]
  by_cases empty : m.live = []
  · have no_item : (runCalls (TreeCall.onShape N) calls leaf).2.items = [] := by
      rw [empty, map_nil] at same
      exact same.eq_nil
    refine ⟨none, none, holds.select_empty no_item _, ?_, ?_⟩
    · rw [pick, gets_bind, empty]
      rfl
    · simp [empty]
  obtain ⟨a, selected, first, early⟩ := holds.select_contender empty same m.virtualTime
  obtain ⟨b, picked, second, small⟩ := pick_contender empty
  refine ⟨_, _, selected, picked, ?_⟩
  rw [map_some, map_some, some_inj, or_iff_right empty]
  exact contenders_eq_iff first second early small

/-- Two requests with one finish: the first identity started later. -/
def tied : List EevdfEntity :=
  [⟨⟨1, 1, one_lt_maxTasks, Nat.one_pos, one_le_maxTaskGeneration⟩, 1, 1, 5, 10, 0⟩,
    ⟨⟨2, 1, two_lt_maxTasks, Nat.one_pos, one_le_maxTaskGeneration⟩, 1, 1, 0, 10, 0⟩]

def queued (entities : List EevdfEntity) : List TreeCall :=
  entities.map fun e => .insert e.entry.1 e.entry.2

/-- Two requests with one finish: the first identity started first. -/
def agreeing : List EevdfEntity :=
  [⟨⟨1, 1, one_lt_maxTasks, Nat.one_pos, one_le_maxTaskGeneration⟩, 1, 1, 0, 10, 0⟩,
    ⟨⟨2, 1, two_lt_maxTasks, Nat.one_pos, one_le_maxTaskGeneration⟩, 1, 1, 5, 10, 0⟩]

/-- Both requests are eligible and tie, and the two choose alike. -/
theorem select_eq_pick_of_agreeing :
    ∃ key id, (select 5 (runCalls (fun c s => call c s) (queued agreeing) (new 2)).2).1 = .ok key ∧
      ((⟨5, agreeing.map some⟩ : EevdfModel).pick).1 = .ok id ∧ key.map (·.taskId) = id.map (·.raw) := by
  obtain ⟨key, id, selected, picked, alike⟩ :=
    select_eq_pick_iff 2 (queued agreeing) ⟨5, agreeing.map some⟩ (by decide +kernel)
  refine ⟨key, id, selected, picked, alike.mpr (.inr ⟨_, ⟨mem_cons_self, ?_, ?_⟩, ?_⟩)⟩
  · decide +kernel
  · decide +kernel
  · intro f contends
    have first : ∀ f ∈ agreeing, 0 ≤ f.virtualStart ∧ 1 * 2 ^ taskIndexBits + 1 ≤ f.id.raw := by decide +kernel
    exact first f contends.1

/-- With both eligible, the queue chooses the second task and the oracle the first. -/
theorem tied_choices_differ :
    ((select 5 (runCalls (fun c s => call c s) (queued tied) (new 2)).2).1 =
        .ok (some ⟨0, 1 * 2 ^ taskIndexBits + 2⟩)) ∧
      ((⟨5, tied.map some⟩ : EevdfModel).pick).1 = .ok (some ⟨1, 1, by decide, by decide, by decide⟩) := by
  constructor
  · decide +kernel
  · decide +kernel

/-- After any calls, the queue picks an eligible entity of earliest finish, if there is one. -/
theorem picks_earliest_finish (N : Nat) (calls : List TreeCall) (now : Nat) :
    let left := (runCalls (TreeCall.onMap N) calls []).2
    let t := (runCalls (fun c s => call c s) calls (new N)).2
    ((∀ e ∈ left, now < e.1.virtualStart) ∧ (pickEligible now t).1 = .ok none) ∨
      ∃ e ∈ left, (pickEligible now t).1 = .ok (some e.1) ∧ e.1.virtualStart ≤ now ∧
        ∀ f ∈ left, f.1.virtualStart ≤ now → e.2 ≤ f.2 := by
  obtain ⟨t, run, holds⟩ := runCalls_onShape (holds_new N) calls
  have items : _ = (runCalls (TreeCall.onMap N) calls []).2 := (runCalls_onMap (holds_new N) calls).2
  intro left t'
  rw [show t' = t from congrArg Prod.snd run, holds.pickEligible_run, items]
  by_cases none : left.filter (·.1.virtualStart ≤ now) = []
  · refine .inl ⟨fun e mem => ?_, by rw [none]; rfl⟩
    simpa using filter_eq_nil_iff.mp none e mem
  obtain ⟨e, mem, picked, least⟩ := Lists.exists_argmin choiceRank none
  obtain ⟨mem, early⟩ := mem_filter.mp mem
  refine .inr ⟨e, mem, by rw [picked]; rfl, of_decide_eq_true early, fun f mem early => ?_⟩
  have := least f (mem_filter.mpr ⟨mem, decide_eq_true early⟩)
  exact (Prod.Lex.toLex_le_toLex.mp this).elim le_of_lt fun h => h.1.le

end EevdfTree
end HuesOS.Sched
