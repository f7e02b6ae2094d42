import HuesOS.Sched.EevdfErase

/-! The run queue as what it is for: a sorted finite map from keys to finishes. -/

namespace HuesOS.Sched
open BinTree Exec

inductive TreeCall
  | insert (key : EevdfKey) (finish : Nat)
  | remove (key : EevdfKey)
  | popMin
  deriving DecidableEq

abbrev Answer := Except TreeStop (Option EevdfKey)

def TreeCall.onShape (N : Nat) : TreeCall → BinTree (EevdfKey × Nat) →
    Answer × BinTree (EevdfKey × Nat)
  | .insert key finish, shape =>
    if shape.items.length = N then (.error (.error .full), shape)
    else if key ∈ shape.items.map Prod.fst then (.error (.error .notFound), shape)
    else (.ok none, insertBy Prod.fst (key, finish) shape)
  | .remove key, shape =>
    if key ∈ shape.items.map Prod.fst then (.ok none, removeBy Prod.fst key shape)
    else (.error (.error .notFound), shape)
  | .popMin, shape =>
    match shape.items with
    | [] => (.ok none, shape)
    | first :: _ => (.ok (some first.1), dropFirst shape)

def TreeCall.onMap (N : Nat) : TreeCall → List (EevdfKey × Nat) → Answer × List (EevdfKey × Nat)
  | .insert key finish, m =>
    if m.length = N then (.error (.error .full), m)
    else if key ∈ m.map Prod.fst then (.error (.error .notFound), m)
    else (.ok none, m.filter (·.1 < key) ++ (key, finish) :: m.filter (key < ·.1))
  | .remove key, m =>
    if key ∈ m.map Prod.fst then (.ok none, m.filter (·.1 ≠ key))
    else (.error (.error .notFound), m)
  | .popMin, m =>
    match m with
    | [] => (.ok none, [])
    | first :: rest => (.ok (some first.1), rest)

def runCalls {σ : Type} (step : TreeCall → σ → Answer × σ) : List TreeCall → σ → List Answer × σ
  | [], s => ([], s)
  | call :: rest, s =>
    let (answer, next) := step call s
    let (answers, last) := runCalls step rest next
    (answer :: answers, last)

namespace EevdfTree
variable {N : Nat} {t t' : EevdfTree N} {shape : BinTree (EevdfKey × Nat)} {key : EevdfKey}
  {finish : Nat}

def call : TreeCall → TreeM N (Option EevdfKey)
  | .insert key finish => do
      insert key finish
      return none
  | .remove key => do
      remove key
      return none
  | .popMin => popMin

theorem holds_new (N : Nat) : (new N).Holds leaf := ⟨leaf, sound_new N, rfl⟩

theorem Holds.sorted (h : t.Holds shape) : SortedBy Prod.fst shape := by
  obtain ⟨tree, sound, rfl⟩ := h
  exact sortedBy_map.mp sound.sorted

theorem Holds.length_le (h : t.Holds shape) : shape.items.length + t.free.length = N := by
  obtain ⟨tree, sound, rfl⟩ := h
  rw [items_map, List.length_map]
  exact sound.layout.length_le

theorem seek_shape (t : EevdfTree N) (tree : BinTree (Fin N)) (key : EevdfKey) :
    seek Prod.fst key (tree.map t.entryOf) [] =
      ((seek t.keyOf key tree []).1.map t.entryOf,
        (seek t.keyOf key tree []).2.map (Frame.map t.entryOf)) := seek_map tree []

theorem Holds.insert_full (h : t.Holds shape) (full : shape.items.length = N) :
    insert key finish t = (.error (.error .full), t) := by
  have count := h.length_le
  exact EevdfTree.insert_full (List.length_eq_zero_iff.mp (by omega))

theorem Holds.free (h : t.Holds shape) (room : shape.items.length ≠ N) :
    ∃ slot rest, t.free = slot :: rest := by
  have count := h.length_le
  exact List.exists_cons_of_ne_nil fun none_left => by
    rw [none_left, List.length_nil] at count
    omega

theorem Holds.insert_duplicate (h : t.Holds shape) (room : shape.items.length ≠ N)
    (known : key ∈ shape.items.map Prod.fst) :
    insert key finish t = (.error (.error .notFound), t) := by
  obtain ⟨slot, rest, free⟩ := h.free room
  have sorted := h.sorted
  obtain ⟨tree, sound, rfl⟩ := h
  cases search : seek t.keyOf key tree [] with
  | mk focus above =>
    cases focus with
    | leaf =>
      have ends := seek_shape t tree key
      rw [search] at ends
      exact absurd known (seek_mem sorted ends)
    | node l i r => exact sound.insert_duplicate free search

theorem Holds.insert_new (h : t.Holds shape) (room : shape.items.length ≠ N)
    (fresh : key ∉ shape.items.map Prod.fst) :
    ∃ t', insert key finish t = (.ok (), t') ∧ t'.Holds (insertBy Prod.fst (key, finish) shape) := by
  obtain ⟨slot, rest, free⟩ := h.free room
  obtain ⟨tree, sound, rfl⟩ := h
  have ends := seek_shape t tree key
  cases search : seek t.keyOf key tree [] with
  | mk focus above =>
    rw [search] at ends
    cases focus with
    | node l i r => exact absurd (mem_of_seek ends) fresh
    | leaf =>
      obtain ⟨t', run, sound', old, new⟩ :=
        @Sound.insert_new N t tree slot above key finish rest sound free search
      refine ⟨t', run, _, sound', ?_⟩
      have eq : plug above leaf = tree := (seek_leaf sound.sorted search).1
      have around : ∀ j ∈ around above, t'.entryOf j = t.entryOf j := by
        intro j mem
        refine old j ?_
        rw [← eq, (items_plug_perm above leaf).mem_iff]
        exact List.mem_append_left _ mem
      rw [map_plug, map_frames_congr around, map, map, new]
      exact @insertBy_of_seek _ _ _ Prod.fst _ _ _ (key, finish) ends

theorem findKey_run {tree : BinTree (Fin N)} (layout : t.Layout tree) :
    findKey key t = (.ok (seek t.keyOf key tree []).1.rootLink, t) := by
  rw [findKey, gets_bind, layout.root]
  exact findFrom_run layout.height_le layout.linked

theorem Holds.remove_missing (h : t.Holds shape) (missing : key ∉ shape.items.map Prod.fst) :
    remove key t = (.error (.error .notFound), t) := by
  obtain ⟨tree, sound, rfl⟩ := h
  have ends := seek_shape t tree key
  have found : findKey key t = _ := findKey_run sound.layout
  cases search : seek t.keyOf key tree [] with
  | mk focus above =>
    rw [search] at ends found
    cases focus with
    | node l i r => exact absurd (mem_of_seek ends) missing
    | leaf =>
      rw [remove, bind_of_ok found]
      rfl

theorem Holds.remove_found (h : t.Holds shape) (known : key ∈ shape.items.map Prod.fst) :
    ∃ t', remove key t = (.ok (), t') ∧ t'.Holds (removeBy Prod.fst key shape) := by
  have sorted := h.sorted
  obtain ⟨tree, sound, rfl⟩ := h
  have ends := seek_shape t tree key
  have found : findKey key t = _ := findKey_run sound.layout
  cases search : seek t.keyOf key tree [] with
  | mk focus above =>
    rw [search] at ends found
    cases focus with
    | leaf => exact absurd known (seek_mem sorted ends)
    | node l i r =>
      have eq : plug (seek t.keyOf key tree []).2 (seek t.keyOf key tree []).1 = tree := plug_seek tree []
      rw [search] at eq
      rw [← eq] at sound
      obtain ⟨t', run, holds⟩ := eraseNode_run sound
      refine ⟨t', ?_, ?_⟩
      · rw [remove, bind_of_ok found]
        exact run
      have removed := removeBy_of_seek ends
      rw [plug] at removed
      rw [← removed]
      rw [map_plug, map_joined] at holds
      exact holds

theorem Holds.popMin_empty (h : t.Holds leaf) : popMin t = (.ok none, t) := by
  obtain ⟨tree, sound, shape⟩ := h
  cases tree with
  | node l i r => cases shape
  | leaf =>
    rw [popMin, gets_bind, sound.layout.root]
    rfl

theorem Holds.popMin_first {l r : BinTree (EevdfKey × Nat)} {e : EevdfKey × Nat}
    (h : t.Holds (node l e r)) :
    ∃ t', popMin t = (.ok (some (leftmost l e r []).1.1), t') ∧ t'.Holds (dropFirst (node l e r)) := by
  obtain ⟨tree, sound, shape⟩ := h
  cases tree with
  | leaf => cases shape
  | node tl i tr =>
    cases shape
    obtain ⟨s, sr, path, walk⟩ : ∃ s sr path, leftmost tl i tr [] = (s, sr, path) := ⟨_, _, _, rfl⟩
    have whole : plug path (node leaf s sr) = node tl i tr := by
      have eq := plug_leftmost tl i tr []
      rw [walk] at eq
      exact eq
    have rest : plug path sr = dropFirst (node tl i tr) := by
      have eq := plug_leftmost_right tl i tr []
      rw [walk] at eq
      exact eq
    have reach : leftEnd (turns N) i t = (.ok s, t) := by
      have reached : leftEnd (turns N) i t = (.ok (leftmost tl i tr []).1, t) :=
        leftEnd_run sound.layout.height_le sound.layout.linked
      rw [walk] at reached
      exact reached
    have root := sound.layout.root
    have sound' := sound
    rw [← whole] at sound'
    obtain ⟨-, here, -, -⟩ := linked_plug.mp sound'.layout.linked
    obtain ⟨n, found, -⟩ := cell_eq_some.mp here
    obtain ⟨t', run, holds⟩ := eraseNode_run sound'
    have first : (leftmost (tl.map t.entryOf) (t.entryOf i) (tr.map t.entryOf) []).1 = t.entryOf s := by
      rw [← map_leftmost t.entryOf tl i tr [] [], walk]
    refine ⟨t', ?_, ?_⟩
    · rw [popMin, gets_bind, root, rootLink]
      dsimp only
      rw [bind_of_ok reach, bind_of_ok (nodeRef_of_node found), bind_of_ok run, first, entryOf_of_node found]
      rfl
    have shape : (plug path (joined leaf sr)).map t.entryOf = dropFirst ((node tl i tr).map t.entryOf) := by
      rw [joined, rest, map_dropFirst]
    rw [shape] at holds
    exact holds

/-- A call does what it does on the plain search tree. -/
theorem call_onShape (h : t.Holds shape) (c : TreeCall) :
    ∃ t', call c t = ((c.onShape N shape).1, t') ∧ t'.Holds (c.onShape N shape).2 := by
  cases c with
  | insert key finish =>
    rw [TreeCall.onShape]
    by_cases full : shape.items.length = N
    · rw [if_pos full]
      exact ⟨t, bind_of_error (h.insert_full full), h⟩
    rw [if_neg full]
    by_cases known : key ∈ shape.items.map Prod.fst
    · rw [if_pos known]
      exact ⟨t, bind_of_error (h.insert_duplicate full known), h⟩
    rw [if_neg known]
    obtain ⟨t', run, holds⟩ := h.insert_new full known
    exact ⟨t', bind_of_ok run, holds⟩
  | remove key =>
    rw [TreeCall.onShape]
    by_cases known : key ∈ shape.items.map Prod.fst
    · rw [if_pos known]
      obtain ⟨t', run, holds⟩ := h.remove_found known
      exact ⟨t', bind_of_ok run, holds⟩
    rw [if_neg known]
    exact ⟨t, bind_of_error (h.remove_missing known), h⟩
  | popMin =>
    cases shape with
    | leaf => exact ⟨t, h.popMin_empty, h⟩
    | node l e r =>
      obtain ⟨t', run, holds⟩ := h.popMin_first
      rw [TreeCall.onShape, items_node_leftmost l e r []]
      exact ⟨t', run, holds⟩

end EevdfTree

theorem TreeCall.onShape_onMap {shape : BinTree (EevdfKey × Nat)} (N : Nat) (c : TreeCall)
    (sorted : SortedBy Prod.fst shape) :
    (c.onShape N shape).1 = (c.onMap N shape.items).1 ∧
      (c.onShape N shape).2.items = (c.onMap N shape.items).2 := by
  cases c with
  | insert key finish =>
    rw [onShape, onMap]
    split
    · exact ⟨rfl, rfl⟩
    split
    · exact ⟨rfl, rfl⟩
    next fresh =>
    refine ⟨rfl, ?_⟩
    cases search : seek Prod.fst key shape [] with
    | mk focus above =>
      cases focus with
      | node l e r => exact absurd (mem_of_seek search) fresh
      | leaf => exact items_insertBy (x := (key, finish)) sorted search
  | remove key =>
    rw [onShape, onMap]
    split
    next known =>
      refine ⟨rfl, ?_⟩
      cases search : seek Prod.fst key shape [] with
      | mk focus above =>
        cases focus with
        | leaf => exact absurd known (seek_mem sorted search)
        | node l e r =>
          refine (items_removeBy sorted search).trans (List.filter_congr fun _ _ => ?_)
          exact decide_eq_decide.mpr Iff.rfl
    · exact ⟨rfl, rfl⟩
  | popMin =>
    cases shape with
    | leaf => exact ⟨rfl, rfl⟩
    | node l e r =>
      rw [onShape, items_node_leftmost l e r []]
      exact ⟨rfl, rfl⟩

end HuesOS.Sched
