import HuesOS.Lib.Checks
import HuesOS.Pci.Topology

namespace HuesOS.Pci
open List Except

/-- The bridge routes the bus of the address: same segment, and the bus in its range. -/
def Covers (b : DiscoveredFunction) (a : PciAddress) : Prop :=
  b.address.segment = a.segment ∧ ∃ s e, b.kind = .pciBridge s e ∧ s ≤ a.bus ∧ a.bus ≤ e

/-- The range of the bridge `b` lies in that of the bridge `c` of its segment. -/
def Inside (b c : DiscoveredFunction) : Prop :=
  b.address.segment = c.address.segment ∧ ∃ s e s' e',
    b.kind = .pciBridge s e ∧ c.kind = .pciBridge s' e' ∧ s' ≤ s ∧ e ≤ e'

def RootBus.Apart (r r' : RootBus) : Prop :=
  ¬ (r.segment = r'.segment ∧ r.startBus ≤ r'.endBus ∧ r'.startBus ≤ r.endBus)

variable {root : RootBus} {roots : List RootBus} {functions : List DiscoveredFunction}
  {a : PciAddress}

theorem checkRoot_ok {pre : List RootBus} (ok : checkRoot root pre = .ok ()) : ∀ r ∈ pre, r.Apart root := by
  induction pre with
  | nil => exact nofun
  | cons previous rest ih =>
    unfold checkRoot at ok
    rw [ite_error_ok_iff, ite_error_ok_iff] at ok
    exact forall_mem_cons.mpr ⟨ok.2.1, ih ok.2.2⟩

theorem validateRoots_ok {pre : List RootBus} (ok : validateRoots pre roots = .ok ()) :
    roots.Pairwise RootBus.Apart ∧ ∀ r ∈ pre, ∀ r' ∈ roots, r.Apart r' := by
  induction roots generalizing pre with
  | nil => exact ⟨List.Pairwise.nil, fun _ _ => nofun⟩
  | cons root rest ih =>
    unfold validateRoots at ok
    rw [ite_error_ok_iff, ite_error_ok_iff, bind_ok_iff] at ok
    obtain ⟨_, _, _, first, last⟩ := ok
    obtain ⟨pairs, old⟩ := ih last
    refine ⟨pairwise_cons.mpr ⟨fun r' mem => ?_, pairs⟩, fun r mem => ?_⟩
    · exact old root (by simp) r' mem
    refine forall_mem_cons.mpr ⟨checkRoot_ok first r mem, fun r' member' => ?_⟩
    exact old r (by simp [mem]) r' member'

def RangeIn (root : RootBus) (f : DiscoveredFunction) : Prop :=
  ∀ s e, f.kind = .pciBridge s e → f.address.bus < s ∧ s ≤ e ∧ root.startBus ≤ s ∧ e ≤ root.endBus

theorem validateRange_ok {f : DiscoveredFunction} (ok : validateRange root f = .ok ()) : RangeIn root f := by
  intro s e kind
  simp only [validateRange, kind] at ok
  rw [ite_error_ok_iff] at ok
  simpa only [not_or, not_le, not_lt] using ok.1

theorem validateFunctions_ok {previous : Option PciAddress}
    (ok : validateFunctions roots previous functions = .ok ())
    (sorted : functions.Pairwise fun f g => f.address.key ≤ g.address.key)
    (later : ∀ p ∈ previous, ∀ f ∈ functions, p.key ≤ f.address.key) :
    functions.Pairwise (fun f g => f.address.key < g.address.key) ∧
      (∀ p ∈ previous, ∀ f ∈ functions, p.key < f.address.key) ∧
      ∀ f ∈ functions, ∃ root, rootFor roots f.address = some root ∧ RangeIn root f := by
  induction functions generalizing previous with
  | nil => exact ⟨List.Pairwise.nil, fun _ _ => nofun, nofun⟩
  | cons f rest ih =>
    unfold validateFunctions at ok
    rw [ite_error_ok_iff, ite_error_ok_iff] at ok
    obtain ⟨_, nodup, step⟩ := ok
    obtain ⟨first, rests⟩ := pairwise_cons.mp sorted
    split at step
    · cases step
    rename_i root found
    obtain ⟨_, range, last⟩ := bind_ok_iff.mp step
    obtain ⟨strict, above, ranges⟩ := ih last rests (fun p mem g memberG => by
      cases mem
      exact first g memberG)
    have next : ∀ g ∈ rest, f.address.key < g.address.key := above f.address rfl
    refine ⟨pairwise_cons.mpr ⟨next, strict⟩, fun p mem => ?_,
      forall_mem_cons.mpr ⟨⟨root, found, validateRange_ok range⟩, ranges⟩⟩
    cases mem
    have lt : p.key < f.address.key := by
      refine Nat.lt_of_le_of_ne (later p rfl f mem_cons_self) fun eq => nodup ?_
      rw [PciAddress.key_injective eq]
    exact forall_mem_cons.mpr ⟨lt, fun g mem => lt_trans lt (next g mem)⟩

/-- Two bridges of one segment: their ranges are apart, or one strictly inside the other. -/
def Nests (b c : DiscoveredFunction) : Prop :=
  b.address.segment = c.address.segment → ∀ s e s' e', b.kind = .pciBridge s e →
    c.kind = .pciBridge s' e' →
    ¬ (s = s' ∧ e = e') ∧ (e < s' ∨ e' < s ∨ (s' ≤ s ∧ e ≤ e') ∨ (s ≤ s' ∧ e' ≤ e))

theorem checkBridge_ok {left : DiscoveredFunction} {range : Fin 256 × Fin 256}
    (kind : left.kind = .pciBridge range.1 range.2) {rest : List DiscoveredFunction}
    (ok : checkBridge left range rest = .ok ()) : ∀ c ∈ rest, Nests left c := by
  induction rest with
  | nil => exact nofun
  | cons right rest ih =>
    unfold checkBridge at ok
    split at ok
    · rename_i other
      exact forall_mem_cons.mpr ⟨fun eq => absurd eq other, ih ok⟩
    split at ok
    · rename_i none_
      refine forall_mem_cons.mpr ⟨fun _ s e s' e' _ bridge => ?_, ih ok⟩
      rw [bridgeRange, bridge] at none_
      cases none_
    rename_i range' found
    obtain ⟨_, first, last⟩ := bind_ok_iff.mp ok
    refine forall_mem_cons.mpr ⟨fun _ s e s' e' kind' bridge => ?_, ih last⟩
    rw [kind] at kind'
    rw [bridgeRange, bridge] at found
    cases kind'
    cases found
    simp only [checkIntervals] at first
    rw [ite_error_ok_iff, ite_error_ok_iff] at first
    omega

theorem validateBridgeIntervals_ok
    (ok : validateBridgeIntervals functions = .ok ()) : functions.Pairwise Nests := by
  induction functions with
  | nil => exact List.Pairwise.nil
  | cons left rest ih =>
    unfold validateBridgeIntervals at ok
    cases shape : left.kind with
    | endpoint =>
      simp only [bridgeRange, shape] at ok
      refine pairwise_cons.mpr ⟨fun c _ _ s e _ _ kind => ?_, ih ok⟩
      rw [shape] at kind
      cases kind
    | pciBridge s e =>
      simp only [bridgeRange, shape] at ok
      obtain ⟨_, first, last⟩ := bind_ok_iff.mp ok
      exact pairwise_cons.mpr ⟨checkBridge_ok shape first, ih last⟩

structure Geometry (roots : List RootBus) (functions : List DiscoveredFunction) : Prop where
  apart : ∀ r ∈ roots, ∀ r' ∈ roots, r ≠ r' → r.Apart r'
  addresses : ∀ f ∈ functions, ∀ g ∈ functions, f.address = g.address → f = g
  ranges : ∀ f ∈ functions, ∃ root, rootFor roots f.address = some root ∧ RangeIn root f
  nests : ∀ b ∈ functions, ∀ c ∈ functions, b ≠ c → Nests b c

theorem geometry_of_valid (rootsOk : validateRoots [] roots = .ok ())
    (functionsOk : validateFunctions roots none functions = .ok ())
    (sorted : functions.Pairwise fun f g => f.address.key ≤ g.address.key)
    (bridgesOk : validateBridgeIntervals functions = .ok ()) : Geometry roots functions := by
  obtain ⟨strict, _, ranges⟩ := validateFunctions_ok functionsOk sorted nofun
  have rootSymm : Std.Symm RootBus.Apart := ⟨fun _ _ apart both => apart ⟨both.1.symm, both.2.2, both.2.1⟩⟩
  have nestSymm : Std.Symm Nests := ⟨fun _ _ nests eq s e s' e' kind kind' => by
    have facts := nests eq.symm s' e' s e kind' kind
    omega⟩
  have nodup : functions.Pairwise fun f g => f.address ≠ g.address :=
    strict.imp fun less eq => absurd less (by rw [eq]; exact lt_irrefl _)
  have addressSymm : Std.Symm fun f g : DiscoveredFunction => f.address ≠ g.address :=
    ⟨fun _ _ other => other.symm⟩
  refine ⟨fun r mem r' member' other => (validateRoots_ok rootsOk).1.forall mem member' other,
    fun f mem g member' eq => ?_, ranges,
    fun b mem c member' other => (validateBridgeIntervals_ok bridgesOk).forall mem member' other⟩
  by_contra other
  exact nodup.forall mem member' other eq

namespace Geometry
variable {roots : List RootBus} {functions : List DiscoveredFunction} {a : PciAddress}
  {b c f : DiscoveredFunction}

section
variable (g : Geometry roots functions)
include g

theorem root_unique {r r' : RootBus} (mem : r ∈ roots)
    (member' : r' ∈ roots) (routes : r.routes a) (routes' : r'.routes a) : r = r' := by
  by_contra other
  refine g.apart r mem r' member' other ⟨routes.1.trans routes'.1.symm, ?_, ?_⟩
  · exact routes.2.1.trans routes'.2.2
  · exact routes'.2.1.trans routes.2.2

/-- A bridge and what it routes are below one root, and its own bus comes first. -/
theorem covers_root (mem : b ∈ functions) (covers : Covers b a) :
    b.address.bus < a.bus ∧
      ∃ root ∈ roots, rootFor roots b.address = some root ∧ root.routes a ∧ root.startBus < a.bus := by
  obtain ⟨segment, s, e, kind, low, high⟩ := covers
  obtain ⟨root, found, range⟩ := g.ranges b mem
  obtain ⟨forward, _, first, last⟩ := range s e kind
  have routes : root.routes b.address := by simpa using find?_some found
  refine ⟨lt_of_lt_of_le forward low, root, mem_of_find?_eq_some found, found,
    ⟨routes.1.trans segment, first.trans low, high.trans last⟩, ?_⟩
  exact lt_of_le_of_lt routes.2.1 (lt_of_lt_of_le forward low)

/-- Of two bridges that route one bus, one lies inside the other. -/
theorem inside_or (mem : b ∈ functions) (member' : c ∈ functions)
    (other : b ≠ c) (first : Covers b a) (second : Covers c a) : Inside b c ∨ Inside c b := by
  obtain ⟨segment, s, e, kind, low, high⟩ := first
  obtain ⟨segment', s', e', kind', low', high'⟩ := second
  have eq := segment.trans segment'.symm
  rcases (g.nests b mem c member' other eq s e s' e' kind kind').2 with h | h | h | h
  · omega
  · omega
  · exact .inl ⟨eq, s, e, s', e', kind, kind', h⟩
  · exact .inr ⟨eq.symm, s', e', s, e, kind', kind, h⟩

theorem inside_antisymm (mem : b ∈ functions)
    (member' : c ∈ functions) (first : Inside b c) (second : Inside c b) : b = c := by
  obtain ⟨eq, s, e, s', e', kind, kind', low, high⟩ := first
  obtain ⟨_, t', u', t, u, kindC, kindB, low', high'⟩ := second
  rw [kind] at kindB
  rw [kind'] at kindC
  cases kindB
  cases kindC
  by_contra other
  exact (g.nests b mem c member' other eq s e s' e' kind kind').1 ⟨by omega, by omega⟩

end
end Geometry

theorem Covers.trans {b c : DiscoveredFunction} (covers : Covers b a) (inside : Inside b c) : Covers c a := by
  obtain ⟨segment, s, e, kind, low, high⟩ := covers
  obtain ⟨eq, t, u, s', e', kind', other, low', high'⟩ := inside
  rw [kind] at kind'
  cases kind'
  exact ⟨eq.symm.trans segment, s', e', other, low'.trans low, high.trans high'⟩

theorem covering_eq_some {f : DiscoveredFunction} {s e : Fin 256} :
    covering a f = some (s, e) ↔ f.address.bus < a.bus ∧ f.kind = .pciBridge s e ∧ Covers f a := by
  unfold covering bridgeRange Covers
  cases kind : f.kind with
  | endpoint => simp
  | pciBridge s' e' =>
    by_cases eligible : f.address.segment = a.segment ∧ f.address.bus < a.bus
    · by_cases outside : a.bus < s' ∨ e' < a.bus
      · simp only [eligible, outside, and_self, if_true]
        simp
        omega
      simp
      omega
    simp
    tauto

def Candidate.Deepest (c : Candidate) (s e : Fin 256) : Prop :=
  s < c.secondary ∨ s = c.secondary ∧ c.subordinate ≤ e

theorem selectParent_ok (functions : List DiscoveredFunction) :
    ∀ {selected res : Option Candidate}, selectParent a selected functions = .ok res →
      (∀ c ∈ selected, ∃ r ∈ res, r.Deepest c.secondary c.subordinate) ∧
      (∀ f ∈ functions, ∀ s e, covering a f = some (s, e) → ∃ r ∈ res, r.Deepest s e) ∧
      ∀ r ∈ res, r ∈ selected ∨
        ∃ f ∈ functions, f.address = r.address ∧ covering a f = some (r.secondary, r.subordinate) := by
  induction functions with
  | nil =>
    intro selected res ok
    cases ok
    exact ⟨fun c mem => ⟨c, mem, .inr ⟨rfl, le_refl _⟩⟩, nofun, fun r => .inl⟩
  | cons f rest ih =>
    -- the rest of the loop from a candidate that is as deep as `f` and as the one before
    have go {selected next res : Option Candidate}
        (ok : selectParent a next rest = .ok res)
        (pre : ∀ c ∈ selected, ∃ n ∈ next, n.Deepest c.secondary c.subordinate)
        (here : ∀ s e, covering a f = some (s, e) → ∃ n ∈ next, n.Deepest s e)
        (origin : ∀ n ∈ next, n ∈ selected ∨ n.address = f.address ∧
          covering a f = some (n.secondary, n.subordinate)) :
        (∀ c ∈ selected, ∃ r ∈ res, r.Deepest c.secondary c.subordinate) ∧
        (∀ g ∈ f :: rest, ∀ s e, covering a g = some (s, e) → ∃ r ∈ res, r.Deepest s e) ∧
        ∀ r ∈ res, r ∈ selected ∨
          ∃ g ∈ f :: rest, g.address = r.address ∧ covering a g = some (r.secondary, r.subordinate) := by
      obtain ⟨kept, all, source⟩ := ih ok
      have deeper {s e : Fin 256} (found : ∃ n ∈ next, n.Deepest s e) : ∃ r ∈ res, r.Deepest s e := by
        obtain ⟨n, mem, deep⟩ := found
        obtain ⟨r, memberR, deepR⟩ := kept n mem
        unfold Candidate.Deepest at *
        exact ⟨r, memberR, by omega⟩
      refine ⟨fun c mem => deeper (pre c mem),
        forall_mem_cons.mpr ⟨fun s e found => deeper (here s e found), all⟩, ?_⟩
      intro r mem
      rcases source r mem with chosen | ⟨g, memberG, found⟩
      · rcases origin r chosen with old | ⟨address, found⟩
        · exact .inl old
        · exact .inr ⟨f, mem_cons_self, address.symm, found⟩
      · exact .inr ⟨g, mem_cons_of_mem _ memberG, found⟩
    have self (c : Candidate) : c.Deepest c.secondary c.subordinate := .inr ⟨rfl, le_refl _⟩
    intro selected res ok
    unfold selectParent at ok
    split at ok
    · rename_i none_
      exact go ok (fun c mem => ⟨c, mem, self c⟩) (by simp [none_]) (fun n => .inl)
    · rename_i s e found
      exact go ok nofun (fun s' e' found' => by
          rw [found] at found'
          cases found'
          exact ⟨_, rfl, self ⟨f.address, s, e⟩⟩)
        (fun n mem => by cases mem; exact .inr ⟨rfl, found⟩)
    rename_i s e c found
    split at ok
    · rename_i deeper
      refine go ok (fun c' mem => ?_) (fun s' e' found' => ?_) (fun n mem => ?_)
      · cases mem
        refine ⟨_, rfl, ?_⟩
        simp only [Candidate.Deepest]
        omega
      · rw [found] at found'
        cases found'
        exact ⟨_, rfl, self ⟨f.address, s, e⟩⟩
      cases mem
      exact .inr ⟨rfl, found⟩
    rename_i shallow
    rw [ite_error_ok_iff] at ok
    refine go ok.2 (fun c' mem => ⟨c', mem, self c'⟩) (fun s' e' found' => ?_) (fun n => .inl)
    rw [found] at found'
    cases found'
    exact ⟨c, rfl, by unfold Candidate.Deepest; omega⟩

/-- The parent of the function at `a`: its root when no bridge routes its bus, otherwise the
innermost of the bridges that do. -/
theorem resolveParent_ok (g : Geometry roots functions) (found : rootFor roots a = some root)
    {parent : Parent} (ok : resolveParent root a functions = .ok parent) :
    (parent = .root root.rootId ∧ ∀ c ∈ functions, ¬ Covers c a) ∨
      ∃ b ∈ functions, parent = .bridge b.address ∧ Covers b a ∧
        ∀ c ∈ functions, Covers c a → b ≠ c → Inside b c := by
  unfold resolveParent at ok
  split at ok
  · rename_i first
    cases ok
    refine .inl ⟨rfl, fun c mem covers => ?_⟩
    obtain ⟨_, root', memberR, _, routes, behind⟩ := g.covers_root mem covers
    have eq := g.root_unique memberR (mem_of_find?_eq_some found) routes (by simpa using find?_some found)
    rw [eq, first] at behind
    exact lt_irrefl _ behind
  split at ok
  · cases ok
  · cases ok
  rename_i candidate selection
  cases ok
  obtain ⟨_, all, source⟩ := selectParent_ok functions selection
  obtain nothing | ⟨b, mem, address, range⟩ := source candidate rfl
  · cases nothing
  obtain ⟨_, kind, covers⟩ := covering_eq_some.mp range
  refine .inr ⟨b, mem, by rw [address], covers, fun c memberC coversC other => ?_⟩
  obtain ⟨segment, s, e, kindC, low, high⟩ := coversC
  obtain ⟨r, chosen, deepest⟩ := all c memberC s e (covering_eq_some.mpr
    ⟨(g.covers_root memberC ⟨segment, s, e, kindC, low, high⟩).1, kindC, segment, s, e, kindC, low, high⟩)
  cases chosen
  rcases g.inside_or mem memberC other covers ⟨segment, s, e, kindC, low, high⟩ with h | h
  · exact h
  -- `c` inside `b`, yet `b` at least as deep: then the ranges are equal
  obtain ⟨eq, t, u, t', u', kind1, kind2, low', high'⟩ := h
  rw [kindC] at kind1
  rw [kind] at kind2
  cases kind1
  cases kind2
  refine ⟨eq.symm, _, _, s, e, kind, kindC, ?_, ?_⟩
  all_goals
    unfold Candidate.Deepest at deepest
    omega

theorem forall₂_right {R : α → β → Prop} {xs : List α} {ys : List β} (all : List.Forall₂ R xs ys) :
    ∀ y ∈ ys, ∃ x ∈ xs, R x y := by
  induction all with
  | nil => exact nofun
  | cons first _ ih =>
    refine forall_mem_cons.mpr ⟨⟨_, mem_cons_self, first⟩, fun y mem => ?_⟩
    obtain ⟨x, memberX, related⟩ := ih y mem
    exact ⟨x, mem_cons_of_mem _ memberX, related⟩

/-- The bridges met on the way up from a parent, and the root at the end. -/
inductive Chain (nodes : List TopologyNode) :
    Parent → List DiscoveredFunction → Fin (2 ^ 64) → Prop
  | root (id : Fin (2 ^ 64)) : Chain nodes (.root id) [] id
  | bridge {a : PciAddress} {n : TopologyNode} {up : List DiscoveredFunction} {id : Fin (2 ^ 64)}
      (found : findNode nodes a = some n) (rest : Chain nodes n.parent up id) :
      Chain nodes (.bridge a) (n.function :: up) id

namespace Chain
variable {nodes done : List TopologyNode} {parent : Parent} {up up' : List DiscoveredFunction}
  {id id' : Fin (2 ^ 64)}

theorem unique (first : Chain nodes parent up id) (second : Chain nodes parent up' id') :
    up = up' ∧ id = id' := by
  induction first generalizing up' id' with
  | root => cases second; exact ⟨rfl, rfl⟩
  | bridge found _ ih =>
    cases second with
    | bridge found' rest =>
      rw [found] at found'
      cases found'
      exact ⟨congrArg _ (ih rest).1, (ih rest).2⟩

theorem above {b : DiscoveredFunction} (here : Chain nodes parent up id) (mem : b ∈ up) :
    ∃ m ∈ nodes, m.function = b ∧ ∃ before after, up = before ++ b :: after ∧
      Chain nodes m.parent after id := by
  induction here with
  | root => cases mem
  | bridge found rest ih =>
    rename_i n up id
    rcases mem_cons.mp mem with rfl | later
    · exact ⟨n, mem_of_find?_eq_some found, rfl, [], up, rfl, rest⟩
    obtain ⟨m, memberM, function, before, after, split, tail⟩ := ih later
    exact ⟨m, memberM, function, n.function :: before, after, by rw [split]; rfl, tail⟩

theorem congr
    (eq : List.Forall₂ (fun n m => n.function = m.function ∧ n.parent = m.parent) nodes done)
    (here : Chain nodes parent up id) : Chain done parent up id := by
  have find (a : PciAddress) (n : TopologyNode) (found : findNode nodes a = some n) :
      ∃ m, findNode done a = some m ∧ n.function = m.function ∧ n.parent = m.parent := by
    clear here
    induction eq with
    | nil => cases found
    | cons first _ ih =>
      unfold findNode at ih found ⊢
      rw [find?_cons] at found ⊢
      rw [← first.1]
      split at found
      · cases found
        exact ⟨_, rfl, first⟩
      · exact ih found
  induction here with
  | root id => exact root id
  | bridge found _ ih =>
    obtain ⟨m, foundM, function, parent⟩ := find _ _ found
    rw [function]
    rw [parent] at ih
    exact bridge foundM ih

theorem of_depth {left depth k : Nat} (ends : parentDepth nodes left depth parent = .ok k) :
    ∃ up id, Chain nodes parent up id := by
  induction left generalizing depth parent with
  | zero =>
    cases parent with
    | root id => exact ⟨[], id, root id⟩
    | bridge a => cases ends
  | succ left ih =>
    cases parent with
    | root id => exact ⟨[], id, root id⟩
    | bridge a =>
      unfold parentDepth at ends
      split at ends
      · cases ends
      rename_i n found
      obtain ⟨up, id, rest⟩ := ih ends
      exact ⟨n.function :: up, id, bridge found rest⟩

end Chain

structure NodesOf (roots : List RootBus) (functions : List DiscoveredFunction)
    (nodes : List TopologyNode) : Prop where
  parents : ∀ n ∈ nodes, n.function ∈ functions ∧ ∃ root,
    rootFor roots n.function.address = some root ∧
      resolveParent root n.function.address functions = .ok n.parent
  all : ∀ f ∈ functions, ∃ n ∈ nodes, n.function = f

theorem resolveNodes_ok (rest : List DiscoveredFunction) : ∀ {nodes : List TopologyNode},
    resolveNodes roots functions rest = .ok nodes →
      nodes.map (·.function) = rest ∧ ∀ n ∈ nodes, ∃ root,
        rootFor roots n.function.address = some root ∧
          resolveParent root n.function.address functions = .ok n.parent := by
  induction rest with
  | nil =>
    intro nodes ok
    cases ok
    exact ⟨rfl, nofun⟩
  | cons f rest ih =>
    intro nodes ok
    unfold resolveNodes at ok
    split at ok
    · cases ok
    rename_i root found
    obtain ⟨parent, resolved, ok⟩ := bind_ok_iff.mp ok
    obtain ⟨later, others, ok⟩ := bind_ok_iff.mp ok
    cases ok
    obtain ⟨eq, parents⟩ := ih others
    exact ⟨by rw [map_cons, eq], forall_mem_cons.mpr ⟨⟨root, found, resolved⟩, parents⟩⟩

/-- Depths change neither functions nor parents, and every chain of parents ends. -/
theorem assignDepths_ok {nodes : List TopologyNode} (rest : List TopologyNode) :
    ∀ {done : List TopologyNode}, assignDepths nodes rest = .ok done →
      List.Forall₂ (fun n m => n.function = m.function ∧ n.parent = m.parent) rest done ∧
        ∀ n ∈ rest, ∃ depth, parentDepth nodes maxTopologyDepth 0 n.parent = .ok depth := by
  induction rest with
  | nil =>
    intro done ok
    cases ok
    exact ⟨List.Forall₂.nil, nofun⟩
  | cons n rest ih =>
    intro done ok
    obtain ⟨depth, first, ok⟩ := bind_ok_iff.mp ok
    obtain ⟨later, others, ok⟩ := bind_ok_iff.mp ok
    cases ok
    obtain ⟨eq, depths⟩ := ih others
    exact ⟨List.Forall₂.cons ⟨rfl, rfl⟩ eq, forall_mem_cons.mpr ⟨⟨depth, first⟩, depths⟩⟩

/-- An accepted snapshot: its geometry, its nodes, and that every chain of parents ends. -/
theorem buildSnapshot_ok {gen : Nat} {snapshot : TopologySnapshot}
    (ok : buildSnapshot gen roots functions = .ok snapshot) :
    ∃ sorted, sorted.Perm functions ∧ Geometry snapshot.roots sorted ∧
      NodesOf snapshot.roots sorted snapshot.nodes ∧
      ∀ n ∈ snapshot.nodes, ∃ up id, Chain snapshot.nodes n.parent up id := by
  unfold buildSnapshot at ok
  rw [ite_error_ok_iff, ite_error_ok_iff] at ok
  obtain ⟨_, _, ok⟩ := ok
  obtain ⟨_, rootsOk, ok⟩ := bind_ok_iff.mp ok
  obtain ⟨_, functionsOk, ok⟩ := bind_ok_iff.mp ok
  obtain ⟨_, bridgesOk, ok⟩ := bind_ok_iff.mp ok
  obtain ⟨nodes, resolved, ok⟩ := bind_ok_iff.mp ok
  obtain ⟨done, depths, ok⟩ := bind_ok_iff.mp ok
  cases ok
  have sorted : (sortFunctions functions).Pairwise fun f g => f.address.key ≤ g.address.key := by
    have total : Std.Total fun f g : DiscoveredFunction => f.address.key ≤ g.address.key :=
      ⟨fun f g => Nat.le_total _ _⟩
    have trans : IsTrans DiscoveredFunction fun f g => f.address.key ≤ g.address.key := ⟨fun _ _ _ => le_trans⟩
    exact pairwise_insertionSort _ _
  obtain ⟨all, parents⟩ := resolveNodes_ok _ resolved
  obtain ⟨eq, ends⟩ := assignDepths_ok _ depths
  refine ⟨sortFunctions functions, perm_insertionSort _ _,
    geometry_of_valid rootsOk functionsOk sorted bridgesOk, ⟨?_, ?_⟩, ?_⟩
  · intro m mem
    obtain ⟨n, memberN, function, parent⟩ := forall₂_right eq m mem
    rw [← function, ← parent]
    exact ⟨by rw [← all]; exact mem_map_of_mem memberN, parents n memberN⟩
  · intro f mem
    rw [← all] at mem
    obtain ⟨n, memberN, rfl⟩ := mem_map.mp mem
    obtain ⟨m, memberM, function, _⟩ := forall₂_right eq.flip n memberN
    exact ⟨m, memberM, function.symm⟩
  intro m mem
  obtain ⟨n, memberN, _, parent⟩ := forall₂_right eq m mem
  obtain ⟨depth, depthOk⟩ := ends n memberN
  obtain ⟨up, id, here⟩ := Chain.of_depth depthOk
  exact ⟨up, id, parent ▸ here.congr eq⟩

/-- The bridges on the chain are those of the segment whose range contains the function's bus, from
the innermost out, and the chain ends at the root that routes the bus. -/
def Routed (functions : List DiscoveredFunction) (snapshot : TopologySnapshot) (n : TopologyNode) :
    Prop :=
  ∃ up id, Chain snapshot.nodes n.parent up id ∧
    (∀ b, b ∈ up ↔ b ∈ functions ∧ Covers b n.function.address) ∧
    up.Pairwise (fun b c => Inside b c ∧ b ≠ c) ∧
    ∃ root ∈ snapshot.roots, root.routes n.function.address ∧ root.rootId = id

/-- Every bridge with a function in its range sits on a bus of exactly those other bridges whose
range contains its own. -/
def SelfRouted (functions : List DiscoveredFunction) : Prop :=
  ∀ f ∈ functions, ∀ b ∈ functions, ∀ c ∈ functions, Covers b f.address → b ≠ c →
    (Inside b c ↔ Covers c b.address)

section
variable {roots : List RootBus} {functions : List DiscoveredFunction} {nodes : List TopologyNode}
  (g : Geometry roots functions) (nodesOf : NodesOf roots functions nodes)

include g nodesOf

theorem chain_root {n : TopologyNode} (mem : n ∈ nodes) {up : List DiscoveredFunction}
    {id : Fin (2 ^ 64)} (here : Chain nodes n.parent up id) :
    ∃ root ∈ roots, root.routes n.function.address ∧ root.rootId = id := by
  generalize above : n.parent = parent at here
  induction here generalizing n with
  | root id =>
    obtain ⟨_, root, found, resolved⟩ := nodesOf.parents n mem
    refine ⟨root, mem_of_find?_eq_some found, by simpa using find?_some found, ?_⟩
    rcases resolveParent_ok g found resolved with ⟨parent, _⟩ | ⟨b, _, parent, _⟩
    · rw [above] at parent
      exact (Parent.root.inj parent).symm
    rw [above] at parent
    cases parent
  | bridge found rest ih =>
    rename_i a m up id
    have memberM := mem_of_find?_eq_some found
    obtain ⟨root, memberR, routes, eq⟩ := ih memberM rfl
    obtain ⟨_, _, foundR, resolved⟩ := nodesOf.parents n mem
    rcases resolveParent_ok g foundR resolved with ⟨parent, _⟩ | ⟨b, memberB, parent, covers, _⟩
    · rw [above] at parent
      cases parent
    rw [above] at parent
    have address : m.function.address = b.address := by
      rw [← Parent.bridge.inj parent]
      simpa using find?_some found
    obtain ⟨_, root', memberR', rootB, routes', _⟩ := g.covers_root memberB covers
    rw [address] at routes
    have one := g.root_unique memberR memberR' routes (by simpa using find?_some rootB)
    exact ⟨root, memberR, one ▸ routes', eq⟩

theorem chain_of_selfRouted (routed : SelfRouted functions) {n : TopologyNode} (mem : n ∈ nodes)
    {up : List DiscoveredFunction} {id : Fin (2 ^ 64)} (here : Chain nodes n.parent up id) :
    (∀ b, b ∈ up ↔ b ∈ functions ∧ Covers b n.function.address) ∧
      up.Pairwise fun b c => Inside b c ∧ b ≠ c := by
  generalize above : n.parent = parent at here
  induction here generalizing n with
  | root id =>
    obtain ⟨_, _, found, resolved⟩ := nodesOf.parents n mem
    rcases resolveParent_ok g found resolved with ⟨_, none_⟩ | ⟨b, _, parent, _⟩
    · exact ⟨fun b => ⟨nofun, fun h => absurd h.2 (none_ b h.1)⟩, List.Pairwise.nil⟩
    rw [above] at parent
    cases parent
  | bridge found rest ih =>
    rename_i a m up id
    have memberM := mem_of_find?_eq_some found
    obtain ⟨known, _, foundR, resolved⟩ := nodesOf.parents n mem
    rcases resolveParent_ok g foundR resolved with ⟨parent, _⟩ | ⟨b, memberB, parent, covers, deepest⟩
    · rw [above] at parent
      cases parent
    rw [above] at parent
    have eq : m.function = b := by
      refine g.addresses _ (nodesOf.parents m memberM).1 b memberB ?_
      rw [← Parent.bridge.inj parent]
      simpa using find?_some found
    obtain ⟨members, order⟩ := ih memberM rfl
    rw [eq] at members ⊢
    -- above `b` are the bridges that route its own bus, which are those around its range
    have outer (c : DiscoveredFunction) (memberC : c ∈ functions) (other : b ≠ c) :
        Covers c n.function.address ↔ Covers c b.address := by
      rw [← routed n.function known b memberB c memberC covers other]
      exact ⟨fun h => deepest c memberC h other, fun inside => covers.trans inside⟩
    have apart {c : DiscoveredFunction} (memberC : c ∈ up) : b ≠ c := by
      rintro rfl
      exact lt_irrefl _ (g.covers_root memberB ((members b).mp memberC).2).1
    refine ⟨fun c => ?_, pairwise_cons.mpr ⟨fun c memberC => ?_, order⟩⟩
    · rw [mem_cons]
      constructor
      · rintro (rfl | later)
        · exact ⟨memberB, covers⟩
        obtain ⟨memberC, coversC⟩ := (members c).mp later
        exact ⟨memberC, (outer c memberC (apart later)).mpr coversC⟩
      rintro ⟨memberC, coversC⟩
      by_cases first : b = c
      · exact .inl first.symm
      · exact .inr ((members c).mpr ⟨memberC, (outer c memberC first).mp coversC⟩)
    obtain ⟨inFunctions, coversB⟩ := (members c).mp memberC
    refine ⟨deepest c inFunctions ((outer c inFunctions (apart memberC)).mpr coversB)
      (apart memberC), apart memberC⟩

end

/-- In an accepted snapshot every chain matches the ranges exactly when the bridges are routed by
the bridges around them; the chains end at the right root in any case. -/
theorem chains_match_iff (generation : Nat) (roots : List RootBus)
    (functions : List DiscoveredFunction) (snapshot : TopologySnapshot)
    (accepted : buildSnapshot generation roots functions = .ok snapshot) :
    (∀ n ∈ snapshot.nodes, Routed functions snapshot n) ↔ SelfRouted functions := by
  obtain ⟨sorted, perm, g, nodesOf, chains⟩ := buildSnapshot_ok accepted
  have members (f : DiscoveredFunction) : f ∈ sorted ↔ f ∈ functions := perm.mem_iff
  constructor
  · intro all f memberF b memberB c memberC covers other
    rw [← members] at memberF memberB memberC
    obtain ⟨n, memberN, rfl⟩ := nodesOf.all f memberF
    obtain ⟨up, id, here, exactly, order, _⟩ := all n memberN
    have inChain : b ∈ up := (exactly b).mpr ⟨(members b).mp memberB, covers⟩
    obtain ⟨m, memberM, rfl, before, after, split, rest⟩ := here.above inChain
    obtain ⟨up', id', hereM, exactlyM, _⟩ := all m memberM
    obtain ⟨rfl, rfl⟩ := rest.unique hereM
    rw [split] at order exactly
    obtain ⟨_, tail, cross⟩ := pairwise_append.mp order
    rw [(show Covers c m.function.address ↔ c ∈ after from
      ⟨fun h => (exactlyM c).mpr ⟨(members c).mp memberC, h⟩, fun h => ((exactlyM c).mp h).2⟩)]
    constructor
    · intro inside
      have somewhere := (exactly c).mpr ⟨(members c).mp memberC, covers.trans inside⟩
      rcases mem_append.mp somewhere with early | late
      · have inner := (cross c early m.function mem_cons_self).1
        exact absurd (g.inside_antisymm memberB memberC inside inner) other
      · exact (mem_cons.mp late).resolve_left (Ne.symm other)
    intro later
    exact ((pairwise_cons.mp tail).1 c later).1
  intro routed n mem
  have routedSorted : SelfRouted sorted := fun f hf b hb c hc =>
    routed f ((members f).mp hf) b ((members b).mp hb) c ((members c).mp hc)
  obtain ⟨up, id, here⟩ := chains n mem
  obtain ⟨exactly, order⟩ := chain_of_selfRouted g nodesOf routedSorted mem here
  exact ⟨up, id, here, fun b => (exactly b).trans (and_congr_left' (members b)), order,
    chain_root g nodesOf mem here⟩

def sampleRoot : RootBus := ⟨7, 0, 0, 255⟩
def sampleBridge (bus : Fin 256) (device : Fin 32) (secondary subordinate : Fin 256) :
    DiscoveredFunction := ⟨⟨0, bus, device, 0⟩, 0x8086, .pciBridge secondary subordinate⟩
def sampleEndpoint (bus : Fin 256) : DiscoveredFunction := ⟨⟨0, bus, 0, 0⟩, 0x1234, .endpoint⟩

/-- A bridge on the root bus, a bridge behind it, and an endpoint behind that one. -/
def nestedBridges : List DiscoveredFunction :=
  [sampleBridge 0 1 1 3, sampleBridge 1 1 2 3, sampleEndpoint 2]
def nestedBridgesSnapshot : TopologySnapshot := ⟨1, [sampleRoot],
  [⟨sampleBridge 0 1 1 3, .root 7, 0⟩, ⟨sampleBridge 1 1 2 3, .bridge ⟨0, 0, 1, 0⟩, 1⟩,
    ⟨sampleEndpoint 2, .bridge ⟨0, 1, 1, 0⟩, 2⟩]⟩

theorem chains_match_iff_nestedBridges :
    buildSnapshot 1 [sampleRoot] nestedBridges = .ok nestedBridgesSnapshot ∧
      ((∀ n ∈ nestedBridgesSnapshot.nodes, Routed nestedBridges nestedBridgesSnapshot n) ↔ SelfRouted nestedBridges) :=
  ⟨by decide, chains_match_iff 1 [sampleRoot] nestedBridges nestedBridgesSnapshot (by decide)⟩

/-- Two bridges on the root bus with ranges 2 to 3 and 1 to 5. -/
def nestedSiblings : List DiscoveredFunction :=
  [sampleBridge 0 1 2 3, sampleBridge 0 2 1 5, sampleEndpoint 2]

/-- A bridge with the range 5 to 6 on bus 1, which is routed by a bridge with the range 1 to 2. -/
def escapingBridge : List DiscoveredFunction :=
  [sampleBridge 0 1 1 2, sampleBridge 1 1 5 6, sampleEndpoint 5]

/-- Of the first topology, the endpoint on bus 2 has only the inner bridge on its chain; of the
second, the endpoint on bus 5 has a bridge on its chain that does not route bus 5. -/
theorem chains_miss_ranges :
    (∃ snapshot, buildSnapshot 1 [sampleRoot] nestedSiblings = .ok snapshot ∧
      ∃ n ∈ snapshot.nodes, Chain snapshot.nodes n.parent [sampleBridge 0 1 2 3] 7 ∧
        Covers (sampleBridge 0 2 1 5) n.function.address ∧ ¬ Routed nestedSiblings snapshot n) ∧
    ∃ snapshot, buildSnapshot 1 [sampleRoot] escapingBridge = .ok snapshot ∧
      ∃ n ∈ snapshot.nodes,
        Chain snapshot.nodes n.parent [sampleBridge 1 1 5 6, sampleBridge 0 1 1 2] 7 ∧
        ¬ Covers (sampleBridge 0 1 1 2) n.function.address ∧
        ¬ Routed escapingBridge snapshot n := by
  constructor
  · have here : Chain [⟨sampleBridge 0 1 2 3, .root 7, 0⟩, ⟨sampleBridge 0 2 1 5, .root 7, 0⟩,
        ⟨sampleEndpoint 2, .bridge ⟨0, 0, 1, 0⟩, 1⟩] (.bridge ⟨0, 0, 1, 0⟩)
        [sampleBridge 0 1 2 3] 7 := .bridge (n := ⟨sampleBridge 0 1 2 3, .root 7, 0⟩) rfl (.root 7)
    have covers : Covers (sampleBridge 0 2 1 5) (sampleEndpoint 2).address :=
      ⟨rfl, 1, 5, rfl, by decide, by decide⟩
    refine ⟨⟨1, [sampleRoot], _⟩, by decide, ⟨sampleEndpoint 2, .bridge ⟨0, 0, 1, 0⟩, 1⟩,
      by simp, here, covers, ?_⟩
    rintro ⟨up, id, other, exactly, _⟩
    obtain ⟨rfl, _⟩ := here.unique other
    have mem := (exactly (sampleBridge 0 2 1 5)).mpr ⟨by decide, covers⟩
    exact absurd mem (by decide)
  have here : Chain [⟨sampleBridge 0 1 1 2, .root 7, 0⟩,
      ⟨sampleBridge 1 1 5 6, .bridge ⟨0, 0, 1, 0⟩, 1⟩,
      ⟨sampleEndpoint 5, .bridge ⟨0, 1, 1, 0⟩, 2⟩] (.bridge ⟨0, 1, 1, 0⟩)
      [sampleBridge 1 1 5 6, sampleBridge 0 1 1 2] 7 :=
    .bridge (n := ⟨sampleBridge 1 1 5 6, .bridge ⟨0, 0, 1, 0⟩, 1⟩) rfl
      (.bridge (n := ⟨sampleBridge 0 1 1 2, .root 7, 0⟩) rfl (.root 7))
  have misses : ¬ Covers (sampleBridge 0 1 1 2) (sampleEndpoint 5).address := by
    rintro ⟨_, s, e, kind, _, high⟩
    cases kind
    exact absurd high (by decide)
  refine ⟨⟨1, [sampleRoot], _⟩, by decide, ⟨sampleEndpoint 5, .bridge ⟨0, 1, 1, 0⟩, 2⟩,
    by simp, here, misses, ?_⟩
  rintro ⟨up, id, other, exactly, _⟩
  obtain ⟨rfl, _⟩ := here.unique other
  exact misses ((exactly (sampleBridge 0 1 1 2)).mp (by simp)).2

end HuesOS.Pci
