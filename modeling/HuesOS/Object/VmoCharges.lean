import HuesOS.Object.Vmo
import HuesOS.Quota.TreeRuns

namespace HuesOS.Object
open List Function Option
open Quotas

namespace Pmm
variable {p p' : Pmm} {frame : Nat}

theorem allocate_some (h : p.allocate = some (frame, p')) :
    frame < p.frameCount ∧ p.used frame = false ∧ p'.frameCount = p.frameCount ∧
      p'.used = update p.used frame true := by
  unfold allocate at h
  split at h
  · cases h
  next found =>
  cases h
  obtain ⟨off, inside, rfl⟩ := mem_map.mp (mem_of_find?_eq_some found)
  refine ⟨Nat.mod_lt _ ?_, by simpa using find?_some found, rfl, rfl⟩
  exact Nat.zero_lt_of_lt (mem_range.mp inside)

theorem deallocate_used (lt : frame < p.frameCount) (used : p.used frame = true) :
    (p.deallocate frame).frameCount = p.frameCount ∧ (p.deallocate frame).used = update p.used frame false := by
  rw [deallocate, if_pos ⟨lt, used⟩]
  exact ⟨rfl, rfl⟩

end Pmm

namespace FramePool

/-- Frames in use are in use since the start, or held by exactly one owner. -/
structure Sound (boot : Nat → Bool) (m : FramePool) (owned : List Nat) : Prop where
  once : (owned ++ m.elsewhere).Nodup
  busy : ∀ f ∈ owned ++ m.elsewhere, f < m.pmm.frameCount ∧ m.pmm.used f = true
  rest : ∀ f, m.pmm.used f = true → boot f = true ∨ f ∈ owned ++ m.elsewhere

variable {boot : Nat → Bool} {m : FramePool} {owned owned' others frames : List Nat} {pmm : Pmm}
  {frame : Nat}

theorem Sound.of_perm {m' : FramePool} (h : m.Sound boot owned) (eq : m'.pmm = m.pmm)
    (perm : (owned' ++ m'.elsewhere).Perm (owned ++ m.elsewhere)) : m'.Sound boot owned' where
  once := perm.nodup_iff.mpr h.once
  busy := by
    intro f mem
    rw [eq]
    exact h.busy f (perm.mem_iff.mp mem)
  rest := by
    intro f used
    rw [eq] at used
    exact (h.rest f used).imp_right perm.mem_iff.mpr

theorem Sound.perm (h : m.Sound boot owned) (perm : owned'.Perm owned) : m.Sound boot owned' :=
  h.of_perm rfl (perm.append_right _)

theorem Sound.take (h : m.Sound boot owned) (got : m.pmm.allocate = some (frame, pmm)) :
    FramePool.Sound boot { m with pmm } (frame :: owned) := by
  obtain ⟨inside, free, count, used⟩ := Pmm.allocate_some got
  have fresh : frame ∉ owned ++ m.elsewhere := by
    intro mem
    rw [(h.busy frame mem).2] at free
    cases free
  refine ⟨nodup_cons.mpr ⟨fresh, h.once⟩, fun f mem => ?_, fun f busy => ?_⟩
  · simp only [count, used]
    by_cases eq : f = frame
    · subst eq
      exact ⟨inside, update_self ..⟩
    rw [update_of_ne eq]
    exact h.busy f ((mem_cons.mp mem).resolve_left eq)
  by_cases eq : f = frame
  · rw [eq]
    exact .inr mem_cons_self
  simp only [used, update_of_ne eq] at busy
  exact (h.rest f busy).imp_right (mem_cons_of_mem frame)

theorem Sound.give (h : m.Sound boot (frame :: owned)) :
    FramePool.Sound boot { m with pmm := m.pmm.deallocate frame } owned := by
  obtain ⟨inside, busy⟩ := h.busy frame mem_cons_self
  obtain ⟨count, used⟩ := Pmm.deallocate_used inside busy
  obtain ⟨gone, once⟩ := nodup_cons.mp h.once
  refine ⟨once, fun f mem => ?_, fun f busy => ?_⟩
  · have ne : f ≠ frame := by
      rintro rfl
      exact gone mem
    simp only [count, used, update_of_ne ne]
    exact h.busy f (.tail frame mem)
  by_cases eq : f = frame
  · simp [used, eq] at busy
  simp only [used, update_of_ne eq] at busy
  refine (h.rest f busy).imp_right fun mem => ?_
  exact (mem_cons.mp mem).resolve_left eq

theorem Sound.use (h : m.Sound boot owned) (u : OtherUse) : (m.use u).Sound boot owned := by
  cases u with
  | take =>
    unfold FramePool.use
    cases got : m.pmm.allocate with
    | none => exact h
    | some res => exact (h.take got).of_perm rfl perm_middle
  | giveBack frame =>
    unfold FramePool.use
    dsimp only
    split
    next mem =>
      have moved : FramePool.Sound boot ⟨m.pmm, m.elsewhere.erase frame⟩ (frame :: owned) := by
        refine h.of_perm rfl ?_
        have back := (perm_cons_erase mem).symm.append_left owned
        exact perm_middle.symm.trans back
      exact moved.give
    · exact h

theorem Sound.uses (h : m.Sound boot owned) (us : List OtherUse) :
    (us.foldl FramePool.use m).Sound boot owned := by
  induction us generalizing m with
  | nil => exact h
  | cons u us ih => exact ih (h.use u)

theorem Sound.fill (meanwhile : Nat → List OtherUse) (count : Nat)
    (h : m.Sound boot (frames ++ others)) :
    (m.fill meanwhile count frames).2.2.Sound boot ((m.fill meanwhile count frames).2.1 ++ others) ∧
      frames.length ≤ (m.fill meanwhile count frames).2.1.length ∧
      (m.fill meanwhile count frames).2.1.length ≤ frames.length + count ∧
      ((m.fill meanwhile count frames).1 = true →
        (m.fill meanwhile count frames).2.1.length = frames.length + count) := by
  induction count generalizing m frames with
  | zero => exact ⟨h, le_rfl, le_rfl, fun _ => rfl⟩
  | succ count ih =>
    have used := h.uses (meanwhile frames.length)
    rw [FramePool.fill]
    cases got : ((meanwhile frames.length).foldl FramePool.use m).pmm.allocate with
    | none => exact ⟨used, le_rfl, Nat.le_add_right _ _, nofun⟩
    | some res =>
      obtain ⟨frame, pmm⟩ := res
      have perm : (frames ++ frame :: others).Perm (frame :: (frames ++ others)) := perm_middle
      have more := (used.take got).perm perm
      rw [append_cons] at more
      dsimp only
      obtain ⟨sound, least, most, all⟩ := ih more
      rw [length_append, length_singleton] at least most all
      exact ⟨sound, by omega, by omega, fun ok => by rw [all ok]; omega⟩

theorem Sound.freeAll (h : m.Sound boot (frames ++ others)) : (m.freeAll frames).Sound boot others := by
  induction frames generalizing m with
  | nil => exact h
  | cons frame frames ih => exact ih h.give

theorem Sound.length_le (h : m.Sound boot owned) : owned.length ≤ 2 ^ 40 := by
  have within : owned ⊆ List.range m.pmm.frameCount := by
    intro f mem
    exact mem_range.mpr (h.busy f (mem_append_left _ mem)).1
  have once : owned.Nodup := (nodup_append.mp h.once).1
  have bound := (subperm_of_subset once within).length_le
  rw [length_range] at bound
  exact bound.trans m.pmm.addressable

end FramePool

section Charges
variable {t t' : QuotaTree} {job : Option NodeId} {pages i : Nat}

theorem toNat_pageBytes (few : pages ≤ 2 ^ 40) : (pageBytes pages).toNat = pages * vmoPageSize := by
  apply UInt64.toNat_ofNat_of_lt'
  change pages * 4096 < 2 ^ 64
  omega

theorem indexOf_iff {node : NodeId} : t.indexOf node = .ok i ↔
    node = ⟨i, t.treeId⟩ ∧ ∃ n, t.nodes[i]? = some n ∧ n.active = true := by
  obtain ⟨idx, treeId⟩ := node
  simp only [QuotaTree.indexOf, NodeId.mk.injEq]
  by_cases eq : treeId = t.treeId
  · cases found : t.nodes[idx]? with
    | none =>
      simp only [eq, ne_eq, not_true, if_false, reduceCtorEq, false_iff]
      rintro ⟨⟨rfl, -⟩, n, there, -⟩
      rw [found] at there
      cases there
    | some n =>
      by_cases active : n.active = true
      · simp only [eq, ne_eq, not_true, if_false, active, if_true, Except.ok.injEq, and_true]
        constructor
        · rintro rfl
          exact ⟨rfl, n, found, active⟩
        · exact And.left
      simp only [eq, ne_eq, not_true, if_false, active, reduceCtorEq, false_iff]
      rintro ⟨⟨rfl, -⟩, n', there, active'⟩
      rw [found] at there
      cases there
      exact active active'
  · simp [eq]

def LiveJob (t : QuotaTree) (job : Option NodeId) : Prop :=
  ∀ node, job = some node → t.indexOf node = .ok node.index

theorem LiveJob.of_active {t' : QuotaTree} (h : LiveJob t (some ⟨i, t.treeId⟩))
    (tree : t'.treeId = t.treeId)
    (kept : ∀ n, t.nodes[i]? = some n → n.active = true →
      ∃ n', t'.nodes[i]? = some n' ∧ n'.active = true) : LiveJob t' (some ⟨i, t.treeId⟩) := by
  intro node eq
  cases eq
  obtain ⟨-, n, found, active⟩ := indexOf_iff.mp (h _ rfl)
  exact indexOf_iff.mpr ⟨by rw [tree], kept n found active⟩

theorem LiveJob.reuse {g : Usage → Usage} (h : LiveJob t job) : LiveJob (t.reuse i g) job := by
  intro node eq
  obtain ⟨here, n, found, active⟩ := indexOf_iff.mp (h node eq)
  refine indexOf_iff.mpr ⟨here, ?_⟩
  rw [QuotaTree.reuse, QuotaTree.nodes_modifyNode]
  split
  · refine ⟨{ n with used := g n.used }, ?_, active⟩
    rw [found, map_some]
  · exact ⟨n, found, active⟩

def memoryOf (t : QuotaTree) (i : Nat) : Nat := t.usedAt .memory i

theorem memoryOf_reuse {g : Usage → Usage} {n : Node} (found : t.nodes[i]? = some n)
    (same : g n.used .memory = n.used .memory) (k : Nat) :
    memoryOf (t.reuse i g) k = memoryOf t k := by
  by_cases here : k = i
  · subst here
    rw [memoryOf, QuotaTree.usedAt_reuse_self found, same, memoryOf, QuotaTree.usedAt_of found]
  · exact QuotaTree.usedAt_reuse_other here

/-- What a charge does: a failed one changes nothing, and one that succeeds adds the pages to the
node of the job. -/
theorem chargePages_run (h : t.Sound) (job : Option NodeId) (pages : Nat) (few : pages ≤ 2 ^ 40)
    (small : ∀ i, memoryOf t i ≤ 2 ^ 52) :
    ∃ done t', chargePages job pages t = some (done, t') ∧ t'.Sound ∧ t'.treeId = t.treeId ∧
      (∀ other, LiveJob t other → LiveJob t' other) ∧ (done = false → t' = t) ∧
      (done = true → LiveJob t job ∧ ∀ i, memoryOf t' i =
        memoryOf t i + if job = some ⟨i, t.treeId⟩ then vmoPageSize * pages else 0) := by
  cases job with
  | none => exact ⟨true, t, rfl, h, rfl, fun _ => id, nofun, fun _ => ⟨nofun, fun i => rfl⟩⟩
  | some node =>
    obtain ⟨done, t', run, does, -⟩ := h.toOrdered.tryAcquire_run node .memory (pageBytes pages)
    have sound := h.does does
    cases does with
    | fails => exact ⟨false, t, run, sound, rfl, fun _ => id, fun _ => rfl, nofun⟩
    | @charge _ i _ _ valid room =>
      obtain ⟨rfl, n, found, -⟩ := indexOf_iff.mp valid
      refine ⟨true, _, run, sound, rfl, fun _ live => live.reuse, nofun, fun _ =>
        ⟨fun node eq => ?_, fun k => ?_⟩⟩
      · cases eq
        exact valid
      have bound := small k
      by_cases eq : k = i
      · subst eq
        rw [memoryOf, QuotaTree.usedAt_of found] at bound
        rw [memoryOf, QuotaTree.usedAt_reuse_self found, memoryOf, QuotaTree.usedAt_of found,
          Usage.add, update_self, toNat_saturatingAdd, toNat_pageBytes few,
          if_pos rfl]
        unfold vmoPageSize
        omega
      have other : ¬(some (⟨i, t.treeId⟩ : NodeId) = some ⟨k, t.treeId⟩) := by
        simpa using fun back => eq back.symm
      rw [memoryOf, QuotaTree.usedAt_reuse_other eq, if_neg other, Nat.add_zero, memoryOf]

theorem refundPages_run (h : t.Sound) (live : LiveJob t job) (few : pages ≤ 2 ^ 40) :
    (refundPages job pages t).Sound ∧ (refundPages job pages t).treeId = t.treeId ∧
      (∀ other, LiveJob t other → LiveJob (refundPages job pages t) other) ∧
      ∀ i, memoryOf (refundPages job pages t) i =
        memoryOf t i - if job = some ⟨i, t.treeId⟩ then vmoPageSize * pages else 0 := by
  cases job with
  | none => exact ⟨h, rfl, fun _ => id, fun i => rfl⟩
  | some node =>
    have valid := live node rfl
    obtain ⟨here, n, found, -⟩ := indexOf_iff.mp valid
    have run : refundPages (some node) pages t = t.reuse node.index (Usage.sub .memory (pageBytes pages)) := by
      simp only [refundPages, QuotaTree.release, valid]
      rfl
    rw [run]
    refine ⟨h.release found, rfl, fun _ live => live.reuse, fun k => ?_⟩
    by_cases eq : k = node.index
    · subst eq
      rw [memoryOf, QuotaTree.usedAt_reuse_self found, memoryOf, QuotaTree.usedAt_of found,
        Usage.sub, update_self, toNat_saturatingSub, toNat_pageBytes few,
        if_pos (by rw [← here]), Nat.mul_comm]
    have other : ¬(some node = some (⟨k, t.treeId⟩ : NodeId)) := by
      intro back
      rw [Option.some.inj back] at eq
      exact eq rfl
    rw [memoryOf, QuotaTree.usedAt_reuse_other eq, if_neg other, memoryOf, Nat.sub_zero]

/-- What the rest of the system does to the jobs leaves the memory charges alone, and every node
that is charged alive. -/
theorem spares_run {op : QuotaOp} (spares : sparesMemory op = true) (h : t.Sound) :
    ∃ done t', op.run t = some (done, t') ∧ t'.Sound ∧ t'.treeId = t.treeId ∧
      (∀ i, memoryOf t' i = memoryOf t i) ∧
      ∀ i, 0 < memoryOf t i → LiveJob t (some ⟨i, t.treeId⟩) → LiveJob t' (some ⟨i, t.treeId⟩) := by
  obtain ⟨done, t', run, does⟩ := h.toOrdered.run_does op
  refine ⟨done, t', run, h.does does, ?_⟩
  cases does with
  | fails => exact ⟨rfl, fun _ => rfl, fun _ _ => id⟩
  | @child parent above limits valid =>
    obtain ⟨n, found⟩ := QuotaTree.indexOf_ok valid
    have inside := (List.getElem?_eq_some_iff.mp found).1
    refine ⟨rfl, fun i => congrFun (QuotaTree.usedAt_grow inside) i, fun i _ live => ?_⟩
    refine live.of_active rfl fun m there active => ?_
    have old := (List.getElem?_eq_some_iff.mp there).1
    rw [QuotaTree.nodes_grow inside, if_neg (ne_of_lt old)]
    split
    · refine ⟨{ m with children := m.children ++ [t.nodes.length] }, ?_, active⟩
      rw [there, map_some]
    · exact ⟨m, there, active⟩
  | @charge node i res amount valid room =>
    obtain ⟨n, found⟩ := QuotaTree.indexOf_ok valid
    have other : res ≠ .memory := by simpa [sparesMemory] using spares
    refine ⟨rfl, fun k => ?_, fun k _ live => live.reuse⟩
    exact memoryOf_reuse found (update_of_ne other.symm ..) k
  | @release node i res amount valid =>
    obtain ⟨n, found⟩ := QuotaTree.indexOf_ok valid
    have other : res ≠ .memory := by simpa [sparesMemory] using spares
    refine ⟨rfl, fun k => ?_, fun k _ live => live.reuse⟩
    exact memoryOf_reuse found (update_of_ne other.symm ..) k
  | @setLimits node i limits valid fits =>
    refine ⟨rfl, fun k => congrFun QuotaTree.usedAt_relimit k, fun k _ live => ?_⟩
    refine live.of_active rfl fun m there active => ?_
    rw [QuotaTree.nodes_modifyNode]
    split
    · exact ⟨{ m with limits }, by rw [there, map_some], active⟩
    · exact ⟨m, there, active⟩
  | @removeLeaf node i above n valid found parent childless unused =>
    have ne := (QuotaTree.Ordered.cut h found parent childless).1
    refine ⟨rfl, fun k => congrFun (QuotaTree.usedAt_cut ne) k, fun k charged live => ?_⟩
    -- A leaf that is removed uses nothing, so it is not the node that is charged.
    have other : i ≠ k := by
      rintro rfl
      rw [memoryOf, QuotaTree.usedAt_of found, unused] at charged
      exact absurd charged (by decide)
    refine live.of_active rfl fun m there active => ?_
    rw [QuotaTree.nodes_cut ne, if_neg other]
    split
    · exact ⟨{ m with children := m.children.filter (· ≠ i) }, by rw [there, map_some], active⟩
    · exact ⟨m, there, active⟩

end Charges

/-- The frames of the objects that a node is charged for. -/
def chargedFrames (vmos : List Vmo) (node : NodeId) : Nat :=
  ((vmos.filter fun v => v.job = some node).map fun v => v.frames.length).sum

def ownedFrames (vmos : List Vmo) : List Nat := vmos.flatMap Vmo.frames

section Lists
variable {vmos before after : List Vmo} {v v' : Vmo} {koid : Koid} {node : NodeId}

theorem chargedFrames_append :
    chargedFrames (before ++ after) node = chargedFrames before node + chargedFrames after node := by
  simp [chargedFrames]

theorem chargedFrames_cons : chargedFrames (v :: vmos) node =
    (if v.job = some node then v.frames.length else 0) + chargedFrames vmos node := by
  unfold chargedFrames
  by_cases here : v.job = some node <;> simp [here]

theorem chargedFrames_le : chargedFrames vmos node ≤ (ownedFrames vmos).length := by
  induction vmos with
  | nil => exact Nat.le_refl 0
  | cons v vmos ih =>
    rw [chargedFrames_cons, ownedFrames, flatMap_cons, length_append]
    have := ih
    unfold ownedFrames at this
    split <;> omega

theorem le_chargedFrames (mem : v ∈ vmos) (job : v.job = some node) :
    v.frames.length ≤ chargedFrames vmos node := by
  obtain ⟨before, after, rfl⟩ := append_of_mem mem
  rw [chargedFrames_append, chargedFrames_cons, if_pos job]
  omega

theorem ownedFrames_middle :
    (ownedFrames (before ++ v :: after)).Perm (v.frames ++ ownedFrames (before ++ after)) := by
  simp only [ownedFrames, flatMap_append, flatMap_cons]
  rw [← append_assoc, ← append_assoc]
  exact perm_append_comm.append_right _

theorem find_split (nodup : (vmos.map Vmo.koid).Nodup)
    (found : vmos.find? (fun v => v.koid = koid) = some v) :
    ∃ before after, vmos = before ++ v :: after ∧ v.koid = koid ∧
      (∀ other ∈ before ++ after, other.koid ≠ v.koid) := by
  have named : v.koid = koid := by simpa using find?_some found
  obtain ⟨before, after, split⟩ := append_of_mem (mem_of_find?_eq_some found)
  refine ⟨before, after, split, named, fun other mem eq => ?_⟩
  rw [split, map_append, map_cons, nodup_middle] at nodup
  refine (nodup_cons.mp nodup).1 ?_
  rw [← map_append, ← eq]
  exact mem_map_of_mem mem

theorem map_replace (others : ∀ other ∈ before ++ after, other.koid ≠ v.koid)
    (eq : v'.koid = v.koid) :
    (before ++ v :: after).map (fun other => if other.koid = v'.koid then v' else other) =
      before ++ v' :: after := by
  have kept : ∀ l : List Vmo, (∀ other ∈ l, other.koid ≠ v.koid) →
      l.map (fun other => if other.koid = v'.koid then v' else other) = l := by
    intro l ne
    conv_rhs => rw [← map_id l]
    refine map_congr_left fun other mem => ?_
    rw [eq, if_neg (ne other mem)]
    rfl
  rw [map_append, map_cons, kept before fun other mem =>
    others other (mem_append_left _ mem), kept after fun other mem =>
    others other (mem_append_right _ mem), if_pos eq.symm]

theorem filter_drop (others : ∀ other ∈ before ++ after, other.koid ≠ v.koid) :
    (before ++ v :: after).filter (fun other => other.koid ≠ v.koid) = before ++ after := by
  rw [filter_append, filter_cons_of_neg (by simp), ← filter_append, filter_eq_self]
  intro other mem
  simpa using others other mem

end Lists

namespace VmoWorld

structure Sound (boot : Nat → Bool) (w : VmoWorld) : Prop where
  tree : w.tree.Sound
  pool : w.pool.Sound boot (ownedFrames w.vmos)
  charged : ∀ i, memoryOf w.tree i = vmoPageSize * chargedFrames w.vmos ⟨i, w.tree.treeId⟩
  live : ∀ v ∈ w.vmos, LiveJob w.tree v.job
  sizes : ∀ v ∈ w.vmos, v.frames ≠ [] ∧ v.size ≤ v.frames.length * vmoPageSize
  nodup : (w.vmos.map Vmo.koid).Nodup
  fresh : ∀ v ∈ w.vmos, v.koid < w.nextKoid

variable {boot : Nat → Bool} {w : VmoWorld} {pool : FramePool} {tree : QuotaTree}
  {before after : List Vmo} {v v' : Vmo} {koid : Koid}

theorem sound_start (pmm : Pmm) (treeId : Nat) (limits : Limits) :
    (start pmm treeId limits).Sound pmm.used where
  tree := QuotaTree.sound_withRoot treeId limits
  pool := ⟨.nil, nofun, fun _ used => .inl used⟩
  charged := by
    intro i
    cases i <;> rfl
  live := nofun
  sizes := nofun
  nodup := .nil
  fresh := nofun

theorem Sound.small (h : w.Sound boot) (i : Nat) : memoryOf w.tree i ≤ 2 ^ 52 := by
  have frames := h.pool.length_le
  have part : chargedFrames w.vmos ⟨i, w.tree.treeId⟩ ≤ (ownedFrames w.vmos).length := chargedFrames_le
  rw [h.charged i]
  unfold vmoPageSize
  omega

theorem Sound.around (h : w.Sound boot) (pool' : pool.Sound boot (ownedFrames w.vmos))
    (sound : tree.Sound) (eq : tree.treeId = w.tree.treeId)
    (charges : ∀ i, memoryOf tree i = memoryOf w.tree i)
    (live : ∀ v ∈ w.vmos, LiveJob tree v.job) {next : Koid} (later : w.nextKoid ≤ next) :
    VmoWorld.Sound boot ⟨pool, tree, w.vmos, next⟩ where
  tree := sound
  pool := pool'
  charged := by
    intro i
    rw [charges, h.charged, eq]
  live := live
  sizes := h.sizes
  nodup := h.nodup
  fresh := fun v mem => lt_of_lt_of_le (h.fresh v mem) later

/-- An object comes with new frames, or goes on with more frames than it had. -/
theorem Sound.put (h : w.Sound boot) (before after : List Vmo)
    (kept : (before ++ after).Sublist w.vmos) {next : Koid} (later : w.nextKoid ≤ next)
    (pool' : pool.Sound boot (v'.frames ++ ownedFrames (before ++ after)))
    (sound : tree.Sound) (same : tree.treeId = w.tree.treeId)
    (live : ∀ job, LiveJob w.tree job → LiveJob tree job) (own : LiveJob tree v'.job)
    (charges : ∀ i, memoryOf tree i = vmoPageSize * (chargedFrames (before ++ after)
      ⟨i, w.tree.treeId⟩ + if v'.job = some ⟨i, w.tree.treeId⟩ then v'.frames.length else 0))
    (sizes : v'.frames ≠ [] ∧ v'.size ≤ v'.frames.length * vmoPageSize)
    (new : ∀ other ∈ before ++ after, other.koid ≠ v'.koid) (fresh : v'.koid < next) :
    VmoWorld.Sound boot ⟨pool, tree, before ++ v' :: after, next⟩ := by
  have members : ∀ {P : Vmo → Prop}, (∀ v ∈ before ++ after, P v) → P v' →
      ∀ v ∈ before ++ v' :: after, P v := by
    intro P all here v mem
    rcases mem_append.mp mem with first | rest
    · exact all v (mem_append_left _ first)
    rcases mem_cons.mp rest with rfl | last
    · exact here
    · exact all v (mem_append_right _ last)
  have old := fun v (mem : v ∈ before ++ after) => kept.subset mem
  refine ⟨sound, pool'.perm ownedFrames_middle, fun i => ?_, ?_,
    members (fun v mem => h.sizes v (old v mem)) sizes, ?_, ?_⟩
  · rw [charges, same, chargedFrames_append, chargedFrames_append, chargedFrames_cons]
    congr 1
    omega
  · exact members (fun v mem => live _ (h.live v (old v mem))) own
  · rw [map_append, map_cons, nodup_middle, ← map_append]
    refine nodup_cons.mpr ⟨fun mem => ?_, h.nodup.sublist (kept.map _)⟩
    obtain ⟨other, there, same⟩ := mem_map.mp mem
    exact new other there same
  · exact members (fun v mem => lt_of_lt_of_le (h.fresh v (old v mem)) later) fresh

theorem pagesFor_bounds {size : Nat} (few : size ≤ maxVmoSize) :
    pagesFor size ≤ 2 ^ 20 ∧ size ≤ pagesFor size * vmoPageSize := by
  rw [pagesFor, Nat.ceilDiv_eq_add_pred_div]
  unfold vmoPageSize maxVmoSize at *
  omega

namespace Sound
variable (h : w.Sound boot)
include h

theorem newInJob (size : Nat) (job : Option NodeId) (storage : Bool)
    (meanwhile : Nat → List OtherUse) :
    ∃ answer w', w.newInJob size job storage meanwhile = some (answer, w') ∧ w'.Sound boot := by
  unfold VmoWorld.newInJob
  by_cases refused : size = 0 ∨ maxVmoSize < size
  · rw [if_pos refused]
    exact ⟨_, w, rfl, h⟩
  rw [if_neg refused]
  obtain ⟨few, enough⟩ := pagesFor_bounds (not_lt.mp (not_or.mp refused).2)
  have pages : max (pagesFor size) 1 ≤ 2 ^ 40 ∧ size ≤ max (pagesFor size) 1 * vmoPageSize ∧
      0 < max (pagesFor size) 1 := by
    unfold vmoPageSize at *
    omega
  generalize max (pagesFor size) 1 = count at pages
  obtain ⟨done, tree, charge, sound, same, live, failed, paid⟩ :=
    chargePages_run h.tree job count pages.1 h.small
  simp only [charge, bind_eq_bind, bind_some]
  cases done with
  | false =>
    obtain rfl := failed rfl
    exact ⟨_, _, rfl, h.around h.pool sound rfl (fun _ => rfl) h.live (Nat.le_succ _)⟩
  | true =>
    obtain ⟨own, charges⟩ := paid rfl
    -- The refund undoes the charge.
    obtain ⟨sound', same', live', charges'⟩ := refundPages_run sound (live job own) pages.1
    have undone : ∀ i, memoryOf (refundPages job count tree) i = memoryOf w.tree i := by
      intro i
      rw [charges', charges, same]
      omega
    have alive : ∀ v ∈ w.vmos, LiveJob (refundPages job count tree) v.job :=
      fun v mem => live' _ (live _ (h.live v mem))
    cases storage with
    | false =>
      exact ⟨_, _, rfl, h.around h.pool sound' (same'.trans same) undone alive (Nat.le_succ _)⟩
    | true =>
      have empty : w.pool.Sound boot ([] ++ ownedFrames w.vmos) := h.pool
      obtain ⟨filled, -, -, all⟩ := empty.fill meanwhile count
      generalize w.pool.fill meanwhile count [] = res at filled all
      obtain ⟨ok, frames, pool⟩ := res
      cases ok with
      | false =>
        exact ⟨_, _, rfl, h.around filled.freeAll sound' (same'.trans same) undone alive (Nat.le_succ _)⟩
      | true =>
        have length : frames.length = count := by simpa using all rfl
        refine ⟨_, _, rfl, h.put w.vmos [] (by simp) (Nat.le_succ _) (by simpa using filled)
          sound same live (live job own) (fun i => ?_) ?_ ?_ (Nat.lt_succ_self _)⟩
        · rw [charges, h.charged, length, append_nil, Nat.mul_add]
          congr 1
          split <;> rfl
        · rw [← length] at pages
          exact ⟨ne_nil_of_length_pos pages.2.2, pages.2.1⟩
        intro other mem
        rw [append_nil] at mem
        exact ne_of_lt (h.fresh other mem)

section
variable (found : w.find koid = some v)
include found

theorem split :
    ∃ before after, w.vmos = before ++ v :: after ∧ v.koid = koid ∧
      (∀ other ∈ before ++ after, other.koid ≠ v.koid) ∧
      (before ++ after).Sublist w.vmos ∧ v ∈ w.vmos ∧
      w.pool.Sound boot (v.frames ++ ownedFrames (before ++ after)) ∧
      ∀ i, memoryOf w.tree i = vmoPageSize * (chargedFrames (before ++ after) ⟨i, w.tree.treeId⟩ +
        if v.job = some ⟨i, w.tree.treeId⟩ then v.frames.length else 0) := by
  obtain ⟨before, after, split, named, others⟩ := find_split h.nodup found
  refine ⟨before, after, split, named, others, ?_, ?_, ?_, fun i => ?_⟩
  · rw [split]
    exact (sublist_cons_self v after).append_left before
  · simp [split]
  · have pool := h.pool
    rw [split] at pool
    exact pool.perm ownedFrames_middle.symm
  rw [h.charged, split, chargedFrames_append, chargedFrames_cons, chargedFrames_append]
  congr 1
  omega

theorem grown (size : Nat)
    (frames : List Nat) (sound : tree.Sound) (eq : tree.treeId = w.tree.treeId)
    (live : ∀ job, LiveJob w.tree job → LiveJob tree job)
    (more : v.frames.length ≤ frames.length) (sizes : size ≤ frames.length * vmoPageSize)
    (charges : ∀ i, memoryOf tree i = memoryOf w.tree i +
      if v.job = some ⟨i, w.tree.treeId⟩ then vmoPageSize * (frames.length - v.frames.length)
      else 0)
    (pool' : ∀ others, w.pool.Sound boot (v.frames ++ others) → pool.Sound boot (frames ++ others)) :
    (VmoWorld.setVmo { v with frames, size } { w with pool, tree }).Sound boot := by
  obtain ⟨before, after, split, named, others, kept, mem, owned, charged⟩ := h.split found
  have replaced : _ = before ++ { v with frames, size } :: after := map_replace others rfl
  rw [VmoWorld.setVmo, split, replaced]
  have some_ := length_pos_of_ne_nil (h.sizes v mem).1
  refine h.put before after kept le_rfl (pool' _ owned) sound eq live
    (live _ (h.live v mem)) (fun i => ?_)
    ⟨ne_nil_of_length_pos (lt_of_lt_of_le some_ more), sizes⟩ others (h.fresh v mem)
  rw [charges, charged, Nat.mul_add, Nat.mul_add, Nat.add_assoc]
  congr 1
  split
  · rw [← Nat.mul_add, Nat.add_sub_of_le more]
  · rfl

theorem setSize (newSize : Nat)
    (meanwhile : Nat → List OtherUse) :
    ∃ answer w', w.setSize v newSize meanwhile = some (answer, w') ∧ w'.Sound boot := by
  unfold VmoWorld.setSize
  by_cases shrinks : newSize ≤ v.size
  · rw [if_pos shrinks]
    exact ⟨_, w, rfl, h⟩
  by_cases large : maxVmoSize < newSize
  · rw [if_neg shrinks, if_pos large]
    exact ⟨_, w, rfl, h⟩
  rw [if_neg shrinks, if_neg large]
  obtain ⟨few, enough⟩ := pagesFor_bounds (not_lt.mp large)
  obtain ⟨before, after, -, -, -, -, -, owned, -⟩ := h.split found
  obtain ⟨additional, added⟩ : ∃ n, n = pagesFor newSize - v.frames.length := ⟨_, rfl⟩
  have bounded : additional ≤ 2 ^ 40 := by omega
  obtain ⟨done, tree, charge, sound, same, live, failed, paid⟩ :=
    chargePages_run h.tree v.job additional bounded h.small
  simp only [← added, charge, bind_eq_bind, bind_some]
  cases done with
  | false =>
    obtain rfl := failed rfl
    exact ⟨_, w, rfl, h⟩
  | true =>
    obtain ⟨own, charges⟩ := paid rfl
    have filled := fun others (pool : w.pool.Sound boot (v.frames ++ others)) =>
      (pool.fill meanwhile additional).1
    obtain ⟨-, least, most, all⟩ := owned.fill meanwhile additional
    generalize w.pool.fill meanwhile additional v.frames = res at filled least most all
    obtain ⟨ok, frames, pool⟩ := res
    cases ok with
    | false =>
      -- What was charged for pages that did not come is given back.
      obtain ⟨missing, missed⟩ : ∃ n, n = additional -
        (frames.length - (pagesFor newSize - additional)) := ⟨_, rfl⟩
      obtain ⟨sound', same', live', charges'⟩ :=
        refundPages_run sound (live _ own) (show missing ≤ 2 ^ 40 by omega)
      refine ⟨_, _, rfl, h.grown found _ frames ?_ ?_ ?_ least le_rfl (fun i => ?_) filled⟩
      all_goals simp only [← missed]
      · exact sound'
      · exact same'.trans same
      · exact fun job old => live' job (live job old)
      rw [charges', charges, same]
      split
      · unfold vmoPageSize
        simp only at least most
        omega
      · rfl
    | true =>
      have length : frames.length = v.frames.length + additional := all rfl
      refine ⟨_, _, rfl, h.grown found newSize frames sound same live least ?_ (fun i => ?_) filled⟩
      · exact enough.trans (Nat.mul_le_mul_right _ (by omega))
      · rw [charges, length, Nat.add_sub_cancel_left]

theorem drop : (w.drop v).Sound boot := by
  obtain ⟨before, after, split, named, others, kept, mem, owned, charged⟩ := h.split found
  have few : v.frames.length ≤ 2 ^ 40 := by
    have all := owned.length_le
    rw [length_append] at all
    omega
  obtain ⟨sound, same, live, charges⟩ := refundPages_run h.tree (h.live v mem) few
  have old := fun v (mem : v ∈ before ++ after) => kept.subset mem
  rw [VmoWorld.drop, split, filter_drop others]
  exact {
    tree := sound
    pool := owned.freeAll
    charged := by
      intro i
      rw [charges, charged, same]
      split
      · rw [Nat.mul_add, Nat.add_sub_cancel_right]
      · rfl
    live := fun v mem => live _ (h.live v (old v mem))
    sizes := fun v mem => h.sizes v (old v mem)
    nodup := h.nodup.sublist (kept.map _)
    fresh := fun v mem => h.fresh v (old v mem) }

end

/-- Jobs that objects belong to are charged, so no other operation removes them. -/
theorem quota {op : QuotaOp} (spares : sparesMemory op = true) :
    ∃ done tree, op.run w.tree = some (done, tree) ∧ VmoWorld.Sound boot { w with tree } := by
  obtain ⟨done, tree, run, sound, same, charges, live⟩ := spares_run spares h.tree
  refine ⟨done, tree, run, h.around h.pool sound same charges (fun v mem => ?_) le_rfl⟩
  intro node here
  obtain ⟨valid, -⟩ := indexOf_iff.mp (h.live v mem node here)
  have owner : v.job = some ⟨node.index, w.tree.treeId⟩ := by rw [here, ← valid]
  refine live node.index ?_ ?_ node (by rw [← valid])
  · rw [h.charged]
    have frames := length_pos_of_ne_nil (h.sizes v mem).1
    exact Nat.mul_pos (by decide) (lt_of_lt_of_le frames (le_chargedFrames mem owner))
  rw [← owner]
  exact h.live v mem

/-- Every operation returns, and leaves the charges in step with the frames. -/
theorem run (op : VmoOp) : ∃ w', op.run w = some w' ∧ w'.Sound boot := by
  cases op with
  | create size job storage meanwhile =>
    obtain ⟨answer, w', run, sound⟩ := h.newInJob size job storage meanwhile
    exact ⟨w', by rw [VmoOp.run, run, map_some], sound⟩
  | setSize koid newSize meanwhile =>
    cases found : w.find koid with
    | none => exact ⟨w, by rw [VmoOp.run, found], h⟩
    | some v =>
      obtain ⟨answer, w', run, sound⟩ := h.setSize found newSize meanwhile
      exact ⟨w', by simp only [VmoOp.run, found, run, map_some], sound⟩
  | drop koid =>
    cases found : w.find koid with
    | none => exact ⟨w, by rw [VmoOp.run, found], h⟩
    | some v => exact ⟨w.drop v, by rw [VmoOp.run, found], h.drop found⟩
  | elsewhere use =>
    exact ⟨_, rfl, h.around (h.pool.use use) h.tree rfl (fun _ => rfl) h.live le_rfl⟩
  | quota op =>
    obtain ⟨done, tree, run, sound⟩ := h.quota op.2
    exact ⟨_, by rw [VmoOp.run, run, map_some], sound⟩

theorem runAll (ops : List VmoOp) : ∃ w', VmoOp.runAll ops w = some w' ∧ w'.Sound boot := by
  induction ops generalizing w with
  | nil => exact ⟨w, rfl, h⟩
  | cons op ops ih =>
    obtain ⟨next, run, sound⟩ := h.run op
    obtain ⟨w', rest, sound'⟩ := ih sound
    refine ⟨w', ?_, sound'⟩
    rw [VmoOp.runAll, run, bind_eq_bind, bind_some, rest]

end Sound

/-- After any operations, with the frame allocator failing at any point, each job is charged for
the frames of its objects, a frame in use has one owner unless it was in use before, and objects
are no larger than their frames. -/
theorem jobs_charged_for_frames (pmm : Pmm) (treeId : Nat) (limits : Limits) (ops : List VmoOp) :
    ∃ w, VmoOp.runAll ops (start pmm treeId limits) = some w ∧
      (∀ i, memoryOf w.tree i = 4096 * chargedFrames w.vmos ⟨i, w.tree.treeId⟩) ∧
      (ownedFrames w.vmos ++ w.pool.elsewhere).Nodup ∧
      (∀ frame ∈ ownedFrames w.vmos, w.pool.pmm.used frame = true) ∧
      (∀ frame, w.pool.pmm.used frame = true →
        pmm.used frame = true ∨ frame ∈ ownedFrames w.vmos ∨ frame ∈ w.pool.elsewhere) ∧
      ∀ v ∈ w.vmos, v.size ≤ v.frames.length * 4096 := by
  obtain ⟨w, run, sound⟩ := (sound_start pmm treeId limits).runAll ops
  refine ⟨w, run, sound.charged, sound.pool.once, fun frame mem => ?_, fun frame used => ?_,
    fun v mem => (sound.sizes v mem).2⟩
  · exact (sound.pool.busy frame (mem_append_left _ mem)).2
  · exact (sound.pool.rest frame used).imp_right mem_append.mp

end VmoWorld
end HuesOS.Object
