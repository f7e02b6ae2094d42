import HuesOS.Hxfs.DataOutcomes
import HuesOS.Hxfs.Namespace

namespace HuesOS.Hxfs
open List Slots

namespace Writer

def sizes (w : Writer) : List (Nat × Nat) :=
  (Slots.live w.objects).map fun o => (o.objectId, o.size)

def extentKeys (table : Slots FixedExtent) : List (Nat × Nat) :=
  (Slots.live table).map fun e => (e.objectId, e.extent.logicalBlock)

structure FilesSound (w : Writer) : Prop where
  nodup : w.ids.Nodup
  unused : ∀ id ∈ w.ids, id < w.nextObjectId ∨ u64Max ≤ w.nextObjectId
  bounded : ∀ p ∈ w.sizes, p.2 ≤ u64Max
  inside : ∀ e ∈ Slots.live w.extents, ∃ size, (e.objectId, size) ∈ w.sizes ∧
    e.extent.logicalBlock * blockSize < size
  solid : ∀ e ∈ Slots.live w.extents, 0 < e.extent.blockCount
  keys : (extentKeys w.extents).Nodup

variable {w w' : Writer}

theorem ids_eq_sizes (w : Writer) : w.ids = w.sizes.map Prod.fst := by
  rw [ids_eq, sizes, map_map]
  rfl

variable {objectId newSize : Nat} {entry : FixedExtent} {table : Slots FixedExtent}
  {data : List UInt8}

theorem mem_sizes_of_object {o : ObjectDescriptor}
    (h : w.object objectId = .ok o) : (objectId, o.size) ∈ w.sizes := by
  obtain ⟨mem, rfl⟩ := mem_of_object_ok h
  exact mem_map.mpr ⟨o, mem, rfl⟩

theorem size_unique (nodup : w.ids.Nodup) {a b : Nat} (ha : (objectId, a) ∈ w.sizes)
    (hb : (objectId, b) ∈ w.sizes) : a = b := by
  rw [ids_eq_sizes] at nodup
  exact congrArg Prod.snd (inj_on_of_nodup_map nodup ha hb rfl)

theorem logicalBlocks_pos (h : 0 < entry.extent.blockCount) : 0 < entry.logicalBlocks := by
  rw [FixedExtent.logicalBlocks]
  split
  · exact Nat.one_pos
  · exact h

theorem placeExtent_perm {table' : Slots FixedExtent} (h : placeExtent entry table = .ok table') :
    (Slots.live table').Perm (entry :: Slots.live table) := by
  unfold placeExtent at h
  split at h
  · split at h
    · cases h
      exact live_put ‹_›
    · cases h
  next pos _ =>
  dsimp only at h
  split at h
  · cases h
  cases h
  generalize hused : table.length - (table.reverse.takeWhile Option.isNone).length = used
  have empty : Slots.live (table.drop used) = [] := hused ▸ live_drop_used table
  have last : Slots.live (table.drop (used + 1)) = [] := by
    have sub := live_sublist (drop_sublist 1 (table.drop used))
    rw [drop_drop, empty] at sub
    exact sublist_nil.mp sub
  have middle : Slots.live (table.drop pos) = Slots.live ((table.take used).drop pos) := by
    have rest := live_sublist (drop_sublist (pos - used) (table.drop used))
    rw [drop_drop, empty, sublist_nil] at rest
    have split := congrArg Slots.live (take_append_drop (used - pos) (table.drop pos))
    rw [live_append, drop_drop,
      show pos + (used - pos) = used + (pos - used) by omega, rest, append_nil] at split
    rw [drop_take, split]
  have whole : Slots.live table = Slots.live (table.take pos) ++ Slots.live (table.drop pos) := by
    rw [← live_append, take_append_drop]
  rw [live_append, live_append, live_some, last, append_nil, whole, middle]
  exact perm_middle

theorem placeExtent_last
    (last : ∀ e ∈ Slots.live table, e.objectId = entry.objectId →
      e.extent.logicalBlock ≤ entry.extent.logicalBlock) :
    placeExtent entry table = match Slots.put entry table with
      | some placed => .ok placed
      | none => .error .noSpace := by
  have none_later : table.findIdx? (isLaterExtent entry) = none := by
    rw [findIdx?_eq_none_iff]
    intro slot mem
    cases slot with
    | none => rfl
    | some e =>
      have := last e (mem_live.mpr mem)
      simpa [isLaterExtent] using this
  cases put : Slots.put entry table <;> simp only [placeExtent, none_later, put]

theorem FilesSound.of_same (pre : FilesSound w) (sizes_eq : w'.sizes = w.sizes)
    (extents_eq : w'.extents = w.extents) (next : w'.nextObjectId = w.nextObjectId) :
    FilesSound w' := by
  have ids_same : w'.ids = w.ids := by rw [ids_eq_sizes, ids_eq_sizes, sizes_eq]
  refine ⟨ids_same ▸ pre.nodup, ?_, sizes_eq ▸ pre.bounded, ?_, ?_, ?_⟩
  · rw [ids_same, next]
    exact pre.unused
  · rw [extents_eq, sizes_eq]
    exact pre.inside
  · rw [extents_eq]
    exact pre.solid
  rw [extents_eq]
  exact pre.keys

theorem FilesSound.of_nextId (pre : FilesSound w) : FilesSound (withNextId w) where
  nodup := pre.nodup
  unused := by
    intro id mem
    have := pre.unused id mem
    change id < w.nextObjectId + 1 ∨ u64Max ≤ w.nextObjectId + 1
    omega
  bounded := pre.bounded
  inside := pre.inside
  solid := pre.solid
  keys := pre.keys

theorem FilesSound.add_object (pre : FilesSound w) {id : Nat} (fresh : id ∉ w.ids)
    (grown : w'.sizes.Perm ((id, 0) :: w.sizes)) (extents_eq : w'.extents = w.extents)
    (unused : ∀ n ∈ id :: w.ids, n < w'.nextObjectId ∨ u64Max ≤ w'.nextObjectId) :
    FilesSound w' := by
  have ids_perm : w'.ids.Perm (id :: w.ids) := by
    rw [ids_eq_sizes, ids_eq_sizes]
    exact grown.map Prod.fst
  refine ⟨ids_perm.nodup_iff.mpr (nodup_cons.mpr ⟨fresh, pre.nodup⟩),
    fun n hn => unused n (ids_perm.mem_iff.mp hn), ?_, ?_, ?_, ?_⟩
  · intro p hp
    rcases mem_cons.mp (grown.mem_iff.mp hp) with rfl | old
    · exact Nat.zero_le _
    · exact pre.bounded p old
  · intro e he
    rw [extents_eq] at he
    obtain ⟨size, mem, start⟩ := pre.inside e he
    exact ⟨size, grown.mem_iff.mpr (.tail _ mem), start⟩
  · rw [extents_eq]
    exact pre.solid
  rw [extents_eq]
  exact pre.keys

theorem FilesSound.of_fewer (pre : FilesSound w) (sizes_eq : w'.sizes = w.sizes)
    (fewer : (Slots.live w'.extents).Sublist (Slots.live w.extents))
    (next : w'.nextObjectId = w.nextObjectId) : FilesSound w' := by
  have ids_same : w'.ids = w.ids := by rw [ids_eq_sizes, ids_eq_sizes, sizes_eq]
  refine ⟨ids_same ▸ pre.nodup, ?_, sizes_eq ▸ pre.bounded, ?_, ?_, ?_⟩
  · rw [ids_same, next]
    exact pre.unused
  · intro e he
    rw [sizes_eq]
    exact pre.inside e (fewer.subset he)
  · exact fun e he => pre.solid e (fewer.subset he)
  · exact pre.keys.sublist (fewer.map _)

theorem live_recounted_sizes (objectId count : Nat) (objects : Slots ObjectDescriptor) :
    (Slots.live (recounted objectId count objects)).map (fun o => (o.objectId, o.size)) =
      (Slots.live objects).map fun o => (o.objectId, o.size) := by
  apply map_live_modifyFirst
  intro d _
  rfl

theorem releaseExtents_live (objectId : Nat) (w : Writer) :
    Slots.live (releaseExtents objectId w).extents =
      (Slots.live w.extents).filter (!·.objectId == objectId) := by
  obtain ⟨_, _, _, h⟩ := releaseExtents_frame objectId w
  rw [h]
  exact live_dropAll _ _

theorem FilesSound.releaseExtents (pre : FilesSound w) (objectId : Nat) :
    FilesSound (releaseExtents objectId w) := by
  have live := releaseExtents_live objectId w
  obtain ⟨_, _, _, h⟩ := releaseExtents_frame objectId w
  refine pre.of_fewer (by rw [h]; rfl) ?_ (by rw [h])
  rw [live]
  exact filter_sublist

theorem FilesSound.fresh_id (pre : FilesSound w) (room : w.nextObjectId + 1 ≤ u64Max) :
    w.nextObjectId ∉ w.ids := by
  intro mem
  have := pre.unused _ mem
  omega

theorem FilesSound.unused_next (pre : FilesSound w) :
    ∀ n ∈ w.nextObjectId :: w.ids, n < w.nextObjectId + 1 ∨ u64Max ≤ w.nextObjectId + 1 := by
  intro n hn
  rcases mem_cons.mp hn with rfl | old
  · omega
  have := pre.unused n old
  omega

theorem createChild_files (pre : FilesSound w) (objectType parent : Nat) (name : List UInt8) :
    FilesSound (createChild objectType parent name w).2 := by
  have res := createChild_outcome objectType parent name w
  generalize (createChild objectType parent name w).1 = r, (createChild objectType parent name w).2 = w' at res ⊢
  cases res with
  | refused => exact pre
  | noSlot => exact pre.of_nextId
  | orphaned e tests placed =>
    exact pre.add_object (pre.fresh_id tests.ids) ((live_put placed).map _) rfl (pre.unused_next)
  | @created objects entries tests placed =>
    refine pre.add_object (pre.fresh_id tests.ids) ?_ rfl (pre.unused_next)
    have eq := live_recounted_sizes parent ((withObjects objects (withNextId w)) |>
      fun u => { u with dirEntries := sortDirectory parent entries }.directoryEntryCount parent)
      objects
    exact (List.Perm.of_eq eq).trans ((live_put placed).map _)

theorem mem_sizes_iff (nodup : w.ids.Nodup) {size : Nat} :
    (objectId, size) ∈ w.sizes ↔ ∃ o, w.object objectId = .ok o ∧ o.size = size := by
  constructor
  · intro mem
    obtain ⟨o, ho, eq⟩ := mem_map.mp mem
    cases eq
    obtain ⟨found, hfound⟩ := object_isOk_of_mem ho
    exact ⟨found, hfound, size_unique nodup (mem_sizes_of_object hfound) mem⟩
  rintro ⟨o, found, rfl⟩
  exact mem_sizes_of_object found

theorem unlinkChild_files (pre : FilesSound w) (parent : Nat) (name : List UInt8) :
    FilesSound (unlinkChild parent name w).2 := by
  have res := unlinkChild_outcome parent name w
  generalize (unlinkChild parent name w).1 = r, (unlinkChild parent name w).2 = w' at res ⊢
  cases res with
  | refused => exact pre
  | @removed entry o tests =>
    obtain ⟨objects, -, -, next⟩ := unlinked_tables parent name entry.objectId w
    have live : Slots.live (unlinked parent name entry.objectId w).extents =
        (Slots.live w.extents).filter (!·.objectId == entry.objectId) :=
      releaseExtents_live entry.objectId (removeObject entry.objectId (dropDirEntry parent name w))
    have sizes_eq : (unlinked parent name entry.objectId w).sizes =
        (removeObject entry.objectId w).sizes := by rw [sizes, sizes, objects]
    have ids_same : (unlinked parent name entry.objectId w).ids =
        (removeObject entry.objectId w).ids := by rw [ids_eq_sizes, ids_eq_sizes, sizes_eq]
    have fewer : (removeObject entry.objectId w).sizes.Sublist w.sizes := by
      rw [sizes, sizes, removeObject, live_dropFirst]
      exact eraseP_sublist.map _
    refine ⟨?_, ?_, ?_, ?_, ?_, ?_⟩
    · rw [ids_same, ids_eq_sizes]
      have nodup := pre.nodup
      rw [ids_eq_sizes] at nodup
      exact nodup.sublist (fewer.map _)
    · intro id mem
      rw [ids_same] at mem
      rw [next]
      exact pre.unused id ((mem_ids_removeObject pre.nodup tests.target).mp mem).1
    · intro p hp
      rw [sizes_eq] at hp
      exact pre.bounded p (fewer.subset hp)
    · intro e he
      rw [live, mem_filter] at he
      obtain ⟨size, mem, start⟩ := pre.inside e he.1
      refine ⟨size, ?_, start⟩
      rw [sizes_eq]
      obtain ⟨d, hd, eq⟩ := mem_map.mp mem
      have owner : d.objectId = e.objectId := congrArg Prod.fst eq
      refine mem_map.mpr ⟨d, ?_, eq⟩
      rw [removeObject, live_dropFirst]
      exact (mem_eraseP_of_neg (by simpa [owner] using he.2)).mpr hd
    · intro e he
      rw [live] at he
      exact pre.solid e (mem_of_mem_filter he)
    rw [extentKeys, live]
    exact pre.keys.sublist (filter_sublist.map _)

/-- A file takes new extents and a size that none of its extents reaches. -/
theorem FilesSound.resize (pre : FilesSound w) (objectId : Nat) {size : Nat}
    (added : List FixedExtent) (bound : size ≤ u64Max)
    (ids_same : w'.ids = w.ids) (changed : ∃ o, w'.object objectId = .ok o ∧ o.size = size)
    (others : ∀ other, other ≠ objectId → w'.object other = w.object other)
    (live : (Slots.live w'.extents).Perm (added ++ Slots.live w.extents))
    (own : ∀ e ∈ added, e.objectId = objectId ∧ 0 < e.extent.blockCount)
    (reach : ∀ e ∈ added ++ Slots.live w.extents, e.objectId = objectId →
      e.extent.logicalBlock * blockSize < size)
    (fresh : ((added ++ Slots.live w.extents).map fun e => (e.objectId, e.extent.logicalBlock)).Nodup)
    (next : w'.nextObjectId = w.nextObjectId) : FilesSound w' := by
  have nodup : w'.ids.Nodup := ids_same ▸ pre.nodup
  have size_mem : (objectId, size) ∈ w'.sizes := (mem_sizes_iff nodup).mpr changed
  refine ⟨nodup, ?_, ?_, ?_, ?_, (live.map _).nodup_iff.mpr fresh⟩
  · rw [ids_same, next]
    exact pre.unused
  · rintro ⟨id, n⟩ hp
    by_cases eq : id = objectId
    · subst eq
      rw [size_unique nodup hp size_mem]
      exact bound
    obtain ⟨d, hd, rfl⟩ := (mem_sizes_iff nodup).mp hp
    rw [others id eq] at hd
    exact pre.bounded _ (mem_sizes_of_object hd)
  · intro e he
    have all := live.mem_iff.mp he
    by_cases eq : e.objectId = objectId
    · exact ⟨size, eq ▸ size_mem, reach e all eq⟩
    rcases mem_append.mp all with new | old
    · exact absurd (own e new).1 eq
    obtain ⟨n, mem, start⟩ := pre.inside e old
    obtain ⟨d, hd, rfl⟩ := (mem_sizes_iff pre.nodup).mp mem
    refine ⟨d.size, (mem_sizes_iff nodup).mpr ⟨d, ?_, rfl⟩, start⟩
    rw [others _ eq]
    exact hd
  intro e he
  rcases mem_append.mp (live.mem_iff.mp he) with new | old
  · exact (own e new).2
  · exact pre.solid e old

theorem ids_modifyFirst (objectId : Nat) (f : ObjectDescriptor → ObjectDescriptor)
    (keeps : ∀ d, (f d).objectId = d.objectId)
    (changed : w'.objects = modifyFirst (·.objectId == objectId) f w.objects) :
    w'.ids = w.ids := by
  rw [ids_eq, ids_eq, changed]
  apply map_live_modifyFirst
  intro d _
  exact keeps d

theorem resized_changes (objectId size : Nat) (w : Writer) :
    (resized objectId size w).ids = w.ids ∧
      ∀ other, other ≠ objectId → (resized objectId size w).object other = w.object other := by
  have first : (withSize objectId size w).ids = w.ids :=
    ids_modifyFirst objectId ({ · with size }) (fun _ => rfl) rfl
  have second : (resized objectId size w).ids = (withSize objectId size w).ids :=
    ids_modifyFirst objectId ({ · with recordCount := w.extentCount objectId }) (fun _ => rfl) rfl
  refine ⟨second.trans first, fun other ne => ?_⟩
  have one := (object_modifyFirst (w := w) (u := withSize objectId size w) objectId
    ({ · with size }) (fun _ => rfl) rfl).2 other ne
  have two := (object_modifyFirst (w := withSize objectId size w) (u := resized objectId size w)
    objectId ({ · with recordCount := w.extentCount objectId }) (fun _ => rfl) rfl).2 other
    ne
  exact two.trans one

theorem dropTail_total (fits : ∀ e ∈ Slots.live table, e.extent.logicalBlock * blockSize ≤ u64Max) :
    ∃ pair, dropTail objectId newSize table = .ok pair := by
  induction table with
  | nil => exact ⟨_, rfl⟩
  | cons slot rest ih =>
    cases slot with
    | none =>
      obtain ⟨pair, hr⟩ := ih fits
      exact ⟨_, by rw [dropTail, hr]; rfl⟩
    | some entry =>
      obtain ⟨pair, hr⟩ := ih fun e he => fits e (.tail _ he)
      obtain ⟨dropped, hd⟩ : ∃ dropped, droppedBy objectId newSize entry = .ok dropped := by
        rw [droppedBy, mulU64, if_pos (fits entry mem_cons_self)]
        split <;> exact ⟨_, rfl⟩
      rw [dropTail, hd, hr]
      cases dropped <;> exact ⟨_, rfl⟩

theorem FilesSound.offsets_fit (pre : FilesSound w) :
    ∀ e ∈ Slots.live w.extents, e.extent.logicalBlock * blockSize ≤ u64Max := by
  intro e he
  obtain ⟨size, mem, start⟩ := pre.inside e he
  have := pre.bounded _ mem
  omega

theorem truncated_live {released : Nat} {extents : Slots FixedExtent} :
    Slots.live (truncated objectId newSize released extents w).extents = Slots.live extents := by
  rw [truncated]
  dsimp only
  rw [releaseJobBytes_frame]
  rfl

theorem truncateFile_files (pre : FilesSound w)
    (bound : newSize ≤ u64Max) : FilesSound (truncateFile objectId newSize w).2 := by
  have res := truncateFile_outcome objectId newSize w
  generalize (truncateFile objectId newSize w).1 = r, (truncateFile objectId newSize w).2 = w' at res ⊢
  cases res with
  | refused => exact pre
  | faulted tests excess =>
    obtain ⟨pair, total⟩ := @dropTail_total objectId newSize _ pre.offsets_fit
    cases excess.symm.trans total
  | @done obj released extents tests dropped =>
    obtain ⟨rfl, -⟩ := dropTail_ok dropped
    have live := live_dropAll (pastEnd objectId newSize) w.extents
    -- Dropping first and resizing afterwards gives the same tables.
    have fewer : FilesSound { w with extents := dropAll (pastEnd objectId newSize) w.extents } := by
      refine pre.of_fewer rfl ?_ rfl
      rw [live]
      exact filter_sublist
    have frame := releaseJobBytes_frame (min (released * blockSize) u64Max)
      { withSize objectId newSize w with
        extents := dropAll (pastEnd objectId newSize) w.extents }
    have eq : (truncated objectId newSize released
        (dropAll (pastEnd objectId newSize) w.extents) w).objects =
        (resized objectId newSize
          { w with extents := dropAll (pastEnd objectId newSize) w.extents }).objects := by
      rw [truncated]
      dsimp only
      rw [frame]
      rfl
    obtain ⟨ids_same, others⟩ := resized_changes objectId newSize
      { w with extents := dropAll (pastEnd objectId newSize) w.extents }
    refine fewer.resize objectId [] bound ?_ ?_ ?_ ?_ ?_ ?_ fewer.keys ?_
    · rw [← ids_same, ids_eq, ids_eq, eq]
    · rw [object_congr eq]
      exact ⟨_, resized_object tests.target, rfl⟩
    · intro other ne
      rw [object_congr eq]
      exact others other ne
    · exact List.Perm.of_eq truncated_live
    · simp
    · intro e he own
      rw [nil_append, live, mem_filter] at he
      have kept := he.2
      have solid := logicalBlocks_pos (pre.solid e he.1)
      simp only [pastEnd, own, BEq.rfl, Bool.true_and, Bool.not_eq_true',
        Bool.and_eq_false_iff, decide_eq_false_iff_not] at kept
      omega
    rw [truncated]
    dsimp only
    rw [frame]
    rfl

theorem FilesSound.prepared (pre : FilesSound w) (objectId off : Nat) :
    FilesSound (prepared objectId off w) := by
  rw [Writer.prepared]
  split
  · exact pre.releaseExtents objectId
  · exact pre

theorem FilesSound.charged (pre : FilesSound w) {deltaBytes deltaObjects : Nat}
    {r : Except Stop Unit} (h : checkJobQuota deltaBytes deltaObjects w = (r, w')) :
    FilesSound w' := by
  obtain ⟨_, rfl⟩ := checkJobQuota_frame h
  exact pre.of_same rfl rfl rfl

theorem FilesSound.stored (pre : FilesSound w) (h : storing.rel w w') : FilesSound w' := by
  obtain ⟨_, _, _, _, _, rfl⟩ := h
  exact pre.of_same rfl rfl rfl

theorem dataExtent_blockCount_pos (objectId off start gen : Nat)
    (kind : ExtentWriteKind) :
    0 < (dataExtent objectId off start gen kind).extent.blockCount := by
  cases kind <;> exact Nat.succ_pos _

/-- Where a write adds its extent, the file has none yet: it was emptied, or ends there. -/
theorem FilesSound.below_offset (pre : FilesSound w) {off : Nat} {obj : ObjectDescriptor}
    (tests : WriteAdmitted objectId off data obj w) :
    ∀ e ∈ Slots.live (Writer.prepared objectId off w).extents, e.objectId = objectId →
      e.extent.logicalBlock < off / blockSize ∧ e.extent.logicalBlock * blockSize < obj.size := by
  intro e he own
  by_cases zero : off = 0
  · rw [Writer.prepared, if_pos zero, releaseExtents_live, mem_filter] at he
    simp [own] at he
  rw [Writer.prepared, if_neg zero] at he
  obtain ⟨size, mem, start⟩ := pre.inside e he
  have eq : size = obj.size := size_unique pre.nodup (own ▸ mem) (mem_sizes_of_object tests.target)
  obtain ⟨at_end, aligned⟩ := tests.position.resolve_left zero
  subst eq
  refine ⟨?_, start⟩
  have : off = off / blockSize * blockSize := by
    have := Nat.div_add_mod off blockSize
    rw [aligned] at this
    rw [Nat.mul_comm]
    omega
  rw [← at_end, this] at start
  exact Nat.lt_of_mul_lt_mul_right start

theorem writeFileAt_files (pre : FilesSound w) (E : Engines) {off : Nat} (le : off + data.length ≤ u64Max) :
    FilesSound (writeFileAt E objectId off data w).2 := by
  have res := writeFileAt_outcome E objectId off data w
  generalize (writeFileAt E objectId off data w).1 = r, (writeFileAt E objectId off data w).2 = w' at res ⊢
  have prepared := pre.prepared objectId off
  cases res with
  | refused => exact pre
  | overQuota => exact prepared
  | overJobQuota tests quota excess => exact prepared.charged excess
  | unstored tests quota charge some_data failed =>
    exact (prepared.charged charge).stored (writeDataBlocks_frame failed)
  | unplaced tests quota charge some_data stored full =>
    exact (prepared.charged charge).stored (writeDataBlocks_frame stored)
  | tooLong tests quota charge stored excess => omega
  | @written obj charged after tests quota charge stored =>
    have below := pre.below_offset tests
    obtain ⟨_, charged_eq⟩ := checkJobQuota_frame charge
    have size_bound : sizeAfter obj.size off data.length ≤ u64Max := by
      have : obj.size ≤ u64Max := pre.bounded _ (mem_sizes_of_object tests.target)
      rw [sizeAfter]
      split <;> omega
    have reach : ∀ e ∈ Slots.live charged.extents, e.objectId = objectId →
        e.extent.logicalBlock * blockSize < sizeAfter obj.size off data.length := by
      intro e he own
      rw [charged_eq] at he
      have := below e he own
      rw [sizeAfter]
      split
      · simp_all
      · omega
    obtain ⟨o, found, -, -⟩ := stored.object_kept (o := obj) (by
      rw [charged_eq]
      exact (prepared_object objectId off w objectId).trans tests.target)
    have last := resized_changes objectId (sizeAfter obj.size off data.length) after
    cases stored with
    | nothing =>
      exact (prepared.charged charge).resize objectId [] size_bound last.1
        ⟨_, resized_object found, rfl⟩ last.2 (.refl _) (by simp) reach
        (prepared.charged charge).keys rfl
    | @block start gen kind after extents some_data stored room =>
      have sound := (prepared.charged charge).stored (writeDataBlocks_frame stored)
      have eq : after.extents = charged.extents := by
        obtain ⟨_, _, _, _, _, h⟩ := writeDataBlocks_frame stored
        rw [h]
      have first : (placed objectId extents after).ids = after.ids :=
        ids_modifyFirst objectId
          ({ · with recordCount := { after with extents }.extentCount objectId })
          (fun _ => rfl) rfl
      have others := (object_modifyFirst (w := after) (u := placed objectId extents after)
        objectId ({ · with recordCount := { after with extents }.extentCount objectId })
        (fun _ => rfl) rfl).2
      refine sound.resize objectId [dataExtent objectId off start gen kind] size_bound
        (last.1.trans first) ⟨_, resized_object found, rfl⟩
        (fun other ne => (last.2 other ne).trans (others other ne))
        (placeExtent_perm room) ?_ ?_ ?_ rfl
      · intro e he
        rw [mem_singleton.mp he]
        exact ⟨rfl, dataExtent_blockCount_pos objectId off start gen kind⟩
      · intro e he own
        rcases mem_cons.mp he with rfl | old
        · have positive := length_pos_iff.mpr some_data
          have := Nat.div_mul_le_self off blockSize
          change off / blockSize * blockSize < _
          rw [sizeAfter]
          split <;> omega
        rw [eq] at old
        exact reach e old own
      rw [singleton_append, map_cons, nodup_cons]
      refine ⟨fun clash => ?_, sound.keys⟩
      obtain ⟨e, he, key⟩ := mem_map.mp clash
      rw [eq, charged_eq] at he
      have := (below e he (congrArg Prod.fst key)).1
      have := congrArg Prod.snd key
      change e.extent.logicalBlock = off / blockSize at this
      omega

end Writer
end HuesOS.Hxfs
