import HuesOS.Hxfs.Files
import HuesOS.Hxfs.Storing

/-! Usage of the active job. -/

namespace HuesOS.Hxfs
open List Slots HxM Bytes Writer Prod QuotaBtree Call

theorem find?_eq_of_nodup {α β : Type} [BEq β] [LawfulBEq β] (f : α → β) {xs : List α} {a : α}
    (nodup : (xs.map f).Nodup) (mem : a ∈ xs) : xs.find? (f · == f a) = some a := by
  cases found : xs.find? (f · == f a) with
  | none => simpa using find?_eq_none.mp found a mem
  | some b =>
    have eq : f b = f a := by simpa using find?_some found
    rw [inj_on_of_nodup_map nodup (mem_of_find?_eq_some found) mem eq]

namespace QuotaBtree
variable {table table' : Slots QuotaRecord} {uuid : Uuid} {record : QuotaRecord}

theorem get_eq_ok : get uuid table = .ok record ↔
    (Slots.live table).find? (·.volumeUuid == uuid) = some record := by
  unfold get
  cases (Slots.live table).find? (·.volumeUuid == uuid) <;> simp

theorem uuid_of_get (h : get uuid table = .ok record) : record.volumeUuid = uuid := by
  simpa using find?_some (get_eq_ok.mp h)

def replaced (next : QuotaRecord) (table : Slots QuotaRecord) : Slots QuotaRecord :=
  sortTable uuidGt (modifyFirst (·.volumeUuid == next.volumeUuid) (fun _ => next) table)

theorem upsert_existing (found : get uuid table = .ok record) {next : QuotaRecord}
    (within : next.withinLimits = true) (eq : next.volumeUuid = record.volumeUuid) :
    upsert next table = .ok (replaced next table) := by
  have existing : (Slots.live table).any (·.volumeUuid == next.volumeUuid) = true :=
    any_eq_true.mpr ⟨record, mem_of_find?_eq_some (get_eq_ok.mp found), beq_iff_eq.mpr eq.symm⟩
  rw [upsert, within, if_neg (by simp), if_pos existing]
  rfl

theorem get_replaced (nodup : (keys table).Nodup) (found : get uuid table = .ok record)
    {next : QuotaRecord} (eq : next.volumeUuid = record.volumeUuid) :
    (keys (replaced next table)).Nodup ∧ get uuid (replaced next table) = .ok next := by
  obtain rfl := eq.trans (uuid_of_get found)
  rw [replaced]
  generalize changed : modifyFirst (·.volumeUuid == next.volumeUuid) (fun _ => next) table = mid
  have kept : keys mid = keys table := by
    rw [← changed]
    refine map_live_modifyFirst _ _ _ (fun r hr => ?_) table
    exact (beq_iff_eq.mp hr).symm
  have mem : next ∈ Slots.live mid := by
    have search := find?_live_modifyFirst (·.volumeUuid == next.volumeUuid) (fun _ => next) (by simp) table
    rw [changed, get_eq_ok.mp found] at search
    exact mem_of_find?_eq_some search
  have sorted : (Slots.live (sortTable uuidGt mid)).Perm (Slots.live mid) :=
    Slots.live_perm (ExchangeSort.sort_perm mid)
  have distinct' : (keys (sortTable uuidGt mid)).Nodup := by
    rw [keys, (sorted.map QuotaRecord.volumeUuid).nodup_iff]
    rw [← kept] at nodup
    exact nodup
  exact ⟨distinct', get_eq_ok.mpr
    (find?_eq_of_nodup QuotaRecord.volumeUuid distinct' (sorted.mem_iff.mpr mem))⟩

end QuotaBtree

namespace QuotaRecord

theorem withinLimits_iff {record : QuotaRecord} : record.withinLimits = true ↔
    (record.physicalLimitBytes ≠ 0 → record.physicalUsedBytes ≤ record.physicalLimitBytes) ∧
      (record.objectLimit ≠ 0 → record.objectCount ≤ record.objectLimit) := by
  simp only [withinLimits, Bool.and_eq_true, Bool.or_eq_true, beq_iff_eq, decide_eq_true_eq]
  omega

def grown (record : QuotaRecord) (bytes objects : Nat) : QuotaRecord :=
  { record with
    physicalUsedBytes := satAdd record.physicalUsedBytes bytes
    objectCount := satAdd record.objectCount objects }

end QuotaRecord

namespace Writer
variable {w w' : Writer} {job used : Nat} {record : QuotaRecord}

theorem checkJobQuota_active (active : w.activeJob = some job)
    (found : get (jobUuid job) w.quotaTree = .ok record) (bytes objects : Nat) :
    checkJobQuota bytes objects w =
      if (record.grown bytes objects).withinLimits = true then
        (.ok (), { w with quotaTree := replaced (record.grown bytes objects) w.quotaTree })
      else (.error (.error .quotaExceeded), w) := by
  have limits := (record.grown bytes objects).withinLimits_iff
  rw [checkJobQuota, active]
  simp only [found]
  by_cases excess : record.physicalLimitBytes ≠ 0 ∧
      satAdd record.physicalUsedBytes bytes > record.physicalLimitBytes
  · rw [if_pos excess, if_neg fun within => not_lt.mpr ((limits.mp within).1 excess.1) excess.2]
  by_cases many : record.objectLimit ≠ 0 ∧ satAdd record.objectCount objects > record.objectLimit
  · rw [if_neg excess, if_pos many, if_neg fun within => not_lt.mpr ((limits.mp within).2 many.1) many.2]
  have within : (record.grown bytes objects).withinLimits = true :=
    limits.mpr ⟨fun limited => not_lt.mp fun more => excess ⟨limited, more⟩,
      fun limited => not_lt.mp fun more => many ⟨limited, more⟩⟩
  have stored := upsert_existing found within rfl
  rw [if_neg excess, if_neg many, if_pos within]
  rw [QuotaRecord.grown] at stored ⊢
  rw [stored]

theorem checkJobQuota_refused {bytes objects : Nat} {s : Stop}
    (h : checkJobQuota bytes objects w = (.error s, w')) : w' = w := by
  cases active : w.activeJob with
  | none => rw [checkJobQuota, active] at h; cases h
  | some job =>
  cases found : get (jobUuid job) w.quotaTree with
  | error e =>
    simp only [checkJobQuota, active, found] at h
    cases h
    rfl
  | ok record =>
    rw [checkJobQuota_active active found] at h
    split at h <;> cases h
    rfl

/-- The active job has `used` bytes on its record, which is within its limits, or has no
record and no bytes. -/
structure Shows (job used : Nat) (w : Writer) : Prop where
  active : w.activeJob = some job
  unique : (keys w.quotaTree).Nodup
  recorded : ∀ record, get (jobUuid job) w.quotaTree = .ok record →
    record.withinLimits = true ∧ record.physicalUsedBytes = used
  unlisted : ∀ e, get (jobUuid job) w.quotaTree = .error e → used = 0

namespace Shows

theorem congr (h : Shows job used w) (active : w'.activeJob = w.activeJob)
    (quota : w'.quotaTree = w.quotaTree) : Shows job used w' :=
  ⟨active.trans h.active, quota ▸ h.unique, quota ▸ h.recorded, quota ▸ h.unlisted⟩

theorem replace (h : Shows job used w)
    (found : get (jobUuid job) w.quotaTree = .ok record) {next : QuotaRecord}
    (within : next.withinLimits = true) (eq : next.volumeUuid = record.volumeUuid) :
    Shows job next.physicalUsedBytes { w with quotaTree := replaced next w.quotaTree } := by
  obtain ⟨unique, found'⟩ := get_replaced h.unique found eq
  refine ⟨h.active, unique, fun record' get => ?_, fun e missing => ?_⟩
  · cases found'.symm.trans get
    exact ⟨within, rfl⟩
  · cases found'.symm.trans missing

theorem charge (h : Shows job used w) {bytes : Nat} {charged : Writer}
    (charge : checkJobQuota bytes 0 w = (.ok (), charged)) : Shows job (satAdd used bytes) charged := by
  cases found : get (jobUuid job) w.quotaTree with
  | error e => simp [checkJobQuota, h.active, found] at charge
  | ok record =>
    rw [checkJobQuota_active h.active found] at charge
    split at charge <;> cases charge
    rename_i within
    rw [← (h.recorded record found).2]
    exact h.replace found within rfl

theorem release (h : Shows job used w) (bytes : Nat) :
    Shows job (used - bytes) (releaseJobBytes bytes w) := by
  rw [releaseJobBytes]
  by_cases none_back : bytes = 0
  · rw [if_pos none_back, none_back]
    exact h
  rw [if_neg none_back, h.active]
  cases found : get (jobUuid job) w.quotaTree with
  | error e =>
    simp only [found]
    rw [h.unlisted e found, Nat.zero_sub, ← h.unlisted e found]
    exact h
  | ok record =>
    obtain ⟨within, rfl⟩ := h.recorded record found
    have within' : ({ record with physicalUsedBytes := record.physicalUsedBytes - bytes } :
        QuotaRecord).withinLimits = true := by
      rw [QuotaRecord.withinLimits_iff] at within ⊢
      exact ⟨fun limited => (Nat.sub_le _ _).trans (within.1 limited), within.2⟩
    simp only [found, upsert_existing found within' rfl]
    rw [← h.active]
    exact h.replace found within' rfl

end Shows

theorem releaseJobBytes_congr {u : Writer} (job_same : u.activeJob = w.activeJob)
    (tree_same : u.quotaTree = w.quotaTree) (bytes : Nat) :
    (releaseJobBytes bytes u).quotaTree = (releaseJobBytes bytes w).quotaTree := by
  rw [releaseJobBytes, releaseJobBytes, job_same, tree_same]
  split
  · exact tree_same
  split
  · exact tree_same
  split
  · exact tree_same
  split
  · rfl
  · exact tree_same

end Writer

abbrev Ledger := List (FixedExtent × Nat)

namespace Ledger

def held (ledger : Ledger) : Nat := (ledger.map snd).sum

/-- The ledger after a call: entries whose extent is still there, and what a write added. -/
def after (c : Call) (w w' : Writer) (ledger : Ledger) : Ledger :=
  ledger.filter (fun entry => entry.1 ∈ Slots.live w'.extents) ++ match c with
    | .writeFileAt _ _ data =>
      ((Slots.live w'.extents).filter (· ∉ Slots.live w.extents)).map (·, data.length)
    | _ => []

def kept (ledger : Ledger) (w : Writer) : Ledger :=
  ledger.filter fun entry => entry.1 ∈ Slots.live w.extents

/-- Every stored extent that `dropped` picks was written under the job as one whole block. -/
def CoversWhole (ledger : Ledger) (dropped : FixedExtent → Bool) (w : Writer) : Prop :=
  ∀ e ∈ Slots.live w.extents, dropped e = true → e.isHole = false → (e, blockSize) ∈ ledger

end Ledger

open Ledger

namespace Writer
variable {w w' : Writer} {job : Nat} {ledger : Ledger}

/-- The record of the active job shows the total of the ledger, and the ledger lists stored
extents of one block each. -/
structure Accounted (job : Nat) (w : Writer) (ledger : Ledger) : Prop where
  usage : Shows job ledger.held w
  files : FilesSound w
  room : w.extents.length * blockSize ≤ u64Max
  listed : ∀ entry ∈ ledger, entry.1 ∈ Slots.live w.extents ∧ entry.1.isHole = false ∧
    entry.1.logicalBlocks = 1 ∧ entry.2 ≤ blockSize
  nodup : (ledger.map fst).Nodup

theorem held_le_table {table : Slots FixedExtent} (nodup : (ledger.map fst).Nodup)
    (listed : ∀ entry ∈ ledger, entry.1 ∈ Slots.live table ∧ entry.2 ≤ blockSize) :
    ledger.held ≤ table.length * blockSize := by
  have count : ledger.length ≤ table.length := by
    have sub : ledger.map fst ⊆ Slots.live table := by
      intro e he
      obtain ⟨entry, mem, rfl⟩ := mem_map.mp he
      exact (listed entry mem).1
    have := (nodup.subperm sub).length_le
    rw [length_map] at this
    exact this.trans (live_length_le _)
  have total : ledger.held ≤ ledger.length * blockSize := by
    rw [held, ← length_map (f := snd)]
    refine sum_le_card_nsmul _ _ fun n hn => ?_
    obtain ⟨entry, mem, rfl⟩ := mem_map.mp hn
    exact (listed entry mem).2
  exact total.trans (Nat.mul_le_mul_right _ count)

theorem Accounted.held_le (h : Accounted job w ledger) : ledger.held ≤ u64Max :=
  (held_le_table h.nodup fun entry mem =>
    ⟨(h.listed entry mem).1, (h.listed entry mem).2.2.2⟩).trans h.room

theorem Accounted.released (h : Accounted job w ledger) {dropped : FixedExtent → Bool}
    (covered : ledger.CoversWhole dropped w) :
    ledger.held = held (ledger.filter fun entry => !dropped entry.1) +
      heldBlocks ((Slots.live w.extents).filter dropped) * blockSize := by
  have live_distinct : (Slots.live w.extents).Nodup := h.files.keys.of_map _
  -- The dropped entries are exactly the dropped extents that store blocks.
  have gone : ((ledger.filter fun entry => dropped entry.1).map fst).Perm
      (((Slots.live w.extents).filter dropped).filter (!·.isHole)) := by
    refine (perm_ext_iff_of_nodup
      (h.nodup.sublist (filter_sublist.map _))
      ((live_distinct.filter _).filter _)).mpr fun e => ?_
    simp only [mem_map, mem_filter, Bool.not_eq_true']
    constructor
    · rintro ⟨entry, ⟨mem, drop⟩, rfl⟩
      exact ⟨⟨(h.listed entry mem).1, drop⟩, (h.listed entry mem).2.1⟩
    rintro ⟨⟨live, drop⟩, solid⟩
    exact ⟨(e, blockSize), ⟨covered e live drop solid, drop⟩, rfl⟩
  have each : ∀ entry ∈ ledger.filter (fun entry => dropped entry.1), entry.2 = blockSize := by
    intro entry he
    obtain ⟨mem, drop⟩ := mem_filter.mp he
    have whole := covered entry.1 (h.listed entry mem).1 drop (h.listed entry mem).2.1
    rw [inj_on_of_nodup_map h.nodup mem whole rfl]
  have blocks : heldBlocks ((Slots.live w.extents).filter dropped) =
      (ledger.filter fun entry => dropped entry.1).length := by
    rw [heldBlocks, ← length_map (f := fst), gone.length_eq]
    refine (sum_eq_card_nsmul _ 1 ?_).trans ?_
    · intro n hn
      obtain ⟨e, he, rfl⟩ := mem_map.mp hn
      obtain ⟨entry, mem, rfl⟩ := mem_map.mp (gone.mem_iff.mpr he)
      exact (h.listed entry (mem_of_mem_filter mem)).2.2.1
    · simp
  have sum_gone : held (ledger.filter fun entry => dropped entry.1) =
      (ledger.filter fun entry => dropped entry.1).length * blockSize := by
    refine (sum_eq_card_nsmul _ blockSize ?_).trans ?_
    · intro n hn
      obtain ⟨entry, mem, rfl⟩ := mem_map.mp hn
      exact each entry mem
    · simp
  have split := (filter_append_perm (fun entry => dropped entry.1) ledger).map snd
  rw [blocks, ← sum_gone, held, held, held, ← split.sum_eq, map_append, sum_append, Nat.add_comm]

theorem Accounted.drop (h : Accounted job w ledger) {dropped : FixedExtent → Bool}
    (covered : ledger.CoversWhole dropped w) (active : w'.activeJob = w.activeJob)
    (files : FilesSound w') (extents : w'.extents = dropAll dropped w.extents)
    (quota : w'.quotaTree = (releaseJobBytes
      (min (heldBlocks ((Slots.live w.extents).filter dropped) * blockSize) u64Max) w).quotaTree) :
    Accounted job w' (ledger.kept w') := by
  have live : Slots.live w'.extents = (Slots.live w.extents).filter (!dropped ·) := by
    rw [extents, live_dropAll]
  have left : ledger.kept w' = ledger.filter fun entry => !dropped entry.1 := by
    refine filter_congr fun entry mem => ?_
    rw [live]
    simp only [mem_filter, (h.listed entry mem).1, true_and, Bool.decide_eq_true]
  have usage : (ledger.kept w').held = ledger.held -
      min (heldBlocks ((Slots.live w.extents).filter dropped) * blockSize) u64Max := by
    have total := h.released covered
    have bound := h.held_le
    rw [left]
    omega
  refine ⟨usage ▸ (h.usage.release _).congr ?_ quota, files, ?_, fun entry he => ?_,
    h.nodup.sublist (filter_sublist.map _)⟩
  · rw [releaseJobBytes_frame]
    exact active
  · rw [extents, length_dropAll]
    exact h.room
  obtain ⟨mem, still⟩ := mem_filter.mp he
  exact ⟨of_decide_eq_true still, (h.listed entry mem).2⟩

theorem foldl_satAdd {α : Type} (f : α → Nat) (xs : List α) {n : Nat} (bound : n ≤ u64Max) :
    xs.foldl (fun total a => satAdd total (f a)) n = min (n + (xs.map f).sum) u64Max := by
  induction xs generalizing n with
  | nil => simp [bound]
  | cons a rest ih =>
    have next : satAdd n (f a) ≤ u64Max := Nat.min_le_right _ _
    rw [foldl_cons, ih next, map_cons, sum_cons, satAdd]
    omega

theorem saturated_bytes (blocks : Nat) :
    min (min blocks u64Max * blockSize) u64Max = min (blocks * blockSize) u64Max := by
  have : 1 ≤ blockSize := by decide
  rcases Nat.le_total blocks u64Max with small | large
  · rw [Nat.min_eq_left small]
  rw [Nat.min_eq_right large, Nat.min_eq_right (Nat.le_mul_of_pos_right _ this),
    Nat.min_eq_right (large.trans (Nat.le_mul_of_pos_right _ this))]

theorem clearExtents_released (objectId : Nat) (w : Writer) : (clearExtents objectId w).1 =
    min (heldBlocks ((Slots.live w.extents).filter (·.objectId == objectId)) * blockSize) u64Max := by
  have owned : ((Slots.live w.extents).filter (·.objectId == objectId)).filter (!·.isHole) =
      (Slots.live w.extents).filter fun e => e.objectId == objectId && !e.isHole := by
    rw [filter_filter]
    exact filter_congr fun e _ => Bool.and_comm _ _
  rw [clearExtents, heldBlocks, owned]
  rw [foldl_satAdd _ _ (Nat.zero_le _), Nat.zero_add, saturated_bytes]

theorem Accounted.of_same (h : Accounted job w ledger) (active : w'.activeJob = w.activeJob)
    (files : FilesSound w') (extents : w'.extents = w.extents)
    (quota : w'.quotaTree = w.quotaTree) :
    Accounted job w' (ledger.kept w') := by
  have kept : ledger.kept w' = ledger := by
    rw [Ledger.kept, extents]
    exact filter_eq_self.mpr fun entry mem => decide_eq_true (h.listed entry mem).1
  rw [kept]
  exact ⟨h.usage.congr active quota, files, extents ▸ h.room, extents ▸ h.listed, h.nodup⟩

variable {objectId offset bytes : Nat} {E : Engines} {data : List UInt8} {object : ObjectDescriptor}

theorem Accounted.releaseExtents (h : Accounted job w ledger)
    (covered : ledger.CoversWhole (·.objectId == objectId) w) {u : Writer}
    (active : u.activeJob = w.activeJob) (extents : u.extents = w.extents)
    (quota : u.quotaTree = w.quotaTree) (files : FilesSound w')
    (eq : w' = releaseExtents objectId u ∨ w' = touched (releaseExtents objectId u)) :
    Accounted job w' (ledger.kept w') := by
  obtain ⟨_, _, _, frame⟩ := releaseExtents_frame objectId u
  obtain ⟨_, _, cleared⟩ := clearExtents_frame objectId u
  have tables : w'.activeJob = (Writer.releaseExtents objectId u).activeJob ∧
      w'.extents = (Writer.releaseExtents objectId u).extents ∧
      w'.quotaTree = (Writer.releaseExtents objectId u).quotaTree := by
    rcases eq with rfl | rfl
    · exact ⟨rfl, rfl, rfl⟩
    · exact ⟨rfl, rfl, rfl⟩
  refine h.drop covered ?_ files ?_ ?_
  · rw [tables.1, frame]
    exact active
  · rw [tables.2.1, frame]
    exact congrArg _ extents
  rw [tables.2.2, ← extents, ← clearExtents_released, Writer.releaseExtents]
  dsimp only
  refine releaseJobBytes_congr ?_ ?_ _
  · rw [cleared]
    exact active
  rw [cleared]
  exact quota

theorem createChild_accounted (h : Accounted job w ledger) (objectType parent : Nat)
    (name : List UInt8) :
    Accounted job (createChild objectType parent name w).2
      (ledger.kept (createChild objectType parent name w).2) := by
  have files := createChild_files h.files objectType parent name
  obtain ⟨_, _, _, _, frame⟩ := createChild_frame objectType parent name w
  rw [frame] at files ⊢
  exact h.of_same rfl files rfl rfl

theorem unlinkChild_accounted (h : Accounted job w ledger) (parent : Nat) (name : List UInt8)
    (covered : ∀ entry, w.dirEntry parent name = .ok entry →
      ledger.CoversWhole (·.objectId == entry.objectId) w) :
    Accounted job (unlinkChild parent name w).2 (ledger.kept (unlinkChild parent name w).2) := by
  have files := unlinkChild_files h.files parent name
  have res := unlinkChild_outcome parent name w
  generalize (unlinkChild parent name w).1 = r, (unlinkChild parent name w).2 = w' at res files ⊢
  cases res with
  | refused => exact h.of_same rfl files rfl rfl
  | @removed entry o tests =>
    exact h.releaseExtents (u := removeObject entry.objectId (dropDirEntry parent name w))
      (covered entry tests.found) rfl rfl rfl files (.inr rfl)

theorem truncateFile_accounted (h : Accounted job w ledger) {newSize : Nat}
    (bound : newSize ≤ u64Max) (covered : ledger.CoversWhole (pastEnd objectId newSize) w) :
    Accounted job (truncateFile objectId newSize w).2 (ledger.kept (truncateFile objectId newSize w).2) := by
  have files : FilesSound (truncateFile objectId newSize w).2 := truncateFile_files h.files bound
  have res := truncateFile_outcome objectId newSize w
  generalize (truncateFile objectId newSize w).1 = r, (truncateFile objectId newSize w).2 = w' at res files ⊢
  cases res with
  | refused => exact h.of_same rfl files rfl rfl
  | faulted => exact h.of_same rfl files rfl rfl
  | @done object released extents tests dropped =>
    obtain ⟨rfl, rfl⟩ := dropTail_ok dropped
    refine h.drop covered ?_ files ?_ ?_
    · rw [truncated]
      rw [releaseJobBytes_frame]
      rfl
    · rw [truncated]
      rw [releaseJobBytes_frame]
      rfl
    rw [← saturated_bytes]
    apply releaseJobBytes_congr
    · rfl
    · rfl

theorem Accounted.prepared (h : Accounted job w ledger)
    (covered : offset = 0 → ledger.CoversWhole (·.objectId == objectId) w) :
    Accounted job (prepared objectId offset w) (ledger.kept (prepared objectId offset w)) := by
  have files := h.files.prepared objectId offset
  rw [Writer.prepared] at files ⊢
  by_cases zero : offset = 0
  · rw [if_pos zero] at files ⊢
    exact h.releaseExtents (u := w) (covered zero) rfl rfl rfl files (.inl rfl)
  rw [if_neg zero] at files ⊢
  exact h.of_same rfl files rfl rfl

theorem Accounted.charge (h : Accounted job w ledger) {charged : Writer}
    (charge : checkJobQuota bytes 0 w = (.ok (), charged)) (added : Ledger)
    (total : added.held = bytes) (active : w'.activeJob = w.activeJob)
    (quota : w'.quotaTree = charged.quotaTree) (files : FilesSound w')
    (capacity : w'.extents.length = w.extents.length)
    (live : ∀ e, e ∈ Slots.live w'.extents ↔ e ∈ added.map fst ∨ e ∈ Slots.live w.extents)
    (fresh : ∀ e ∈ added.map fst, e ∉ Slots.live w.extents)
    (nodup : (added.map fst).Nodup)
    (shape : ∀ entry ∈ added, entry.1.isHole = false ∧ entry.1.logicalBlocks = 1 ∧
      entry.2 ≤ blockSize) : Accounted job w' (ledger ++ added) := by
  have listed : ∀ entry ∈ ledger ++ added, entry.1 ∈ Slots.live w'.extents ∧
      entry.1.isHole = false ∧ entry.1.logicalBlocks = 1 ∧ entry.2 ≤ blockSize := by
    intro entry he
    rcases mem_append.mp he with old | new
    · exact ⟨(live _).mpr (.inr (h.listed entry old).1), (h.listed entry old).2⟩
    · exact ⟨(live _).mpr (.inl (mem_map_of_mem new)), shape entry new⟩
  have all_distinct : ((ledger ++ added).map fst).Nodup := by
    rw [map_append]
    refine h.nodup.append nodup fun e old new => fresh e new ?_
    obtain ⟨entry, mem, rfl⟩ := mem_map.mp old
    exact (h.listed entry mem).1
  have room : w'.extents.length * blockSize ≤ u64Max := capacity ▸ h.room
  have sum : held (ledger ++ added) = ledger.held + bytes := by
    rw [← total, held, held, held, map_append, sum_append]
  have bound : held (ledger ++ added) ≤ u64Max :=
    (held_le_table all_distinct fun entry mem =>
      ⟨(listed entry mem).1, (listed entry mem).2.2.2⟩).trans room
  have used : held (ledger ++ added) = satAdd ledger.held bytes := by
    rw [satAdd]
    omega
  refine ⟨used ▸ (h.usage.charge charge).congr ?_ quota, files, room, listed, all_distinct⟩
  obtain ⟨_, rfl⟩ := checkJobQuota_frame charge
  exact active

/-- What a write has to meet: it replaces only what the job wrote as whole blocks, and once the
job is charged the block can be stored, in a run that holds no live extent. -/
structure WriteCovered (E : Engines) (ledger : Ledger) (objectId offset : Nat)
    (data : List UInt8) (w : Writer) : Prop where
  fits : offset + data.length ≤ u64Max
  replaces : offset = 0 → ledger.CoversWhole (·.objectId == objectId) w
  stores : data ≠ [] → ∀ object, WriteAdmitted objectId offset data object w →
    (prepared objectId offset w).checkVolumeQuota data.length 0 = .ok () →
    ∃ start blockBytes compression,
      Storable E data object start blockBytes compression (prepared objectId offset w) ∧
      none ∈ (prepared objectId offset w).extents ∧
      ∀ e ∈ Slots.live w.extents, e.extent.physicalBlock ≠ start

theorem Storable.charged
    {start : Nat} {blockBytes : List UInt8} {compression : Option ExtentCompressionMeta}
    (tests : Storable E data object start blockBytes compression w) {objects : Nat}
    {r : Except Stop Unit} (charge : checkJobQuota bytes objects w = (r, w')) :
    Storable E data object start blockBytes compression w' := by
  obtain ⟨_, rfl⟩ := checkJobQuota_frame charge
  exact ⟨tests.encodes, tests.quota, tests.run,
    ⟨tests.accepts.device, tests.accepts.nonce, tests.accepts.whole⟩⟩

theorem dataExtent_shape (objectId offset start gen : Nat) (kind : ExtentWriteKind) :
    (dataExtent objectId offset start gen kind).isHole = false ∧
      (dataExtent objectId offset start gen kind).logicalBlocks = 1 := by
  cases kind with
  | plain =>
    exact ⟨(by decide : hasFlag 0 extentFlagHole = false),
      if_neg (by decide : ¬hasFlag 0 extentFlagMultiSlot = true)⟩
  | compressed info =>
    exact ⟨(by decide : hasFlag extentFlagCompressed extentFlagHole = false),
      if_neg (by decide : ¬hasFlag extentFlagCompressed extentFlagMultiSlot = true)⟩
  | multiSlot =>
    exact ⟨(by decide : hasFlag extentFlagMultiSlot extentFlagHole = false),
      if_pos (by decide : hasFlag extentFlagMultiSlot extentFlagMultiSlot = true)⟩

theorem live_prepared_subset (objectId offset : Nat) (w : Writer) :
    Slots.live (prepared objectId offset w).extents ⊆ Slots.live w.extents := by
  rw [prepared]
  split
  · rw [releaseExtents_live]
    exact filter_subset_self _
  · exact List.Subset.refl _

theorem after_of_subset (c : Call) (fewer : Slots.live w'.extents ⊆ Slots.live w.extents) :
    ledger.after c w w' = ledger.kept w' := by
  have none_new : (Slots.live w'.extents).filter (· ∉ Slots.live w.extents) = [] := by
    rw [filter_eq_nil_iff]
    intro e he
    simpa using fewer he
  cases c with
  | writeFileAt => rw [Ledger.after, none_new, map_nil, append_nil, Ledger.kept]
  | _ => exact append_nil _

theorem after_of_put {u : Writer} {e : FixedExtent} (put : Slots.put e u.extents = some w'.extents)
    (fewer : Slots.live u.extents ⊆ Slots.live w.extents) (new : e ∉ Slots.live w.extents)
    (listed : ∀ entry ∈ ledger, entry.1 ∈ Slots.live w.extents) :
    ledger.after (.writeFileAt objectId offset data) w w' = ledger.kept u ++ [(e, data.length)] := by
  have old : ledger.kept w' = ledger.kept u := by
    refine filter_congr fun entry mem => decide_eq_decide.mpr ?_
    rw [mem_live_put put]
    refine ⟨fun h => h.resolve_left fun eq => new ?_, .inr⟩
    exact eq ▸ listed entry mem
  have added : (Slots.live w'.extents).filter (· ∉ Slots.live w.extents) = [e] := by
    rw [← perm_singleton]
    refine ((live_put put).filter _).trans (List.Perm.of_eq ?_)
    rw [filter_cons_of_pos (by simpa using new), filter_eq_nil_iff.mpr]
    intro e' he'
    simpa using fewer he'
  rw [Ledger.after, ← Ledger.kept, old, added]
  rfl

theorem resized_tables (objectId size : Nat) (w : Writer) :
    (resized objectId size w).activeJob = w.activeJob ∧
      (resized objectId size w).extents = w.extents ∧
      (resized objectId size w).quotaTree = w.quotaTree := ⟨rfl, rfl, rfl⟩

theorem placed_tables (objectId : Nat) (extents : Slots FixedExtent) (w : Writer) :
    (placed objectId extents w).activeJob = w.activeJob ∧
      (placed objectId extents w).extents = extents ∧
      (placed objectId extents w).quotaTree = w.quotaTree := ⟨rfl, rfl, rfl⟩

theorem stored_extents
    {objects : Nat} {r : Except Stop Unit} {q : Except Stop (Nat × Nat × ExtentWriteKind)}
    {charged after : Writer} (charge : checkJobQuota bytes objects w = (r, charged))
    (stored : writeDataBlocks E data object charged = (q, after)) :
    after.extents = w.extents := by
  obtain ⟨_, rfl⟩ := checkJobQuota_frame charge
  obtain ⟨_, _, _, _, _, rfl⟩ := writeDataBlocks_frame stored
  rfl

theorem FilesSound.placeExtent_append (pre : FilesSound w)
    (tests : WriteAdmitted objectId offset data object w) {start gen : Nat}
    {kind : ExtentWriteKind} {table : Slots FixedExtent}
    (kept : table = (Writer.prepared objectId offset w).extents) :
    placeExtent (dataExtent objectId offset start gen kind) table =
      match Slots.put (dataExtent objectId offset start gen kind) table with
      | some placed => .ok placed
      | none => .error .noSpace := by
  refine placeExtent_last fun e he own => ?_
  rw [kept] at he
  exact le_of_lt (pre.below_offset tests e he own).1

theorem writeFileAt_accounted (h : Accounted job w ledger) (covered : WriteCovered E ledger objectId offset data w) :
    Accounted job (writeFileAt E objectId offset data w).2
      (ledger.after (.writeFileAt objectId offset data) w (writeFileAt E objectId offset data w).2) := by
  have files : FilesSound (writeFileAt E objectId offset data w).2 := writeFileAt_files h.files E covered.fits
  have res := writeFileAt_outcome E objectId offset data w
  generalize (writeFileAt E objectId offset data w).1 = r,
    (writeFileAt E objectId offset data w).2 = w' at res files ⊢
  have cleared := h.prepared covered.replaces
  have fewer := live_prepared_subset objectId offset w
  cases res with
  | refused =>
    rw [after_of_subset _ (List.Subset.refl _)]
    exact h.of_same rfl files rfl rfl
  | overQuota =>
    rw [after_of_subset _ fewer]
    exact cleared
  | overJobQuota tests quota excess =>
    cases checkJobQuota_refused excess
    rw [after_of_subset _ fewer]
    exact cleared
  | @unstored object charged after s tests quota charge some_data failed =>
    obtain ⟨start, blockBytes, compression, storable, -, -⟩ := covered.stores some_data object tests quota
    cases Exec.outcome_of (writeDataBlocks_outcome E object charged tests.short) failed with
    | failed none_stored => exact absurd (storable.charged charge) (none_stored _ _ _)
  | @unplaced object charged _ e start gen kind tests quota charge some_data stored full =>
    obtain ⟨_, _, _, _, slot, -⟩ := covered.stores some_data object tests quota
    have kept := stored_extents charge stored
    rw [h.files.placeExtent_append tests kept] at full
    cases put : Slots.put (dataExtent objectId offset start gen kind) w'.extents with
    | none =>
      rw [kept] at put
      exact absurd slot (put_eq_none.mp put)
    | some placed => rw [put] at full; cases full
  | tooLong tests quota charge stored excess => exact absurd covered.fits (by omega)
  | @written object charged after tests quota charge stored =>
    have last := resized_tables objectId (sizeAfter object.size offset data.length) after
    obtain ⟨_, charged_eq⟩ := checkJobQuota_frame charge
    generalize resized objectId (sizeAfter object.size offset data.length) after = w' at last files ⊢
    cases stored with
    | nothing empty =>
      have extents : w'.extents = (Writer.prepared objectId offset w).extents := by
        rw [last.2.1, charged_eq]
      have active : w'.activeJob = (Writer.prepared objectId offset w).activeJob := by
        rw [last.1, charged_eq]
      have same : ledger.kept w' = ledger.kept (Writer.prepared objectId offset w) := by
        rw [Ledger.kept, extents, Ledger.kept]
      rw [after_of_subset _ (by rw [extents]; exact fewer), same, ← append_nil (ledger.kept _)]
      exact cleared.charge charge [] (by simp [held, empty]) active last.2.2 files
        (by rw [extents]) (by simp [extents]) (by simp) (by simp) (by simp)
    | @block start gen kind after extents some_data stored room =>
      obtain ⟨start', _, _, storable, -, fresh⟩ := covered.stores some_data object tests quota
      have same_start : start = start' := by
        cases Exec.outcome_of (writeDataBlocks_outcome E object charged tests.short) stored with
        | oneSlot found => exact found.start_unique (storable.charged charge)
        | twoSlots found => exact found.start_unique (storable.charged charge)
      have kept := stored_extents charge stored
      rw [h.files.placeExtent_append tests kept] at room
      obtain ⟨_, _, _, _, _, stored_eq⟩ := writeDataBlocks_frame stored
      have placing := placed_tables objectId extents after
      have active : w'.activeJob = (Writer.prepared objectId offset w).activeJob := by
        rw [last.1, placing.1, stored_eq, charged_eq]
      have quota_eq : w'.quotaTree = charged.quotaTree := by
        rw [last.2.2, placing.2.2, stored_eq]
      cases put : Slots.put (dataExtent objectId offset start gen kind) after.extents with
      | none => rw [put] at room; cases room
      | some table =>
      rw [put] at room
      cases room
      rw [kept] at put
      have extents_eq : w'.extents = extents := last.2.1.trans placing.2.1
      have new : dataExtent objectId offset start gen kind ∉ Slots.live w.extents :=
        fun mem => fresh _ mem same_start
      rw [after_of_put (extents_eq ▸ put) fewer new fun entry mem =>
        (h.listed entry mem).1]
      refine cleared.charge charge [(dataExtent objectId offset start gen kind,
        data.length)] (by simp [held]) active quota_eq files ?_ ?_ ?_ (by simp) ?_
      · rw [extents_eq, length_put put]
      · intro e
        rw [extents_eq, mem_live_put put]
        simp
      · intro e he
        rw [map_singleton, mem_singleton] at he
        exact he ▸ fun mem => new (fewer mem)
      intro entry he
      rw [mem_singleton.mp he]
      have shape := dataExtent_shape objectId offset start gen kind
      exact ⟨shape.1, shape.2, tests.short⟩

end Writer

namespace Call

/-- A call with any outcome, and what it does to the ledger of the active job. -/
def Charges (E : Engines) (c : Call) (before after : Writer × Ledger) : Prop :=
  c.Leads E before.1 after.1 ∧ after.2 = before.2.after c before.1 after.1

theorem charges_run (E : Engines) (c : Call) (w : Writer) (ledger : Ledger) :
    c.Charges E (w, ledger) ((c.run E w).2, ledger.after c w (c.run E w).2) := ⟨rfl, rfl⟩

/-- Creations, writes, truncations and unlinks that give back whole blocks the job wrote, and
whose data can be stored once it is charged. -/
def Accountable (E : Engines) (c : Call) (before : Writer × Ledger) : Prop :=
  match c with
  | mkdirChild _ _ | createFileChild _ _ | mkdirPath _ | createFilePath _ => True
  | writeFileAt objectId offset data =>
    Writer.WriteCovered E before.2 objectId offset data before.1
  | truncateFile objectId newSize =>
    newSize ≤ u64Max ∧ before.2.CoversWhole (pastEnd objectId newSize) before.1
  | unlinkChild parent name =>
    ∀ entry, before.1.dirEntry parent name = .ok entry →
      before.2.CoversWhole (·.objectId == entry.objectId) before.1
  | unlinkPath path =>
    ∀ parent name, before.1.parentAndName path = .ok (parent, name) →
      ∀ entry, before.1.dirEntry parent name = .ok entry →
        before.2.CoversWhole (·.objectId == entry.objectId) before.1
  | _ => False

end Call

namespace Writer

theorem Accounted.step {E : Engines} {job : Nat} {c : Call} {pre after : Writer × Ledger}
    (h : Accounted job pre.1 pre.2) (permitted : c.Accountable E pre)
    (taken : c.Charges E pre after) : Accounted job after.1 after.2 := by
  obtain ⟨w, ledger⟩ := pre
  obtain ⟨w', ledger'⟩ := after
  obtain ⟨leads, ledger_eq⟩ := taken
  dsimp only at h leads ledger_eq ⊢
  subst ledger_eq
  cases leads
  -- A call that is not a write adds nothing, so its ledger is what is left of the old one.
  have plain {w' : Writer} (eq : ledger.after c w w' = ledger.kept w')
      (h' : Accounted job w' (ledger.kept w')) : Accounted job w' (ledger.after c w w') := eq ▸ h'
  have still := h.of_same rfl h.files rfl rfl
  cases c with
  | mkdirChild parent name =>
    rw [run, void_snd]
    exact plain (append_nil _) (createChild_accounted h _ _ _)
  | createFileChild parent name =>
    rw [run, void_snd]
    exact plain (append_nil _) (createChild_accounted h _ _ _)
  | mkdirPath path =>
    rw [run, void_snd]
    refine plain (append_nil _) ?_
    rcases mkdirPath_cases path w with ⟨e, run⟩ | ⟨parent, name, -, run⟩
    · rw [run]
      exact still
    rw [run]
    exact createChild_accounted h _ _ _
  | createFilePath path =>
    rw [run, void_snd]
    refine plain (append_nil _) ?_
    rcases createFilePath_cases path w with ⟨e, run⟩ | ⟨parent, name, -, run⟩
    · rw [run]
      exact still
    rw [run]
    exact createChild_accounted h _ _ _
  | writeFileAt objectId offset data =>
    rw [run, void_snd]
    exact writeFileAt_accounted h permitted
  | truncateFile objectId newSize =>
    rw [run, void_snd]
    exact plain (append_nil _) (truncateFile_accounted h permitted.1 permitted.2)
  | unlinkChild parent name =>
    exact plain (append_nil _) (unlinkChild_accounted h parent name permitted)
  | unlinkPath path =>
    rw [run]
    refine plain (append_nil _) ?_
    rcases unlinkPath_cases path w with ⟨e, run⟩ | ⟨parent, name, named, run⟩
    · rw [run]
      exact still
    rw [run]
    exact unlinkChild_accounted h parent name (permitted parent name named)
  | _ => exact permitted.elim

end Writer

/-- Along every run of accountable calls under a job that starts without usage, the recorded
usage is what was charged for the job's extents that are still live, which is within its limit. -/
theorem job_usage_is_held {E : Engines} {job : Nat} {w w' : Writer} {ledger : Ledger}
    (active : w.activeJob = some job) (unused : w.jobQuotaUsage job = (0, 0))
    (unique : (keys w.quotaTree).Nodup) (files : w.FilesSound)
    (room : w.extents.length * blockSize ≤ u64Max)
    (run : Runs (Call.Charges E) (Call.Accountable E) (w, []) (w', ledger)) :
    (w'.jobQuotaUsage job).1 = ledger.held ∧
      (∀ entry ∈ ledger, entry.1 ∈ Slots.live w'.extents) ∧
      ∀ record, get (jobUuid job) w'.quotaTree = .ok record →
        record.physicalLimitBytes ≠ 0 → ledger.held ≤ record.physicalLimitBytes := by
  have start : Writer.Accounted job w [] := by
    refine ⟨⟨active, unique, fun record found => ?_, fun _ _ => rfl⟩, files, room, by simp, by simp⟩
    rw [jobQuotaUsage, found] at unused
    obtain ⟨bytes, objects⟩ := Prod.ext_iff.mp unused
    dsimp only at bytes objects
    simp [QuotaRecord.withinLimits, bytes, objects, held]
  have h : Writer.Accounted job w' ledger :=
    run.invariant (P := fun s => Writer.Accounted job s.1 s.2) start Writer.Accounted.step
  refine ⟨?_, fun entry mem => (h.listed entry mem).1, fun record found limited => ?_⟩
  · rw [jobQuotaUsage]
    cases found : get (jobUuid job) w'.quotaTree with
    | error e => exact (h.usage.unlisted e found).symm
    | ok record => exact (h.usage.recorded record found).2
  obtain ⟨within, used⟩ := h.usage.recorded record found
  exact used ▸ (QuotaRecord.withinLimits_iff.mp within).1 limited

/-- A volume with two empty files whose job may use 4097 bytes. -/
def jobVolume : Writer :=
  { blank ⟨4, 4, 4⟩ 16 with
    activeJob := some 7
    quotaTree := some { volumeUuid := jobUuid 7, physicalLimitBytes := 4097
                        physicalUsedBytes := 0, objectLimit := 0, objectCount := 0 } ::
      Slots.empty 15
    objects := [some rootDirectory, some (freshDescriptor 2 objectTypeFile),
      some (freshDescriptor 3 objectTypeFile), none]
    dirEntries := [some ⟨1, 2, [0x61]⟩, some ⟨1, 3, [0x62]⟩, none, none]
    nextObjectId := 4 }

theorem jobVolume_files : jobVolume.FilesSound := by
  have bare : Slots.live jobVolume.extents = [] := live_empty 4
  refine ⟨by decide, by decide, by decide, ?_, ?_, by decide⟩
  · simp [bare]
  · simp [bare]

/-- A job fills a file with one whole block and truncates it. -/
theorem job_usage_is_held_truncated :
    let write : Call := .writeFileAt 2 0 (zeros blockSize)
    let written := (write.run clearEngines jobVolume).2
    let cut : Call := .truncateFile 2 0
    let w' := (cut.run clearEngines written).2
    (written.jobQuotaUsage 7).1 = blockSize ∧ (w'.jobQuotaUsage 7).1 = 0 ∧
      (w'.jobQuotaUsage 7).1 = (Ledger.after cut written w' (Ledger.after write jobVolume written [])).held := by
  have bare : Slots.live jobVolume.extents = [] := live_empty 4
  have covered : Writer.WriteCovered clearEngines [] 2 0 (zeros blockSize) jobVolume := by
    refine ⟨by rw [Bytes.zeros_length]; decide, fun _ => by simp [Ledger.CoversWhole, bare],
      fun _ object tests _ => ?_⟩
    refine ⟨1, zeros blockSize, none, ⟨?_, by decide +kernel, by decide +kernel, ?_⟩,
      by decide +kernel, by simp [bare]⟩
    · cases tests.target
      rfl
    have single : (Writer.prepared 2 0 jobVolume).slotsFor (zeros blockSize) = 1 := by
      decide +kernel
    rw [single]
    refine ⟨fun i hi => ?_, by decide +kernel, by simp⟩
    obtain rfl : i = 0 := by omega
    exact ⟨by decide +kernel, by decide +kernel⟩
  intro write written cut w'
  have whole : cut.Accountable clearEngines (written, Ledger.after write jobVolume written []) := by
    refine ⟨by decide, ?_⟩
    unfold Ledger.CoversWhole
    decide +kernel
  have usage := job_usage_is_held (show jobVolume.activeJob = some 7 from rfl)
    (by decide +kernel) (by decide +kernel) jobVolume_files (by decide)
    ((Runs.one (k := write) covered (charges_run clearEngines write jobVolume [])).next whole
      (charges_run clearEngines cut written _))
  exact ⟨by decide +kernel, by decide +kernel, usage.1⟩

def Call.isFileCall : Call → Bool
  | .mkdirChild .. | .createFileChild .. | .mkdirPath .. | .createFilePath .. | .writeFileAt ..
  | .truncateFile .. | .unlinkChild .. | .unlinkPath .. => true
  | _ => false

def chargedBy (E : Engines) : List Call → Writer × Ledger → Writer × Ledger
  | [], s => s
  | c :: rest, (w, ledger) =>
    chargedBy E rest ((c.run E w).2, ledger.after c w (c.run E w).2)

theorem chargedBy_runs (E : Engines) (calls : List Call) (fileCalls : calls.all isFileCall)
    (pre : Writer × Ledger) : Runs (Call.Charges E) (fun c _ => c.isFileCall = true) pre
      (chargedBy E calls pre) := by
  induction calls generalizing pre with
  | nil => exact .start
  | cons c rest ih =>
    obtain ⟨w, ledger⟩ := pre
    obtain ⟨first, others⟩ := Bool.and_eq_true_iff.mp fileCalls
    have one : Runs (Call.Charges E) (fun c _ => c.isFileCall = true) (w, ledger) _ :=
      Runs.one first (charges_run E c w ledger)
    exact one.trans (ih others _)

/-- A write of one byte is charged one byte and gives a whole block back: the job then holds
two blocks, more than its limit, while its recorded usage is within it. -/
theorem partial_block_breaks_job_usage :
    jobVolume.activeJob = some 7 ∧ jobVolume.jobQuotaUsage 7 = (0, 0) ∧
      ∃ w' ledger, Runs (Call.Charges clearEngines) (fun c _ => c.isFileCall = true)
          (jobVolume, []) (w', ledger) ∧
        (w'.jobQuotaUsage 7).1 = 4097 ∧ ledger.held = 2 * blockSize ∧
        (get (jobUuid 7) w'.quotaTree).toOption.map (·.physicalLimitBytes) = some 4097 := by
  refine ⟨rfl, by decide +kernel, _, _, chargedBy_runs clearEngines
    [.writeFileAt 2 0 (zeros blockSize), .writeFileAt 3 0 [1], .truncateFile 3 0,
      .writeFileAt 3 0 (zeros blockSize)] rfl (jobVolume, []), ?_⟩
  decide +kernel

/-- A file call, with positions in the file that are machine words. -/
def Call.IsSized : Call → Prop
  | writeFileAt _ offset data => offset + data.length ≤ u64Max
  | truncateFile _ newSize => newSize ≤ u64Max
  | c => c.isFileCall = true

theorem Writer.FilesSound.call {E : Engines} {w : Writer} (pre : w.FilesSound) {c : Call}
    (sized : c.IsSized) : FilesSound (c.run E w).2 := by
  cases c with
  | mkdirChild parent name | createFileChild parent name =>
    rw [run, void_snd]
    exact createChild_files pre ..
  | mkdirPath path =>
    rw [run, void_snd]
    rcases mkdirPath_cases path w with ⟨e, run⟩ | ⟨parent, name, -, run⟩ <;> rw [run]
    · exact pre
    · exact createChild_files pre ..
  | createFilePath path =>
    rw [run, void_snd]
    rcases createFilePath_cases path w with ⟨e, run⟩ | ⟨parent, name, -, run⟩ <;> rw [run]
    · exact pre
    · exact createChild_files pre ..
  | writeFileAt objectId offset data =>
    rw [run, void_snd]
    exact writeFileAt_files pre E sized
  | truncateFile objectId newSize =>
    rw [run, void_snd]
    exact truncateFile_files pre sized
  | unlinkChild parent name => exact unlinkChild_files pre parent name
  | unlinkPath path =>
    rw [run]
    rcases unlinkPath_cases path w with ⟨e, run⟩ | ⟨parent, name, -, run⟩ <;> rw [run]
    · exact pre
    · exact unlinkChild_files pre parent name
  | _ => cases sized

/-- Whatever file calls are made, failing ones included, ids stay unique, every extent lies in a
file that is there and starts below its size, and no two extents of a file share their place. -/
theorem files_stay_sound (E : Engines) {w : Writer} (files : w.FilesSound) (calls : List Call)
    (sized : ∀ c ∈ calls, c.IsSized) : FilesSound (calls.foldl (fun w c => (c.run E w).2) w) := by
  induction calls generalizing w with
  | nil => exact files
  | cons c rest ih =>
    obtain ⟨first, others⟩ := forall_mem_cons.mp sized
    exact ih (files.call first) others

theorem files_stay_sound_written : FilesSound
    ([writeFileAt 2 0 [1], truncateFile 2 0].foldl (fun w c => (c.run clearEngines w).2) jobVolume) :=
  files_stay_sound clearEngines jobVolume_files _ (by simp [IsSized, u64Max])

end HuesOS.Hxfs
