import HuesOS.Hxfs.RoundTrip
import HuesOS.Lib.Checks
import HuesOS.Lib.Writes

/-! A crash while the journal is replayed. Writes that no completed flush follows survive in any
subset. -/

namespace HuesOS.Hxfs
open List Function Exec Writes Store Block

def Store.after (store : Store) (contents : Nat → Block) (log : List StoreEvent) : Store :=
  { store with block := contents, log }

section Device
variable {s t : Store} {contents : Nat → Block} {log : List StoreEvent} {lba : Nat} {block : Block}

theorem Store.readBlock_after (eq : contents lba = s.block lba) :
    (s.after contents log).readBlock lba = s.readBlock lba := by
  unfold readBlock Store.after
  dsimp only
  rw [eq]

theorem Store.writeBlock_after (works : s.FaultFree) (lt : lba < s.size) :
    (s.after contents log).writeBlock lba block =
      .ok (s.after (update contents lba block) (log ++ [.write lba block])) := by
  rcases (s.after contents log).writeBlock_cases lba block with ⟨-, run⟩ | ⟨bad, -⟩
  · have eq : update contents lba block =
        fun at_ => if at_ = lba then block else contents at_ :=
      funext fun at_ => update_apply contents lba block at_
    rw [run, eq]
    rfl
  · exact absurd ⟨lt, works.2.1 lba⟩ bad

theorem readSuperblock_congr (eq : t.readBlock lba = s.readBlock lba) :
    readSuperblock t lba = readSuperblock s lba := by
  rw [readSuperblock, readSuperblock, eq]

theorem size_pos_of_readSuperblock {sb : Superblock} (read : readSuperblock s 0 = .ok sb) : 0 < s.size := by
  by_contra none
  rw [readSuperblock, readBlock, if_pos (by omega)] at read
  cases read

variable {sb : Superblock} {n index : Nat}

theorem checkedRecord_congr
    (described : t.readBlock (sb.journalStartLba + index * 2) = s.readBlock (sb.journalStartLba + index * 2))
    (copied : t.readBlock (sb.journalStartLba + index * 2 + 1) =
      s.readBlock (sb.journalStartLba + index * 2 + 1)) :
    checkedRecord t sb n index = checkedRecord s sb n index := by
  have eq : readJournalRecord t (sb.journalStartLba + index * 2) sb.sequenceNumber =
      readJournalRecord s (sb.journalStartLba + index * 2) sb.sequenceNumber := by
    rw [readJournalRecord, readJournalRecord, described]
  rw [checkedRecord, checkedRecord, eq]
  cases readJournalRecord s (sb.journalStartLba + index * 2) sb.sequenceNumber with
  | error e => rfl
  | ok record =>
    by_cases place : record.dataLba = sb.journalStartLba + index * 2 + 1
    · simp only [bind, Except.bind, place, copied]
    simp only [bind, Except.bind, throw, throwThe, MonadExceptOf.throw, place, ne_eq,
      not_false_eq_true, if_true]

theorem checkedRecord_facts {r : JournalRecord} {data : Block}
    (checked : checkedRecord s sb n index = .ok (r, data)) :
    (hasFlag r.flags journalRecordFlagFinalSuperblock = true ↔ index + 1 = n) ∧
      (index + 1 = n → r.targetLba = 0) := by
  rw [checkedRecord] at checked
  cases read : readJournalRecord s (sb.journalStartLba + index * 2) sb.sequenceNumber with
  | error e => rw [read] at checked; exact nomatch checked
  | ok record =>
    simp only [read, bind, Except.bind, throw, throwThe, MonadExceptOf.throw,
      Except.ite_error_ok_iff] at checked
    obtain ⟨-, -, flagged, -, checked⟩ := checked
    cases data_read : s.readBlock record.dataLba with
    | error e => rw [data_read] at checked; exact nomatch checked
    | ok copy =>
      simp only [data_read, Except.ite_error_ok_iff, pure, Except.pure] at checked
      obtain ⟨-, unflagged, eq⟩ := checked
      cases eq
      rw [not_not] at flagged
      simp only [flagged, Bool.and_eq_true, bne_iff_ne, not_and, not_not, beq_iff_eq] at unflagged ⊢
      exact ⟨trivial, unflagged⟩

theorem checkedRecord_of {r : JournalRecord} {data : Block}
    (start : sb.journalStartLba + index * 2 = lba)
    (read : readJournalRecord s lba sb.sequenceNumber = .ok r)
    (place : r.recordIndex = index ∧ r.recordCount = n ∧ r.dataLba = lba + 1)
    (flags : r.flags = if index + 1 = n then journalRecordFlagFinalSuperblock else 0)
    (copied : s.readBlock r.dataLba = .ok data) (checksum : r.dataCrc32c = crc32c data.bytes)
    (target : index + 1 = n → r.targetLba = 0) :
    checkedRecord s sb n index = .ok (r, data) := by
  obtain ⟨rfl, rfl, dataLba⟩ := place
  rw [checkedRecord, start, read]
  by_cases last : r.recordIndex + 1 = r.recordCount
  · rw [if_pos last] at flags
    simp [bind, Except.bind, checksum, target last, flags, last, dataLba ▸ copied, dataLba, hasFlag,
      journalRecordFlagFinalSuperblock, pure, Except.pure]
  rw [if_neg last] at flags
  simp [bind, Except.bind, checksum, flags, last, dataLba ▸ copied, dataLba, hasFlag,
    journalRecordFlagFinalSuperblock, pure, Except.pure]

end Device

abbrev Journalled := JournalRecord × Block

def Journalled.write (r : Journalled) : Nat × Block := (r.1.targetLba, r.2)

def Journalled.event (r : Journalled) : StoreEvent := .write r.1.targetLba r.2

def Superblock.Clean (sb : Superblock) : Prop :=
  sb.rootState = rootStateClean ∧ sb.journalStartLba = 0 ∧ sb.journalEndLba = 0

def Superblock.InJournal (sb : Superblock) (n lba : Nat) : Prop :=
  sb.journalStartLba ≤ lba ∧ lba < sb.journalStartLba + 2 * n

/-- A working device whose root store is recovering, with a journal of the given records that
passes every check and rewrites neither itself nor, before the final record, the superblock. The
final record publishes a clean superblock. -/
structure Recovering (s : Store) (sb : Superblock) (records : List Journalled)
    (final : Journalled) : Prop where
  works : s.FaultFree
  root : readSuperblock s 0 = .ok sb
  state : sb.rootState = rootStateRecovering
  start : sb.journalStartLba ≠ 0
  span : sb.journalEndLba = sb.journalStartLba + 2 * (records.length + 1)
  count : records.length + 1 ≤ u32Max
  checked : ∀ index r, (records ++ [final])[index]? = some r →
    checkedRecord s sb (records.length + 1) index = .ok r
  targets : ∀ r ∈ records, r.1.targetLba < s.size ∧ r.1.targetLba ≠ 0 ∧
    ¬sb.InJournal (records.length + 1) r.1.targetLba
  named : final.1.finalCheckpointLba ≠ 0
  publishes : ∃ clean, clean.Clean ∧
    readSuperblock (s.after (update s.block 0 final.2) s.log) 0 = .ok clean

def replayWrites (records : List Journalled) (final : Journalled) : List (Nat × Block) :=
  records.map Journalled.write ++ [final.write]

section Replay
variable {s : Store} {sb : Superblock} {n : Nat} {contents : Nat → Block} {log : List StoreEvent}

theorem checkedRecord_after {index : Nat} (lt : index < n)
    (eq : ∀ lba, sb.InJournal n lba → contents lba = s.block lba) :
    checkedRecord (s.after contents log) sb n index = checkedRecord s sb n index := by
  apply checkedRecord_congr
  · exact readBlock_after (eq _ ⟨by omega, by omega⟩)
  · exact readBlock_after (eq _ ⟨by omega, by omega⟩)

/-- One record: its block is written, and the final one is followed by a flush. -/
theorem replayFrom_record {index left expected : Nat} {r : Journalled} (works : s.FaultFree)
    (lt : index < n) (eq : ∀ lba, sb.InJournal n lba → contents lba = s.block lba)
    (checked : checkedRecord s sb n index = .ok r) (room : r.1.targetLba < s.size) :
    replayFrom sb n (left + 1) index expected (s.after contents log) =
      (if hasFlag r.1.flags journalRecordFlagFinalSuperblock then do
          StoreM.update flush
          replayFrom sb n left (index + 1) r.1.finalCheckpointLba
        else replayFrom sb n left (index + 1) expected)
        (s.after (update contents r.1.targetLba r.2) (log ++ [r.event])) := by
  have found : StoreM.ofParsed (fun store => checkedRecord store sb n index)
      (s.after contents log) = (.ok r, s.after contents log) := by
    rw [StoreM.ofParsed, checkedRecord_after lt eq, checked]
  have written : StoreM.update (fun store => store.writeBlock r.1.targetLba r.2)
      (s.after contents log) = (.ok (), s.after (update contents r.1.targetLba r.2) (log ++ [r.event])) := by
    rw [StoreM.update, writeBlock_after works room]
    rfl
  rw [replayFrom, bind_of_ok found]
  exact bind_of_ok written

theorem update_flush (works : s.FaultFree) : StoreM.update flush (s.after contents log) =
    (.ok (), s.after contents (log ++ [.flush])) := by
  simp only [StoreM.update, flush, Store.after, works.2.2]

theorem replayFrom_run {final : Journalled} (works : s.FaultFree) (room : 0 < s.size)
    (log : List StoreEvent) (records : List Journalled) (index expected : Nat) (count : index + records.length + 1 = n)
    (checked : ∀ k r, (records ++ [final])[k]? = some r → checkedRecord s sb n (index + k) = .ok r)
    (targets : ∀ r ∈ records, r.1.targetLba < s.size ∧ ¬sb.InJournal n r.1.targetLba)
    (same : ∀ lba, sb.InJournal n lba → contents lba = s.block lba) :
    replayFrom sb n (records.length + 1) index expected (s.after contents log) =
      (.ok final.1.finalCheckpointLba,
        s.after (apply (replayWrites records final) contents)
          (log ++ (records ++ [final]).map Journalled.event ++ [.flush])) := by
  induction records generalizing index contents log with
  | nil =>
    have last : index + 1 = n := by simpa using count
    have only : checkedRecord s sb n index = .ok final := checked 0 final rfl
    obtain ⟨flag, target⟩ := checkedRecord_facts only
    rw [length_nil, replayFrom_record works (by omega) same only
      (by rw [target last]; exact room), if_pos (flag.mpr last),
      bind_of_ok (update_flush works)]
    rfl
  | cons r records ih =>
    obtain ⟨inside, out⟩ := targets r mem_cons_self
    have more : index + 1 + records.length + 1 = n := by
      rw [← count, length_cons]
      omega
    have first : checkedRecord s sb n index = .ok r := checked 0 r rfl
    have unflagged : ¬hasFlag r.1.flags journalRecordFlagFinalSuperblock = true := by
      rw [(checkedRecord_facts first).1]
      omega
    rw [length_cons, replayFrom_record works (by omega) same first inside,
      if_neg unflagged, ih _ (index + 1) more]
    · simp [replayWrites, apply, Journalled.write]
    · intro k r' found
      rw [Nat.add_right_comm, Nat.add_assoc]
      exact checked (k + 1) r' found
    · exact fun r' mem => targets r' (.tail _ mem)
    intro lba journal
    have elsewhere : lba ≠ r.1.targetLba := fun eq => out (eq ▸ journal)
    rw [update_of_ne elsewhere, same lba journal]

end Replay

namespace Recovering
variable {s : Store} {sb : Superblock} {records : List Journalled} {final : Journalled}
  {contents : Nat → Block}

theorem room (valid : Recovering s sb records final) : 0 < s.size :=
  size_pos_of_readSuperblock valid.root

theorem replayJournal_run (valid : Recovering s sb records final) (log : List StoreEvent)
    (root : contents 0 = s.block 0)
    (eq : ∀ lba, sb.InJournal (records.length + 1) lba → contents lba = s.block lba) :
    replayJournal (s.after contents log) =
      (.ok (.replayed sb.sequenceNumber (records.length + 1) final.1.finalCheckpointLba),
        s.after (apply (replayWrites records final) contents)
          (log ++ (records ++ [final]).map Journalled.event ++ [.flush, .flush])) := by
  have read : StoreM.ofParsed (fun store => readSuperblock store 0) (s.after contents log) =
      (.ok sb, s.after contents log) := by
    rw [StoreM.ofParsed, readSuperblock_congr (readBlock_after root), valid.root]
  have width : sb.journalEndLba - sb.journalStartLba = 2 * (records.length + 1) := by
    rw [valid.span]
    omega
  have replayed := replayFrom_run valid.works valid.room log records 0 0 (by omega)
    (fun k r found => by rw [Nat.zero_add]; exact valid.checked k r found)
    (fun r inside => ⟨(valid.targets r inside).1, (valid.targets r inside).2.2⟩) eq
  have dirty : sb.rootState ≠ rootStateClean := by
    rw [valid.state]
    decide
  have shape := valid.span
  have count := valid.count
  rw [replayJournal, bind_of_ok read, if_neg (fun clean => dirty clean.1),
    if_neg (by simp [valid.state, valid.start]; omega)]
  dsimp only
  rw [width, if_neg (by omega), Nat.mul_div_cancel_left _ (by decide : 0 < 2),
    bind_of_ok replayed, if_neg valid.named, bind_of_ok (update_flush valid.works)]
  simp

end Recovering

def StoreEvent.write? : StoreEvent → Option (Nat × Block)
  | .write lba block => some (lba, block)
  | .flush => none

def writesOf (events : List StoreEvent) : List (Nat × Block) := events.filterMap StoreEvent.write?

/-- Contents that a crash during the replay may leave: of the requests completed before it, all
writes up to a flush are there, and of the writes after the last flush any subset is. -/
def CrashImage (s : Store) (image : Nat → Block) : Prop :=
  ∃ durable cached later kept,
    (replayJournal s).2.log = s.log ++ (durable ++ cached ++ later) ∧
    (durable = [] ∨ durable.getLast? = some .flush) ∧ .flush ∉ cached ∧
    kept.Sublist (writesOf cached) ∧ image = apply (writesOf durable ++ kept) s.block

/-- The store is still recovering with its journal intact, and replaying again gives what the
uninterrupted replay gives. -/
structure Restartable (s : Store) (sb : Superblock) (n : Nat) (image : Nat → Block) : Prop where
  root : readSuperblock (s.after image s.log) 0 = .ok sb
  journal : ∀ index < n, checkedRecord (s.after image s.log) sb n index = checkedRecord s sb n index
  outcome : (replayJournal (s.after image s.log)).1 = (replayJournal s).1
  contents : (replayJournal (s.after image s.log)).2.block = (replayJournal s).2.block

structure Finished (s : Store) (journal : List Journalled) (image : Nat → Block) : Prop where
  root : ∃ clean, clean.Clean ∧ readSuperblock (s.after image s.log) 0 = .ok clean
  targets : ∀ r ∈ journal, image r.1.targetLba = r.2

/-- Every crash during the replay leaves the store restartable or finished. -/
def CrashSafe (s : Store) (sb : Superblock) (journal : List Journalled) : Prop :=
  ∀ image, CrashImage s image → Restartable s sb journal.length image ∨ Finished s journal image

namespace Recovering
variable {s : Store} {sb : Superblock} {records : List Journalled} {final : Journalled}
  {image : Nat → Block}

section
variable (valid : Recovering s sb records final)
include valid

theorem final_target : final.1.targetLba = 0 :=
  (checkedRecord_facts (valid.checked records.length final (by simp))).2 rfl

theorem final_write : final.write = (0, final.2) := by
  rw [Journalled.write, valid.final_target]

theorem run : replayJournal s =
    (.ok (.replayed sb.sequenceNumber (records.length + 1) final.1.finalCheckpointLba),
      s.after (apply (replayWrites records final) s.block)
        (s.log ++ (records ++ [final]).map Journalled.event ++ [.flush, .flush])) :=
  valid.replayJournal_run s.log rfl fun _ _ => rfl

end

theorem writesOf_map_event (journal : List Journalled) :
    writesOf (journal.map Journalled.event) = journal.map Journalled.write := by
  induction journal with
  | nil => rfl
  | cons r journal ih => exact congrArg (r.write :: ·) ih

section
variable (valid : Recovering s sb records final)
include valid

theorem crashImage_kept (crash : CrashImage s image) :
    ∃ kept, kept.Sublist (replayWrites records final) ∧ image = apply kept s.block := by
  obtain ⟨durable, cached, later, kept, log, -, -, part, rfl⟩ := crash
  refine ⟨_, ?_, rfl⟩
  rw [valid.run] at log
  dsimp only [Store.after] at log
  rw [append_assoc] at log
  have all : replayWrites records final = writesOf durable ++ writesOf cached ++ writesOf later := by
    have eq := congrArg writesOf (append_cancel_left log)
    rw [writesOf, filterMap_append] at eq
    rw [writesOf, writesOf, writesOf, ← filterMap_append, ← filterMap_append]
    refine Eq.trans ?_ eq
    rw [replayWrites, ← map_singleton, ← map_append, ← writesOf_map_event]
    exact (append_nil _).symm
  rw [all]
  exact ((List.Sublist.refl _).append part).trans (sublist_append_left _ _)

theorem crashImage_final : CrashImage s (update s.block 0 final.2) := by
  refine ⟨[], (records ++ [final]).map Journalled.event, [.flush, .flush], [final.write],
    ?_, .inl rfl, ?_, ?_, ?_⟩
  · rw [valid.run]
    simp [Store.after]
  · simp [Journalled.event]
  · rw [writesOf_map_event, map_append]
    exact sublist_append_right _ _
  rw [valid.final_write]
  rfl

theorem restartable {kept : List (Nat × Block)}
    (part : kept.Sublist (records.map Journalled.write)) :
    Restartable s sb (records.length + 1) (apply kept s.block) := by
  have touched : ∀ w ∈ kept, ∃ r ∈ records, r.1.targetLba = w.1 := by
    intro w inside
    obtain ⟨r, mem, rfl⟩ := mem_map.mp (part.subset inside)
    exact ⟨r, mem, rfl⟩
  have root : apply kept s.block 0 = s.block 0 := by
    apply apply_of_untouched
    intro w inside
    obtain ⟨r, mem, target⟩ := touched w inside
    rw [← target]
    exact (valid.targets r mem).2.1
  have eq : ∀ lba, sb.InJournal (records.length + 1) lba → apply kept s.block lba = s.block lba := by
    intro lba journal
    apply apply_of_untouched
    intro w inside here
    obtain ⟨r, mem, target⟩ := touched w inside
    rw [← here, ← target] at journal
    exact (valid.targets r mem).2.2 journal
  have again := valid.replayJournal_run s.log root eq
  constructor
  · rw [readSuperblock_congr (readBlock_after root), valid.root]
  · exact fun index inside => checkedRecord_after inside eq
  · rw [again, valid.run]
  rw [again, valid.run]
  exact apply_apply_of_sublist (part.trans (sublist_append_left _ _))

theorem not_restartable : ¬Restartable s sb (records.length + 1) (update s.block 0 final.2) := by
  intro again
  obtain ⟨clean, ⟨state, -⟩, read⟩ := valid.publishes
  rw [again.root] at read
  cases read
  rw [valid.state] at state
  exact absurd state (by decide)

end
end Recovering

def rootStore (rootState journalStartLba journalEndLba : Nat) : Superblock where
  formatGuid := formatGuid
  formatVersion := formatVersion
  typeSystemVersion := typeSystemVersion
  instanceUuid := List.replicate 16 7
  sequenceNumber := 2
  blockSize := blockSize
  checkpointLba := 7
  backupCheckpointLba := 0
  journalStartLba := journalStartLba
  journalEndLba := journalEndLba
  compatibleFeatures := 0
  roCompatibleFeatures := 0
  incompatibleFeatures := baseIncompatFeatures
  rootState := rootState
  rootFlags := 0

def recoveringRoot : Superblock := rootStore rootStateRecovering 8 12

def cleanRoot : Superblock := rootStore rootStateClean 0 0

def journalled (index targetLba flags : Nat) (data : Block) : Journalled :=
  ({ sequenceNumber := 2, recordIndex := index, recordCount := 2, targetLba
     dataLba := 8 + index * 2 + 1, dataCrc32c := crc32c data.bytes, flags
     finalCheckpointLba := 7 }, data)

def payload : Journalled := journalled 0 6 0 (ofBytes [1])

def publication : Journalled :=
  journalled 1 0 journalRecordFlagFinalSuperblock (makeSuperblockBlock cleanRoot)

/-- Block 6 is to be rewritten and the clean superblock published. -/
def interrupted : Store where
  size := 16
  block
    | 0 => makeSuperblockBlock recoveringRoot
    | 8 => buildJournalRecordBlock payload.1 8
    | 9 => payload.2
    | 10 => buildJournalRecordBlock publication.1 10
    | 11 => publication.2
    | _ => zero
  unreadable _ := false
  unwritable _ := false
  flushFaults := []
  log := []

theorem rootStore_fits {rootState start stop : Nat} (bounds : start ≤ 12 ∧ stop ≤ 12) :
    (rootStore rootState start stop).Fits where
  instanceUuid := rfl
  sequenceNumber := (by decide : 2 ≤ u64Max)
  checkpointLba := (by decide : 7 ≤ u64Max)
  journalStartLba := bounds.1.trans (by decide)
  journalEndLba := bounds.2.trans (by decide)

theorem recoveringRoot_accepted : recoveringRoot.Accepted :=
  ⟨rfl, rfl, rfl, rfl, rfl, rfl, rfl, .inl rfl, .inr rfl, rfl, by decide⟩

theorem cleanRoot_accepted : cleanRoot.Accepted :=
  ⟨rfl, rfl, rfl, rfl, rfl, rfl, rfl, .inl rfl, .inl rfl, rfl, by decide⟩

theorem journalled_fits {index targetLba flags : Nat} {data : Block}
    (bounds : index ≤ 1 ∧ targetLba ≤ 6 ∧ flags ≤ 1) :
    (journalled index targetLba flags data).1.Fits where
  sequenceNumber := (by decide : 2 ≤ u64Max)
  recordIndex := bounds.1.trans (by decide)
  recordCount := (by decide : 2 ≠ 0 ∧ 2 ≤ u32Max)
  targetLba := bounds.2.1.trans (by decide)
  dataLba := (by
    have small := bounds.1
    calc
      8 + index * 2 + 1 ≤ 11 := by omega
      _ ≤ u64Max := by decide)
  dataCrc32c := crc32c_le _
  flags := bounds.2.2.trans (by decide)
  finalCheckpointLba := (by decide : 7 ≤ u64Max)

theorem payload_read : readJournalRecord interrupted 8 payload.1.sequenceNumber =
    .ok payload.1 :=
  readJournalRecord_build (journalled_fits (by decide)) (by decide) rfl

theorem publication_read : readJournalRecord interrupted 10 publication.1.sequenceNumber =
    .ok publication.1 :=
  readJournalRecord_build (journalled_fits (by decide)) (by decide) rfl

theorem interrupted_checked (index : Nat) (r : Journalled)
    (found : ([payload] ++ [publication])[index]? = some r) :
    checkedRecord interrupted recoveringRoot 2 index = .ok r := by
  match index with
  | 0 =>
    rw [← Option.some.inj found]
    exact checkedRecord_of (by decide) payload_read (by decide) rfl rfl rfl (by decide)
  | 1 =>
    rw [← Option.some.inj found]
    exact checkedRecord_of (by decide) publication_read (by decide) rfl rfl rfl (by decide)
  | index + 2 => exact nomatch found

theorem interrupted_recovering : Recovering interrupted recoveringRoot [payload] publication where
  works := ⟨fun _ => rfl, fun _ => rfl, rfl⟩
  root := readSuperblock_make rfl (rootStore_fits (by decide)) recoveringRoot_accepted
  state := rfl
  start := by decide
  span := rfl
  count := by decide
  checked := interrupted_checked
  targets := by
    intro r mem
    rw [mem_singleton.mp mem]
    exact ⟨by decide, by decide, fun journal => absurd journal.1 (by decide)⟩
  named := by decide
  publishes := ⟨cleanRoot, ⟨rfl, rfl, rfl⟩,
    readSuperblock_make rfl (rootStore_fits (by decide)) cleanRoot_accepted⟩

/-- The replay of a valid journal is safe against crashes exactly when every target but the
superblock held its journalled block before. -/
theorem replay_crashSafe_iff {s : Store} {sb : Superblock} {records : List Journalled}
    {final : Journalled} (valid : Recovering s sb records final) :
    CrashSafe s sb (records ++ [final]) ↔ ∀ r ∈ records, s.block r.1.targetLba = r.2 := by
  rw [CrashSafe, length_append, length_singleton]
  constructor
  · intro safe r mem
    rcases safe _ valid.crashImage_final with again | finished
    · exact absurd again valid.not_restartable
    have held := finished.targets r (mem_append_left _ mem)
    rwa [update_of_ne (valid.targets r mem).2.1] at held
  intro held image crash
  obtain ⟨kept, part, rfl⟩ := valid.crashImage_kept crash
  obtain ⟨kept, last, rfl, nonfinal, lastPart⟩ := sublist_append_iff.mp part
  rcases sublist_singleton.mp lastPart with rfl | rfl
  · rw [append_nil]
    exact .inl (valid.restartable nonfinal)
  right
  have unchanged : apply kept s.block = s.block := by
    apply apply_of_held
    intro w inside
    obtain ⟨r, mem, rfl⟩ := mem_map.mp (nonfinal.subset inside)
    exact held r mem
  rw [valid.final_write, apply_concat, unchanged]
  refine ⟨valid.publishes, fun r mem => ?_⟩
  rcases mem_append.mp mem with mem | mem
  · rw [update_of_ne (valid.targets r mem).2.1, held r mem]
  · rw [mem_singleton.mp mem, valid.final_target, update_self]

theorem replay_crashSafe_iff_interrupted :
    Recovering interrupted recoveringRoot [payload] publication ∧
      (CrashSafe interrupted recoveringRoot ([payload] ++ [publication]) ↔
        ∀ r ∈ [payload], interrupted.block r.1.targetLba = r.2) :=
  ⟨interrupted_recovering, replay_crashSafe_iff interrupted_recovering⟩

/-- The write of the clean superblock survives and that of block 6 is lost: the store is clean,
nothing is replayed again, and block 6 keeps its old contents. -/
theorem replay_crash_loses_target :
    Recovering interrupted recoveringRoot [payload] publication ∧
      ∃ image, CrashImage interrupted image ∧
        readSuperblock (interrupted.after image []) 0 = .ok cleanRoot ∧ cleanRoot.Clean ∧
        payload.1.targetLba = 6 ∧ image 6 = zero ∧ payload.2 ≠ zero ∧
        ¬Restartable interrupted recoveringRoot 2 image ∧
        ¬Finished interrupted ([payload] ++ [publication]) image := by
  have differs : payload.2 ≠ zero := by
    intro eq
    have first : payload.2.bytes.head? = zero.bytes.head? := by rw [eq]
    exact absurd first (by decide)
  refine ⟨interrupted_recovering, _, interrupted_recovering.crashImage_final, ?_, ⟨rfl, rfl, rfl⟩,
    rfl, rfl, differs, interrupted_recovering.not_restartable, ?_⟩
  · exact readSuperblock_make rfl (rootStore_fits (by decide)) cleanRoot_accepted
  intro finished
  exact differs (finished.targets payload (by simp)).symm

end HuesOS.Hxfs
