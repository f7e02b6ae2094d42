import HuesOS.Hxfs.Outcomes

namespace HuesOS.Hxfs
open Exec HxM FixedExtent

def FixedExtent.deviceBlocks (entry : FixedExtent) : Nat :=
  if hasFlag entry.extent.flags extentFlagMultiSlot then 2 else entry.extent.blockCount

def FixedExtent.Occupies (entry : FixedExtent) (lba : Nat) : Prop :=
  entry.isHole = false ∧ entry.extent.physicalBlock ≤ lba ∧
    lba < entry.extent.physicalBlock + entry.deviceBlocks

theorem FixedExtent.Occupies.of_offset {entry : FixedExtent} (stored : entry.isHole = false)
    {off : Nat} (inside : off < entry.deviceBlocks) :
    entry.Occupies (entry.extent.physicalBlock + off) :=
  ⟨stored, by omega, by omega⟩

namespace HxM
variable {α : Type} {R : Writer → Writer → Prop}

theorem view_alike {f : Writer → Parsed α} (h : ∀ w w', R w w' → f w = f w') : (view f).Alike R := by
  intro w w' related
  rw [view_run, view_run, h w w' related]
  cases f w' <;> exact ⟨rfl, related⟩

theorem require_alike (condition : Bool) (e : HxfsError) : (require condition e).Alike R := by
  intro w w' related
  rw [require_run, require_run]
  cases condition <;> exact ⟨rfl, related⟩

theorem addU64_alike {β : Type} {a b : Nat} {f : Nat → HxM β} (hf : (f (a + b)).Alike R) :
    (ofFault (addU64 a b) >>= f).Alike R := by
  rw [addU64]
  split
  · exact hf
  · exact alike_stop _

end HxM

namespace Writer

/-- Two states that a read of data in the blocks `B` cannot tell apart. -/
structure ReadsAlike (B : Nat → Prop) (w w' : Writer) : Prop where
  badExtents : w'.badExtents = w.badExtents
  pageCache : w'.pageCache = w.pageCache
  cacheVolumeId : w'.cacheVolumeId = w.cacheVolumeId
  extentKey : w'.extentKey = w.extentKey
  volumeUuid : w'.volumeUuid = w.volumeUuid
  device : ∀ lba, B lba → w'.store.readBlock lba = w.store.readBlock lba

variable {B : Nat → Prop} {w w' : Writer}

namespace ReadsAlike
variable (h : ReadsAlike B w w')
include h

theorem withPageCache {cache cache' : PageCache}
    (same : cache' = cache) :
    ReadsAlike B { w with pageCache := cache } { w' with pageCache := cache' } :=
  ⟨h.badExtents, same, h.cacheVolumeId, h.extentKey, h.volumeUuid, h.device⟩

theorem markBadExtent (lba : Nat) : ReadsAlike B (markBadExtent lba w) (markBadExtent lba w') := by
  rw [Writer.markBadExtent, Writer.markBadExtent, isBadExtent, isBadExtent, h.badExtents]
  split
  · exact h
  · exact ⟨rfl, h.pageCache, h.cacheVolumeId, h.extentKey, h.volumeUuid, h.device⟩

theorem decrypt (E : Engines) (lba gen : Nat)
    (block : Block) : decryptExtentBlockIfEncrypted E w' lba gen block =
      decryptExtentBlockIfEncrypted E w lba gen block := by
  rw [decryptExtentBlockIfEncrypted, decryptExtentBlockIfEncrypted, h.extentKey, h.volumeUuid]

theorem readTwoSlots (E : Engines) {extent : ExtentRecord}
    (first : B extent.physicalBlock) (second : B (extent.physicalBlock + 1)) :
    readTwoSlots E w' extent = readTwoSlots E w extent := by
  rw [Writer.readTwoSlots, Writer.readTwoSlots, h.extentKey, h.device _ first]
  by_cases le : extent.physicalBlock + 1 ≤ u64Max
  · simp only [addU64, if_pos le, Built.ofFault, bind, Except.bind, h.device _ second, h.decrypt]
  · simp only [addU64, if_neg le, Built.ofFault, bind, Except.bind]

theorem decodeExtentBlock (E : Engines) {entry : FixedExtent}
    (inside : ∀ lba, entry.Occupies lba → B lba) (stored : entry.isHole = false)
    {blockOffset : Nat} (within : blockOffset < entry.extent.blockCount) :
    decodeExtentBlock E w' entry.extent entry.compression blockOffset
        (entry.extent.physicalBlock + blockOffset) =
      decodeExtentBlock E w entry.extent entry.compression blockOffset
        (entry.extent.physicalBlock + blockOffset) := by
  rw [Writer.decodeExtentBlock, Writer.decodeExtentBlock]
  cases multi : hasFlag entry.extent.flags extentFlagMultiSlot with
  | true =>
    have two : entry.deviceBlocks = 2 := by rw [deviceBlocks, multi]; rfl
    have first : B (entry.extent.physicalBlock + 0) := inside _ (.of_offset stored (by omega))
    have second : B (entry.extent.physicalBlock + 1) := inside _ (.of_offset stored (by omega))
    rw [h.readTwoSlots E first second, if_pos rfl, if_pos rfl]
  | false =>
    have count : entry.deviceBlocks = entry.extent.blockCount := by
      rw [deviceBlocks, multi]
      rfl
    have here : B (entry.extent.physicalBlock + blockOffset) := inside _ (.of_offset stored (by omega))
    simp only [Bool.false_eq_true, if_false, h.device _ here, h.decrypt]

end ReadsAlike

section Programs
variable {E : Engines} {entry : FixedExtent} (inside : ∀ lba, entry.Occupies lba → B lba)
  (stored : entry.isHole = false)

include inside stored

theorem readExtentBlock_alike {blockOffset : Nat} (within : blockOffset < entry.extent.blockCount) :
    (readExtentBlock E entry.extent entry.compression blockOffset).Alike (ReadsAlike B) := by
  rw [readExtentBlock]
  apply addU64_alike
  refine alike_bind (x := fun w => _) ?_ fun hit => ?_
  · intro w w' h
    have eq : w'.pageCache.lookup w'.cacheVolumeId (entry.extent.physicalBlock + blockOffset) 0 =
        w.pageCache.lookup w.cacheVolumeId (entry.extent.physicalBlock + blockOffset) 0 := by
      rw [h.pageCache, h.cacheVolumeId]
    exact ⟨congrArg (fun found => Except.ok found.1) eq.symm, h.withPageCache (congrArg Prod.snd eq)⟩
  cases hit with
  | some page => exact alike_pure page
  | none =>
    refine alike_bind (x := fun w => _) ?_ fun page => ?_
    · intro w w' h
      exact ⟨(h.decodeExtentBlock E inside stored within).symm, h⟩
    refine alike_bind (alike_modify fun w w' h => ?_) fun _ => alike_pure page
    apply h.withPageCache
    rw [h.pageCache, h.cacheVolumeId]

theorem copyBlocks_alike {start copyEnd : Nat}
    (bound : copyEnd ≤ start + entry.extent.blockCount * blockSize) (fuel copied : Nat)
    (from_start : start ≤ copied) (out : List UInt8) :
    (copyBlocks E entry.extent entry.compression start copyEnd fuel copied out).Alike (ReadsAlike B) := by
  induction fuel generalizing copied out with
  | zero => exact alike_pure out
  | succ fuel ih =>
    rw [copyBlocks]
    by_cases more : copied < copyEnd
    · rw [if_pos more]
      have within : (copied - start) / blockSize < entry.extent.blockCount := by
        rw [Nat.div_lt_iff_lt_mul (by decide)]
        omega
      have read := readExtentBlock_alike (E := E) inside stored within
      refine alike_bind (x := fun w => _) ?_ fun block => ih _ (by omega) _
      intro w w' h
      obtain ⟨eq, after⟩ := read w w' h
      dsimp only
      rcases hw : readExtentBlock E entry.extent entry.compression ((copied - start) / blockSize) w with ⟨r, w1⟩
      rcases hw' : readExtentBlock E entry.extent entry.compression
        ((copied - start) / blockSize) w' with ⟨q, w2⟩
      rw [hw, hw'] at eq after
      dsimp only at eq after
      subst eq
      match r with
      | .ok block => exact ⟨rfl, after⟩
      | .error (.error e) => exact ⟨rfl, after.markBadExtent _⟩
      | .error (.fault f) => exact ⟨rfl, after⟩
    rw [if_neg more]
    exact alike_pure out

theorem copyTwoSlots_alike (two : entry.deviceBlocks = 2) (start copyEnd : Nat) (out : List UInt8) :
    (copyTwoSlots E entry.extent start copyEnd out).Alike (ReadsAlike B) := by
  have first : B (entry.extent.physicalBlock + 0) := inside _ (.of_offset stored (by omega))
  have second : B (entry.extent.physicalBlock + 1) := inside _ (.of_offset stored (by omega))
  rw [copyTwoSlots]
  refine alike_bind (alike_gets fun w w' h => h.extentKey.symm) fun key => ?_
  refine alike_bind (require_alike _ _) fun _ => ?_
  refine alike_bind (view_alike fun w w' h => (h.device _ first).symm) fun slot0 => ?_
  apply addU64_alike
  refine alike_bind (view_alike fun w w' h => (h.device _ second).symm) fun slot1 => ?_
  refine alike_bind ?_ fun plain0 => alike_bind ?_ fun plain1 => alike_pure _
  all_goals
    intro w w' h
    dsimp only
    rw [h.decrypt]
    split
    · exact ⟨rfl, h⟩
    · exact ⟨rfl, h.markBadExtent _⟩

end Programs

theorem copyExtent_alike (E : Engines) {entry : FixedExtent}
    (inside : ∀ lba, entry.Occupies lba → B lba) (out : List UInt8) :
    (copyExtent E entry out).Alike (ReadsAlike B) := by
  rw [copyExtent]
  refine alike_bind (require_alike _ _) fun _ => ?_
  split
  · exact alike_pure out
  cases hole : entry.isHole with
  | true => exact alike_pure _
  | false =>
    refine alike_bind (alike_gets fun w w' h => ?_) fun bad => ?_
    · rw [isBadExtent, isBadExtent, h.badExtents]
    refine alike_bind (require_alike _ _) fun _ => ?_
    cases multi : hasFlag entry.extent.flags extentFlagMultiSlot with
    | true =>
      have two : entry.deviceBlocks = 2 := by rw [deviceBlocks, multi]; rfl
      exact copyTwoSlots_alike inside hole two _ _ _
    | false => exact copyBlocks_alike inside hole (Nat.min_le_left _ _) _ _ le_rfl _

theorem copyExtentList_alike (E : Engines) {extents : List FixedExtent}
    (inside : ∀ e ∈ extents, ∀ lba, e.Occupies lba → B lba) (out : List UInt8) :
    (copyExtentList E extents out).Alike (ReadsAlike B) := by
  induction extents generalizing out with
  | nil => exact alike_pure out
  | cons entry rest ih =>
    refine alike_bind (copyExtent_alike E (inside entry List.mem_cons_self) out) fun out' => ?_
    exact ih (fun e he => inside e (.tail _ he)) out'

theorem readFile_of_copies (E : Engines) {id room : Nat}
    (target : w'.object id = w.object id)
    (copies : ∀ size, (copyExtentList E (w'.extentsOf id) (Bytes.zeros size) w').1 =
      (copyExtentList E (w.extentsOf id) (Bytes.zeros size) w).1) :
    (readFile E id room w').1 = (readFile E id room w).1 := by
  rw [readFile]
  cases found : w.object id with
  | error e => rw [view_bind_error (target.trans found), view_bind_error found]
  | ok o =>
    rw [view_bind_ok (target.trans found), view_bind_ok found]
    cases isFile : o.objectType == objectTypeFile with
    | false => rw [require_bind_false rfl, require_bind_false rfl]
    | true =>
    rw [require_bind_true rfl, require_bind_true rfl]
    cases le : decide (o.size ≤ room) with
    | false => rw [require_bind_false rfl, require_bind_false rfl]
    | true =>
    rw [require_bind_true rfl, require_bind_true rfl, gets_bind, gets_bind]
    exact copies o.size

/-- States that agree on a file and on the blocks it is stored in read the same. -/
theorem readFile_congr (E : Engines) {id room : Nat} (h : ReadsAlike B w w')
    (target : w'.object id = w.object id)
    (eq : w'.extentsOf id = w.extentsOf id)
    (inside : ∀ e ∈ w.extentsOf id, ∀ lba, e.Occupies lba → B lba) :
    (readFile E id room w').1 = (readFile E id room w).1 := by
  refine readFile_of_copies E target fun size => ?_
  rw [eq]
  exact ((copyExtentList_alike E inside _) w w' h).1.symm

end Writer
end HuesOS.Hxfs
