import HuesOS.Hxfs.Outcomes
import HuesOS.Hxfs.Publish
import HuesOS.Lib.Runs

namespace HuesOS.Hxfs
open HxM Bytes

inductive Call
  | mkdirChild (parent : Nat) (name : List UInt8)
  | createFileChild (parent : Nat) (name : List UInt8)
  | mkdirPath (path : List UInt8)
  | createFilePath (path : List UInt8)
  | writeFileAt (objectId offset : Nat) (data : List UInt8)
  | truncateFile (objectId newSize : Nat)
  | renameChild (oldParent : Nat) (oldName : List UInt8) (newParent : Nat) (newName : List UInt8)
  | renamePath (source target : List UInt8)
  | unlinkChild (parent : Nat) (name : List UInt8)
  | unlinkPath (path : List UInt8)
  | retainExtentsForSnapshot
  | releaseExtentsForSnapshot (pinned : List (Nat × Nat))
  | putBlob (data : List UInt8)
  | setQuotaLimits (physicalBytes objects : Nat)
  | setJobQuota (jobId physicalBytes objects : Nat)
  | setActiveJob (job : Option Nat)
  | publishCheckpoint
  | readFile (objectId room : Nat)
  | readFileAt (objectId offset len : Nat)
  deriving DecidableEq

def HxM.void {α : Type} (x : HxM α) : HxM Unit := fun w =>
  match x w with
  | (.ok _, w') => (.ok (), w')
  | (.error s, w') => (.error s, w')

theorem HxM.void_eq_ok {α : Type} {x : HxM α} {w w' : Writer} :
    void x w = (.ok (), w') ↔ ∃ a, x w = (.ok a, w') := by
  rw [void]
  rcases x w with ⟨_ | a, w1⟩ <;> simp

theorem HxM.void_snd {α : Type} (x : HxM α) (w : Writer) : (void x w).2 = (x w).2 := by
  rw [void]
  rcases x w with ⟨_ | a, w1⟩ <;> rfl

namespace Call

def run (E : Engines) : Call → HxM Unit
  | mkdirChild parent name => void (Writer.mkdirChild parent name)
  | createFileChild parent name => void (Writer.createFileChild parent name)
  | mkdirPath path => void (Writer.mkdirPath path)
  | createFilePath path => void (Writer.createFilePath path)
  | writeFileAt objectId offset data => void (Writer.writeFileAt E objectId offset data)
  | truncateFile objectId newSize => void (Writer.truncateFile objectId newSize)
  | renameChild oldParent oldName newParent newName =>
    Writer.renameChild oldParent oldName newParent newName
  | renamePath source target => Writer.renamePath source target
  | unlinkChild parent name => Writer.unlinkChild parent name
  | unlinkPath path => Writer.unlinkPath path
  | retainExtentsForSnapshot => void Writer.retainExtentsForSnapshot
  | releaseExtentsForSnapshot pinned => void (Writer.releaseExtentsForSnapshot pinned)
  | putBlob data => void (Writer.putBlob E data)
  | setQuotaLimits physicalBytes objects => Writer.setQuotaLimits physicalBytes objects
  | setJobQuota jobId physicalBytes objects => Writer.setJobQuota jobId physicalBytes objects
  | setActiveJob job => Writer.setActiveJob job
  | publishCheckpoint => void (Writer.publishCheckpoint E)
  | readFile objectId room => void (Writer.readFile E objectId room)
  | readFileAt objectId offset len => void (Writer.readFileAt E objectId offset len)

def Succeeds (E : Engines) (c : Call) (w w' : Writer) : Prop := c.run E w = (.ok (), w')

def Leads (E : Engines) (c : Call) (w w' : Writer) : Prop := (c.run E w).2 = w'

end Call

namespace Writer

def rootDirectory : ObjectDescriptor := freshDescriptor 1 objectTypeDirectory

/-- A plain volume of `size` blocks that holds nothing but its root directory. -/
def blank (caps : Capacities) (size : Nat) : Writer where
  store := { size, block := fun _ => Block.zero, unreadable := fun _ => false
             unwritable := fun _ => false, flushFaults := [], log := [] }
  superblock := makeSuperblock (zeros 16) 0 0 0 0 rootStateClean
  checkpoint :=
    { sequenceNumber := 0, volumeTableLba := 0, volumeCount := 1
      systemVolumeUuid := zeros 16, allocationTreeLba := 0, refcountTreeLba := 0
      backrefTreeLba := 0, quotaTreeLba := 0, encryptionPolicyTreeLba := 0
      compressionPolicyTreeLba := 0, hxblobIndexTreeLba := 0, hxblobMerkleTreeLba := 0
      virtualVolumeTreeLba := 0, gptSummaryLba := 0, installManifestLba := 0 }
  systemVolume :=
    { uuid := zeros 16, rootObjectId := 1, objectTableLba := 0, objectCount := 1
      flags := volumeFlagSystem, encryptionPolicyId := 0, compressionPolicyId := 0
      quotaPhysicalBytes := 0, quotaObjects := 0 }
  encryption := none
  encryptionPolicies := []
  metadataKey := none
  extentKey := none
  volumeUuid := zeros 16
  compressionPolicies := []
  badExtents := []
  hxblobIndex := Slots.empty maxHxblobs
  quotaTree := Slots.empty maxQuotaRecords
  activeJob := none
  objects := some rootDirectory :: Slots.empty (caps.objects - 1)
  dirEntries := Slots.empty caps.dirEntries
  extents := Slots.empty caps.extents
  nextObjectId := 2
  nextLba := 1
  cacheVolumeId := 0
  pageCache := PageCache.empty
  pendingFree := Slots.empty caps.extents
  freeSpace := Slots.empty caps.extents
  snapshotRefs := Slots.empty caps.extents
  legacyReadOnly := false
  dirty := false
  issued := []
  requested := []

/-- A call by path is refused, or it is the call by handle on the parent that the path names. -/
def ViaParent {α : Type} (path : List UInt8) (f : Nat → List UInt8 → HxM α) (call : HxM α)
    (w : Writer) : Prop :=
  (∃ e, call w = (.error (.error e), w)) ∨
    ∃ parent name, w.parentAndName path = .ok (parent, name) ∧ call w = f parent name w

theorem viaParent_cases {α : Type} (path : List UInt8) (f : Nat → List UInt8 → HxM α) (w : Writer) :
    ViaParent path f (do
      ensureMutableV6
      let (parent, name) ← view (·.parentAndName path)
      f parent name) w := by
  cases writable : w.legacyReadOnly with
  | true => exact .inl ⟨_, ensureMutableV6_bind_error writable⟩
  | false =>
  rw [ViaParent, ensureMutableV6_bind_ok writable]
  cases named : w.parentAndName path with
  | error e => exact .inl ⟨e, view_bind_error named⟩
  | ok pair => exact .inr ⟨pair.1, pair.2, rfl, view_bind_ok named⟩

theorem mkdirPath_cases (path : List UInt8) (w : Writer) :
    ViaParent path mkdirChild (mkdirPath path) w :=
  viaParent_cases path mkdirChild w

theorem createFilePath_cases (path : List UInt8) (w : Writer) :
    ViaParent path createFileChild (createFilePath path) w :=
  viaParent_cases path createFileChild w

theorem unlinkPath_cases (path : List UInt8) (w : Writer) :
    ViaParent path unlinkChild (unlinkPath path) w :=
  viaParent_cases path unlinkChild w

theorem renamePath_cases (source target : List UInt8) (w : Writer) :
    (∃ e, renamePath source target w = (.error (.error e), w)) ∨
      ∃ oldParent oldName newParent newName,
        w.parentAndName source = .ok (oldParent, oldName) ∧
        w.parentAndName target = .ok (newParent, newName) ∧
        renamePath source target w = renameChild oldParent oldName newParent newName w := by
  rw [renamePath]
  cases writable : w.legacyReadOnly with
  | true => exact .inl ⟨_, ensureMutableV6_bind_error writable⟩
  | false =>
  rw [ensureMutableV6_bind_ok writable]
  cases named : w.parentAndName source with
  | error e => exact .inl ⟨e, view_bind_error named⟩
  | ok old =>
  rw [view_bind_ok named]
  cases placed : w.parentAndName target with
  | error e => exact .inl ⟨e, view_bind_error placed⟩
  | ok new => exact .inr ⟨old.1, old.2, new.1, new.2, rfl, rfl, view_bind_ok placed⟩

end Writer
end HuesOS.Hxfs
