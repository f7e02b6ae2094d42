import HuesOS.Hxfs.Atomicity

namespace HuesOS.Hxfs
open List Exec Slots HxM Writer HxblobIndexTree

namespace Writer
variable {E : Engines} {w w' : Writer}

variable {objectType parent : Nat} {name data hash : List UInt8} {α : Type}

structure BlobAdmitted (E : Engines) (data : List UInt8) (w : Writer) : Prop where
  writable : w.legacyReadOnly = false
  unknown : (lookup (E.sha256 data) w.hxblobIndex).isOk = false
  room : (live w.hxblobIndex).length < maxHxblobs

def firstCreation (hash : List UInt8) (w : Writer) : Nat × List UInt8 :=
  match w.openChildDir w.systemVolume.rootObjectId blobsDir with
  | .error _ => (w.systemVolume.rootObjectId, blobsDir)
  | .ok base => match w.openChildDir base (shardName hash) with
      | .error _ => (base, shardName hash)
      | .ok shard => (shard, hexEncode hash)

/-- If the first tests pass, the first creation is refused or finds no object slot: what fails after it
leaves an object. -/
def PutClean (E : Engines) (data : List UInt8) (w : Writer) : Prop :=
  BlobAdmitted E data w →
    CreateAdmitted (firstCreation (E.sha256 data) w).1 (firstCreation (E.sha256 data) w).2 w →
    none ∉ w.objects

end Writer

/-- What the state has to offer for a failure of the call not to be seen. -/
def Call.Clean (E : Engines) (w : Writer) : Call → Prop
  | .mkdirChild parent name | .createFileChild parent name => Writer.CreateClean parent name w
  | .mkdirPath path | .createFilePath path => ∀ parent name,
      w.parentAndName path = .ok (parent, name) → Writer.CreateClean parent name w
  | .writeFileAt objectId offset data => Writer.WriteClean E objectId offset data w
  | .renameChild oldParent oldName newParent newName => ∀ entry,
      Writer.RenameAdmitted oldParent oldName newParent newName entry w → validName newName = true
  | .putBlob data => Writer.PutClean E data w
  | .setQuotaLimits physicalBytes objects => Writer.LimitsClean physicalBytes objects w
  | _ => True

end HuesOS.Hxfs
