import HuesOS.Hxfs.Format
import Mathlib

/-! Checksums and the external engines. AES-256-GCM, HKDF, LZ4 and SHA-256 are third-party
code: a value of `Engines` is any implementation that meets their contracts. -/

namespace HuesOS.Hxfs
open Bytes

def crcBit (crc : UInt32) : UInt32 := (crc >>> 1) ^^^ (0x82f63b78 &&& (0 - (crc &&& 1)))

def crcByte (crc : UInt32) (byte : UInt8) : UInt32 :=
  (List.range 8).foldl (fun c _ => crcBit c) (crc ^^^ byte.toUInt32)

def crc32c (bytes : List UInt8) : Nat := (~~~(bytes.foldl crcByte 0xffffffff)).toNat

/-- The checksum of a metadata block, with the stored checksum at bytes 32..36 read as zero. -/
def metadataCrc32c (bytes : List UInt8) : Nat := crc32c (bytes.take 32 ++ zeros 4 ++ bytes.drop 36)

example : crc32c [0x31, 0x32, 0x33, 0x34, 0x35, 0x36, 0x37, 0x38, 0x39] = 0xe3069283 := by
  decide +kernel

structure Engines where
  /-- AES-256-GCM under a key, a nonce and associated data: ciphertext followed by the tag. -/
  encrypt : List UInt8 → List UInt8 → List UInt8 → List UInt8 → List UInt8
  decrypt : List UInt8 → List UInt8 → List UInt8 → List UInt8 → Option (List UInt8)
  /-- LZ4 block compression of the input into a buffer of the given size. -/
  compressLz4 : List UInt8 → Nat → Option (List UInt8)
  decompressLz4 : List UInt8 → Nat → Option (List UInt8)
  sha256 : List UInt8 → List UInt8
  /-- The HKDF subkeys of a volume key, salted with the volume's uuid. -/
  metadataSubkey : List UInt8 → Uuid → List UInt8
  extentSubkey : List UInt8 → Uuid → List UInt8
  encrypt_length : ∀ key nonce aad plain, (encrypt key nonce aad plain).length = plain.length + 16
  decrypt_encrypt : ∀ key nonce aad plain, decrypt key nonce aad (encrypt key nonce aad plain) = some plain
  decrypt_length : ∀ {key nonce aad cipher plain}, decrypt key nonce aad cipher = some plain →
    plain.length + 16 = cipher.length
  decompress_compress : ∀ {input payload room}, compressLz4 input room = some payload →
    decompressLz4 payload input.length = some input
  decompress_length : ∀ {payload room output}, decompressLz4 payload room = some output →
    output.length ≤ room
  sha256_length : ∀ input, (sha256 input).length = 32

def maxPlaintextBytes : Nat := 4028
def nonceBytes : Nat := 12
def tagBytes : Nat := 16
def encryptedBytes : Nat := maxPlaintextBytes + nonceBytes + tagBytes

def buildNonce (lba generation : Nat) : Option (List UInt8) :=
  if lba ≤ u32Max then some (le 4 lba ++ le 8 generation) else none

def buildAad (lba generation : Nat) (volumeUuid : Uuid) : List UInt8 :=
  le 8 lba ++ volumeUuid ++ le 8 generation

namespace Engines
variable (E : Engines)

def encryptBlock (key : List UInt8) (lba generation : Nat) (volumeUuid : Uuid)
    (plaintext : List UInt8) : Option (List UInt8) :=
  if plaintext.length > maxPlaintextBytes then none
  else (buildNonce lba generation).map fun nonce =>
    nonce ++ E.encrypt key nonce (buildAad lba generation volumeUuid) plaintext

def decryptBlock (key : List UInt8) (lba generation : Nat) (volumeUuid : Uuid)
    (ciphertextWithNonce : List UInt8) : Option (List UInt8) :=
  if ciphertextWithNonce.length < nonceBytes + tagBytes then none
  else (buildNonce lba generation).bind fun nonce =>
    if ciphertextWithNonce.take nonceBytes ≠ nonce then none
    else E.decrypt key nonce (buildAad lba generation volumeUuid) (ciphertextWithNonce.drop nonceBytes)

def sealEnvelope (key : List UInt8) (lba generation : Nat) (volumeUuid : Uuid)
    (plaintext : List UInt8) : Option (List UInt8) :=
  if plaintext.length > maxPlaintextBytes then none
  else E.encryptBlock key lba generation volumeUuid (pad maxPlaintextBytes plaintext)

def openEnvelope (key : List UInt8) (lba generation : Nat) (volumeUuid : Uuid)
    (envelope : List UInt8) : Option (List UInt8) :=
  (E.decryptBlock key lba generation volumeUuid envelope).bind fun plaintext =>
    if plaintext.length = maxPlaintextBytes then some plaintext else none

variable {E} {key : List UInt8} {lba generation : Nat} {volumeUuid : Uuid} {plaintext : List UInt8}

theorem sealEnvelope_isSome (short : plaintext.length ≤ maxPlaintextBytes) (small : lba ≤ u32Max) :
    (E.sealEnvelope key lba generation volumeUuid plaintext).isSome := by
  have padded : ¬(pad maxPlaintextBytes plaintext).length > maxPlaintextBytes := by
    rw [Bytes.pad_length short]
    omega
  rw [sealEnvelope, if_neg (by omega), encryptBlock, if_neg padded, buildNonce, if_pos small]
  rfl

end Engines

/-- Engines that keep every plaintext readable, for evaluating the model on examples. -/
def clearEngines : Engines where
  encrypt _ _ _ plain := plain ++ zeros 16
  decrypt _ _ _ cipher :=
    if 16 ≤ cipher.length then some (cipher.take (cipher.length - 16)) else none
  compressLz4 _ _ := none
  decompressLz4 _ _ := none
  sha256 input := (pad 32 input).take 32
  metadataSubkey _ _ := []
  extentSubkey _ _ := []
  encrypt_length := by
    intro _ _ _ _
    rw [List.length_append, Bytes.zeros_length]
  decrypt_encrypt := by
    intro _ _ _ plain
    rw [List.length_append, Bytes.zeros_length, if_pos (Nat.le_add_left _ _), Nat.add_sub_cancel,
      List.take_left]
  decrypt_length := by
    intro key nonce aad cipher plain h
    split at h <;> cases h
    rw [List.length_take, Nat.min_eq_left (Nat.sub_le _ _), Nat.sub_add_cancel ‹_›]
  decompress_compress := by
    intro _ _ _ h
    cases h
  decompress_length := by
    intro _ _ _ h
    cases h
  sha256_length := by
    intro input
    rw [List.length_take, pad, List.length_append, Bytes.zeros_length, Nat.min_eq_left le_add_tsub]

end HuesOS.Hxfs
