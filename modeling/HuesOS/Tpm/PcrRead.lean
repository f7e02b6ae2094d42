import HuesOS.Lib.Bytes
import Mathlib

/-! Reading a register of the TPM. -/

namespace HuesOS.Tpm
open Bytes

inductive TpmCommandError
  | transport | shortResponse | malformedResponse | tpm (code : Nat) | truncatedField
  | bufferTooSmall | invalidArgument

def pcrDigestBytes : Nat := 32

def pcrCount : Nat := 24

def algSha256 : Nat := 0x000b

def be (width n : Nat) : List UInt8 := (le width n).reverse

def readBe (bytes : List UInt8) (offset width : Nat) : Option Nat :=
  (range? bytes offset width).map fun field => nat field.reverse

def PcrSelection.single (index : Nat) : Option (List UInt8) :=
  if pcrCount ≤ index then none
  else some ((zeros 3).set (index / 8) (1 <<< UInt8.ofNat (index % 8)))

def pcrReadCommand (bitmap : List UInt8) : List UInt8 :=
  be 2 0x8001 ++ be 4 20 ++ be 4 0x17e ++ be 4 1 ++ be 2 algSha256 ++ [3] ++ bitmap

def skipBanks (body : List UInt8) : Nat → Nat → Except TpmCommandError Nat
  | 0, offset => .ok offset
  | left + 1, offset =>
    match body[offset + 2]? with
    | none => .error .truncatedField
    | some size => skipBanks body left (offset + 2 + (1 + size.toNat))

def firstDigest (body : List UInt8) (offset : Nat) : Except TpmCommandError (Option (List UInt8)) :=
  match readBe body offset 4 with
  | none => .error .truncatedField
  | some 0 => .ok none
  | some (_ + 1) =>
    match readBe body (offset + 4) 2 with
    | none => .error .truncatedField
    | some digestSize =>
      if digestSize ≠ pcrDigestBytes then .error .malformedResponse
      else
        match range? body (offset + 4 + 2) pcrDigestBytes with
        | none => .error .truncatedField
        | some value => .ok (some value)

def pcrRead (execute : List UInt8 → Except TpmCommandError (List UInt8)) (index : Nat) :
    Except TpmCommandError (Option (List UInt8)) :=
  match PcrSelection.single index with
  | none => .error .invalidArgument
  | some selection => do
    let body ← execute (pcrReadCommand selection)
    match readBe body 4 4 with
    | none => .error .truncatedField
    | some banks => firstDigest body (← skipBanks body banks 8)

structure PcrBank where
  algorithm : Nat
  bitmap : List UInt8

def banksAt (body : List UInt8) : Nat → Nat → Option (List PcrBank × Nat)
  | 0, offset => some ([], offset)
  | left + 1, offset =>
    match body[offset + 2]? with
    | none => none
    | some size =>
      (banksAt body left (offset + 2 + (1 + size.toNat))).map fun (banks, after) =>
        (⟨nat (slice body offset 2).reverse, slice body (offset + 3) size.toNat⟩ :: banks, after)

def digestsAt (body : List UInt8) : Nat → Nat → List (List UInt8)
  | 0, _ => []
  | left + 1, offset =>
    match (readBe body offset 2).bind (range? body (offset + 2)) with
    | none => []
    | some digest => digest :: digestsAt body left (offset + 2 + digest.length)

/-- The two lists that a body spells. -/
def decodeBody (body : List UInt8) : Option (List PcrBank × List (List UInt8)) := do
  let (banks, offset) ← banksAt body (← readBe body 4 4) 8
  return (banks, digestsAt body (← readBe body offset 4) (offset + 4))

/-- The registers that the banks select, in the order of their digests. -/
def registers (banks : List PcrBank) : List (Nat × Nat) :=
  banks.flatMap fun bank => ((List.range (8 * bank.bitmap.length)).filter fun i =>
    (bank.bitmap.getD (i / 8) 0).toNat.testBit (i % 8)).map (bank.algorithm, ·)

def Lists (body : List UInt8) (register : Nat × Nat) (value : List UInt8) : Prop :=
  ∃ banks digests, decodeBody body = some (banks, digests) ∧
    (register, value) ∈ (registers banks).zip digests

variable {body value : List UInt8}

theorem banksAt_skip (left off : Nat) :
    (banksAt body left off).map (·.2) = (skipBanks body left off).toOption := by
  induction left generalizing off with
  | zero => rfl
  | succ left ih =>
    rw [banksAt, skipBanks]
    cases body[off + 2]? with
    | none => rfl
    | some size => exact (Option.map_map ..).trans (ih _)

theorem range?_length {off width : Nat} (read : range? body off width = some value) :
    value.length = width := by
  unfold range? at read
  split at read
  next fits =>
    cases read
    exact slice_length _ _ _ fits
  · cases read

theorem firstDigest_some {off : Nat} :
    firstDigest body off = .ok (some value) ↔
      value.length = pcrDigestBytes ∧ ∃ count, readBe body off 4 = some count ∧
        (digestsAt body count (off + 4)).head? = some value := by
  rw [firstDigest]
  rcases readBe body off 4 with _ | _ | count
  · simp
  · simp [digestsAt]
  simp only [Option.some.injEq, exists_eq_left', digestsAt]
  cases readBe body (off + 4) 2 with
  | none => simp
  | some size =>
    cases there : range? body (off + 4 + 2) size with
    | none => grind
    | some digest =>
      have := range?_length there
      grind

/-- A value is returned exactly when it is the first digest of the body and has the right size. -/
theorem pcrRead_some {idx : Nat} :
    pcrRead (fun _ => .ok body) idx = .ok (some value) ↔
      idx < pcrCount ∧ value.length = pcrDigestBytes ∧
        ∃ banks digests, decodeBody body = some (banks, digests) ∧ digests.head? = some value := by
  rw [pcrRead, PcrSelection.single, decodeBody]
  split_ifs with small
  · simp [not_lt.mpr small]
  cases count : readBe body 4 4 with
  | none => simp [bind, Except.bind, count]
  | some banks =>
    have walk := @banksAt_skip body banks 8
    cases skipped : skipBanks body banks 8 with
    | error e =>
      rw [skipped] at walk
      simp [bind, Except.bind, count, skipped, Option.map_eq_none_iff.mp walk]
    | ok off =>
      rw [skipped] at walk
      obtain ⟨⟨banks, rest⟩, decoded, rfl⟩ := Option.map_eq_some_iff.mp walk
      simp only [bind, Except.bind, count, skipped, firstDigest_some, not_le.mp small]
      cases digests : readBe body rest 4 <;> simp [decoded, digests]

/-- The digest that is returned is listed for the register that was asked for exactly when the
first digest of the body is, whenever that digest has the right size. The register it belongs to
is not looked at. -/
theorem pcrRead_listed_iff (index : Nat) (body : List UInt8) :
    (∀ value, pcrRead (fun _ => .ok body) index = .ok (some value) →
        Lists body (algSha256, index) value) ↔
      ∀ banks digests value, decodeBody body = some (banks, digests) →
        digests.head? = some value → index < pcrCount → value.length = pcrDigestBytes →
        ((algSha256, index), value) ∈ (registers banks).zip digests := by
  constructor
  · intro listed banks digests value decoded first small right
    obtain ⟨banks', digests', same, mem⟩ :=
      listed value (pcrRead_some.mpr ⟨small, right, banks, digests, decoded, first⟩)
    cases decoded.symm.trans same
    exact mem
  · intro listed value returned
    obtain ⟨small, right, banks, digests, decoded, first⟩ := pcrRead_some.mp returned
    exact ⟨banks, digests, decoded, listed banks digests value decoded first small right⟩

/-- Asked for register 0, the device answers with register 1 and its digest. -/
def otherRegister : List UInt8 :=
  be 4 0 ++ be 4 1 ++ be 2 algSha256 ++ [1, 2] ++ be 4 1 ++ be 2 32 ++ List.replicate 32 5

theorem other_register_returned :
    pcrRead (fun _ => .ok otherRegister) 0 = .ok (some (List.replicate 32 5)) ∧
      ¬ Lists otherRegister (algSha256, 0) (List.replicate 32 5) := by
  refine ⟨rfl, ?_⟩
  rintro ⟨banks, digests, decoded, mem⟩
  cases decoded
  revert mem
  decide

end HuesOS.Tpm
