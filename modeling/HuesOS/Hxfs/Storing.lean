import HuesOS.Hxfs.DataOutcomes

namespace HuesOS.Hxfs
open Exec HxM Engines

theorem Engines.sealEnvelope_isSome_iff {E : Engines} {key : List UInt8} {lba gen : Nat}
    {volumeUuid : Uuid} {plaintext : List UInt8} (short : plaintext.length ≤ maxPlaintextBytes) :
    (E.sealEnvelope key lba gen volumeUuid plaintext).isSome ↔ lba ≤ u32Max := by
  refine ⟨fun sealed => ?_, sealEnvelope_isSome short⟩
  by_contra large
  rw [sealEnvelope, if_neg (by omega), encryptBlock, buildNonce, if_neg large] at sealed
  simp at sealed

namespace Writer
variable {w w' : Writer}

def nextRun (count : Nat) (w : Writer) : Option Nat :=
  match takeFrom count w.freeSpace with
  | some (start, _) => some start
  | none => (checkedAdd w.nextLba count).map fun _ => w.nextLba

theorem reserveDataBlocks_cases {count : Nat} (some_blocks : count ≠ 0) (w : Writer) :
    (nextRun count w = none ∧ reserveDataBlocks count w = (.error (.error .noSpace), w)) ∨
      ∃ start w', nextRun count w = some start ∧
        reserveDataBlocks count w = (.ok (start, w.blockGeneration), w') ∧
        ∃ freeSpace nextLba issued, w' = { w with freeSpace, nextLba, issued } := by
  rw [nextRun, reserveDataBlocks, if_neg some_blocks]
  rcases taken : takeFrom count w.freeSpace with _ | ⟨start, pool⟩
  · cases room : checkedAdd w.nextLba count with
    | none => exact .inl ⟨rfl, rfl⟩
    | some next => exact .inr ⟨_, _, rfl, rfl, _, _, _, rfl⟩
  · exact .inr ⟨_, _, rfl, rfl, _, _, _, rfl⟩

def slotsFor (w : Writer) (blockBytes : List UInt8) : Nat :=
  if w.extentKey.isSome && blockBytes.length > maxPlaintextBytes then 2 else 1

structure RunAccepts (data : List UInt8) (slots start : Nat) (w : Writer) : Prop where
  device : ∀ i < slots, w.store.Writable (start + i)
  nonce : w.extentKey.isSome → ∀ i < slots, start + i ≤ u32Max
  whole : slots = 2 → maxPlaintextBytes ≤ data.length

structure Storable (E : Engines) (data : List UInt8) (object : ObjectDescriptor) (start : Nat)
    (blockBytes : List UInt8) (compression : Option ExtentCompressionMeta) (w : Writer) : Prop where
  encodes : encodeData E w data object = .ok (blockBytes, compression)
  quota : w.quotaAdmits (w.slotsFor blockBytes * blockSize) 0 = .ok ()
  run : nextRun (w.slotsFor blockBytes) w = some start
  accepts : RunAccepts data (w.slotsFor blockBytes) start w

theorem Storable.start_unique {E : Engines} {data : List UInt8} {object : ObjectDescriptor}
    {start start' : Nat} {blockBytes blockBytes' : List UInt8}
    {compression compression' : Option ExtentCompressionMeta}
    (first : Storable E data object start blockBytes compression w)
    (second : Storable E data object start' blockBytes' compression' w) : start = start' := by
  cases first.encodes.symm.trans second.encodes
  exact Option.some.inj (first.run.symm.trans second.run)

def withStore (store : Store) (w : Writer) : Writer := { w with store }

theorem writeStore_cases (lba : Nat) (block : Block) (w : Writer) :
    (w.store.Writable lba ∧
      writeStore lba block w = (.ok (), withStore (w.store.written lba block) w)) ∨
      (¬w.store.Writable lba ∧ ∃ e, writeStore lba block w = (.error (.error e), w)) := by
  rw [writeStore]
  rcases w.store.writeBlock_cases lba block with ⟨ok, run⟩ | ⟨bad, e, run⟩
  · rw [run]
    exact .inl ⟨ok, rfl⟩
  rw [run]
  exact .inr ⟨bad, e, rfl⟩

theorem sealSlot_cases (E : Engines) (w : Writer) (key : List UInt8) (lba gen : Nat)
    {plaintext : List UInt8} (short : plaintext.length ≤ maxPlaintextBytes) :
    (lba ≤ u32Max ∧ ∃ block, sealSlot E w key lba gen plaintext = .ok block) ∨
      (u32Max < lba ∧ sealSlot E w key lba gen plaintext = .error .badBlock) := by
  have sealed : (E.sealEnvelope key lba gen w.volumeUuid plaintext).isSome ↔ lba ≤ u32Max :=
    sealEnvelope_isSome_iff short
  rw [sealSlot]
  cases h : E.sealEnvelope key lba gen w.volumeUuid plaintext with
  | none =>
    rw [h] at sealed
    exact .inr ⟨by simpa using sealed, rfl⟩
  | some envelope =>
    rw [h] at sealed
    exact .inl ⟨sealed.mp rfl, _, rfl⟩

def reserved (count : Nat) (w : Writer) : Writer := (reserveDataBlocks count w).2

theorem reserved_frame (count : Nat) (w : Writer) :
    ∃ freeSpace nextLba issued, reserved count w = { w with freeSpace, nextLba, issued } := by
  rw [reserved, reserveDataBlocks]
  split
  · exact ⟨_, _, _, rfl⟩
  split
  · exact ⟨_, _, _, rfl⟩
  split
  · exact ⟨_, _, _, rfl⟩
  · exact ⟨_, _, _, rfl⟩

theorem reserveDataBlocks_ok {count start : Nat} (some_blocks : count ≠ 0)
    (run : nextRun count w = some start) :
    reserveDataBlocks count w = (.ok (start, w.blockGeneration), reserved count w) := by
  rcases reserveDataBlocks_cases some_blocks w with ⟨none_left, -⟩ | ⟨start', w', found, h, -⟩
  · cases none_left.symm.trans run
  cases found.symm.trans run
  rw [reserved, h]

def InRun (E : Engines) (data : List UInt8) (object : ObjectDescriptor) (w : Writer) (lba : Nat) :
    Prop :=
  ∃ blockBytes compression start, encodeData E w data object = .ok (blockBytes, compression) ∧
    nextRun (w.slotsFor blockBytes) w = some start ∧ start ≤ lba ∧
    lba < start + w.slotsFor blockBytes

/-- Blocks may have been handed out, and written inside the run, but nothing else happened. -/
structure Attempted (E : Engines) (data : List UInt8) (object : ObjectDescriptor)
    (w w' : Writer) : Prop where
  frame : ∃ store freeSpace nextLba issued, w' = { w with store, freeSpace, nextLba, issued }
  untouched : ∀ lba, ¬InRun E data object w lba → w'.store.readBlock lba = w.store.readBlock lba

inductive DataOutcome (E : Engines) (data : List UInt8) (object : ObjectDescriptor) (w : Writer) :
    Except Stop (Nat × Nat × ExtentWriteKind) → Writer → Prop
  | failed {s : Stop} {w' : Writer}
      (tests : ∀ start blockBytes compression, ¬Storable E data object start blockBytes compression w)
      (attempt : Attempted E data object w w') :
      DataOutcome E data object w (.error s) w'
  | oneSlot {start : Nat} {blockBytes : List UInt8} {compression : Option ExtentCompressionMeta}
      {block : Block} (tests : Storable E data object start blockBytes compression w)
      (slots : w.slotsFor blockBytes = 1)
      (filled : slotBlock E w.extentKey blockBytes start w.blockGeneration w = .ok block) :
      DataOutcome E data object w (.ok (start, w.blockGeneration, .ofCompression compression))
        (invalidateCachedRange start (start + 1) (withStore (w.store.written start block) (reserved 1 w)))
  | twoSlots {start : Nat} {blockBytes : List UInt8} {compression : Option ExtentCompressionMeta}
      {key : List UInt8} {slot0 slot1 : Block}
      (tests : Storable E data object start blockBytes compression w)
      (slots : w.slotsFor blockBytes = 2) (keyed : w.extentKey = some key)
      (first : sealSlot E w key start w.blockGeneration (data.take maxPlaintextBytes) = .ok slot0)
      (second : sealSlot E w key (start + 1) w.blockGeneration (data.drop maxPlaintextBytes) = .ok slot1) :
      DataOutcome E data object w (.ok (start, w.blockGeneration, .multiSlot))
        (invalidateCachedRange start (start + 2)
          (withStore ((w.store.written start slot0).written (start + 1) slot1) (reserved 2 w)))

section DataPath
variable {E : Engines} {data : List UInt8} {object : ObjectDescriptor} {blockBytes : List UInt8}
  {compression : Option ExtentCompressionMeta}

theorem not_storable (encodes : encodeData E w data object = .ok (blockBytes, compression))
    (fails : ∀ start, w.quotaAdmits (w.slotsFor blockBytes * blockSize) 0 = .ok () →
      nextRun (w.slotsFor blockBytes) w = some start →
      ¬RunAccepts data (w.slotsFor blockBytes) start w) (start : Nat) (bytes : List UInt8)
    (info : Option ExtentCompressionMeta) : ¬Storable E data object start bytes info w := by
  intro tests
  cases tests.encodes.symm.trans encodes
  exact fails start tests.quota tests.run tests.accepts

theorem Attempted.reserved (E : Engines) (data : List UInt8) (object : ObjectDescriptor)
    (count : Nat) (w : Writer) : Attempted E data object w (Writer.reserved count w) := by
  obtain ⟨freeSpace, nextLba, issued, frame⟩ := reserved_frame count w
  rw [frame]
  exact ⟨⟨_, _, _, _, rfl⟩, fun _ _ => rfl⟩

theorem Attempted.written (attempt : Attempted E data object w w') {lba : Nat}
    (inside : InRun E data object w lba) (block : Block) :
    Attempted E data object w (withStore (w'.store.written lba block) w') := by
  obtain ⟨_, _, _, _, rfl⟩ := attempt.frame
  refine ⟨⟨_, _, _, _, rfl⟩, fun other out => ?_⟩
  have ne : other ≠ lba := fun eq => out (eq ▸ inside)
  exact (Store.readBlock_written ne).trans (attempt.untouched other out)

theorem storeOneSlot_outcome (encodes : encodeData E w data object = .ok (blockBytes, compression))
    (quota : w.quotaAdmits blockSize 0 = .ok ()) (slots : w.slotsFor blockBytes = 1) {start : Nat}
    (run : nextRun 1 w = some start) :
    let last : HxM (Nat × Nat × ExtentWriteKind) := do
      storeOneSlot E w.extentKey blockBytes start w.blockGeneration
      return (start, w.blockGeneration, .ofCompression compression)
    DataOutcome E data object w (last (reserved 1 w)).1 (last (reserved 1 w)).2 := by
  obtain ⟨freeSpace, nextLba, issued, frame⟩ := reserved_frame 1 w
  have fits : ∀ key, w.extentKey = some key → blockBytes.length ≤ maxPlaintextBytes := by
    intro key keyed
    rw [slotsFor, keyed] at slots
    by_contra long
    simp [show blockBytes.length > maxPlaintextBytes by omega] at slots
  have ok (h : RunAccepts data 1 start w) :
      Storable E data object start blockBytes compression w :=
    ⟨encodes, by rw [slots, Nat.one_mul]; exact quota, by rw [slots]; exact run, by rw [slots]; exact h⟩
  have refuse {s : Stop} (h : ¬RunAccepts data 1 start w) :
      DataOutcome E data object w (.error s) (reserved 1 w) := by
    refine .failed (not_storable encodes fun start' _ run' => ?_) (.reserved E data object 1 w)
    rw [slots] at run' ⊢
    cases run'.symm.trans run
    exact h
  have eq : slotBlock E w.extentKey blockBytes start w.blockGeneration (reserved 1 w) =
      slotBlock E w.extentKey blockBytes start w.blockGeneration w := by rw [frame]; rfl
  dsimp only
  rw [storeOneSlot]
  have filled : (∃ block, slotBlock E w.extentKey blockBytes start w.blockGeneration w = .ok block ∧
      (w.extentKey.isSome → start ≤ u32Max)) ∨
      (slotBlock E w.extentKey blockBytes start w.blockGeneration w = .error .badBlock ∧
        w.extentKey.isSome ∧ u32Max < start) := by
    cases keyed : w.extentKey with
    | none => exact .inl ⟨_, rfl, by simp⟩
    | some key =>
      rcases sealSlot_cases E w key start w.blockGeneration (fits key keyed) with
        ⟨small, block, h⟩ | ⟨large, h⟩
      · exact .inl ⟨block, h, fun _ => small⟩
      · exact .inr ⟨h, rfl, large⟩
  rcases filled with ⟨block, filled, small⟩ | ⟨unfilled, keyed, large⟩
  · rw [bind_run, view_bind_ok (eq.trans filled)]
    rcases writeStore_cases start block (reserved 1 w) with ⟨writable, h⟩ | ⟨unwritable, e, h⟩
    · rw [bind_of_ok h]
      have device : w.store.Writable start := by rw [frame] at writable; exact writable
      have tests := ok ⟨by simpa using device, by simpa using small, by simp⟩
      have store : (reserved 1 w).store = w.store := by rw [frame]
      rw [store]
      exact .oneSlot tests slots filled
    rw [bind_of_error h]
    refine refuse fun accepts => unwritable ?_
    rw [frame]
    exact accepts.device 0 Nat.one_pos
  rw [bind_run, view_bind_error (eq.trans unfilled)]
  refine refuse fun accepts => ?_
  have := accepts.nonce keyed 0 Nat.one_pos
  omega

theorem storeTwoSlots_outcome (short : data.length ≤ blockSize)
    (encodes : encodeData E w data object = .ok (blockBytes, compression))
    (quota : w.quotaAdmits (2 * blockSize) 0 = .ok ()) (slots : w.slotsFor blockBytes = 2)
    {key : List UInt8} (keyed : w.extentKey = some key) {start : Nat}
    (run : nextRun 2 w = some start) :
    let last : HxM (Nat × Nat × ExtentWriteKind) := do
      storeTwoSlots E key data start w.blockGeneration
      return (start, w.blockGeneration, .multiSlot)
    DataOutcome E data object w (last (reserved 2 w)).1 (last (reserved 2 w)).2 := by
  obtain ⟨freeSpace, nextLba, issued, frame⟩ := reserved_frame 2 w
  have refuse {s : Stop} {w' : Writer} (attempt : Attempted E data object w w')
      (h : ¬RunAccepts data 2 start w) : DataOutcome E data object w (.error s) w' := by
    refine .failed (not_storable encodes fun start' _ run' => ?_) attempt
    rw [slots] at run' ⊢
    cases run'.symm.trans run
    exact h
  have eq (lba : Nat) (plain : List UInt8) :
      sealSlot E (reserved 2 w) key lba w.blockGeneration plain =
        sealSlot E w key lba w.blockGeneration plain := by rw [frame]; rfl
  have store : (reserved 2 w).store = w.store := by rw [frame]
  have nonces (accepts : RunAccepts data 2 start w) : start ≤ u32Max ∧ start + 1 ≤ u32Max :=
    ⟨accepts.nonce (by simp [keyed]) 0 (by omega), accepts.nonce (by simp [keyed]) 1 (by omega)⟩
  dsimp only
  rw [storeTwoSlots, bind_run]
  by_cases whole : data.length < maxPlaintextBytes
  · rw [if_pos whole]
    exact refuse (.reserved E data object 2 w) fun accepts => absurd (accepts.whole rfl) (by omega)
  rw [if_neg whole]
  have short0 : (data.take maxPlaintextBytes).length ≤ maxPlaintextBytes := List.length_take_le _ _
  have short1 : (data.drop maxPlaintextBytes).length ≤ maxPlaintextBytes := by
    rw [List.length_drop]
    have : blockSize ≤ maxPlaintextBytes + maxPlaintextBytes := by decide
    omega
  rcases sealSlot_cases E w key start w.blockGeneration short0 with
    ⟨small0, slot0, first⟩ | ⟨large, unsealed⟩
  swap
  · rw [view_bind_error ((eq _ _).trans unsealed)]
    exact refuse (.reserved E data object 2 w) fun accepts => absurd (nonces accepts).1 (by omega)
  rw [view_bind_ok ((eq _ _).trans first)]
  rcases sealSlot_cases E w key (start + 1) w.blockGeneration short1 with
    ⟨small1, slot1, second⟩ | ⟨large, unsealed⟩
  swap
  · rw [view_bind_error ((eq _ _).trans unsealed)]
    exact refuse (.reserved E data object 2 w) fun accepts => absurd (nonces accepts).2 (by omega)
  rw [view_bind_ok ((eq _ _).trans second)]
  rcases writeStore_cases start slot0 (reserved 2 w) with ⟨writable0, h0⟩ | ⟨unwritable, e, h0⟩
  swap
  · rw [bind_of_error h0]
    exact refuse (.reserved E data object 2 w) fun accepts =>
      unwritable (store ▸ accepts.device 0 (by omega))
  rw [bind_of_ok h0]
  rcases writeStore_cases (start + 1) slot1
      (withStore ((reserved 2 w).store.written start slot0) (reserved 2 w)) with
    ⟨writable1, h1⟩ | ⟨unwritable, e, h1⟩
  swap
  · rw [bind_of_error h1]
    have inside : InRun E data object w start :=
      ⟨blockBytes, compression, start, encodes, by rw [slots]; exact run, by omega, by omega⟩
    refine refuse ((Attempted.reserved E data object 2 w).written inside slot0) fun accepts =>
      unwritable ?_
    have : w.store.Writable (start + 1) := accepts.device 1 (by omega)
    rw [store]
    exact this
  rw [bind_of_ok h1]
  rw [store] at writable0
  have device : ∀ i < 2, w.store.Writable (start + i) := by
    intro i hi
    rcases (by omega : i = 0 ∨ i = 1) with rfl | rfl
    · exact writable0
    rw [store] at writable1
    exact writable1
  have nonce : ∀ i < 2, start + i ≤ u32Max := fun i hi => by omega
  have tests : Storable E data object start blockBytes compression w :=
    ⟨encodes, by rw [slots]; exact quota, by rw [slots]; exact run, by
      rw [slots]
      exact ⟨device, fun _ => nonce, fun _ => by omega⟩⟩
  rw [store]
  exact .twoSlots tests slots keyed first second

theorem writeDataBlocks_outcome (E : Engines) (object : ObjectDescriptor) (w : Writer)
    (short : data.length ≤ blockSize) :
    DataOutcome E data object w (writeDataBlocks E data object w).1 (writeDataBlocks E data object w).2 := by
  rw [writeDataBlocks]
  refine after_view (fun e fails => .failed (fun _ _ _ tests => ?_)
    ⟨⟨_, _, _, _, rfl⟩, fun _ _ => rfl⟩) fun (blockBytes, compression) encodes => ?_
  · simp [tests.encodes] at fails
  dsimp only
  rw [gets_bind]
  have fails {slots : Nat} (count : w.slotsFor blockBytes = slots) {s : Stop}
      (h : ∀ start, w.quotaAdmits (slots * blockSize) 0 = .ok () → nextRun slots w ≠ some start) :
      DataOutcome E data object w (.error s) w := by
    refine .failed (not_storable encodes fun start quota run => ?_) ⟨⟨_, _, _, _, rfl⟩, fun _ _ => rfl⟩
    rw [count] at quota run
    exact absurd run (h start quota)
  cases multi : (w.extentKey.isSome && decide (blockBytes.length > maxPlaintextBytes)) with
  | true =>
    have slots : w.slotsFor blockBytes = 2 := by rw [slotsFor, multi]; rfl
    obtain ⟨key, keyed⟩ := Option.isSome_iff_exists.mp (Bool.and_eq_true_iff.mp multi).1
    simp only [if_true]
    refine after_view (fun e refused => fails slots fun _ admitted => ?_) fun _ quota => ?_
    · simp [admitted] at refused
    rcases reserveDataBlocks_cases (by omega : 2 ≠ 0) w with
      ⟨none_left, h⟩ | ⟨start, _, run, -⟩
    · rw [bind_of_error h]
      exact fails slots fun _ _ run => by simp [run] at none_left
    rw [bind_of_ok (reserveDataBlocks_ok (by omega) run), keyed]
    exact storeTwoSlots_outcome short encodes quota slots keyed run
  | false =>
    have slots : w.slotsFor blockBytes = 1 := by rw [slotsFor, multi]; rfl
    simp only [Bool.false_eq_true, if_false]
    refine after_view (fun e refused => fails slots fun _ admitted => ?_) fun _ quota => ?_
    · rw [Nat.one_mul, refused] at admitted
      cases admitted
    rcases reserveDataBlocks_cases (by omega : 1 ≠ 0) w with
      ⟨none_left, h⟩ | ⟨start, _, run, -⟩
    · rw [bind_of_error h]
      exact fails slots fun _ _ run => by simp [run] at none_left
    rw [bind_of_ok (reserveDataBlocks_ok (by omega) run)]
    exact storeOneSlot_outcome encodes quota slots run

end DataPath
end Writer
end HuesOS.Hxfs
