import HuesOS.Memory.BuddyBooks

namespace HuesOS.Memory
open List Exec Heap
open Dyadic (Block Tiling)

namespace Heap
variable {h : Heap} {order ptr : Nat}

theorem block_succ : h.block (order + 1) ptr = ⟨order + h.pageShift + 1, ptr - h.baseAddr⟩ := by
  rw [block, Nat.add_right_comm]

theorem block_upper (low : h.baseAddr ≤ ptr) : h.block order (ptr + h.orderBytes order) =
    ⟨order + h.pageShift, ptr - h.baseAddr + 2 ^ (order + h.pageShift)⟩ := by
  rw [block, orderBytes_eq, Nat.sub_add_comm low]

end Heap

namespace Buddy
variable {h : Heap} {s : Buddy} {used : Set Block} {order ptr : Nat}

theorem Books.validFreeNode (books : Books h s (insert (h.block order ptr) used))
    (lt : order < h.orders) (low : h.baseAddr ≤ ptr) : h.ValidFreeNode order ptr :=
  validFreeNode_of lt low (books.tiling.aligned _ (.inr (.inl rfl))) (books.tiling.inside _ (.inr (.inl rfl)))

theorem pushFreeBlockChecked_run (valid : h.ValidFreeNode order ptr) :
    pushFreeBlockChecked h order ptr s = (.ok (), s.push order ptr) := by
  rw [pushFreeBlockChecked, if_pos valid]

structure Handed (h : Heap) (s : Buddy) (used : Set Block) (order ptr : Nat) : Prop where
  books : Books h s (insert (h.block order ptr) used)
  fresh : h.block order ptr ∉ used
  low : h.baseAddr ≤ ptr

theorem splitDown_books (n : Nat) {current : Nat} (lt : order + n < h.orders)
    (handed : Handed h s used (order + n) current) :
    ∃ ptr s', splitDown h order n current s = (.ok ptr, s') ∧ Handed h s' used order ptr := by
  induction n generalizing s current with
  | zero => exact ⟨current, s, rfl, handed⟩
  | succ n ih =>
    obtain ⟨books, fresh, low⟩ := handed
    rw [← Nat.add_assoc, block_succ] at books fresh
    have whole := books.tiling.aligned _ (.inr (.inl rfl))
    obtain ⟨halves, lowFresh, highFresh⟩ := books.split fresh
    have valid : h.ValidFreeNode (order + n) current := halves.validFreeNode (by omega) low
    have lone : (h.block (order + n) current).buddy ∉ s.free h := by
      rw [block, Block.buddy_lower whole]
      exact fun isFree => halves.apart _ isFree (.inr (.inl rfl))
    have pushed := halves.give valid lowFresh fun _ => lone
    rw [← block_upper low] at pushed highFresh
    obtain ⟨ptr, s', run, res⟩ := ih (by omega) ⟨pushed, highFresh, low.trans (Nat.le_add_right _ _)⟩
    refine ⟨ptr, s', ?_, res⟩
    rw [splitDown, bind_of_ok (pushFreeBlockChecked_run valid), run]

theorem popFreeBlock_run (nodes : NodesValid h s) {node : Nat} {rest : List Nat}
    (list : s.freeLists order = node :: rest) :
    popFreeBlock h order s = (.ok (some node), s.take order node) := by
  have valid : h.ValidFreeNode order node := nodes.valid (list ▸ mem_cons_self)
  rw [popFreeBlock, list]
  dsimp only
  rw [if_pos valid, take, list, erase_cons_head]

theorem allocateFrom_books (books : Books h s used) (left : Nat) (bound : left ≤ h.orders - order) :
    (∃ ptr s', allocateFrom h order left s = (.ok ptr, s') ∧ Handed h s' used order ptr) ∨
      allocateFrom h order left s = (.error .outOfMemory, s) := by
  induction left with
  | zero => exact .inr rfl
  | succ left ih =>
    rw [allocateFrom]
    cases list : s.freeLists (h.orders - (left + 1)) with
    | nil =>
      have popped : popFreeBlock h (h.orders - (left + 1)) s = (.ok none, s) := by
        rw [popFreeBlock, list]
      rw [bind_of_ok popped]
      exact ih (by omega)
    | cons node rest =>
      have mem : node ∈ s.freeLists (h.orders - (left + 1)) := list ▸ mem_cons_self
      have split : h.orders - (left + 1) = order + (h.orders - (left + 1) - order) := by omega
      rw [bind_of_ok (popFreeBlock_run books.nodes list)]
      left
      apply splitDown_books
      · omega
      rw [← split]
      exact ⟨books.take mem, books.apart _ ⟨_, _, mem, rfl⟩, (books.nodes.valid mem).low⟩

theorem allocate_books (books : Books h s used) (pages : Nat) :
    (∃ ptr s', allocate h pages s = (.ok ptr, s') ∧ Handed h s' used (orderFor pages) ptr ∧
        orderFor pages < h.orders) ∨
      ∃ e, allocate h pages s = (.error e, s) := by
  unfold allocate
  split
  · exact .inr ⟨_, rfl⟩
  split
  · exact .inr ⟨_, rfl⟩
  rcases allocateFrom_books books (h.orders - orderFor pages) le_rfl with ⟨ptr, s', run, handed⟩ |
    failed
  · exact .inl ⟨ptr, s', run, handed, by omega⟩
  · exact .inr ⟨_, failed⟩

theorem anyNode_eq {test : Nat → Bool} {l : List Nat}
    (valid : ∀ node ∈ l, h.ValidFreeNode order node) :
    anyNode h order test l = .ok (l.any test) := by
  induction l with
  | nil => rfl
  | cons node rest ih =>
    rw [anyNode, if_pos (valid node mem_cons_self), ih fun n mem => valid n (.tail _ mem), any_cons]
    cases test node <;> rfl

theorem isBlockFree_run (nodes : NodesValid h s) :
    isBlockFree h order ptr s = (.ok (decide (ptr ∈ s.freeLists order)), s) := by
  rw [isBlockFree, anyNode_eq fun _ => nodes.valid]
  congr 2
  rw [Bool.eq_iff_iff]
  simp

theorem removeNode_eq {l : List Nat} (valid : ∀ node ∈ l, h.ValidFreeNode order node)
    (mem : ptr ∈ l) : removeNode h order ptr l = .ok (l.erase ptr) := by
  induction l with
  | nil => exact nomatch mem
  | cons node rest ih =>
    rw [removeNode, if_pos (valid node mem_cons_self)]
    by_cases same : node = ptr
    · rw [if_pos same, same, erase_cons_head]
    have later : ptr ∈ rest := (mem_cons.mp mem).resolve_left (Ne.symm same)
    rw [if_neg same, ih (fun n inside => valid n (.tail _ inside)) later, erase_cons_tail (by simpa using same)]

theorem removeFreeBlock_run (nodes : NodesValid h s) (mem : ptr ∈ s.freeLists order) :
    removeFreeBlock h order ptr s = (.ok (), s.take order ptr) := by
  rw [removeFreeBlock, removeNode_eq (fun _ => nodes.valid) mem]
  rfl

def InsideFree (h : Heap) (s : Buddy) (ptr bytes : Nat) : Prop :=
  ∃ order node, node ∈ s.freeLists order ∧ node ≤ ptr ∧ ptr + bytes ≤ node + h.orderBytes order

theorem rangeIsFreeFrom_eq (nodes : NodesValid h s) (ptr bytes left : Nat)
    (bound : left ≤ h.orders) : ∃ b, rangeIsFreeFrom h s ptr bytes left = .ok b ∧
      (b = true ↔ ∃ order node, h.orders - left ≤ order ∧ node ∈ s.freeLists order ∧ node ≤ ptr ∧
        ptr + bytes ≤ node + h.orderBytes order) := by
  induction left with
  | zero =>
    refine ⟨false, rfl, ?_⟩
    simp only [Bool.false_eq_true, false_iff]
    rintro ⟨order, node, high, mem, -⟩
    have := (nodes.valid mem).bound
    omega
  | succ left ih =>
    obtain ⟨b, run, meaning⟩ := ih (by omega)
    rw [rangeIsFreeFrom, anyNode_eq fun _ => nodes.valid]
    cases here : (s.freeLists (h.orders - (left + 1))).any fun node =>
        decide (node ≤ ptr ∧ ptr + bytes ≤ node + h.orderBytes (h.orders - (left + 1))) with
    | true =>
      refine ⟨true, rfl, ?_⟩
      simp only [true_iff]
      obtain ⟨node, mem, contains⟩ := any_eq_true.mp here
      exact ⟨_, node, le_rfl, mem, by simpa using contains⟩
    | false =>
      refine ⟨b, run, meaning.trans ?_⟩
      constructor
      · rintro ⟨order, node, high, rest⟩
        exact ⟨order, node, by omega, rest⟩
      rintro ⟨order, node, high, mem, contains⟩
      refine ⟨order, node, ?_, mem, contains⟩
      by_contra less
      have eq : order = h.orders - (left + 1) := by omega
      rw [any_eq_false] at here
      exact here node (eq ▸ mem) (by simpa [← eq] using contains)

theorem rangeIsFree_run (nodes : NodesValid h s) (ptr bytes : Nat) : ∃ b,
    rangeIsFree h ptr bytes s = (.ok b, s) ∧ (b = true ↔ InsideFree h s ptr bytes) := by
  obtain ⟨b, run, meaning⟩ := rangeIsFreeFrom_eq nodes ptr bytes h.orders le_rfl
  refine ⟨b, by rw [rangeIsFree, run], meaning.trans ?_⟩
  simp [InsideFree]

theorem NodesValid.buddyPtr_mem (nodes : NodesValid h s) (valid : h.ValidFreeNode order ptr) :
    (h.buddyPtr order ptr ∈ s.freeLists order ↔ (h.block order ptr).buddy ∈ s.free h) ∧
      (h.buddyPtr order ptr ∈ s.freeLists order →
        h.block order (h.buddyPtr order ptr) = (h.block order ptr).buddy) := by
  have room : h.heapEnd < 2 ^ 64 := h.end_fits
  have size : h.orderBytes order < 2 ^ 64 := by
    refine lt_of_le_of_lt ?_ h.block_fits
    exact Nat.mul_le_mul_right _ (Nat.pow_le_pow_right (by decide) (by have := valid.bound; omega))
  have inside := valid.2.2.2.1
  obtain ⟨x, off⟩ : ∃ x, x = (ptr - h.baseAddr) ^^^ h.orderBytes order := ⟨_, rfl⟩
  have lt : x < 2 ^ 64 := by
    rw [off]
    exact Nat.xor_lt_two_pow (by omega) size
  have twin : (h.block order ptr).buddy = ⟨order + h.pageShift, x⟩ := by
    rw [off, orderBytes_eq]
    rfl
  have address : h.buddyPtr order ptr = (h.baseAddr + x) % 2 ^ 64 := by
    rw [off]
    rfl
  have forward : h.buddyPtr order ptr ∈ s.freeLists order →
      h.block order (h.buddyPtr order ptr) = (h.block order ptr).buddy := by
    intro mem
    have low := (nodes.valid mem).low
    have noWrap : h.baseAddr + x < 2 ^ 64 := by omega
    rw [twin, block, address, Nat.mod_eq_of_lt noWrap, Nat.add_sub_cancel_left]
  refine ⟨⟨fun mem => ⟨_, _, mem, (forward mem).symm⟩, ?_⟩, forward⟩
  rintro ⟨order', node, mem, eq⟩
  have low := (nodes.valid mem).low
  have high := (nodes.valid mem).2.2.2.1
  rw [twin] at eq
  simp only [block, Block.mk.injEq] at eq
  have here : order' = order := by omega
  have noWrap : h.baseAddr + x = node := by omega
  rw [address, noWrap, Nat.mod_eq_of_lt (by omega), ← here]
  exact mem

theorem parent_block {node : Nat} (low : h.baseAddr ≤ ptr) (nodeLow : h.baseAddr ≤ node)
    (aligned : (h.block order ptr).Aligned)
    (twin : h.block order node = (h.block order ptr).buddy) : ∃ x,
    2 ^ (order + h.pageShift + 1) ∣ x ∧
      h.block (order + 1) (min ptr node) = ⟨order + h.pageShift + 1, x⟩ ∧
      (h.block order ptr = ⟨order + h.pageShift, x⟩ ∧
          h.block order node = ⟨order + h.pageShift, x + 2 ^ (order + h.pageShift)⟩ ∨
        h.block order ptr = ⟨order + h.pageShift, x + 2 ^ (order + h.pageShift)⟩ ∧
          h.block order node = ⟨order + h.pageShift, x⟩) := by
  obtain ⟨x, whole, starts⟩ := aligned.halves
  rw [← twin] at starts
  simp only [block] at starts whole
  refine ⟨x, whole, ?_, ?_⟩
  · rw [block_succ, Block.mk.injEq]
    omega
  simp only [block, Block.mk.injEq, true_and]
  exact starts

theorem coalesce_books (left : Nat) (lt : left < h.orders)
    (handed : Handed h s used (h.orders - 1 - left) ptr) :
    ∃ order' ptr' s', coalesce h left ptr s = (.ok (order', ptr'), s') ∧ order' < h.orders ∧
      Handed h s' used order' ptr' ∧
      (order' + 1 < h.orders → (h.block order' ptr').buddy ∉ s'.free h) := by
  induction left generalizing s ptr with
  | zero => exact ⟨_, _, _, rfl, by omega, handed, fun more => by omega⟩
  | succ left ih =>
    obtain ⟨books, fresh, low⟩ := handed
    have valid := books.validFreeNode (by omega) low
    obtain ⟨found, twin⟩ := books.nodes.buddyPtr_mem valid
    rw [coalesce, bind_of_ok (isBlockFree_run books.nodes)]
    by_cases mem : h.buddyPtr (h.orders - 1 - (left + 1)) ptr ∈ s.freeLists (h.orders - 1 - (left + 1))
    · have buddyLow := (books.nodes.valid mem).low
      have removed := books.take mem
      have buddyFresh := books.apart _ (found.mp mem)
      rw [if_pos (decide_eq_true mem), bind_of_ok (removeFreeBlock_run books.nodes mem)]
      apply ih (by omega)
      have next : h.orders - 1 - left = h.orders - 1 - (left + 1) + 1 := by omega
      rw [next]
      obtain ⟨x, whole, parent, halves⟩ := parent_block low buddyLow valid.aligned (twin mem)
      rw [← twin mem] at buddyFresh
      have notUsed := fun inUse => buddyFresh (Set.mem_insert_of_mem _ inUse)
      suffices merged : Books h (s.take _ _) (insert ⟨_, x⟩ used) ∧ ⟨_, x⟩ ∉ used by
        refine ⟨?_, ?_, by omega⟩
        · rw [parent]
          exact merged.1
        rw [parent]
        exact merged.2
      rcases halves with ⟨lower, upper⟩ | ⟨upper, lower⟩
      · rw [lower, upper, Set.insert_comm] at removed
        rw [lower] at fresh
        rw [upper] at notUsed
        exact removed.merge whole fresh notUsed
      rw [lower, upper] at removed
      rw [upper] at fresh
      rw [lower] at notUsed
      exact removed.merge whole notUsed fresh
    rw [if_neg (by simpa using mem)]
    exact ⟨_, _, _, rfl, by omega, ⟨books, fresh, low⟩, fun _ => mt found.mpr mem⟩

/-- Merging never fails on valid lists, whatever block it starts from. -/
theorem coalesce_ok (left : Nat) (lt : left < h.orders) (nodes : NodesValid h s)
    (valid : h.ValidFreeNode (h.orders - 1 - left) ptr) :
    ∃ order' ptr' s', coalesce h left ptr s = (.ok (order', ptr'), s') ∧ h.ValidFreeNode order' ptr' := by
  induction left generalizing s ptr with
  | zero => exact ⟨_, _, _, rfl, valid⟩
  | succ left ih =>
    obtain ⟨found, twin⟩ := nodes.buddyPtr_mem valid
    rw [coalesce, bind_of_ok (isBlockFree_run nodes)]
    by_cases mem : h.buddyPtr (h.orders - 1 - (left + 1)) ptr ∈ s.freeLists (h.orders - 1 - (left + 1))
    · rw [if_pos (decide_eq_true mem), bind_of_ok (removeFreeBlock_run nodes mem)]
      apply ih (by omega) nodes.take
      have other := nodes.valid mem
      have next : h.orders - 1 - left = h.orders - 1 - (left + 1) + 1 := by omega
      rw [next]
      obtain ⟨x, whole, parent, -⟩ := parent_block valid.low other.low valid.aligned (twin mem)
      have start : min ptr (h.buddyPtr (h.orders - 1 - (left + 1)) ptr) - h.baseAddr = x := by
        rw [block_succ] at parent
        exact (Block.mk.injEq ..▸ parent).2
      obtain ⟨nonzero, -, above, below, -, word⟩ := valid
      obtain ⟨nonzero', -, above', below', -, word'⟩ := other
      refine ⟨by omega, by omega, by omega, by omega, ?_, ?_⟩
      · rw [start, orderBytes_eq, Nat.add_right_comm]
        exact whole
      rcases min_choice ptr (h.buddyPtr (h.orders - 1 - (left + 1)) ptr) with eq | eq <;> rw [eq] <;> assumption
    rw [if_neg (by simpa using mem)]
    exact ⟨_, _, _, rfl, valid⟩

end Buddy
end HuesOS.Memory
