import HuesOS.Lib.Dyadic
import HuesOS.Lib.Runs
import HuesOS.Memory.Buddy

namespace HuesOS.Memory
open List Set
open Dyadic (Block Tiling)

namespace Heap
variable (h : Heap)

def bytes : Nat := h.totalPages * h.pageSize

def block (order ptr : Nat) : Block := ⟨order + h.pageShift, ptr - h.baseAddr⟩

def top : Nat := h.orders - 1 + h.pageShift

variable {h} {order ptr : Nat}

theorem orderBytes_eq (order : Nat) : h.orderBytes order = 2 ^ (order + h.pageShift) := by
  rw [orderBytes, pageSize, pow_add]

theorem heapEnd_eq : h.heapEnd = h.baseAddr + h.bytes := rfl

theorem eight_dvd_base : 8 ∣ h.baseAddr := (pow_dvd_pow 2 h.holds_link).trans h.base_aligned

theorem eight_dvd_of_block (order : Nat) : 8 ∣ h.orderBytes order := by
  rw [orderBytes_eq]
  exact pow_dvd_pow 2 (h.holds_link.trans (Nat.le_add_left _ _))

theorem validFreeNode_of (bound : order < h.orders) (low : h.baseAddr ≤ ptr)
    (aligned : (h.block order ptr).Aligned)
    (inside : (h.block order ptr).start + 2 ^ (h.block order ptr).exp ≤ h.bytes) :
    h.ValidFreeNode order ptr := by
  have positive := h.base_pos
  have size := Nat.two_pow_pos (order + h.pageShift)
  simp only [block] at inside
  have offset : h.orderBytes order ∣ ptr - h.baseAddr := by
    rw [orderBytes_eq]
    exact aligned
  refine ⟨by omega, bound, low, by rw [heapEnd_eq]; omega, offset, ?_⟩
  rw [← Nat.sub_add_cancel low]
  exact Nat.dvd_add ((eight_dvd_of_block order).trans offset) eight_dvd_base

theorem ValidFreeNode.aligned (valid : h.ValidFreeNode order ptr) : (h.block order ptr).Aligned := by
  have off := valid.2.2.2.2.1
  rw [orderBytes_eq] at off
  exact off

theorem ValidFreeNode.low (valid : h.ValidFreeNode order ptr) : h.baseAddr ≤ ptr := valid.2.2.1

theorem ValidFreeNode.bound (valid : h.ValidFreeNode order ptr) : order < h.orders := valid.2.1

theorem block_inj {order' ptr' : Nat} (low : h.baseAddr ≤ ptr) (low' : h.baseAddr ≤ ptr')
    (eq : h.block order ptr = h.block order' ptr') : order = order' ∧ ptr = ptr' := by
  simp only [block, Block.mk.injEq] at eq
  omega

end Heap

namespace Buddy
variable {h : Heap} {s : Buddy} {order ptr : Nat}

def free (h : Heap) (s : Buddy) : Set Block :=
  { b | ∃ order ptr, ptr ∈ s.freeLists order ∧ b = h.block order ptr }

structure NodesValid (h : Heap) (s : Buddy) : Prop where
  valid : ∀ {order ptr}, ptr ∈ s.freeLists order → h.ValidFreeNode order ptr
  nodup : ∀ order, (s.freeLists order).Nodup

theorem NodesValid.mem_free (nodes : NodesValid h s) (low : h.baseAddr ≤ ptr) :
    h.block order ptr ∈ s.free h ↔ ptr ∈ s.freeLists order := by
  constructor
  · rintro ⟨order', ptr', mem, eq⟩
    obtain ⟨rfl, rfl⟩ := Heap.block_inj low (nodes.valid mem).low eq
    exact mem
  · exact fun mem => ⟨order, ptr, mem, rfl⟩

theorem setList_freeLists (s : Buddy) (order order' : Nat) (nodes : List Nat) :
    (s.setList order nodes).freeLists order' = if order' = order then nodes else s.freeLists order' :=
  Function.update_apply _ _ _ _

theorem free_push (s : Buddy) (order ptr : Nat) :
    (s.push order ptr).free h = insert (h.block order ptr) (s.free h) := by
  ext b
  constructor
  · rintro ⟨order', ptr', mem, rfl⟩
    rw [push, setList_freeLists] at mem
    split at mem
    · rename_i eq
      rcases mem_cons.mp mem with rfl | mem
      · exact .inl (by rw [eq])
      · exact .inr ⟨order', ptr', eq ▸ mem, rfl⟩
    · exact .inr ⟨order', ptr', mem, rfl⟩
  rintro (rfl | ⟨order', ptr', mem, rfl⟩)
  · exact ⟨order, ptr, by simp [push, setList_freeLists], rfl⟩
  refine ⟨order', ptr', ?_, rfl⟩
  rw [push, setList_freeLists]
  split
  · rename_i eq
    exact .tail _ (eq ▸ mem)
  · exact mem

def take (s : Buddy) (order ptr : Nat) : Buddy := s.setList order ((s.freeLists order).erase ptr)

theorem mem_take (nodes : NodesValid h s) {order' ptr' : Nat} :
    ptr' ∈ (s.take order ptr).freeLists order' ↔
      ptr' ∈ s.freeLists order' ∧ ¬(order' = order ∧ ptr' = ptr) := by
  rw [take, setList_freeLists]
  split
  · rename_i eq
    rw [(nodes.nodup order).mem_erase_iff, eq]
    tauto
  · tauto

theorem NodesValid.take (nodes : NodesValid h s) : NodesValid h (s.take order ptr) where
  valid mem := nodes.valid ((mem_take nodes).mp mem).1
  nodup order' := by
    rw [Buddy.take, setList_freeLists]
    split
    · exact (nodes.nodup order).erase ptr
    · exact nodes.nodup order'

theorem free_take (nodes : NodesValid h s) (low : h.baseAddr ≤ ptr) :
    (s.take order ptr).free h = s.free h \ {h.block order ptr} := by
  ext b
  constructor
  · rintro ⟨order', ptr', mem, rfl⟩
    rw [mem_take nodes] at mem
    refine ⟨⟨order', ptr', mem.1, rfl⟩, fun eq => mem.2 ?_⟩
    exact Heap.block_inj (nodes.valid mem.1).low low eq
  rintro ⟨⟨order', ptr', mem, rfl⟩, ne⟩
  refine ⟨order', ptr', (mem_take nodes).mpr ⟨mem, ?_⟩, rfl⟩
  rintro ⟨rfl, rfl⟩
  exact ne rfl

theorem NodesValid.push (nodes : NodesValid h s) (valid : h.ValidFreeNode order ptr)
    (fresh : ptr ∉ s.freeLists order) : NodesValid h (s.push order ptr) where
  valid := by
    intro order' ptr' mem
    rw [Buddy.push, setList_freeLists] at mem
    split at mem
    · rename_i eq
      rcases mem_cons.mp mem with rfl | mem
      · exact eq ▸ valid
      · exact nodes.valid (eq ▸ mem)
    · exact nodes.valid mem
  nodup order' := by
    rw [Buddy.push, setList_freeLists]
    split
    · exact nodup_cons.mpr ⟨fresh, nodes.nodup order⟩
    · exact nodes.nodup order'

structure Books (h : Heap) (s : Buddy) (used : Set Block) : Prop where
  nodes : NodesValid h s
  tiling : Tiling h.bytes (s.free h ∪ used)
  apart : ∀ b ∈ s.free h, b ∉ used
  merged : Tiling.Merged h.top (s.free h)

namespace Books
variable {used : Set Block}

theorem take (books : Books h s used) (mem : ptr ∈ s.freeLists order) :
    Books h (s.take order ptr) (insert (h.block order ptr) used) := by
  have nodes := books.nodes
  have isFree : h.block order ptr ∈ s.free h := ⟨order, ptr, mem, rfl⟩
  have free : (s.take order ptr).free h = s.free h \ {h.block order ptr} :=
    free_take nodes (nodes.valid mem).low
  refine ⟨nodes.take, ?_, ?_, ?_⟩
  · have eq : (s.take order ptr).free h ∪ insert (h.block order ptr) used = s.free h ∪ used := by
      rw [free, union_insert, ← insert_union, insert_sdiff_singleton, insert_eq_of_mem isFree]
    rw [eq]
    exact books.tiling
  · intro b inFree
    rw [free] at inFree
    rintro (rfl | inUse)
    · exact inFree.2 rfl
    · exact books.apart b inFree.1 inUse
  intro b inFree small twin
  rw [free] at inFree twin
  exact books.merged b inFree.1 small twin.1

theorem give (books : Books h s (insert (h.block order ptr) used))
    (valid : h.ValidFreeNode order ptr) (fresh : h.block order ptr ∉ used)
    (lone : order + 1 < h.orders → (h.block order ptr).buddy ∉ s.free h) :
    Books h (s.push order ptr) used := by
  have notFree : h.block order ptr ∉ s.free h := fun isFree => books.apart _ isFree (.inl rfl)
  refine ⟨?_, ?_, ?_, ?_⟩
  · apply books.nodes.push valid
    exact fun mem => notFree ((books.nodes.mem_free valid.low).mpr mem)
  · rw [free_push, insert_union, ← union_insert]
    exact books.tiling
  · rw [free_push]
    rintro b (rfl | isFree)
    · exact fresh
    · exact fun inUse => books.apart b isFree (.inr inUse)
  rw [free_push]
  have below : (h.block order ptr).exp < h.top → order + 1 < h.orders := by
    simp only [Heap.block, Heap.top]
    omega
  rintro b (rfl | isFree) small (twin | twin)
  · exact valid.aligned.buddy_ne twin
  · exact lone (below small) twin
  · refine lone (below ?_) ?_
    · rw [← twin]
      exact small
    rw [← twin, Block.buddy_buddy]
    exact isFree
  · exact books.merged b isFree small twin

variable {e x : Nat}

theorem split (books : Books h s (insert ⟨e + 1, x⟩ used)) (fresh : ⟨e + 1, x⟩ ∉ used) :
    Books h s (insert ⟨e, x⟩ (insert ⟨e, x + 2 ^ e⟩ used)) ∧
      ⟨e, x⟩ ∉ insert ⟨e, x + 2 ^ e⟩ used ∧ ⟨e, x + 2 ^ e⟩ ∉ used := by
  have tiling := books.tiling
  rw [union_insert] at tiling
  have positive := Nat.two_pow_pos e
  have out : ⟨e + 1, x⟩ ∉ s.free h ∪ used := by
    rintro (isFree | inUse)
    · exact books.apart _ isFree (.inl rfl)
    · exact fresh inUse
  have low : ⟨e, x⟩ ∉ s.free h ∪ used := fun mem =>
    tiling.not_mem_of_exp (.inl rfl) (p := x) ⟨le_rfl, by simp⟩ ⟨le_rfl, by simp⟩ (by simp) (.inr mem)
  have high : ⟨e, x + 2 ^ e⟩ ∉ s.free h ∪ used := fun mem =>
    tiling.not_mem_of_exp (.inl rfl) (p := x + 2 ^ e) ⟨by simp, by simp [pow_succ]⟩
      ⟨le_rfl, by simp⟩ (by simp) (.inr mem)
  refine ⟨⟨books.nodes, ?_, ?_, books.merged⟩, ?_, fun inUse => high (.inr inUse)⟩
  · rw [union_insert, union_insert]
    exact tiling.split out
  · rintro b isFree (rfl | rfl | inUse)
    · exact low (.inl isFree)
    · exact high (.inl isFree)
    · exact books.apart b isFree (.inr inUse)
  rintro (eq | inUse)
  · have starts : x = x + 2 ^ e := congrArg Block.start eq
    omega
  · exact low (.inr inUse)

theorem merge (books : Books h s (insert ⟨e, x⟩ (insert ⟨e, x + 2 ^ e⟩ used)))
    (whole : 2 ^ (e + 1) ∣ x) (first : ⟨e, x⟩ ∉ used) (second : ⟨e, x + 2 ^ e⟩ ∉ used) :
    Books h s (insert ⟨e + 1, x⟩ used) ∧ ⟨e + 1, x⟩ ∉ used := by
  have tiling := books.tiling
  rw [union_insert, union_insert] at tiling
  have parent : ⟨e + 1, x⟩ ∉ s.free h ∪ used := fun mem =>
    tiling.not_mem_of_exp (.inl rfl) (p := x) ⟨le_rfl, by simp⟩ ⟨le_rfl, by simp⟩ (by simp) (.inr (.inr mem))
  refine ⟨⟨books.nodes, ?_, ?_, books.merged⟩, fun inUse => parent (.inr inUse)⟩
  · rw [union_insert]
    apply tiling.merge whole
    · rintro (isFree | inUse)
      · exact books.apart _ isFree (.inl rfl)
      · exact first inUse
    rintro (isFree | inUse)
    · exact books.apart _ isFree (.inr (.inl rfl))
    · exact second inUse
  rintro b isFree (rfl | inUse)
  · exact parent (.inl isFree)
  · exact books.apart b isFree (.inr (.inr inUse))

end Books
end Buddy
end HuesOS.Memory
