import HuesOS.Memory.BuddyCalls

namespace HuesOS.Memory
open List Exec BuddyLedger Heap Buddy
open Dyadic (Block Tiling)

namespace Buddy
variable {h : Heap} {s : Buddy} {used : Set Block} {ptr pages : Nat}

def Guarded (h : Heap) (s : Buddy) (ptr pages : Nat) : Prop :=
  pages = 0 ∨ h.orders ≤ orderFor pages ∨ ptr < h.baseAddr ∨
    h.heapEnd < ptr + h.orderBytes (orderFor pages) ∨
    ¬h.orderBytes (orderFor pages) ∣ ptr - h.baseAddr ∨
    InsideFree h s ptr (h.orderBytes (orderFor pages))

theorem deallocate_guarded (nodes : NodesValid h s) (guarded : Guarded h s ptr pages) :
    ∃ e, deallocate h ptr pages s = (.error e, s) := by
  unfold deallocate
  dsimp only
  split
  · exact ⟨_, rfl⟩
  split
  · exact ⟨_, rfl⟩
  split
  · exact ⟨_, rfl⟩
  rename_i sized _ placed
  obtain ⟨b, run, meaning⟩ := rangeIsFree_run nodes ptr (h.orderBytes (orderFor pages))
  have inside : InsideFree h s ptr (h.orderBytes (orderFor pages)) := by
    unfold Guarded at guarded
    tauto
  rw [bind_of_ok run, meaning.mpr inside]
  exact ⟨_, rfl⟩

theorem Guarded.validFreeNode (open_ : ¬Guarded h s ptr pages) : h.ValidFreeNode (orderFor pages) ptr := by
  simp only [Guarded, not_or, not_not, not_lt, not_le] at open_
  obtain ⟨-, bound, low, high, offset, -⟩ := open_
  apply validFreeNode_of bound low
  · rw [orderBytes_eq] at offset
    exact offset
  rw [orderBytes_eq, heapEnd_eq] at high
  simp only [block]
  omega

theorem deallocate_open (nodes : NodesValid h s) (open_ : ¬Guarded h s ptr pages) :
    deallocate h ptr pages s = (do
      let (order, ptr) ← coalesce h (h.orders - 1 - orderFor pages) ptr
      pushFreeBlockChecked h order ptr) s := by
  have room : h.heapEnd < 2 ^ 64 := h.end_fits
  obtain ⟨b, run, meaning⟩ := rangeIsFree_run nodes ptr (h.orderBytes (orderFor pages))
  simp only [Guarded, not_or, not_not, not_lt, not_le] at open_
  obtain ⟨some_pages, bound, low, high, offset, apart⟩ := open_
  have none_inside : b = false := by
    rw [← Bool.not_eq_true, meaning]
    exact apart
  unfold deallocate
  dsimp only
  have placed : ¬(ptr < h.baseAddr ∨ h.heapEnd < ptr + h.orderBytes (orderFor pages) ∨
      ¬h.orderBytes (orderFor pages) ∣ ptr - h.baseAddr) := by
    simp only [not_or, not_not]
    exact ⟨by omega, by omega, offset⟩
  rw [if_neg (by omega), if_neg (by omega), if_neg placed, bind_of_ok run, none_inside]
  rfl

theorem deallocate_accepts (nodes : NodesValid h s) (open_ : ¬Guarded h s ptr pages) :
    ∃ s', deallocate h ptr pages s = (.ok (), s') := by
  have valid := Guarded.validFreeNode open_
  have bound := valid.bound
  have eq : orderFor pages = h.orders - 1 - (h.orders - 1 - orderFor pages) := by omega
  rw [eq] at valid
  obtain ⟨order', ptr', s', run, valid'⟩ := coalesce_ok _ (by omega) nodes valid
  rw [deallocate_open nodes open_, bind_of_ok run]
  exact ⟨_, pushFreeBlockChecked_run valid'⟩

theorem deallocate_books (handed : Handed h s used (orderFor pages) ptr) (some_pages : pages ≠ 0)
    (bound : orderFor pages < h.orders) :
    ∃ s', deallocate h ptr pages s = (.ok (), s') ∧ Books h s' used := by
  obtain ⟨books, fresh, low⟩ := handed
  have valid := books.validFreeNode bound low
  have inside := books.tiling.inside _ (.inr (.inl rfl))
  simp only [block] at inside
  have open_ : ¬Guarded h s ptr pages := by
    simp only [Guarded, not_or, not_not, not_lt, not_le]
    refine ⟨some_pages, bound, low, ?_, valid.2.2.2.2.1, ?_⟩
    · rw [orderBytes_eq, heapEnd_eq]
      omega
    -- A free block that contains the used one has a point in common with it.
    rintro ⟨order, node, mem, start, stop⟩
    have nodeLow := (books.nodes.valid mem).low
    have size := Nat.two_pow_pos (orderFor pages + h.pageShift)
    rw [orderBytes_eq, orderBytes_eq] at stop
    have eq : h.block order node = h.block (orderFor pages) ptr := by
      apply books.tiling.eq_of_covers (.inl ⟨order, node, mem, rfl⟩) (.inr (.inl rfl)) (p := ptr - h.baseAddr)
      · simp only [Block.Covers, block]
        omega
      · exact Block.covers_start _
    exact books.apart _ ⟨order, node, mem, rfl⟩ (.inl eq)
  have back : h.orders - 1 - (h.orders - 1 - orderFor pages) = orderFor pages := by omega
  have start : Handed h s used (h.orders - 1 - (h.orders - 1 - orderFor pages)) ptr := by
    rw [back]
    exact ⟨books, fresh, low⟩
  obtain ⟨order', ptr', s', run, bound', handed', lone⟩ := coalesce_books _ (by omega) start
  rw [deallocate_open books.nodes open_, bind_of_ok run]
  have valid' := handed'.books.validFreeNode bound' handed'.low
  exact ⟨_, pushFreeBlockChecked_run valid', handed'.books.give valid' handed'.fresh lone⟩

theorem pickOrder_spec (off remaining m : Nat) (some_left : 0 < remaining) :
    pickOrder off remaining m ≤ m ∧ 2 ^ pickOrder off remaining m ∣ off ∧
      2 ^ pickOrder off remaining m ≤ remaining ∧
      ∀ j, pickOrder off remaining m < j → j ≤ m → ¬(2 ^ j ≤ remaining ∧ 2 ^ j ∣ off) := by
  induction m with
  | zero => exact ⟨le_rfl, by simp [pickOrder], by simp [pickOrder]; omega, by omega⟩
  | succ m ih =>
    rw [pickOrder]
    split
    · rename_i excluded
      obtain ⟨bound, aligned, room, larger⟩ := ih
      refine ⟨by omega, aligned, room, fun j more atMost => ?_⟩
      rcases Nat.lt_or_eq_of_le atMost with less | rfl
      · exact larger j more (by omega)
      rintro ⟨fits, divides⟩
      rcases excluded with short | unaligned
      · omega
      · exact unaligned (Nat.mod_eq_zero_of_dvd divides)
    rename_i kept
    rw [not_or, not_not, not_lt] at kept
    exact ⟨le_rfl, Nat.dvd_of_mod_eq_zero kept.2, kept.1, by omega⟩

/-- The first `offset` pages are in the free lists, in blocks that could not be larger. -/
structure Filling (h : Heap) (s : Buddy) (offset : Nat) : Prop where
  nodes : NodesValid h s
  tiling : Tiling (offset * h.pageSize) (s.free h)
  largest : ∀ b ∈ s.free h, b.exp < h.top →
    ¬(2 ^ (b.exp + 1) ∣ b.start ∧ b.start + 2 ^ (b.exp + 1) ≤ h.bytes)

theorem Filling.empty (h : Heap) : Filling h Buddy.empty 0 := by
  have none_free : Buddy.empty.free h = ∅ := by
    ext b
    simp [free, Buddy.empty]
  constructor
  · exact ⟨fun mem => (nomatch mem), fun _ => nodup_nil⟩
  · rw [none_free]
    exact ⟨fun _ h => (nomatch h), fun _ h => (nomatch h), Set.pairwise_empty _, fun p small => by omega⟩
  rw [none_free]
  exact fun _ h => nomatch h

theorem Filling.step {off remaining order : Nat} (filling : Filling h s off)
    (all : off + remaining = h.totalPages) (some_left : 0 < remaining)
    (picked : order = pickOrder off remaining (h.orders - 1)) :
    h.ValidFreeNode order (h.baseAddr + off * h.pageSize) ∧
      Filling h (s.push order (h.baseAddr + off * h.pageSize)) (off + 2 ^ order) := by
  obtain ⟨bound, aligned, room, larger⟩ := pickOrder_spec off remaining (h.orders - 1) some_left
  rw [← picked] at bound aligned room larger
  have orders_pos := h.orders_pos
  have place : h.block order (h.baseAddr + off * h.pageSize) = ⟨order + h.pageShift, off * h.pageSize⟩ := by
    rw [block, Nat.add_sub_cancel_left]
  have size : 2 ^ (order + h.pageShift) = 2 ^ order * h.pageSize := pow_add _ _ _
  have divides : 2 ^ (order + h.pageShift) ∣ off * h.pageSize := by
    rw [size]
    exact Nat.mul_dvd_mul_right aligned _
  have fits : (off + 2 ^ order) * h.pageSize ≤ h.bytes := Nat.mul_le_mul_right _ (by omega)
  have valid : h.ValidFreeNode order (h.baseAddr + off * h.pageSize) := by
    apply validFreeNode_of (by omega) (Nat.le_add_right _ _)
    · rw [place]
      exact divides
    rw [place]
    dsimp only
    rw [size, ← Nat.add_mul]
    exact fits
  refine ⟨valid, ?_, ?_, ?_⟩
  · refine filling.nodes.push valid fun mem => ?_
    have inside := filling.tiling.inside _ ⟨_, _, mem, rfl⟩
    rw [place] at inside
    have positive := Nat.two_pow_pos (order + h.pageShift)
    dsimp only at inside
    omega
  · rw [free_push, place, Nat.add_mul, ← size]
    exact filling.tiling.extend divides
  rw [free_push, place]
  rintro b (rfl | old) small
  · rintro ⟨whole, stop⟩
    have double : 2 ^ (order + h.pageShift + 1) = 2 ^ (order + 1) * h.pageSize := by
      rw [Nat.add_right_comm, pow_add]
      rfl
    have page : 0 < h.pageSize := Nat.two_pow_pos _
    simp only [top] at small
    dsimp only at whole stop
    rw [double] at whole stop
    rw [← Nat.add_mul] at stop
    refine larger (order + 1) (Nat.lt_succ_self _) (by omega) ⟨?_, ?_⟩
    · have := Nat.le_of_mul_le_mul_right stop page
      omega
    · exact Nat.dvd_of_mul_dvd_mul_right page whole
  · exact filling.largest b old small

theorem fill_run (remaining : Nat) : ∀ {s : Buddy} {off : Nat},
    off + remaining = h.totalPages → Filling h s off →
    ∃ s', fill h off remaining s = (.ok (), s') ∧ Filling h s' h.totalPages := by
  induction remaining using Nat.strong_induction_on with
  | _ remaining ih =>
    intro s off all filling
    rw [fill]
    by_cases done : remaining = 0
    · rw [if_pos done]
      have full : off = h.totalPages := by omega
      exact ⟨s, rfl, full ▸ filling⟩
    have some_left : 0 < remaining := Nat.pos_of_ne_zero done
    obtain ⟨valid, next⟩ := filling.step all some_left rfl
    obtain ⟨-, -, room, -⟩ := pickOrder_spec off remaining (h.orders - 1) some_left
    have positive := Nat.two_pow_pos (pickOrder off remaining (h.orders - 1))
    rw [if_neg done, bind_of_ok (pushFreeBlockChecked_run valid)]
    exact ih _ (by omega) (by omega) next

theorem new_books (h : Heap) : (new h).1 = .ok () ∧ Books h (new h).2 ∅ := by
  obtain ⟨s, run, nodes, tiling, largest⟩ := fill_run h.totalPages (Nat.zero_add _) (Filling.empty h)
  rw [new, run]
  refine ⟨rfl, nodes, ?_, fun _ _ => Set.notMem_empty _, ?_⟩
  · rw [Set.union_empty]
    exact tiling
  intro b isFree small twin
  obtain ⟨x, whole, starts⟩ := (tiling.aligned b isFree).halves
  have inside := tiling.inside b isFree
  have twinInside := tiling.inside _ twin
  have sameExp : b.buddy.exp = b.exp := rfl
  rw [sameExp] at twinInside
  change _ ≤ h.bytes at inside twinInside
  have stop : x + 2 ^ (b.exp + 1) ≤ h.bytes := by
    rw [pow_succ]
    omega
  -- The lower of the two could have been a block of the next order.
  rcases starts with ⟨lower, -⟩ | ⟨-, lower⟩
  · exact largest b isFree small (by rw [lower]; exact ⟨whole, stop⟩)
  · exact largest _ twin small (by rw [lower, sameExp]; exact ⟨whole, stop⟩)

end Buddy

namespace BuddyLedger
variable {h : Heap} {s t : BuddyLedger} {ptr pages : Nat}

def liveBlocks (h : Heap) (s : BuddyLedger) : Set Block := { b | ∃ e ∈ s.live, b = h.block e.2 e.1 }

/-- Free and live blocks partition the heap, each aligned to its size and none listed twice, and
no two free buddies below the top order are left apart. -/
structure Sound (h : Heap) (s : BuddyLedger) : Prop where
  books : s.buddy.Books h (s.liveBlocks h)
  nodup : s.live.Nodup
  live : ∀ e ∈ s.live, h.baseAddr ≤ e.1 ∧ e.2 < h.orders

/-- The release is of a live block, with its size. -/
def Names (s : BuddyLedger) (ptr pages : Nat) : Prop := pages ≠ 0 ∧ (ptr, orderFor pages) ∈ s.live

structure Keeps (h : Heap) (k : Call) (s : BuddyLedger) : Prop where
  sound : (s.call h k).2.Sound h
  restored : (s.call h k).2.live = [] → (s.call h k).2.buddy.free h = (Buddy.new h).2.free h
  rejects : ∀ ptr pages, k = .deallocate ptr pages → ¬s.Names ptr pages →
    (∃ e, (s.call h k).1 = .error e) ∧ (s.call h k).2 = s

/-- Releases are of live blocks, or are caught by a check. -/
def Proper (h : Heap) (k : Call) (s : BuddyLedger) : Prop :=
  ∀ ptr pages, k = .deallocate ptr pages → s.Names ptr pages ∨ s.buddy.Guarded h ptr pages

def Calls (h : Heap) (k : Call) (s t : BuddyLedger) : Prop := t = (s.call h k).2

theorem new_sound (h : Heap) : (new h).Sound h := by
  have none_live : (new h).liveBlocks h = ∅ := by
    ext b
    simp [liveBlocks, new]
  refine ⟨?_, nodup_nil, fun e mem => nomatch mem⟩
  rw [none_live]
  exact (new_books h).2

theorem liveBlocks_cons (buddy : Buddy) (order ptr : Nat) (live : List (Nat × Nat)) :
    liveBlocks h ⟨buddy, (ptr, order) :: live⟩ = insert (h.block order ptr) (liveBlocks h ⟨buddy, live⟩) := by
  ext b
  simp [liveBlocks]

namespace Sound
variable (sound : s.Sound h)
include sound

theorem allocate (pages : Nat) : (s.call h (.allocate pages)).2.Sound h := by
  rcases allocate_books sound.books pages with ⟨ptr, buddy, run, handed, bound⟩ | ⟨e, run⟩
  · simp only [call, run]
    refine ⟨?_, ?_, ?_⟩
    · rw [liveBlocks_cons]
      exact handed.books
    · refine nodup_cons.mpr ⟨fun mem => handed.fresh ⟨_, mem, rfl⟩, sound.nodup⟩
    · exact forall_mem_cons.mpr ⟨⟨handed.low, bound⟩, sound.live⟩
  simp only [call, run]
  exact sound

theorem handed {order : Nat} (mem : (ptr, order) ∈ s.live) :
    Buddy.Handed h s.buddy (liveBlocks h ⟨s.buddy, s.live.erase (ptr, order)⟩) order ptr := by
  have low := (sound.live _ mem).1
  have eq : liveBlocks h s =
      insert (h.block order ptr) (liveBlocks h ⟨s.buddy, s.live.erase (ptr, order)⟩) := by
    rw [← liveBlocks_cons]
    ext b
    simp only [liveBlocks, Set.mem_ofPred_eq]
    exact exists_congr fun e => and_congr_left fun _ => (perm_cons_erase mem).mem_iff
  refine ⟨eq ▸ sound.books, ?_, low⟩
  rintro ⟨e, inside, equal⟩
  rw [sound.nodup.mem_erase_iff] at inside
  obtain ⟨rfl, rfl⟩ := block_inj low (sound.live e inside.2).1 equal
  exact inside.1 rfl

theorem release (names : s.Names ptr pages) : (s.call h (.deallocate ptr pages)).2.Sound h := by
  obtain ⟨some_pages, mem⟩ := names
  obtain ⟨buddy, run, books⟩ := deallocate_books (sound.handed mem) some_pages (sound.live _ mem).2
  simp only [call, run]
  exact ⟨books, sound.nodup.erase _, fun e inside => sound.live e (mem_of_mem_erase inside)⟩

theorem reject (guarded : s.buddy.Guarded h ptr pages) :
    (∃ e, (s.call h (.deallocate ptr pages)).1 = .error e) ∧ (s.call h (.deallocate ptr pages)).2 = s := by
  obtain ⟨e, run⟩ := deallocate_guarded sound.books.nodes guarded
  simp only [call, run]
  exact ⟨⟨e, rfl⟩, trivial⟩

theorem call {k : Call} (proper : Proper h k s) : (s.call h k).2.Sound h := by
  cases k with
  | allocate pages => exact sound.allocate pages
  | deallocate ptr pages =>
    rcases proper ptr pages rfl with names | guarded
    · exact sound.release names
    rw [(sound.reject guarded).2]
    exact sound

/-- With everything released the free blocks are those of the construction. -/
theorem restored (released : s.live = []) : s.buddy.free h = (Buddy.new h).2.free h := by
  have bounds : ∀ {s : Buddy} {used : Set Block}, s.Books h used → ∀ b ∈ s.free h, b.exp ≤ h.top := by
    rintro s used books b ⟨order, ptr, mem, rfl⟩
    have := (books.nodes.valid mem).bound
    simp only [block, top]
    omega
  have none_live : s.liveBlocks h = ∅ := by
    ext b
    simp [liveBlocks, released]
  have books := sound.books
  rw [none_live] at books
  have first := (new_books h).2
  have tiling := books.tiling
  have firstTiling := first.tiling
  rw [Set.union_empty] at tiling firstTiling
  exact tiling.eq_of_merged books.merged (bounds books) firstTiling first.merged (bounds first)

end Sound

/-- In every run of proper calls the promises hold in every state reached, and the next call keeps
them exactly when it is proper. -/
theorem proper_runs_keep {h : Heap} {s : BuddyLedger}
    (run : Runs (Calls h) (Proper h) (new h) s) :
    s.Sound h ∧ (s.live = [] → s.buddy.free h = (Buddy.new h).2.free h) ∧ ∀ k, Keeps h k s ↔ Proper h k s := by
  have sound : s.Sound h := by
    apply run.invariant (new_sound h)
    intro k t u pre proper taken
    rw [taken]
    exact pre.call proper
  refine ⟨sound, sound.restored, fun k => ⟨?_, ?_⟩⟩
  · intro keeps ptr pages isRelease
    by_contra improper
    rw [not_or] at improper
    obtain ⟨⟨e, failed⟩, -⟩ := keeps.rejects ptr pages isRelease improper.1
    obtain ⟨buddy, ok⟩ := deallocate_accepts sound.books.nodes improper.2
    simp only [isRelease, call, ok] at failed
    exact nomatch failed
  intro proper
  refine ⟨sound.call proper, (sound.call proper).restored, ?_⟩
  intro ptr pages isRelease unnamed
  rw [isRelease]
  exact sound.reject ((proper ptr pages isRelease).resolve_left unnamed)

def fourPages : Heap where
  baseAddr := 4096
  totalPages := 4
  pageShift := 12
  orders := 3
  orders_pos := by decide
  holds_link := by decide
  base_pos := by decide
  base_aligned := by decide
  end_fits := by decide
  block_fits := by decide

theorem new_fourPages : new fourPages = ⟨Buddy.empty.push 2 4096, []⟩ := by
  have built : Buddy.new fourPages = (.ok (), Buddy.empty.push 2 4096) := by
    rw [Buddy.new, Buddy.fill, if_neg (by decide),
      bind_of_ok (pushFreeBlockChecked_run (by decide)), Buddy.fill]
    rfl
  rw [new, built]

def afterCalls (h : Heap) (s : BuddyLedger) (calls : List Call) : BuddyLedger :=
  calls.foldl (fun s k => (s.call h k).2) s

theorem proper_allocate {pages : Nat} : Proper h (.allocate pages) s :=
  fun _ _ isRelease => nomatch isRelease

theorem refilled_run : Runs (Calls fourPages) (Proper fourPages) (new fourPages)
    (afterCalls fourPages (new fourPages) [.allocate 2, .deallocate 12288 2, .allocate 1]) := by
  refine .next (.next (.next .start proper_allocate rfl) ?_ rfl) proper_allocate rfl
  rw [new_fourPages]
  rintro ptr pages ⟨⟩
  exact .inl ⟨by decide, by decide⟩

theorem proper_runs_keep_refilled :
    (afterCalls fourPages (new fourPages)
        [.allocate 2, .deallocate 12288 2, .allocate 1]).Sound fourPages ∧
      ∀ k, Keeps fourPages k (afterCalls fourPages (new fourPages)
          [.allocate 2, .deallocate 12288 2, .allocate 1]) ↔
        Proper fourPages k (afterCalls fourPages (new fourPages)
          [.allocate 2, .deallocate 12288 2, .allocate 1]) :=
  ⟨(proper_runs_keep refilled_run).1, (proper_runs_keep refilled_run).2.2⟩

/-- The second release of the two pages passes the check for double frees, because only their
first half is free. The whole heap is then handed out over the live page. -/
theorem double_free_accepted : ∃ s,
    Runs (Calls fourPages) (Proper fourPages) (new fourPages) s ∧
      s.live = [(16384, 0)] ∧ ¬s.Names 12288 2 ∧
      (s.call fourPages (.deallocate 12288 2)).1.toOption = some 12288 ∧
      ((s.call fourPages (.deallocate 12288 2)).2.call fourPages (.allocate 4)).1.toOption = some 4096 := by
  refine ⟨_, refilled_run, ?_⟩
  rw [new_fourPages]
  refine ⟨by decide, ?_, by decide, by decide⟩
  rintro ⟨-, mem⟩
  exact absurd mem (by decide)

end BuddyLedger
end HuesOS.Memory
