/-
  File:      PeachKernel/Heap/Since.lean
  Subject:   A stretch of kernel code that allocates, writes into what it allocated, and releases.

  Whatever such code asks for, the heap answers with blocks that were free when it started; also a
  request that is not served (`Heap.Serves`) is answered by the free blocks that end the table. So
  memory that was in use at the start keeps its bytes, as long as the code writes into its own
  blocks only, and only blocks that were free at the start are free later.

  * `Heap.InUse` -- an address below the end of the heap that lies in no free block;
  * `Since k₀ k own` -- between `k₀` and `k`: `own` are allocations made since, and memory in use in
    `k₀` is as it was;
  * `Since.kzalloc`, `Since.grant`, `Since.grows` -- requests; `Since.free_own`, `Since.free_null`,
    `Since.giveBack` -- releases; `Since.store` -- writes.
-/
import PeachKernel.Heap.Edges
import PeachKernel.Heap.Grow

namespace PeachKernel

open CInt Mem

/-! ## 1. Requests of any size -/

section Requests

variable {heap : Heap} {size : Nat}

/-- **The ways through `heap_malloc`**: null, a run that is long enough, or the free blocks that end
    the table. -/
theorem heapMalloc_ways (hp : heap.Placed) (hs : size < 4294967296) :
    heapMalloc heap size = (0, heap) ∨
    ∃ b n, b < heap.table.total ∧
      heapMalloc heap size = (heap.saddr + b * 4096, heapMarkBlocksTaken heap b n) ∧
      ((Granted heap size b ∧ n = blocksFor size) ∨
        ∀ i, b ≤ i → i < heap.table.total → heap.IsFree i) := by
  by_cases hz : size = 0 ∨ 0xFFFFF000 < size
  · rcases heapMalloc_zero hp hz hs with ⟨b, hb, e⟩ | ⟨-, e⟩
    · have hrun := hb.2.1
      exact Or.inr ⟨b, 0, hb.1, e, Or.inr fun i h1 h2 => hrun i h1 (by omega)⟩
    · exact Or.inl e
  · have h1 : 1 ≤ size := by omega
    rcases heapMalloc_spec hp h1 (by omega) with ⟨b, hb, e⟩ | ⟨-, b, hb, e⟩ | ⟨-, -, e⟩
    · have hpos := blocksFor_pos h1
      have hin := hb.1
      exact Or.inr ⟨b, _, by omega, e, Or.inl ⟨⟨h1, hb⟩, rfl⟩⟩
    · have hrun := hb.2.1
      exact Or.inr ⟨b, _, hb.1, e, Or.inr fun i h1 h2 => hrun i h1 (by omega)⟩
    · exact Or.inl e

/-- Blocks start at pages. -/
theorem kzalloc_aligned {k : Kernel} (hp : k.heap.Placed) (hs : size < 4294967296) :
    (kzalloc k size).1 % 4096 = 0 := by
  rcases heapMalloc_ways hp hs with e | ⟨b, n, -, e, -⟩
  · simp only [kzalloc, kmalloc, e, if_true]
  · have hpos := hp.pos
    simp only [kzalloc, kmalloc, e]
    rw [if_neg (by omega)]
    exact block_aligned hp b

/-- The entries before a block are the same behind its request and its release. -/
theorem heapFree_below (hp : heap.Placed) {b n : Nat} (hb : b ≤ heap.table.total) {j : Int}
    (hj : j < b) :
    (heapFree (heapMarkBlocksTaken heap b n) (heap.saddr + b * 4096)).table.entries j =
      heap.table.entries j := by
  have hblock : heapAddressToBlock (heapMarkBlocksTaken heap b n) (heap.saddr + b * 4096) = b :=
    heapAddressToBlock_of_le hp hb
  have hmark : (heapMarkBlocksTaken heap b n).table.entries j = heap.table.entries j := by
    rw [heapMarkBlocksTaken_entries, if_neg (by omega)]
  unfold heapFree heapMarkBlocksFree
  dsimp only
  rw [hblock, ← hmark]
  refine markFreeLoop_frame _ _ _ j fun hmem => ?_
  have := (freeIndexes_bounds _ _ _ j hmem).1
  omega

/-- **An answer inside the heap** was granted: a run that is too short ends the table. -/
theorem kzalloc_inside {k : Kernel} {size : Nat} (hp : k.heap.Placed) (h1 : 1 ≤ size)
    (h0 : (kzalloc k size).1 ≠ 0)
    (hin : (kzalloc k size).1 + size ≤ k.heap.saddr + k.heap.table.total * 4096) :
    ∃ b, Granted k.heap size b ∧ (kzalloc k size).1 = k.heap.saddr + b * 4096 ∧
      (kzalloc k size).2 = ⟨heapMarkBlocksTaken k.heap b (blocksFor size),
        fill k.mem (kzalloc k size).1 0x00 size⟩ := by
  have hbound := hp.bound
  have hal : (kzalloc k size).1 % 4096 = 0 := kzalloc_aligned hp (by omega)
  have hmem : (kzalloc k size).2 = ⟨(heapMalloc k.heap size).2,
      fill k.mem (kzalloc k size).1 0x00 size⟩ := by
    have hne := h0
    rw [kzalloc_ptr] at hne ⊢
    unfold kzalloc kmalloc
    dsimp only
    rw [if_neg hne]
  rw [kzalloc_ptr] at h0 hin hal hmem ⊢
  rcases heapMalloc_spec hp h1 (by omega) with ⟨b, hb, e⟩ | ⟨hno, b, hb, e⟩ | ⟨-, -, e⟩
  · rw [e] at hmem
    exact ⟨b, ⟨h1, hb⟩, congrArg Prod.fst e, by rw [e]; exact hmem⟩
  · rw [e] at hin
    dsimp only at hin
    have hlen : b + blocksFor size ≤ k.heap.table.total := by
      unfold blocksFor ceilDiv
      omega
    exact absurd ⟨b, hlen, fun i h2 h3 => hb.2.1 i h2 (by omega)⟩ hno
  · rw [e] at h0
    exact absurd rfl h0

end Requests

/-! ## 2. Memory in use -/

/-- The address lies below the end of the heap, in no block that is free. -/
def Heap.InUse (heap : Heap) (a : Nat) : Prop :=
  a < heap.saddr + heap.table.total * 4096 ∧
    ∀ b, b < heap.table.total → heap.IsFree b → OffBlock a (heap.saddr + b * 4096)

/-- **An address in use** lies off an allocation whose blocks were free. -/
theorem Heap.InUse.off {heap₀ heap : Heap} {live : List Allocation} {y : Allocation} {a : Nat}
    (ha : heap₀.InUse a) (h : HeapInv heap live) (hs : heap.saddr = heap₀.saddr)
    (ht : heap.table.total = heap₀.table.total) (hy : y ∈ live)
    (hf : ∀ b, (y.extent heap₀.saddr).Has b → heap₀.IsFree b) : OffBlock a y.ptr := by
  have haddr := h.addr y hy
  have hin := h.inside hy
  have hpos := h.pos hy
  rw [hs] at haddr hin hpos
  rw [ht] at hin
  rw [haddr]
  refine ha.2 _ (by omega) (hf _ ?_)
  unfold Extent.Has
  omega

/-- **What the kernel did between `k₀` and `k`**: `own` was allocated in blocks that were free, no
    other block became free, and memory in use is as it was. -/
structure Since (k₀ k : Kernel) (own : List Allocation) : Prop where
  saddr : k.heap.saddr = k₀.heap.saddr
  total : k.heap.table.total = k₀.heap.table.total
  inv : HeapInv k.heap own
  stops : k.heap.NullStops
  free : ∀ b, b < k₀.heap.table.total → k.heap.IsFree b → k₀.heap.IsFree b
  fresh : ∀ x ∈ own, ∀ b, (x.extent k₀.heap.saddr).Has b → k₀.heap.IsFree b
  mem : ∀ a, k₀.heap.InUse a → k.mem a = k₀.mem a

section Since

variable {k₀ k k' : Kernel} {own : List Allocation} {a : Allocation} {size : Nat}

theorem Since.refl (hp : k.heap.Placed) (hn : k.heap.NullStops) : Since k k [] where
  saddr := rfl
  total := rfl
  inv := .nil hp
  stops := hn
  free _ _ h := h
  fresh _ h := absurd h List.not_mem_nil
  mem _ _ := rfl

/-- Memory in use at the start is in use later. -/
theorem Since.inUse (h : Since k₀ k own) {x : Nat} (hx : k₀.heap.InUse x) : k.heap.InUse x := by
  refine ⟨by rw [h.saddr, h.total]; exact hx.1, fun b hb hfree => ?_⟩
  rw [h.total] at hb
  rw [h.saddr]
  exact hx.2 b hb (h.free b hb hfree)

theorem Since.perm (h : Since k₀ k own) {own' : List Allocation} (hp : own'.Perm own) :
    Since k₀ k own' :=
  { h with
    inv := h.inv.perm hp
    fresh := fun x hx => h.fresh x (hp.subset hx) }

/-- An owner may forget allocations. -/
theorem Since.forget (h : Since k₀ k own) {own' : List Allocation} (hs : own'.Sublist own) :
    Since k₀ k own' :=
  { h with
    inv := h.inv.forget hs
    fresh := fun x hx => h.fresh x (hs.subset hx) }

/-- **A write outside the memory in use.** -/
theorem Since.store (h : Since k₀ k own) {m : Mem} (hm : ∀ x, k₀.heap.InUse x → m x = k.mem x) :
    Since k₀ ⟨k.heap, m⟩ own :=
  { h with mem := fun x hx => (hm x hx).trans (h.mem x hx) }

/-- The same change of the memory at the start. -/
theorem Since.rebase (h : Since k₀ k own) {m₀ m : Mem} (hm : ∀ x, k₀.heap.InUse x → m x = m₀ x) :
    Since ⟨k₀.heap, m₀⟩ ⟨k.heap, m⟩ own :=
  { h with mem := hm }

/-- Memory in use lies off what is owned. -/
theorem Since.off_own (h : Since k₀ k own) {x : Nat} (hx : k₀.heap.InUse x) {y : Allocation}
    (hy : y ∈ own) : OffBlock x y.ptr :=
  hx.off h.inv h.saddr h.total hy (h.fresh y hy)

/-- A change of entries that were free keeps what is owned. -/
theorem Since.entries (h : Since k₀ k own) {heap : Heap} (hs : heap.saddr = k.heap.saddr)
    (ht : heap.table.total = k.heap.table.total) (hneg : ∀ j : Int, j < 0 →
      heap.table.entries j = k.heap.table.entries j)
    (he : ∀ i : Nat, i < k.heap.table.total →
      heap.table.entries i = k.heap.table.entries i ∨ k.heap.IsFree i)
    (hfree : ∀ i, i < k.heap.table.total → heap.IsFree i → k.heap.IsFree i) :
    Since k₀ ⟨heap, k.mem⟩ own where
  saddr := hs.trans h.saddr
  total := ht.trans h.total
  inv := by
    refine h.inv.congr ht hs fun x hx i hi => ?_
    have hin := h.inv.inside hx
    have hlt : i < k.heap.table.total := by
      unfold Extent.Has at hi
      omega
    exact (he i hlt).resolve_right (h.inv.not_isFree hx hi)
  stops := h.stops.congr hs hneg
  free b hb hf := h.free b hb (hfree b (by rw [h.total]; exact hb) hf)
  fresh := h.fresh
  mem := h.mem

/-- The size of a request does not lead out of the address space. -/
def Heap.Reaches (heap : Heap) (size : Nat) : Prop :=
  heap.saddr + heap.table.total * 4096 + size ≤ 4294967296

theorem Since.size_lt (h : Since k₀ k own) (hs : k₀.heap.Reaches size) : size < 4294967296 := by
  have hpos := h.inv.placed.pos
  rw [h.saddr] at hpos
  unfold Heap.Reaches at hs
  omega

/-- **The bytes of an answer** are not in use. -/
theorem Since.kzalloc_off (h : Since k₀ k own) (hs : k₀.heap.Reaches size)
    (h0 : (kzalloc k size).1 ≠ 0) {x : Nat} (hx : k₀.heap.InUse x) :
    x < (kzalloc k size).1 ∨ (kzalloc k size).1 + size ≤ x := by
  have hx' := h.inUse hx
  have hbound := hx'.1
  rw [kzalloc_ptr] at h0 ⊢
  rcases heapMalloc_ways h.inv.placed (h.size_lt hs) with e | ⟨b, n, hb, e, hcase⟩
  · rw [e] at h0
    exact absurd rfl h0
  · rw [e]
    dsimp only
    by_contra hcon
    -- the block of the address would be free
    have hblock : ∀ i, b ≤ i → i < k.heap.table.total → x / 4096 = k.heap.saddr / 4096 + i →
        k.heap.IsFree i → False := by
      intro i _ hi hdiv hfree
      have hoff := hx'.2 i hi hfree
      have hal := h.inv.placed.aligned
      unfold OffBlock at hoff
      omega
    have hal := h.inv.placed.aligned
    have hge : b ≤ x / 4096 - k.heap.saddr / 4096 := by omega
    have hlt : x / 4096 - k.heap.saddr / 4096 < k.heap.table.total := by omega
    refine hblock (x / 4096 - k.heap.saddr / 4096) hge hlt (by omega) ?_
    rcases hcase with ⟨hg, rfl⟩ | htail
    · have hsz := hg.size_le h.inv.placed
      exact hg.first.2.1 _ hge (by omega)
    · exact htail _ hge hlt

theorem Since.kzalloc_lt (h : Since k₀ k own) (hs : k₀.heap.Reaches size)
    (h0 : (kzalloc k size).1 ≠ 0) :
    (kzalloc k size).1 < k₀.heap.saddr + k₀.heap.table.total * 4096 := by
  rw [kzalloc_ptr] at h0 ⊢
  obtain ⟨b, hb, -, e⟩ := heapMalloc_start h.inv.placed (h.size_lt hs) h0
  rw [h.total] at hb
  rw [e, h.saddr]
  omega

/-- **A request of any size** keeps what is owned. -/
theorem Since.kzalloc (h : Since k₀ k own) (hs : k₀.heap.Reaches size) :
    Since k₀ (kzalloc k size).2 own := by
  have hlt := h.size_lt hs
  have hheap : Since k₀ ⟨(heapMalloc k.heap size).2, k.mem⟩ own := by
    rcases heapMalloc_ways h.inv.placed hlt with e | ⟨b, n, hb, e, hcase⟩
    · rw [e]
      exact h
    · rw [e]
      have hrun : ∀ i, b ≤ i → i < b + n → i < k.heap.table.total → k.heap.IsFree i := by
        intro i h1 h2 h3
        rcases hcase with ⟨hg, rfl⟩ | htail
        · exact hg.first.2.1 i h1 h2
        · exact htail i h1 h3
      refine h.entries rfl (heapMarkBlocksTaken_total ..) (fun j hj => ?_) (fun i hi => ?_)
        fun i hi hfree => ?_
      · rw [heapMarkBlocksTaken_entries, if_neg (by omega)]
      · by_cases hin : b ≤ i ∧ i < b + n
        · exact Or.inr (hrun i hin.1 hin.2 hi)
        · exact Or.inl (heapMarkBlocksTaken_other _ _ _ hin)
      · by_cases hin : b ≤ i ∧ i < b + n
        · exact hrun i hin.1 hin.2 hi
        · unfold Heap.IsFree at hfree ⊢
          rwa [heapMarkBlocksTaken_other _ _ _ hin] at hfree
  by_cases h0 : (PeachKernel.kzalloc k size).1 = 0
  · have hmem : (PeachKernel.kzalloc k size).2 = ⟨(heapMalloc k.heap size).2, k.mem⟩ := by
      rw [kzalloc_ptr] at h0
      unfold PeachKernel.kzalloc kmalloc
      dsimp only
      rw [if_pos h0]
    rw [hmem]
    exact hheap
  · have hmem : (PeachKernel.kzalloc k size).2 = ⟨(heapMalloc k.heap size).2,
        fill k.mem (PeachKernel.kzalloc k size).1 0x00 size⟩ := by
      have hne := h0
      rw [kzalloc_ptr] at hne ⊢
      unfold PeachKernel.kzalloc kmalloc
      dsimp only
      rw [if_neg hne]
    rw [hmem]
    refine hheap.store fun x hx => ?_
    have hoff := h.kzalloc_off hs h0 hx
    have hxb := hx.1
    have hptr := h.kzalloc_lt hs h0
    unfold Heap.Reaches at hs
    exact fill_other (by omega) (by omega) hoff

/-- An answer that is given back at once. -/
theorem Since.giveBack (h : Since k₀ k own) (hs : k₀.heap.Reaches size)
    (h0 : (PeachKernel.kzalloc k size).1 ≠ 0) {m : Mem}
    (hm : Since k₀ ⟨(PeachKernel.kzalloc k size).2.heap, m⟩ own) :
    Since k₀ (kfree ⟨(PeachKernel.kzalloc k size).2.heap, m⟩ (PeachKernel.kzalloc k size).1)
      own := by
  rw [kzalloc_ptr] at h0 ⊢
  rw [kzalloc_heap] at hm ⊢
  unfold kfree
  dsimp only
  rcases heapMalloc_ways h.inv.placed (h.size_lt hs) with e | ⟨b, n, hb, e, hcase⟩
  · rw [e] at h0
    exact absurd rfl h0
  · rw [e] at hm ⊢
    dsimp only at hm ⊢
    -- entry by entry: as before the request, or in a block that was free then
    have hentry : ∀ i : Nat, i < k.heap.table.total →
        (heapFree (heapMarkBlocksTaken k.heap b n) (k.heap.saddr + b * 4096)).table.entries i =
          k.heap.table.entries i ∨ k.heap.IsFree i := by
      intro i hi
      rcases hcase with ⟨hg, rfl⟩ | htail
      · rw [heapFree_take h.inv.placed hg]
        by_cases hin : (⟨b, blocksFor size⟩ : Extent).HasInt i
        · rw [Extent.hasInt_natCast] at hin
          exact Or.inr (hg.first.2.1 i hin.1 hin.2)
        · rw [if_neg hin]
          exact Or.inl rfl
      · by_cases hin : b ≤ i
        · exact Or.inr (htail i hin hi)
        · exact Or.inl (heapFree_below h.inv.placed (Nat.le_of_lt hb) (by omega))
    have hkeep : Since k₀ ⟨heapFree (heapMarkBlocksTaken k.heap b n) (k.heap.saddr + b * 4096),
        k.mem⟩ own := by
      refine h.entries rfl ?_ (fun j hj => ?_) hentry fun i hi hfree => ?_
      · rw [heapFree_total, heapMarkBlocksTaken_total]
      · exact heapFree_below h.inv.placed (Nat.le_of_lt hb) (by omega)
      · rcases hentry i hi with he | hf
        · unfold Heap.IsFree at hfree ⊢
          rwa [he] at hfree
        · exact hf
    exact hkeep.store fun x hx => (hm.mem x hx).trans (h.mem x hx).symm

/-- **Objects of one block each.** -/
theorem Since.grows (h : Since k₀ k own) {new : List Allocation} (hg : Grows k k' own new) :
    Since k₀ k' (new ++ own) where
  saddr := hg.saddr.trans h.saddr
  total := hg.total.trans h.total
  inv := hg.inv
  stops := h.stops.congr hg.saddr fun j hj => hg.off j fun x _ => (x.extent _).not_hasInt_neg hj
  free b hb hf := by
    by_cases hin : ∃ x ∈ new, (x.extent k'.heap.saddr).Has b
    · obtain ⟨x, hx, hxb⟩ := hin
      exact absurd hf (hg.inv.not_isFree (List.mem_append_left _ hx) hxb)
    · refine h.free b hb ?_
      have hentry : k'.heap.table.entries b = k.heap.table.entries b :=
        hg.off b fun x hx hxb => hin ⟨x, hx, (Extent.hasInt_natCast _ _).mp hxb⟩
      unfold Heap.IsFree at hf ⊢
      rwa [hentry] at hf
  fresh x hx b hb := by
    rcases List.mem_append.mp hx with hx | hx
    · have hin := hg.inv.inside (List.mem_append_left own hx)
      rw [hg.total, h.total, hg.saddr, h.saddr] at hin
      refine h.free b ?_ (hg.wasFree x hx b (by rw [hg.saddr, h.saddr]; exact hb))
      unfold Extent.Has at hb
      omega
    · exact h.fresh x hx b hb
  mem a ha := by
    have hbound := ha.1
    have hspan := h.inv.placed.bound
    rw [h.saddr, h.total] at hspan
    refine (hg.mem a (by omega) fun x hx => ?_).trans (h.mem a ha)
    -- a new block was free, and the address lies in none that was
    refine ha.off hg.inv (hg.saddr.trans h.saddr) (hg.total.trans h.total)
      (List.mem_append_left own hx) fun b hb => ?_
    have hin := hg.inv.inside (List.mem_append_left own hx)
    rw [hg.total, h.total, hg.saddr, h.saddr] at hin
    refine h.free b ?_ (hg.wasFree x hx b (by rw [hg.saddr, h.saddr]; exact hb))
    unfold Extent.Has at hb
    omega

/-- **A request that is granted**, of any size. -/
theorem Since.request (h : Since k₀ k own) (hs : k₀.heap.Reaches size) (h1 : 1 ≤ size)
    (h0 : (PeachKernel.kzalloc k size).1 ≠ 0)
    (hin : (PeachKernel.kzalloc k size).1 + size ≤ k₀.heap.saddr + k₀.heap.table.total * 4096) :
    Since k₀ (PeachKernel.kzalloc k size).2 (⟨(PeachKernel.kzalloc k size).1, size⟩ :: own) := by
  rw [← h.saddr, ← h.total] at hin
  obtain ⟨b, hg, hptr, hk⟩ := kzalloc_inside h.inv.placed h1 h0 hin
  have hkeep := h.kzalloc hs
  have hrun := hg.first.2.1
  refine { hkeep with inv := ?_, fresh := fun x hx i hi => ?_ }
  · rw [hk, hptr]
    exact heapInv_take h.inv h1 hg.first.1 hrun
  · rcases List.mem_cons.mp hx with rfl | hx
    · rw [hptr, ← h.saddr] at hi
      rw [extent_of_addr] at hi
      have hlen := hg.first.1
      rw [h.total] at hlen
      unfold Extent.Has at hi
      dsimp only at hi
      exact h.free i (by omega) (hrun i hi.1 hi.2)
    · exact h.fresh x hx i hi

/-- A request of at most a page that is granted. -/
theorem Since.grant (h : Since k₀ k own) (h1 : 1 ≤ size) (h2 : size ≤ 4096)
    (hne : (PeachKernel.kzalloc k size).1 ≠ 0) :
    Since k₀ (PeachKernel.kzalloc k size).2 (⟨(PeachKernel.kzalloc k size).1, size⟩ :: own) := by
  have hf := freeBlocks_pos h.inv.placed h1 h2 hne
  obtain ⟨ptr, k', e, hg, -⟩ := kzalloc_grows h.inv hf size h1 h2
  rw [e]
  exact h.grows hg

/-- ... or not. -/
theorem Since.ask (h : Since k₀ k own) (h1 : 1 ≤ size) (h2 : size ≤ 4096) :
    Since k₀ (PeachKernel.kzalloc k size).2 own := by
  by_cases h0 : (PeachKernel.kzalloc k size).1 = 0
  · rw [kzalloc_null h.inv.placed h1 h2 h0]
    exact h
  · exact (h.grant h1 h2 h0).forget (List.sublist_cons_self ..)

/-- **A release** of an allocation of one's own. -/
theorem Since.free_own (h : Since k₀ k (a :: own)) : Since k₀ (kfree k a.ptr) own where
  saddr := h.saddr
  total := (heapFree_total ..).trans h.total
  inv := by
    have hinv := heapInv_free h.inv List.mem_cons_self
    rwa [List.erase_cons_head] at hinv
  stops := h.stops.congr (heapFree_saddr ..) fun j hj => by
    show (heapFree k.heap a.ptr).table.entries j = _
    rw [heapFree_entries h.inv List.mem_cons_self, if_neg ((a.extent _).not_hasInt_neg hj)]
  free b hb hf := by
    by_cases hin : (a.extent k.heap.saddr).Has b
    · rw [h.saddr] at hin
      exact h.fresh a List.mem_cons_self b hin
    · refine h.free b hb ?_
      unfold Heap.IsFree at hf ⊢
      have hentry : (heapFree k.heap a.ptr).table.entries b = k.heap.table.entries b := by
        rw [heapFree_entries h.inv List.mem_cons_self,
          if_neg (fun hb' => hin ((Extent.hasInt_natCast _ _).mp hb'))]
      unfold kfree at hf
      dsimp only at hf
      rwa [hentry] at hf
  fresh x hx := h.fresh x (List.mem_cons_of_mem _ hx)
  mem := h.mem

/-- The release of the null pointer. -/
theorem Since.free_null (h : Since k₀ k own) : Since k₀ (kfree k 0) own where
  saddr := h.saddr
  total := (heapFree_total ..).trans h.total
  inv := h.inv.congr (heapFree_total ..) (heapFree_saddr ..) fun _ _ i _ => heapFree_null h.stops i
  stops := h.stops.free
  free b hb hf := by
    refine h.free b hb ?_
    unfold kfree Heap.IsFree at hf
    dsimp only at hf
    rwa [heapFree_null h.stops] at hf
  fresh := h.fresh
  mem := h.mem

end Since

end PeachKernel
