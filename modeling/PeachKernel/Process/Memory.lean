/-
  File:      PeachKernel/Process/Memory.lean
  Subject:   One process's malloc and free: heap table, allocation table and page tables change
             together.

  * `Remaps` -- a change of memory seen through a page directory: which pages get a new entry, the
    directory and its tables being the same;
  * `UserWritable` -- a page the process can write at its own address;
  * `MemInv` -- the invariant of the three stores, relative to the state of the start;
  * `MemInv.take`, `MemInv.release`, `MemInv.refill` -- what the three ways through the code keep;
  * `processRun_contract` -- every state of every run: a heap page is user-writable exactly when it
    is in a recorded allocation, recorded allocations are live chains, nothing else is remapped,
    a release gives exactly its allocation back, and a call that fails changes neither table nor
    directory.
-/
import PeachKernel.Process.Alloc
import Mathlib.Logic.Relation

namespace PeachKernel

open CInt Mem

/-! ## 1. Memory seen through a directory -/

/-- The bytes of the paging structures: the chunk's word, the directory and its tables. -/
def PagingByte (m : Mem) (chunk dir a : Nat) : Prop :=
  (chunk ≤ a ∧ a < chunk + 4) ∨ (dir ≤ a ∧ a < dir + 4096) ∨ ¬ OutsideTables m dir a

/-- **A change of memory as the directory shows it**: the pages `f` gives an entry for have it, the
    others keep theirs; chunk and directory words are the same. -/
structure Remaps (m m' : Mem) (chunk dir : Nat) (f : Nat → Option Nat) : Prop where
  chunkWord : load32 m' chunk = load32 m chunk
  words : ∀ i, i < 1024 → load32 m' (dir + 4 * i) = load32 m (dir + 4 * i)
  entry : ∀ q, q < 1048576 → pte m' dir q = (f q).getD (pte m dir q)

section Remapping

variable {m m' m'' : Mem} {chunk dir : Nat} {f g : Nat → Option Nat}

theorem Remaps.tables (h : Remaps m m' chunk dir f) {i : Nat} (hi : i < 1024) :
    tableOf m' dir i = tableOf m dir i := by
  unfold tableOf
  rw [h.words i hi]

theorem Remaps.trans (h : Remaps m m' chunk dir f) (h' : Remaps m' m'' chunk dir g) :
    Remaps m m'' chunk dir fun q => (g q).or (f q) where
  chunkWord := h'.chunkWord.trans h.chunkWord
  words i hi := (h'.words i hi).trans (h.words i hi)
  entry q hq := by
    rw [h'.entry q hq, h.entry q hq]
    cases g q <;> rfl

theorem Remaps.dirOk (h : Remaps m m' chunk dir f) (hd : DirOk m dir) : DirOk m' dir :=
  hd.of_tables fun _ hi => h.tables hi

theorem Remaps.chunkOk (h : Remaps m m' chunk dir f) (hc : ChunkOk m chunk dir) :
    ChunkOk m' chunk dir :=
  ⟨h.chunkWord.trans hc.1, fun a h1 h2 => (hc.2 a h1 h2).of_tables fun _ hi => h.tables hi⟩

theorem Remaps.pagingByte (h : Remaps m m' chunk dir f) {a : Nat} (ha : PagingByte m' chunk dir a) :
    PagingByte m chunk dir a := by
  rcases ha with ha | ha | ha
  · exact Or.inl ha
  · exact Or.inr (Or.inl ha)
  · exact Or.inr (Or.inr fun ho => ha (ho.of_tables fun _ hi => h.tables hi))

/-- The bytes of a table are no outside bytes. -/
theorem not_outsideTables {i a : Nat} (hi : i < 1024) (h1 : tableOf m dir i ≤ a)
    (h2 : a < tableOf m dir i + 4096) : ¬ OutsideTables m dir a := fun h => by
  have := h i hi
  omega

/-- A change outside the paging structures remaps nothing. -/
theorem remaps_of_agree (h : ∀ a, PagingByte m chunk dir a → m' a = m a) :
    Remaps m m' chunk dir fun _ => none := by
  have hw : ∀ i, i < 1024 → load32 m' (dir + 4 * i) = load32 m (dir + 4 * i) := fun i hi =>
    load32_congr fun b h1 h2 => h b (Or.inr (Or.inl ⟨by omega, by omega⟩))
  refine ⟨load32_congr fun b h1 h2 => h b (Or.inl ⟨h1, h2⟩), hw, fun q hq => ?_⟩
  have ht : tableOf m' dir (q / 1024) = tableOf m dir (q / 1024) := by
    unfold tableOf
    rw [hw _ (by omega)]
  unfold pte
  rw [ht]
  refine load32_congr fun b h1 h2 => h b (Or.inr (Or.inr ?_))
  exact not_outsideTables (i := q / 1024) (by omega) (by omega) (by omega)

/-- The directory lies outside its tables. -/
theorem DirOk.outside (hd : DirOk m dir) {a : Nat} (h1 : dir ≤ a) (h2 : a < dir + 4096) :
    OutsideTables m dir a := fun i hi => by
  have := tableOf_aligned m dir i
  have := hd.aligned
  have := hd.ne_dir i hi
  omega

/-- A mapping call, as the directory shows it. -/
theorem MapsTo.remaps (h : MapsTo m m' dir f) (hd : DirOk m dir) (hc : ChunkOk m chunk dir) :
    Remaps m m' chunk dir f where
  chunkWord := load32_congr fun b h1 h2 => h.frame b (hc.2 b h1 h2)
  words i hi := load32_congr fun b h1 h2 => h.frame b (hd.outside (by omega) (by omega))
  entry := h.entry

/-- The entries of `n` pages from page `first` on, each mapped to its own address. -/
def pageEntries (first n flags q : Nat) : Option Nat :=
  if first ≤ q ∧ q < first + n then some (q * 4096 + flags) else none

theorem pageEntries_in {first n flags q : Nat} (h : first ≤ q ∧ q < first + n) :
    pageEntries first n flags q = some (q * 4096 + flags) := if_pos h

theorem pageEntries_out {first n flags q : Nat} (h : ¬ (first ≤ q ∧ q < first + n)) :
    pageEntries first n flags q = none := if_neg h

/-- **Mapping pages to their own addresses.** -/
theorem pagingMapTo_identity (hd : DirOk m dir) (hc : ChunkOk m chunk dir) {ptr n : Nat}
    (flags : Nat) (hf : flags < 4096) (ha : ptr % 4096 = 0) (hb : ptr + n * 4096 < 4294967296) :
    Remaps m (pagingMapTo m chunk ptr ptr (ptr + n * 4096) flags).2 chunk dir
      (pageEntries (ptr / 4096) n flags) := by
  obtain ⟨m', e, hm⟩ := pagingMapTo_ok hf hd hc (by omega) hb (not_mapRefused (n := n) ha)
  have en : (ptr + n * 4096 - ptr) / 4096 = n := by omega
  rw [e]
  rw [en] at hm
  refine (hm.congr fun q hq => ?_).remaps hd hc
  unfold rangeEntries pageEntries
  by_cases hq' : ptr / 4096 ≤ q ∧ q < ptr / 4096 + n
  · have e1 : (q + 1048576 - ptr / 4096) % 1048576 = q - ptr / 4096 := by omega
    have e2 : ptr + (q - ptr / 4096) * 4096 = q * 4096 := by omega
    rw [e1, if_pos (by omega), if_pos hq', e2, or_flags (Nat.mul_mod_left q 4096) hf]
  · rw [if_neg hq', if_neg (by omega)]

end Remapping

/-! ## 2. The invariant -/

/-- The process can write the page `q` at its own address: directory word and page entry are
    present, writeable and accessible from all, and the entry names the page itself. -/
def UserWritable (m : Mem) (dir q : Nat) : Prop :=
  load32 m (dir + 4 * (q / 1024)) &&& 7 = 7 ∧ pte m dir q &&& 7 = 7 ∧
    pte m dir q &&& 0xFFFFF000 = q * 4096

/-- **A process before its first call.** Its directory is one `paging_new_4gb` built; no heap page
    is user-writable in it (program and stack are mapped outside the heap); the paging structures
    lie in no free block; free entries of the heap table are 0. -/
structure ProcessStart (k : Kernel) (p : Process) (dir : Nat) : Prop where
  placed : k.heap.Placed
  clean : ∀ b, b < k.heap.table.total → k.heap.IsFree b → k.heap.table.entries b = entryFree
  fresh : p.recorded = []
  dirOk : DirOk k.mem dir
  dirFlags : ∀ i, i < 1024 → load32 k.mem (dir + 4 * i) &&& 7 = 7
  chunkOk : ChunkOk k.mem p.pageDirectory dir
  chunk_lt : p.pageDirectory + 4 ≤ 4294967296
  apart : ∀ a, PagingByte k.mem p.pageDirectory dir a → ∀ b, b < k.heap.table.total →
    k.heap.IsFree b → a < k.heap.saddr + b * 4096 ∨ k.heap.saddr + b * 4096 + 4096 ≤ a
  notWritable : ∀ b, b < k.heap.table.total →
    ¬ UserWritable k.mem dir (k.heap.saddr / 4096 + b)

/-- **The invariant of the three stores**, relative to the start `k₀`. A released page keeps an
    entry without any access. -/
structure MemInv (k₀ k : Kernel) (chunk dir : Nat) (live : List Allocation) : Prop where
  inv : HeapInv k.heap live
  off : OffLive k₀.heap k.heap live
  saddr : k.heap.saddr = k₀.heap.saddr
  total : k.heap.table.total = k₀.heap.table.total
  wasFree : ∀ a ∈ live, ∀ b, (a.extent k.heap.saddr).Has b → k₀.heap.IsFree b
  remap : ∃ f, Remaps k₀.mem k.mem chunk dir f
  page : ∀ a ∈ live, ∀ b, (a.extent k.heap.saddr).Has b →
    pte k.mem dir (k.heap.saddr / 4096 + b) = (k.heap.saddr / 4096 + b) * 4096 + 7
  rest : ∀ b, b < k.heap.table.total → (∀ a ∈ live, ¬ (a.extent k.heap.saddr).Has b) →
    pte k.mem dir (k.heap.saddr / 4096 + b) = pte k₀.mem dir (k.heap.saddr / 4096 + b) ∨
    pte k.mem dir (k.heap.saddr / 4096 + b) = (k.heap.saddr / 4096 + b) * 4096
  other : ∀ q, q < 1048576 → (∀ b, b < k.heap.table.total → k₀.heap.IsFree b →
    q ≠ k.heap.saddr / 4096 + b) → pte k.mem dir q = pte k₀.mem dir q

section Inv

variable {k₀ k : Kernel} {p₀ : Process} {dir : Nat} {live : List Allocation}

theorem MemInv.start (hs : ProcessStart k₀ p₀ dir) : MemInv k₀ k₀ p₀.pageDirectory dir [] where
  inv := HeapInv.nil hs.placed
  off _ _ := rfl
  saddr := rfl
  total := rfl
  wasFree _ ha := absurd ha List.not_mem_nil
  remap := ⟨_, remaps_of_agree fun _ _ => rfl⟩
  page _ ha := absurd ha List.not_mem_nil
  rest _ _ _ := Or.inl rfl
  other _ _ _ := rfl

theorem MemInv.perm {chunk : Nat} (h : MemInv k₀ k chunk dir live) {live' : List Allocation}
    (hp : live'.Perm live) : MemInv k₀ k chunk dir live' where
  inv := h.inv.perm hp
  off := h.off.perm hp
  saddr := h.saddr
  total := h.total
  wasFree a ha := h.wasFree a (hp.subset ha)
  remap := h.remap
  page a ha := h.page a (hp.subset ha)
  rest b hb hn := h.rest b hb fun a ha => hn a (hp.symm.subset ha)
  other := h.other

/-- A block that is free now was free at the start, with the same entry. -/
theorem MemInv.entry_of_free {chunk : Nat} (h : MemInv k₀ k chunk dir live) {b : Nat}
    (hb : k.heap.IsFree b) : k.heap.table.entries b = k₀.heap.table.entries b :=
  h.off b fun _ ha hh => h.inv.not_isFree ha ((Extent.hasInt_natCast _ _).mp hh) hb

theorem MemInv.free_at_start {chunk : Nat} (h : MemInv k₀ k chunk dir live) {b : Nat}
    (hb : k.heap.IsFree b) : k₀.heap.IsFree b := by
  unfold Heap.IsFree at hb ⊢
  rwa [h.entry_of_free hb] at hb

/-- Pages of the heap are pages of the address space. -/
theorem MemInv.page_lt {chunk : Nat} (h : MemInv k₀ k chunk dir live) {b : Nat}
    (hb : b < k.heap.table.total) : k.heap.saddr / 4096 + b < 1048576 := by
  have := h.inv.placed.bound
  have := h.inv.placed.aligned
  omega

/-- Clearing the bytes of free blocks remaps nothing. -/
theorem MemInv.fill_remaps (hs : ProcessStart k₀ p₀ dir)
    (h : MemInv k₀ k p₀.pageDirectory dir live) {size b : Nat} (hb : Granted k.heap size b)
    (c : UInt8) :
    (∀ a, PagingByte k.mem p₀.pageDirectory dir a →
      fill k.mem (k.heap.saddr + b * 4096) c size a = k.mem a) ∧
    Remaps k.mem (fill k.mem (k.heap.saddr + b * 4096) c size) p₀.pageDirectory dir
      fun _ => none := by
  have hsz := hb.size_le h.inv.placed
  have hag : ∀ a, PagingByte k.mem p₀.pageDirectory dir a →
      fill k.mem (k.heap.saddr + b * 4096) c size a = k.mem a := by
    intro a ha
    obtain ⟨f, hf⟩ := h.remap
    have ha₀ := hf.pagingByte ha
    refine fill_other ?_ (by omega) ?_
    · rcases ha₀ with ha₀ | ha₀ | ha₀
      · have := hs.chunk_lt
        omega
      · have := hs.dirOk.bound
        omega
      · -- the byte lies in some table
        by_contra hge
        refine ha₀ fun i _ => Or.inr ?_
        have := tableOf_bound k₀.mem dir i
        omega
    · -- were it in the run, it would lie in one of its free blocks
      by_contra hin
      have hrun := hb.first.2.1 ((a - k.heap.saddr) / 4096) (by omega) (by omega)
      have hlt : (a - k.heap.saddr) / 4096 < k.heap.table.total := by
        have := hb.first.1
        omega
      have := hs.apart a ha₀ _ (by rw [← h.total]; exact hlt) (h.free_at_start hrun)
      rw [← h.saddr] at this
      omega
  exact ⟨hag, remaps_of_agree hag⟩

/-- The first page of the block with address `saddr + b * 4096`. -/
theorem page_of_block {heap : Heap} (hp : heap.Placed) (b : Nat) :
    (heap.saddr + b * 4096) / 4096 = heap.saddr / 4096 + b := by
  have := hp.aligned
  omega

/-- **A granted request**: the run is marked, cleared, mapped and recorded. -/
theorem MemInv.take (hs : ProcessStart k₀ p₀ dir) (h : MemInv k₀ k p₀.pageDirectory dir live)
    {size b : Nat} (hb : Granted k.heap size b) :
    MemInv k₀ ⟨heapMarkBlocksTaken k.heap b (blocksFor size),
        (pagingMapTo (fill k.mem (k.heap.saddr + b * 4096) 0x00 size) p₀.pageDirectory
          (k.heap.saddr + b * 4096) (k.heap.saddr + b * 4096)
          (k.heap.saddr + b * 4096 + blocksFor size * 4096) 7).2⟩
      p₀.pageDirectory dir (⟨k.heap.saddr + b * 4096, size⟩ :: live) := by
  obtain ⟨f, hf⟩ := h.remap
  have hfill := (h.fill_remaps hs hb 0x00).2
  have hp := h.inv.placed
  have hd := hfill.dirOk (hf.dirOk hs.dirOk)
  have hc := hfill.chunkOk (hf.chunkOk hs.chunkOk)
  have hmap := hfill.trans (pagingMapTo_identity hd hc 7 (by decide)
    (block_aligned hp b) (hb.size_le hp).2.2)
  rw [page_of_block hp b] at hmap
  have hin := hb.first.1
  constructor
  case inv => exact heapInv_take h.inv hb.pos hb.first.1 hb.first.2.1
  case off => exact offLive_take h.off
  case saddr => exact h.saddr
  case total => exact (heapMarkBlocksTaken_total ..).trans h.total
  case wasFree =>
    intro a ha c hc
    rcases List.mem_cons.mp ha with rfl | ha
    · rw [heapMarkBlocksTaken_saddr, extent_of_addr] at hc
      exact h.free_at_start (hb.first.2.1 c hc.1 hc.2)
    · exact h.wasFree a ha c hc
  case remap => exact ⟨_, hf.trans hmap⟩
  case page =>
    intro a ha c hc
    dsimp only at hc ⊢
    rw [heapMarkBlocksTaken_saddr] at hc ⊢
    rcases List.mem_cons.mp ha with rfl | ha
    · rw [extent_of_addr] at hc
      have hc' : b ≤ c ∧ c < b + blocksFor size := hc
      rw [hmap.entry _ (h.page_lt (by omega)), pageEntries_in (by omega)]
      rfl
    · have hni := (h.inv.run_apart (blocksFor_pos hb.pos) hb.first.2.1 ha).symm.not_has hc
      have hni' : ¬ (b ≤ c ∧ c < b + blocksFor size) := hni
      have hlt : c < k.heap.table.total := lt_of_lt_of_le hc.2 (h.inv.inside ha)
      rw [hmap.entry _ (h.page_lt hlt), pageEntries_out (by omega)]
      exact h.page a ha c hc
  case rest =>
    intro c hc hn
    dsimp only at hc hn ⊢
    rw [heapMarkBlocksTaken_total] at hc
    rw [heapMarkBlocksTaken_saddr] at hn ⊢
    have h0 := hn _ List.mem_cons_self
    rw [extent_of_addr] at h0
    have h0' : ¬ (b ≤ c ∧ c < b + blocksFor size) := h0
    rw [hmap.entry _ (h.page_lt hc), pageEntries_out (by omega)]
    exact h.rest c hc fun a ha => hn a (List.mem_cons_of_mem _ ha)
  case other =>
    intro q hq hne
    dsimp only at hne ⊢
    rw [heapMarkBlocksTaken_saddr, heapMarkBlocksTaken_total] at hne
    have hout : ¬ (k.heap.saddr / 4096 + b ≤ q ∧
        q < k.heap.saddr / 4096 + b + blocksFor size) := by
      rintro ⟨h1, h2⟩
      refine hne (q - k.heap.saddr / 4096) (by omega) (h.free_at_start ?_) (by omega)
      exact hb.first.2.1 _ (by omega) (by omega)
    rw [hmap.entry q hq, pageEntries_out hout]
    exact h.other q hq hne

/-- **A release**: the pages lose their access, the entries of the heap table are cleared. -/
theorem MemInv.release (hs : ProcessStart k₀ p₀ dir) (h : MemInv k₀ k p₀.pageDirectory dir live)
    {a : Allocation} (ha : a ∈ live) :
    MemInv k₀ ⟨heapFree k.heap a.ptr, (pagingMapTo k.mem p₀.pageDirectory a.ptr a.ptr
        (a.ptr + blocksFor a.size * 4096) 0x00).2⟩ p₀.pageDirectory dir (live.erase a) := by
  obtain ⟨f, hf⟩ := h.remap
  have hp := h.inv.placed
  obtain ⟨hal, hlt⟩ := h.inv.end_lt ha
  have hmap := pagingMapTo_identity (hf.dirOk hs.dirOk) (hf.chunkOk hs.chunkOk) 0x00
    (by decide) hal hlt
  have hpage : a.ptr / 4096 = k.heap.saddr / 4096 + (a.extent k.heap.saddr).start := by
    have := page_of_block hp (a.extent k.heap.saddr).start
    rwa [← h.inv.addr a ha] at this
  have hin : (a.extent k.heap.saddr).start + blocksFor a.size ≤ k.heap.table.total :=
    h.inv.inside ha
  rw [hpage] at hmap
  -- the pages of the released allocation are the pages the call maps
  have hhas : ∀ c, (a.extent k.heap.saddr).Has c ↔ (a.extent k.heap.saddr).start ≤ c ∧
      c < (a.extent k.heap.saddr).start + blocksFor a.size := fun c => Iff.rfl
  constructor
  case inv => exact heapInv_free h.inv ha
  case off =>
    refine offLive_free h.inv h.off ha fun j hj => ?_
    have hj' : ((a.extent k.heap.saddr).start : Int) ≤ j ∧
      j < (a.extent k.heap.saddr).start + blocksFor a.size := hj
    obtain ⟨i, rfl⟩ : ∃ i : Nat, j = i := ⟨j.toNat, by omega⟩
    refine hs.clean i (by rw [← h.total]; omega) (h.wasFree a ha i ?_)
    exact (hhas i).mpr ⟨by omega, by omega⟩
  case saddr => exact h.saddr
  case total => exact (heapFree_total ..).trans h.total
  case wasFree => exact fun c hc => h.wasFree c (List.mem_of_mem_erase hc)
  case remap => exact ⟨_, hf.trans hmap⟩
  case page =>
    intro c hc i hi
    obtain ⟨hne, hc⟩ := h.inv.nodup.mem_erase_iff.mp hc
    dsimp only at hi ⊢
    rw [heapFree_saddr] at hi ⊢
    have hni := mt (hhas i).mpr ((h.inv.apart hc ha hne).not_has hi)
    have hlt : i < k.heap.table.total := lt_of_lt_of_le hi.2 (h.inv.inside hc)
    rw [hmap.entry _ (h.page_lt hlt), pageEntries_out (by omega)]
    exact h.page c hc i hi
  case rest =>
    intro i hi hn
    dsimp only at hi hn ⊢
    rw [heapFree_total] at hi
    rw [heapFree_saddr] at hn ⊢
    by_cases hia : (a.extent k.heap.saddr).Has i
    · have hia' := (hhas i).mp hia
      rw [hmap.entry _ (h.page_lt hi), pageEntries_in (by omega),
        Option.getD_some, Nat.add_zero]
      exact Or.inr rfl
    · have hia' := mt (hhas i).mpr hia
      rw [hmap.entry _ (h.page_lt hi), pageEntries_out (by omega)]
      refine h.rest i hi fun c hc => ?_
      by_cases e : c = a
      · exact e ▸ hia
      · exact hn c (h.inv.nodup.mem_erase_iff.mpr ⟨e, hc⟩)
  case other =>
    intro q hq hne
    dsimp only at hne ⊢
    rw [heapFree_saddr, heapFree_total] at hne
    have hout : ¬ (k.heap.saddr / 4096 + (a.extent k.heap.saddr).start ≤ q ∧
        q < k.heap.saddr / 4096 + (a.extent k.heap.saddr).start + blocksFor a.size) := by
      rintro ⟨h1, h2⟩
      refine hne (q - k.heap.saddr / 4096) (by omega) (h.wasFree a ha _ ?_) (by omega)
      exact (hhas _).mpr ⟨by omega, by omega⟩
    rw [hmap.entry q hq, pageEntries_out hout]
    exact h.other q hq hne

/-- **A request without a slot**: the run is given back, and the heap is the one before. -/
theorem MemInv.refill (hs : ProcessStart k₀ p₀ dir) (h : MemInv k₀ k p₀.pageDirectory dir live)
    {size b : Nat} (hb : Granted k.heap size b) :
    heapFree (heapMarkBlocksTaken k.heap b (blocksFor size)) (k.heap.saddr + b * 4096) =
      k.heap := by
  refine Heap.ext (HeapTable.ext (funext fun j => ?_) (by simp)) (by simp)
  rw [heapFree_take h.inv.placed hb]
  split
  · rename_i hj
    have hj' : (b : Int) ≤ j ∧ j < b + blocksFor size := hj
    obtain ⟨i, rfl⟩ : ∃ i : Nat, j = i := ⟨j.toNat, by omega⟩
    have hfree := hb.first.2.1 i (by omega) (by omega)
    have hin := hb.first.1
    rw [h.entry_of_free hfree, hs.clean i (by rw [← h.total]; omega) (h.free_at_start hfree)]
  · rfl

theorem MemInv.with_mem {chunk : Nat} (h : MemInv k₀ k chunk dir live) {m : Mem}
    (hm : Remaps k.mem m chunk dir fun _ => none) : MemInv k₀ ⟨k.heap, m⟩ chunk dir live := by
  obtain ⟨f, hf⟩ := h.remap
  have he : ∀ q, q < 1048576 → pte m dir q = pte k.mem dir q := fun q hq => hm.entry q hq
  constructor
  case inv => exact h.inv
  case off => exact h.off
  case saddr => exact h.saddr
  case total => exact h.total
  case wasFree => exact h.wasFree
  case remap => exact ⟨_, hf.trans hm⟩
  case page =>
    intro a ha b hb
    rw [he _ (h.page_lt (lt_of_lt_of_le hb.2 (h.inv.inside ha)))]
    exact h.page a ha b hb
  case rest =>
    intro b hb hn
    rw [he _ (h.page_lt hb)]
    exact h.rest b hb hn
  case other =>
    intro q hq hne
    rw [he q hq]
    exact h.other q hq hne

end Inv

/-! ## 3. Steps and runs -/

/-- A run of free blocks holds the bytes, or no block is free. -/
def Heap.Offers (heap : Heap) (size : Nat) : Prop :=
  HasRun heap.IsFree heap.table.total (blocksFor size) ∨
  ∀ b, b < heap.table.total → ¬ heap.IsFree b

theorem Heap.Offers.serves {heap : Heap} {size : Nat} (h : heap.Offers size) (h1 : 1 ≤ size) :
    heap.Serves size := by
  rcases h with h | h
  · exact Or.inl ⟨h1, h⟩
  · exact Or.inr fun b hb => h b (by omega)

/-- One call of the process. -/
inductive ProcessStep : Kernel × Process → Kernel × Process → Prop where
  | malloc (k : Kernel) (p : Process) (size : Nat) (h1 : 1 ≤ size) (h2 : size < 4294967296)
      (ho : k.heap.Offers size) : ProcessStep (k, p) (processMalloc k p size).2
  | free (k : Kernel) (p : Process) (ptr : Nat) (h0 : ptr ≠ 0) :
      ProcessStep (k, p) (processFree k p ptr)

/-- Any number of calls. -/
def ProcessRun : Kernel × Process → Kernel × Process → Prop := Relation.ReflTransGen ProcessStep

/-- **What a process can rely on**, in the state `k`, `p` of a run that started with `k₀`. -/
structure ProcessContract (k₀ k : Kernel) (p : Process) (dir : Nat) : Prop where
  /-- A heap page is user-writable exactly when it is in a recorded allocation. -/
  writable_iff : ∀ b, b < k.heap.table.total →
    (UserWritable k.mem dir (k.heap.saddr / 4096 + b) ↔
      ∃ a ∈ p.recorded, (a.extent k.heap.saddr).Has b)
  /-- The recorded allocations are live, distinct and of `ceil(size / 4096)` blocks. -/
  represented : HeapInv k.heap p.recorded
  /-- Only pages of the heap that were free at the start are ever remapped. -/
  others : ∀ q, q < 1048576 → (∀ b, b < k.heap.table.total → k₀.heap.IsFree b →
    q ≠ k.heap.saddr / 4096 + b) → pte k.mem dir q = pte k₀.mem dir q
  directory : ∀ i, i < 1024 → load32 k.mem (dir + 4 * i) = load32 k₀.mem (dir + 4 * i)
  /-- A request that is granted remaps the pages of its allocation and no other; -/
  malloc_pages : ∀ size, 1 ≤ size → size < 4294967296 → k.heap.Offers size →
    ∀ ptr, (processMalloc k p size).1 = ptr → ptr ≠ 0 → ∀ q, q < 1048576 →
      ¬ (ptr / 4096 ≤ q ∧ q < ptr / 4096 + blocksFor size) →
      pte (processMalloc k p size).2.1.mem dir q = pte k.mem dir q
  /-- a release likewise; -/
  free_pages : ∀ a ∈ p.recorded, ∀ q, q < 1048576 →
    ¬ (a.ptr / 4096 ≤ q ∧ q < a.ptr / 4096 + blocksFor a.size) →
    pte (processFree k p a.ptr).1.mem dir q = pte k.mem dir q
  /-- it takes exactly its allocation off the record and out of the heap's table, and its pages lose
      their access; -/
  free_recorded : ∀ a ∈ p.recorded,
    (processFree k p a.ptr).2.recorded = p.recorded.erase a ∧
    (∀ j, (processFree k p a.ptr).1.heap.table.entries j =
      if (a.extent k.heap.saddr).HasInt j then entryFree else k.heap.table.entries j) ∧
    ∀ b, (a.extent k.heap.saddr).Has b →
      pte (processFree k p a.ptr).1.mem dir (k.heap.saddr / 4096 + b) =
        (k.heap.saddr / 4096 + b) * 4096
  /-- a release of anything else changes nothing; -/
  free_unrecorded : ∀ ptr, ptr ≠ 0 → (∀ a ∈ p.recorded, a.ptr ≠ ptr) →
    processFree k p ptr = (k, p)
  /-- a request fails exactly when there is no run or no slot, -/
  malloc_null_iff : ∀ size, 1 ≤ size → size < 4294967296 → k.heap.Offers size →
    ((processMalloc k p size).1 = 0 ↔
      ¬ HasRun k.heap.IsFree k.heap.table.total (blocksFor size) ∨ p.recorded.length = 1024)
  /-- and then heap, table and paging structures are as before. -/
  malloc_null : ∀ size, 1 ≤ size → size < 4294967296 → k.heap.Offers size →
    (processMalloc k p size).1 = 0 →
    (processMalloc k p size).2.1.heap = k.heap ∧ (processMalloc k p size).2.2 = p ∧
    ∀ a, PagingByte k.mem p.pageDirectory dir a → (processMalloc k p size).2.1.mem a = k.mem a

section Runs

variable {k₀ k : Kernel} {p₀ p : Process} {dir : Nat}

theorem memInv_malloc (hs : ProcessStart k₀ p₀ dir) (hc : p.pageDirectory = p₀.pageDirectory)
    (h : MemInv k₀ k p₀.pageDirectory dir p.recorded) {size : Nat} (h1 : 1 ≤ size)
    (h2 : size < 4294967296) (ho : k.heap.Offers size) :
    (processMalloc k p size).2.2.pageDirectory = p₀.pageDirectory ∧
    MemInv k₀ (processMalloc k p size).2.1 p₀.pageDirectory dir
      (processMalloc k p size).2.2.recorded := by
  rcases processMalloc_serves h.inv.placed p h2 (ho.serves h1) with
    ⟨b, i, hi, hb, h0, e⟩ | ⟨b, hb, _, e⟩ | ⟨_, e⟩
  · rw [e, hc]
    refine ⟨hc, (h.take hs hb).perm (recorded_setAllocation hi h0 ?_)⟩
    have := h.inv.placed.pos
    dsimp only
    omega
  · rw [e, h.refill hs hb]
    exact ⟨hc, h.with_mem (h.fill_remaps hs hb 0x00).2⟩
  · rw [e]
    exact ⟨hc, h⟩

theorem memInv_free (hs : ProcessStart k₀ p₀ dir) (hc : p.pageDirectory = p₀.pageDirectory)
    (h : MemInv k₀ k p₀.pageDirectory dir p.recorded) {ptr : Nat} (h0 : ptr ≠ 0) :
    (processFree k p ptr).2.pageDirectory = p₀.pageDirectory ∧
    MemInv k₀ (processFree k p ptr).1 p₀.pageDirectory dir (processFree k p ptr).2.recorded := by
  by_cases hrec : ∃ a ∈ p.recorded, a.ptr = ptr
  · obtain ⟨a, ha, rfl⟩ := hrec
    rw [processFree_recorded h.inv ha, recorded_unjoin_erase h.inv ha, hc]
    exact ⟨hc, h.release hs ha⟩
  · rw [processFree_unrecorded h0 fun a ha e => hrec ⟨a, ha, e⟩]
    exact ⟨hc, h⟩

/-- **The invariant along a run.** -/
theorem memInv_run (hs : ProcessStart k₀ p₀ dir) {s : Kernel × Process}
    (hr : ProcessRun (k₀, p₀) s) : s.2.pageDirectory = p₀.pageDirectory ∧
      MemInv k₀ s.1 p₀.pageDirectory dir s.2.recorded := by
  induction hr with
  | refl =>
    refine ⟨rfl, ?_⟩
    rw [hs.fresh]
    exact MemInv.start hs
  | tail _ hstep ih =>
    cases hstep with
    | malloc k p size h1 h2 ho => exact memInv_malloc hs ih.1 ih.2 h1 h2 ho
    | free k p ptr h0 => exact memInv_free hs ih.1 ih.2 h0

theorem and_seven (n : Nat) : n &&& 7 = n % 8 := Nat.and_two_pow_sub_one_eq_mod n 3

/-- Under the invariant, user-writable heap pages are those of recorded allocations. -/
theorem MemInv.writable_iff {live : List Allocation} (hs : ProcessStart k₀ p₀ dir)
    (h : MemInv k₀ k p₀.pageDirectory dir live) {b : Nat} (hb : b < k.heap.table.total) :
    UserWritable k.mem dir (k.heap.saddr / 4096 + b) ↔
      ∃ a ∈ live, (a.extent k.heap.saddr).Has b := by
  obtain ⟨f, hf⟩ := h.remap
  have hlt := h.page_lt hb
  have hword : load32 k.mem (dir + 4 * ((k.heap.saddr / 4096 + b) / 1024)) =
      load32 k₀.mem (dir + 4 * ((k.heap.saddr / 4096 + b) / 1024)) := hf.words _ (by omega)
  constructor
  · intro hw
    by_contra hno
    rcases h.rest b hb fun a ha hh => hno ⟨a, ha, hh⟩ with e | e
    · refine hs.notWritable b (by rw [← h.total]; exact hb) ?_
      unfold UserWritable at hw ⊢
      rw [hword, e] at hw
      rw [← h.saddr]
      exact hw
    · have := hw.2.1
      rw [e, and_seven] at this
      omega
  · rintro ⟨a, ha, hh⟩
    refine ⟨?_, ?_, ?_⟩
    · rw [hword]
      exact hs.dirFlags _ (by omega)
    · rw [h.page a ha b hh, and_seven]
      omega
    · rw [h.page a ha b hh, and_pageMask (by omega)]
      omega

/-- **The contract in every state of every run.** -/
theorem processRun_contract (hs : ProcessStart k₀ p₀ dir) (hr : ProcessRun (k₀, p₀) (k, p)) :
    ProcessContract k₀ k p dir := by
  obtain ⟨hc, h⟩ := memInv_run hs hr
  dsimp only at hc h
  obtain ⟨f, hf⟩ := h.remap
  have hp := h.inv.placed
  have hpos := hp.pos
  have hd := hf.dirOk hs.dirOk
  have hck := hf.chunkOk hs.chunkOk
  constructor
  case writable_iff => exact fun b hb => h.writable_iff hs hb
  case represented => exact h.inv
  case others => exact h.other
  case directory => exact hf.words
  case malloc_pages =>
    intro size h1 h2 ho ptr hptr hne q hq hout
    rcases processMalloc_serves hp p h2 (ho.serves h1) with
      ⟨b, i, hi, hb, h0, e⟩ | ⟨b, hb, _, e⟩ | ⟨_, e⟩
    · rw [e] at hptr ⊢
      subst hptr
      have hfill := (h.fill_remaps hs hb 0x00).2
      have hmap := hfill.trans (pagingMapTo_identity (hfill.dirOk hd) (hfill.chunkOk hck)
        7 (by decide) (block_aligned hp b) (hb.size_le hp).2.2)
      rw [hc, hmap.entry q hq, pageEntries_out hout]
      rfl
    · rw [e] at hptr
      exact absurd hptr.symm hne
    · rw [e]
  case free_pages =>
    intro a ha q hq hout
    obtain ⟨hal, hlt⟩ := h.inv.end_lt ha
    have hmap := pagingMapTo_identity hd hck 0x00 (by decide) hal hlt
    rw [processFree_recorded h.inv ha, hc]
    dsimp only
    rw [hmap.entry q hq, pageEntries_out hout]
    rfl
  case free_recorded =>
    intro a ha
    obtain ⟨hal, hlt⟩ := h.inv.end_lt ha
    have hmap := pagingMapTo_identity hd hck 0x00 (by decide) hal hlt
    rw [processFree_recorded h.inv ha, recorded_unjoin_erase h.inv ha, hc]
    refine ⟨rfl, heapFree_entries h.inv ha, fun b hb => ?_⟩
    have hin : (a.extent k.heap.saddr).start + blocksFor a.size ≤ k.heap.table.total :=
      h.inv.inside ha
    have hhas : (a.extent k.heap.saddr).start ≤ b ∧
        b < (a.extent k.heap.saddr).start + blocksFor a.size := hb
    have hpage := page_of_block hp (a.extent k.heap.saddr).start
    rw [← h.inv.addr a ha] at hpage
    dsimp only
    rw [hmap.entry _ (h.page_lt (by omega)), pageEntries_in (by omega), Option.getD_some,
      Nat.add_zero]
  case free_unrecorded => exact fun ptr h0 hn => processFree_unrecorded h0 hn
  case malloc_null_iff =>
    intro size h1 h2 ho
    rcases processMalloc_serves hp p h2 (ho.serves h1) with
      ⟨b, i, hi, hb, h0, e⟩ | ⟨b, hb, hfull, e⟩ | ⟨hno, e⟩
    · rw [e]
      have hslot := recorded_length_lt hi h0
      constructor
      · intro hz
        dsimp only at hz
        omega
      · rintro (hno | hfull)
        · exact absurd ⟨b, hb.first.1, hb.first.2.1⟩ hno
        · omega
    · rw [e]
      exact ⟨fun _ => Or.inr hfull, fun _ => rfl⟩
    · rw [e]
      exact ⟨fun _ => Or.inl fun hr => hno ⟨h1, hr⟩, fun _ => rfl⟩
  case malloc_null =>
    intro size h1 h2 ho hz
    rcases processMalloc_serves hp p h2 (ho.serves h1) with
      ⟨b, i, hi, hb, h0, e⟩ | ⟨b, hb, hfull, e⟩ | ⟨hno, e⟩
    · rw [e] at hz
      dsimp only at hz
      omega
    · rw [e, hc]
      exact ⟨h.refill hs hb, rfl, (h.fill_remaps hs hb 0x00).1⟩
    · rw [e]
      exact ⟨rfl, rfl, fun _ _ => rfl⟩

end Runs

/-! ## 4. A process on the kernel heap -/

/-- The paging structures lie below and behind the kernel heap. -/
theorem identityMem_pagingByte {a : Nat} (h : PagingByte identityMem 0x00200000 0x00100000 a) :
    a < 0x01000000 ∨ 0x08000000 ≤ a := by
  rcases h with h | h | h
  · omega
  · omega
  · by_contra hno
    refine h fun i hi => ?_
    rw [identityMem_tableOf hi]
    omega

theorem kernel_processStart : ProcessStart ⟨kernelHeap fun _ => 0, identityMem⟩
    (freshProcess 0x00200000) 0x00100000 where
  placed := kernelHeap_placed _
  clean b hb _ := by
    have hb' : b < 25600 := hb
    simp only [kernelHeap, HeapTable.clear]
    rw [if_pos (by omega)]
  fresh := freshProcess_recorded _
  dirOk := identityMem_dirOk
  dirFlags i hi := by
    rw [identityMem_word hi, and_seven]
    omega
  chunkOk := identityMem_chunkOk
  chunk_lt := by
    show 0x00200000 + 4 ≤ 4294967296
    decide
  apart a ha b hb _ := by
    have hb' : b < 25600 := hb
    have := identityMem_pagingByte ha
    show a < 0x01000000 + b * 4096 ∨ 0x01000000 + b * 4096 + 4096 ≤ a
    omega
  notWritable b hb hw := by
    have hb' : b < 25600 := hb
    have h7 : pte identityMem 0x00100000 (0x01000000 / 4096 + b) &&& 7 = 7 := hw.2.1
    rw [identityMem_pte (by omega), and_seven] at h7
    omega

/-- The kernel heap serves a process its first two blocks, and the contract holds then. -/
theorem processRun_contract_kernel :
    ∃ k p, ProcessRun (⟨kernelHeap fun _ => 0, identityMem⟩, freshProcess 0x00200000) (k, p) ∧
      p.recorded.length = 1 ∧
      ProcessContract ⟨kernelHeap fun _ => 0, identityMem⟩ k p 0x00100000 := by
  have hserves : (kernelHeap fun _ => 0).Serves 5000 :=
    kernelHeap_serves _ (by decide) (by decide)
  have hroom : (kernelHeap fun _ => 0).Offers 5000 :=
    Or.inl (hserves.resolve_right fun h =>
      h 25599 rfl (kernelHeap_isFree _ (by decide))).2
  have hr : ProcessRun (⟨kernelHeap fun _ => 0, identityMem⟩, freshProcess 0x00200000)
      (processMalloc ⟨kernelHeap fun _ => 0, identityMem⟩ (freshProcess 0x00200000) 5000).2 :=
    .tail .refl (.malloc _ _ 5000 (by decide) (by decide) hroom)
  obtain ⟨k, p, ep⟩ : ∃ k p, (processMalloc ⟨kernelHeap fun _ => 0, identityMem⟩
      (freshProcess 0x00200000) 5000).2 = (k, p) := ⟨_, _, rfl⟩
  rw [ep] at hr
  refine ⟨k, p, hr, ?_, processRun_contract kernel_processStart hr⟩
  rcases processMalloc_serves (k := ⟨kernelHeap fun _ => 0, identityMem⟩) (kernelHeap_placed _)
    (freshProcess 0x00200000) (by decide) hserves with
    ⟨b, i, hi, _, h0, e⟩ | ⟨_, _, hfull, _⟩ | ⟨hno, _⟩
  · have hne : (kernelHeap fun _ => 0).saddr + b * 4096 ≠ 0 := by
      have := (kernelHeap_placed fun _ => 0).pos
      omega
    have hl := (recorded_setAllocation (a := ⟨_, 5000⟩) hi h0 hne).length_eq
    rw [freshProcess_recorded] at hl
    rw [e] at ep
    obtain ⟨_, rfl⟩ := Prod.mk.inj ep
    exact hl
  · rw [freshProcess_recorded] at hfull
    exact absurd hfull (by decide)
  · exact absurd (hroom.resolve_right fun h => h 25599 (by decide)
      (kernelHeap_isFree _ (by decide))) fun h => hno ⟨by decide, h⟩

end PeachKernel
