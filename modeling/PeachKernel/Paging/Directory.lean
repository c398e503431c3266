/-
  File:      PeachKernel/Paging/Directory.lean
  Subject:   Building and releasing a page directory: `paging_new_4gb` and `paging_free_4gb`.

  A directory is 1026 heap allocations: the directory page, its 1024 tables, and the chunk that
  points to the directory. No allocation is checked; with 1026 free blocks all of them succeed.

  * `pagingNew4gb`, `pagingFree4gb` -- the source functions;
  * `Directory` -- the addresses of a directory's parts; `HasDirectory` -- memory holds it;
  * `pagingNew4gb_grows` -- a new directory is 1026 new allocations, and memory holds it;
  * `pagingFree4gb_heap` -- releasing a directory releases exactly its parts.
-/
import PeachKernel.Heap.Grow
import PeachKernel.Paging.Paging

namespace PeachKernel

open CInt Mem

/-! ## 1. The source functions -/

/-- The inner loop of `paging_new_4gb`: the last `left` entries of a table, from entry `b`. -/
def tableLoop (entry offset flags : Nat) : (left b : Nat) → Mem → Mem
  | 0, _, m => m
  | left + 1, b, m =>
    tableLoop entry offset flags left (b + 1)
      (store32 m (entry + 4 * b) (u32 ((offset + b * 4096 : Nat) : Int) ||| flags))

/-- The outer loop: the last `left` tables, from table `i`. -/
def directoryLoop (directory flags : Nat) : (left i offset : Nat) → Kernel → Kernel
  | 0, _, _, k => k
  | left + 1, i, offset, k =>
    match kzalloc k 4096 with
    | (entry, k) =>
      let m := tableLoop entry offset flags 1024 0 k.mem
      let m := store32 m (directory + 4 * i) (entry ||| flags ||| pagingIsWriteable)
      directoryLoop directory flags left (i + 1) (u32 ((offset + 1024 * 4096 : Nat) : Int))
        ⟨k.heap, m⟩

/-- `paging_new_4gb`: the address of the chunk. -/
def pagingNew4gb (k : Kernel) (flags : Nat) : Nat × Kernel :=
  let r := kzalloc k 4096
  let directory := r.1
  let c := kzalloc (directoryLoop directory flags 1024 0 0 r.2) 4
  let chunk := c.1
  (chunk, ⟨c.2.heap, store32 c.2.mem chunk directory⟩)

/-- The loop of `paging_free_4gb`. -/
def freeTablesLoop (chunk : Nat) : (left i : Nat) → Kernel → Kernel
  | 0, _, k => k
  | left + 1, i, k =>
    let entry := load32 k.mem (load32 k.mem chunk + 4 * i)
    let table := entry &&& 0xfffff000
    freeTablesLoop chunk left (i + 1) (kfree k table)

def pagingFree4gb (k : Kernel) (chunk : Nat) : Kernel :=
  let k := freeTablesLoop chunk 1024 0 k
  let k := kfree k (load32 k.mem chunk)
  kfree k chunk

/-! ## 2. A directory as a set of allocations -/

/-- The parts of a directory. -/
structure Directory where
  chunk : Nat
  directory : Nat
  tables : List Nat

/-- The allocation of a directory page or a table. -/
def tableAlloc (t : Nat) : Allocation := ⟨t, 4096⟩

theorem tableAlloc_blocks (t : Nat) : blocksFor (tableAlloc t).size = 1 := by
  show blocksFor 4096 = 1
  decide

def Directory.allocations (d : Directory) : List Allocation :=
  d.tables.map tableAlloc ++ [tableAlloc d.directory, ⟨d.chunk, 4⟩]

/-- **Memory holds the directory.** -/
structure HasDirectory (m : Mem) (d : Directory) : Prop where
  length : d.tables.length = 1024
  chunk : load32 m d.chunk = d.directory
  word : ∀ j, j < 1024 → load32 m (d.directory + 4 * j) &&& 0xFFFFF000 = d.tables.getD j 0

/-- A directory is where its chunk and its directory page are. -/
theorem HasDirectory.congr {m m' : Mem} {d : Directory} (h : HasDirectory m d)
    (hc : ∀ a, d.chunk ≤ a → a < d.chunk + 4 → m' a = m a)
    (hd : ∀ a, d.directory ≤ a → a < d.directory + 4096 → m' a = m a) : HasDirectory m' d where
  length := h.length
  chunk := (load32_congr hc).trans h.chunk
  word j hj := by
    rw [load32_congr fun a h1 h2 => hd a (by omega) (by omega)]
    exact h.word j hj

/-! ## 3. Building -/

theorem tableLoop_other (entry offset flags left : Nat) :
    ∀ {b a : Nat} {m : Mem}, b + left ≤ 1024 → OffBlock a entry →
      tableLoop entry offset flags left b m a = m a := by
  induction left with
  | zero =>
    intro b a m _ _
    rfl
  | succ left ih =>
    intro b a m hb ha
    rw [tableLoop, ih (by omega) ha]
    unfold OffBlock at ha
    exact store32_other (by omega)

/-- Entries before the first one still to write stay. -/
theorem tableLoop_before (entry offset flags left : Nat) :
    ∀ {b j : Nat} {m : Mem}, j < b →
      load32 (tableLoop entry offset flags left b m)
        (entry + 4 * j) = load32 m (entry + 4 * j) := by
  induction left with
  | zero => exact fun _ => rfl
  | succ left ih =>
    intro b j m hj
    rw [tableLoop, ih (Nat.lt_succ_of_lt hj), load32_store32_other (by omega)]

/-- **The entries of a table**: consecutive pages from `offset`. -/
theorem tableLoop_entry {entry offset flags : Nat} (hfl : flags < 4096) (ho : offset % 4096 = 0)
    (hob : offset + 1024 * 4096 ≤ 4294967296) (left : Nat) :
    ∀ {b j : Nat} {m : Mem}, b ≤ j → j < b + left → b + left ≤ 1024 →
      load32 (tableLoop entry offset flags left b m) (entry + 4 * j) =
        (offset + j * 4096) ||| flags := by
  induction left with
  | zero =>
    intro b j m h1 h2 _
    omega
  | succ left ih =>
    intro b j m h1 h2 h3
    rw [tableLoop]
    rcases Nat.eq_or_lt_of_le h1 with rfl | h1
    · have hval : (offset + b * 4096) ||| flags < 4294967296 := by
        rw [or_flags (by omega) hfl]
        omega
      have hu : u32 ((offset + b * 4096 : Nat) : Int) = offset + b * 4096 :=
        u32_natCast_of_lt (by omega)
      rw [tableLoop_before entry offset flags left (Nat.lt_succ_self b), hu,
        load32_store32_same hval]
    · exact ih h1 (by omega) (by omega)

/-- **The tables name the pages they stand for**: entry `b` of table `j` names page `j * 1024 +
    b`. -/
def TablesIdentity (m : Mem) (flags : Nat) (tables : List Nat) : Prop :=
  ∀ j, j < tables.length → ∀ b, b < 1024 →
    load32 m (tables.getD j 0 + 4 * b) = ((j * 1024 + b) * 4096) ||| flags

/-- A change of memory off the tables. -/
theorem TablesIdentity.congr {m m' : Mem} {flags : Nat} {tables : List Nat}
    (h : TablesIdentity m flags tables)
    (hm : ∀ t ∈ tables, ∀ a, t ≤ a → a < t + 4096 → m' a = m a) :
    TablesIdentity m' flags tables := by
  intro j hj b hb
  have hmem : tables.getD j 0 ∈ tables := by
    rw [List.getD_eq_getElem _ _ hj]
    exact List.getElem_mem hj
  rw [load32_congr fun a h1 h2 => hm _ hmem a (by omega) (by omega)]
  exact h j hj b hb

/-- One table more. -/
theorem TablesIdentity.snoc {m : Mem} {flags t : Nat} {tables : List Nat}
    (h : TablesIdentity m flags tables)
    (ht : ∀ b, b < 1024 → load32 m (t + 4 * b) = ((tables.length * 1024 + b) * 4096) ||| flags) :
    TablesIdentity m flags (tables ++ [t]) := by
  intro j hj b hb
  rw [List.length_append, List.length_singleton] at hj
  rcases Nat.lt_succ_iff_lt_or_eq.mp hj with hj | rfl
  · rw [List.getD_append _ _ _ _ hj]
    exact h j hj b hb
  · rw [List.getD_append_right _ _ _ _ (Nat.le_refl _), Nat.sub_self]
    exact ht b hb

/-- Flags do not touch the address of a page. -/
theorem page_with_flags {t f g : Nat} (ht : t % 4096 = 0) (hf : f < 4096) (hg : g < 4096)
    (hb : t + 4096 ≤ 4294967296) : (t ||| f ||| g) &&& 0xFFFFF000 = t := by
  have hfg : f ||| g < 4096 := Nat.or_lt_two_pow (n := 12) hf hg
  rw [Nat.or_assoc, or_flags ht hfg, and_pageMask (by omega)]
  omega

/-- The words of the directory: tables with flags, and writeable. -/
def TableWords (m : Mem) (dir flags : Nat) (tables : List Nat) : Prop :=
  ∀ j, j < tables.length →
    load32 m (dir + 4 * j) = tables.getD j 0 ||| flags ||| pagingIsWriteable

section Build

variable {k₀ : Kernel} {live : List Allocation} {dir flags : Nat}

/-- A page that is held lies off a new block, and is as it was. -/
theorem Grows.page {k k₁ : Kernel} {live : List Allocation} {x : Allocation}
    (hg : Grows k k₁ live [x]) {t a : Nat} (ht : tableAlloc t ∈ live) (h1 : t ≤ a)
    (h2 : a < t + 4096) : OffBlock a x.ptr ∧ k₁.mem a = k.mem a := by
  have hnd := hg.inv.nodup
  rw [List.singleton_append, List.nodup_cons] at hnd
  have hne : tableAlloc t ≠ x := fun h => hnd.1 (h ▸ ht)
  have hoff : OffBlock a x.ptr :=
    hg.inv.off_of_ne (List.mem_append_right _ ht) List.mem_cons_self hne
    (tableAlloc_blocks t) (hg.small x List.mem_cons_self) h1 h2
  have hend := (hg.inv.end_lt (List.mem_append_right _ ht)).2
  rw [tableAlloc_blocks] at hend
  refine ⟨hoff, hg.mem a (Nat.lt_of_lt_of_le h2 (Nat.le_of_lt hend)) fun y hy => ?_⟩
  rw [List.mem_singleton.mp hy]
  exact hoff

/-- **One table**: a new block, its address entered into the directory. -/
theorem directoryLoop_step {k : Kernel} {acc : List Nat} (hfl : flags < 4096)
    (hg : Grows k₀ k live (acc.map tableAlloc ++ [tableAlloc dir])) (hlen : acc.length < 1024)
    (hf : 0 < freeBlocks k.heap) (hw : TableWords k.mem dir flags acc) (offset : Nat) :
    ∃ entry k₁, kzalloc k 4096 = (entry, k₁) ∧ freeBlocks k₁.heap + 1 = freeBlocks k.heap ∧
      Grows k₀ ⟨k₁.heap, store32 (tableLoop entry offset flags 1024 0 k₁.mem)
        (dir + 4 * acc.length) (entry ||| flags ||| pagingIsWriteable)⟩ live
        ((acc ++ [entry]).map tableAlloc ++ [tableAlloc dir]) ∧
      TableWords (store32 (tableLoop entry offset flags 1024 0 k₁.mem) (dir + 4 * acc.length)
        (entry ||| flags ||| pagingIsWriteable)) dir flags (acc ++ [entry]) ∧
      (offset = acc.length * 4194304 → TablesIdentity k.mem flags acc →
        TablesIdentity (store32 (tableLoop entry offset flags 1024 0 k₁.mem) (dir + 4 * acc.length)
          (entry ||| flags ||| pagingIsWriteable)) flags (acc ++ [entry])) := by
  obtain ⟨entry, k₁, e, hg₁, hne, hal, hbd, _⟩ := kzalloc_grows hg.inv hf 4096
    (by decide) (by decide)
  have hdir : tableAlloc dir ∈ acc.map tableAlloc ++ [tableAlloc dir] := by simp
  -- the directory page and the tables so far are not the new block
  have hpage : ∀ t, tableAlloc t ∈ acc.map tableAlloc ++ [tableAlloc dir] → ∀ a, t ≤ a →
      a < t + 4096 → OffBlock a entry ∧ k₁.mem a = k.mem a :=
    fun t ht a h1 h2 => hg₁.page (List.mem_append_left _ ht) h1 h2
  have hdb : dir + 4096 ≤ 4294967296 := by
    have := (hg.inv.end_lt (List.mem_append_left _ hdir)).2
    rw [tableAlloc_blocks] at this
    exact Nat.le_of_lt this
  refine ⟨entry, k₁, e, hg₁.free, ?_, fun j hj => ?_, fun hoffset hid => ?_⟩
  · have hp : ((acc ++ [entry]).map tableAlloc ++ [tableAlloc dir]).Perm
        ([⟨entry, 4096⟩] ++ (acc.map tableAlloc ++ [tableAlloc dir])) := by
      rw [List.map_append, List.append_assoc]
      exact List.perm_middle
    refine ((hg.trans hg₁).with_mem fun a _ hoffs => ?_).perm hp
    have h1 := hoffs ⟨entry, 4096⟩ List.mem_cons_self
    have h2 := hoffs (tableAlloc dir) (List.mem_cons_of_mem _ hdir)
    have h2' : a < dir ∨ dir + 4096 ≤ a := h2
    rw [store32_other (by omega), tableLoop_other entry offset flags 1024 (by decide) h1]
  · rw [List.length_append, List.length_singleton] at hj
    rcases Nat.lt_succ_iff_lt_or_eq.mp hj with hj | rfl
    · have e1 : load32 (store32 (tableLoop entry offset flags 1024 0 k₁.mem)
          (dir + 4 * acc.length) (entry ||| flags ||| pagingIsWriteable)) (dir + 4 * j) =
          load32 k.mem (dir + 4 * j) := by
        refine load32_congr fun a h1 h2 => ?_
        obtain ⟨ho, hsame⟩ := hpage dir hdir a (by omega) (by omega)
        rw [store32_other (by omega), tableLoop_other entry offset flags 1024 (by decide) ho, hsame]
      rw [e1, hw j hj, List.getD_append _ _ _ _ hj]
    · have hv : entry ||| flags ||| pagingIsWriteable < 4294967296 := by
        have hfg : flags ||| pagingIsWriteable < 4096 := Nat.or_lt_two_pow (n := 12) hfl (by decide)
        rw [Nat.or_assoc, or_flags hal hfg]
        omega
      rw [load32_store32_same hv, List.getD_append_right _ _ _ _ (Nat.le_refl _), Nat.sub_self]
      rfl
  · -- the tables so far lie off the new block and off the directory page
    have hdt : ∀ t, t ≠ dir → tableAlloc t ∈ acc.map tableAlloc ++ [tableAlloc dir] → ∀ a, t ≤ a →
        a < t + 4096 → OffBlock a dir := fun t hne ht a h1 h2 =>
      hg.inv.off_of_ne (List.mem_append_left _ ht) (List.mem_append_left _ hdir)
        (fun h => hne (congrArg Allocation.ptr h)) (tableAlloc_blocks t)
          (tableAlloc_blocks dir) h1 h2
    have hndir : dir ∉ acc := by
      have hnd := (List.nodup_append.mp hg.inv.nodup).1
      rw [List.nodup_append] at hnd
      exact fun h => hnd.2.2 _ (List.mem_map_of_mem h) _ List.mem_cons_self rfl
    refine TablesIdentity.snoc (hid.congr fun t ht a h1 h2 => ?_) fun b hb => ?_
    · have hta : tableAlloc t ∈ acc.map tableAlloc ++ [tableAlloc dir] :=
        List.mem_append_left _ (List.mem_map_of_mem ht)
      obtain ⟨ho, hsame⟩ := hpage t hta a h1 h2
      have ho' : a < dir ∨ dir + 4096 ≤ a := hdt t (fun h => hndir (h ▸ ht)) hta a h1 h2
      rw [store32_other (by omega), tableLoop_other entry offset flags 1024 (by decide) ho, hsame]
    · have hed : dir + 4096 ≤ entry ∨ entry + 4096 ≤ dir := by
        have h1 : dir < entry ∨ entry + 4096 ≤ dir :=
          (hpage dir hdir dir (Nat.le_refl _) (by omega)).1
        have h2 : dir + 4095 < entry ∨ entry + 4096 ≤ dir + 4095 :=
          (hpage dir hdir (dir + 4095) (by omega) (by omega)).1
        omega
      rw [load32_store32_other (by omega),
        tableLoop_entry hfl (by omega) (by omega) 1024 (Nat.zero_le b) (by omega) (by decide)]
      congr 1
      omega

/-- **The tables**: induction on the tables still to build. -/
theorem directoryLoop_grows (hfl : flags < 4096) (left : Nat) :
    ∀ {k : Kernel} (acc : List Nat) (i offset : Nat), acc.length = i →
      Grows k₀ k live (acc.map tableAlloc ++ [tableAlloc dir]) → i + left = 1024 →
      left ≤ freeBlocks k.heap → TableWords k.mem dir flags acc →
      ∃ (tables : List Nat) (k' : Kernel), directoryLoop dir flags left i offset k = k' ∧
        tables.length = 1024 ∧ freeBlocks k'.heap + left = freeBlocks k.heap ∧
        Grows k₀ k' live (tables.map tableAlloc ++ [tableAlloc dir]) ∧
        TableWords k'.mem dir flags tables ∧
        (offset = u32 ((i * 4194304 : Nat) : Int) → TablesIdentity k.mem flags acc →
          TablesIdentity k'.mem flags tables) := by
  induction left with
  | zero =>
    intro k acc i offset hi hg hlen _ hw
    exact ⟨acc, k, rfl, by omega, rfl, hg, hw, fun _ h => h⟩
  | succ left ih =>
    intro k acc i offset hi hg hlen hf hw
    obtain ⟨entry, k₁, e, hfree, hg₁, hw₁, hid₁⟩ :=
      directoryLoop_step hfl hg (by omega) (by omega) hw offset
    have hl : (acc ++ [entry]).length = i + 1 := by
      rw [List.length_append, List.length_singleton, hi]
    rw [hi] at hg₁ hw₁ hid₁
    obtain ⟨tables, k', e', hlen', hfree', hg', hw', hid'⟩ :=
      ih _ (i + 1) (u32 ((offset + 1024 * 4096 : Nat) : Int)) hl hg₁ (by omega)
        (by dsimp only; omega) hw₁
    refine ⟨tables, k', ?_, hlen', by dsimp only at hfree'; omega, hg', hw', fun ho hid => ?_⟩
    · simp only [directoryLoop, e]
      exact e'
    · have ho' : offset = i * 4194304 := ho.trans (u32_natCast_of_lt (by omega))
      have hnext : offset + 1024 * 4096 = (i + 1) * 4194304 := by omega
      exact hid' (by rw [hnext]) (hid₁ ho' hid)

/-- **A new directory**, word by word. -/
theorem pagingNew4gb_words {k : Kernel} (h : HeapInv k.heap live) (hf : 1026 ≤ freeBlocks k.heap)
    (hfl : flags < 4096) :
    ∃ (k' : Kernel) (d : Directory), pagingNew4gb k flags = (d.chunk, k') ∧ d.chunk ≠ 0 ∧
      Grows k k' live d.allocations ∧
      d.tables.length = 1024 ∧ load32 k'.mem d.chunk = d.directory ∧
      TableWords k'.mem d.directory flags d.tables ∧ TablesIdentity k'.mem flags d.tables := by
  obtain ⟨dir, k₁, e₁, hg₁, _⟩ := kzalloc_grows h (by omega) 4096 (by decide) (by decide)
  have hfree₁ : freeBlocks k₁.heap + 1 = freeBlocks k.heap := hg₁.free
  obtain ⟨tables, k₂, e₂, hlen, hfree₂, hg₂, hw, hid⟩ := directoryLoop_grows hfl 1024 [] 0 0 rfl
    hg₁ (Nat.zero_add 1024) (by omega) fun j hj => absurd hj (Nat.not_lt_zero j)
  obtain ⟨chunk, k₃, e₃, hg₃, hne, hal, hbd, _⟩ := kzalloc_grows hg₂.inv (by omega) 4
    (by decide) (by decide)
  have hdir : tableAlloc dir ∈ tables.map tableAlloc ++ [tableAlloc dir] := by simp
  have hcm : (⟨chunk, 4⟩ : Allocation) ∈ [(⟨chunk, 4⟩ : Allocation)] ++
      (tables.map tableAlloc ++ [tableAlloc dir]) := List.mem_cons_self
  have hdb := hg₂.inv.end_lt (List.mem_append_left _ hdir)
  rw [tableAlloc_blocks] at hdb
  have hdb' : dir + 1 * 4096 < 4294967296 := hdb.2
  -- the directory page and the tables are not the chunk's block
  have hpage : ∀ t, tableAlloc t ∈ tables.map tableAlloc ++ [tableAlloc dir] → ∀ a, t ≤ a →
      a < t + 4096 → store32 k₃.mem chunk dir a = k₂.mem a := by
    intro t ht a h1 h2
    obtain ⟨ho, hsame⟩ := hg₃.page (List.mem_append_left _ ht) h1 h2
    have ho' : a < chunk ∨ chunk + 4096 ≤ a := ho
    rw [store32_other (by omega), hsame]
  refine ⟨⟨k₃.heap, store32 k₃.mem chunk dir⟩, ⟨chunk, dir, tables⟩, ?_, hne, ?_, hlen, ?_, ?_, ?_⟩
  · unfold pagingNew4gb
    rw [e₁]
    dsimp only
    rw [e₂, e₃]
  · have hp : (Directory.allocations ⟨chunk, dir, tables⟩).Perm
        ([⟨chunk, 4⟩] ++ (tables.map tableAlloc ++ [tableAlloc dir])) := by
      have e : Directory.allocations ⟨chunk, dir, tables⟩ =
          (tables.map tableAlloc ++ [tableAlloc dir]) ++ [⟨chunk, 4⟩] :=
        (List.append_assoc _ [tableAlloc dir] [⟨chunk, 4⟩]).symm
      rw [e]
      exact List.perm_append_comm
    have := (hg₂.trans hg₃).store hcm (d := 0) (v := dir) (by decide)
    exact this.perm hp
  · exact load32_store32_same (by omega)
  · intro j hj
    have e : load32 (store32 k₃.mem chunk dir) (dir + 4 * j) = load32 k₂.mem (dir + 4 * j) := by
      have hj' : j < tables.length := hj
      exact load32_congr fun a h1 h2 => hpage dir hdir a (by omega) (by omega)
    exact e.trans (hw j hj)
  · exact (hid rfl fun j hj => absurd hj (Nat.not_lt_zero j)).congr fun t ht =>
      hpage t (List.mem_append_left _ (List.mem_map_of_mem ht))

/-- The tables of a directory are pages. -/
theorem HeapInv.table_page {heap : Heap} {d : Directory} (h : HeapInv heap (d.allocations ++ live))
    {j : Nat} (hj : j < d.tables.length) :
    d.tables.getD j 0 % 4096 = 0 ∧ d.tables.getD j 0 + 4096 ≤ 4294967296 := by
  have hmem : d.tables.getD j 0 ∈ d.tables := by
    rw [List.getD_eq_getElem _ _ hj]
    exact List.getElem_mem hj
  have hend := h.end_lt (List.mem_append_left live
    (List.mem_append_left _ (List.mem_map_of_mem (f := tableAlloc) hmem)))
  rw [tableAlloc_blocks] at hend
  exact ⟨hend.1, Nat.le_of_lt hend.2⟩

/-- **A new directory.** -/
theorem pagingNew4gb_grows {k : Kernel} (h : HeapInv k.heap live) (hf : 1026 ≤ freeBlocks k.heap)
    (hfl : flags < 4096) :
    ∃ k' d, pagingNew4gb k flags = (d.chunk, k') ∧ d.chunk ≠ 0 ∧
      Grows k k' live d.allocations ∧ HasDirectory k'.mem d ∧
      TablesIdentity k'.mem flags d.tables := by
  obtain ⟨k', d, e, hne, hg, hlen, hchunk, hw, hid⟩ := pagingNew4gb_words h hf hfl
  refine ⟨k', d, e, hne, hg, ⟨hlen, hchunk, fun j hj => ?_⟩, hid⟩
  have hj' : j < d.tables.length := by
    rw [hlen]
    exact hj
  obtain ⟨hal, hb⟩ := hg.inv.table_page hj'
  rw [hw j hj', page_with_flags hal hfl (by decide) hb]

end Build

/-! ## 4. Releasing -/

theorem freeTablesLoop_heap (chunk : Nat) (left : Nat) :
    ∀ {i : Nat} {k : Kernel} {d : Directory}, HasDirectory k.mem d → d.chunk = chunk →
      i + left = 1024 → freeTablesLoop chunk left i k =
        ⟨((d.tables.drop i).map tableAlloc).foldl (fun h a => heapFree h a.ptr) k.heap, k.mem⟩ := by
  induction left with
  | zero =>
    intro i k d h _ hi
    rw [List.drop_of_length_le (by rw [h.length]; omega)]
    rfl
  | succ left ih =>
    intro i k d h hc hi
    have hlt : i < d.tables.length := by
      rw [h.length]
      omega
    have hw : load32 k.mem (load32 k.mem chunk + 4 * i) &&& 0xfffff000 = d.tables.get ⟨i, hlt⟩ := by
      rw [← hc, h.chunk, h.word i (by omega)]
      exact List.getD_eq_getElem _ _ hlt
    have hrest := ih (i := i + 1) (k := kfree k (d.tables.get ⟨i, hlt⟩)) (d := d) h hc (by omega)
    simp only [freeTablesLoop]
    rw [hw, hrest, List.drop_eq_getElem_cons hlt]
    rfl

/-- **Releasing a directory releases its parts**, and writes no memory. -/
theorem pagingFree4gb_heap {k : Kernel} {d : Directory} (h : HasDirectory k.mem d) :
    pagingFree4gb k d.chunk =
      ⟨d.allocations.foldl (fun h a => heapFree h a.ptr) k.heap, k.mem⟩ := by
  unfold pagingFree4gb
  rw [freeTablesLoop_heap d.chunk 1024 h rfl rfl, List.drop_zero]
  unfold Directory.allocations
  rw [List.foldl_append]
  simp only [kfree, h.chunk]
  rfl

end PeachKernel
