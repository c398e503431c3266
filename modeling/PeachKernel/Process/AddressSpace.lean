/-
  File:      PeachKernel/Process/AddressSpace.lean
  Subject:   The address space of a program that `process_load` of `task/process.c` has loaded from
             a raw binary on FAT32.

  The kernel maps the program at 4 MiB, its stack below that, and the screen; everything else stays
  mapped to itself and read-only. So what the program may write besides the screen is memory that
  nobody had in use before the load, and what it finds at its entry are the bytes of the file.

  * `Translation`, `binaryTranslation` -- where the addresses of a program lead;
  * `processMapMemory_binary` -- the mapping calls make that translation;
  * `BinarySpace`, `processLoad_binarySpace` -- the address space behind a load.
-/
import PeachKernel.Paging.Spaces
import PeachKernel.Process.Invoke
import PeachKernel.Process.ProgramFile

namespace PeachKernel

open CInt Mem

/-! ## 1. Translations -/

/-- Where addresses lead, and the flags of their pages. -/
abbrev Translation : Type := Nat → Nat × Nat

/-- The translation of a directory. -/
def translation (m : Mem) (dir : Nat) : Translation := fun v =>
  (pagingGetPhysicalAddress m dir v, flagsAt m dir v)

/-- Everything leads to itself. -/
def Translation.identity (flags : Nat) : Translation := fun v => (v, flags)

/-- `n` pages from `virt` on lead to `phys`. -/
def Translation.map (t : Translation) (virt phys n flags : Nat) : Translation := fun v =>
  if virt ≤ v ∧ v < virt + n * 4096 then (phys + (v - virt), flags) else t v

section Mapping

variable {m : Mem} {chunk dir : Nat}

/-- **A mapping call on whole pages.** -/
theorem pagingMapTo_map (virt phys n flags : Nat) (hd : DirOk m dir) (hc : ChunkOk m chunk dir)
    (hv : virt % 4096 = 0) (hp : phys % 4096 = 0) (hvb : virt + n * 4096 ≤ 4294967295)
    (hpb : phys + n * 4096 ≤ 4294967295) (hf : flags < 4096) :
    ∃ m', pagingMapTo m chunk virt phys (phys + n * 4096) flags = (0, m') ∧ DirOk m' dir ∧
      ChunkOk m' chunk dir ∧ (∀ a, OutsideTables m dir a → OutsideTables m' dir a ∧ m' a = m a) ∧
      ∀ v, v < 4294967296 → translation m' dir v = (translation m dir).map virt phys n flags v := by
  have href : ¬ MapRefused virt phys (phys + n * 4096) := by
    unfold MapRefused
    omega
  obtain ⟨m', e, hm⟩ := pagingMapTo_ok hf hd hc (by omega) (by omega) href
  have htr := (pagingMapTo_translates hd hc (show virt < 4294967296 by omega)
    (show phys + n * 4096 < 4294967296 by omega) hf
    (show virt + (phys + n * 4096 - phys) ≤ 4294967296 by omega)).2.2
  rw [e] at htr
  refine ⟨m', e, hm.dirOk hd, hm.chunkOk hc,
    fun a ha => ⟨ha.of_tables hm.tables, hm.frame a ha⟩, fun v hvlt => ?_⟩
  have hv' := (htr (show (0 : Int) ≠ -EINVARG by decide)).2 v hvlt
  rw [Nat.add_sub_cancel_left] at hv'
  unfold translation Translation.map
  split
  · rename_i hin
    rw [if_pos hin] at hv'
    exact Prod.ext hv'.1 hv'.2
  · rename_i hout
    rw [if_neg hout] at hv'
    exact Prod.ext hv'.1 hv'.2

/-- A directory that maps every page to itself. -/
theorem MapsItself.translation (h : MapsItself m chunk dir) {v : Nat} (hv : v < 4294967296) :
    PeachKernel.translation m dir v =
      Translation.identity (pagingIsPresent ||| pagingAccessFromAll) v := by
  have hentry := h.entry (v / 4096) (by omega)
  obtain ⟨hpage, hflags⟩ := entry_parts (p := v / 4096 * 4096)
    (f := pagingIsPresent ||| pagingAccessFromAll) (by omega) (by decide) (by omega)
  refine Prod.ext ?_ ?_
  · show pagingGetPhysicalAddress m dir v = v
    rw [pagingGetPhysicalAddress_eq, hentry, hpage, u32_natCast_of_lt (by omega)]
    omega
  · show flagsAt m dir v = _
    unfold flagsAt
    rw [pagingGet_lower, hentry]
    exact hflags

/-- **Where the addresses of a binary lead**: its own pages, its stack, the screen, and everything
    else to itself. -/
def binaryTranslation (ptr size stack : Nat) : Translation :=
  (((Translation.identity (pagingIsPresent ||| pagingAccessFromAll)).map 0x400000 ptr
    (blocksFor size) programFlags).map 0xB8000 0xB8000 1 programFlags).map (0x3FF000 - 1024 * 16)
      stack 4 programFlags

theorem Translation.map_congr {t t' : Translation} {v : Nat} (h : t v = t' v)
    (virt phys n flags : Nat) : t.map virt phys n flags v = t'.map virt phys n flags v := by
  unfold Translation.map
  rw [h]

/-- **`process_map_memory`** of a binary, on a directory that maps every page to itself. -/
theorem processMapMemory_binary {ptr size stack : Nat} (h : MapsItself m chunk dir)
    (hptr : ptr % 4096 = 0) (hstack : stack % 4096 = 0)
    (hend : ptr + blocksFor size * 4096 < 4294967296) (hstackEnd : stack + 4 * 4096 < 4294967296)
    (hlow : 0x400000 ≤ ptr) :
    ∃ m', processMapMemory m chunk (.binary ptr size) stack = (0, m') ∧
      (∀ a, OutsideTables m dir a → m' a = m a) ∧
      ∀ v, v < 4294967296 → translation m' dir v = binaryTranslation ptr size stack v := by
  obtain ⟨m₁, e₁, hd₁, hc₁, hframe₁, ht₁⟩ := pagingMapTo_map 0x400000 ptr
    (blocksFor size) programFlags h.dirOk h.chunkOk (by decide) hptr (by omega) (by omega)
      (by decide)
  obtain ⟨m₂, e₂, hd₂, hc₂, hframe₂, ht₂⟩ := pagingMapTo_map 0xB8000 0xB8000 1
    programFlags hd₁ hc₁ (by decide) (by decide) (by decide) (by decide) (by decide)
  obtain ⟨m₃, e₃, -, -, hframe₃, ht₃⟩ := pagingMapTo_map (0x3FF000 - 1024 * 16)
    stack 4 programFlags hd₂ hc₂ (by decide) hstack (by decide) (by omega) (by decide)
  have hscreen : pagingAlignAddress (0xB8000 + 20 * 80 * 2) = 0xB8000 + 1 * 4096 := by decide
  have hstackAlign :
      pagingAlignAddress (u32 ((stack + 1024 * 16 : Nat) : Int)) = stack + 4 * 4096 :=
    @pagingAlignAddress_end stack (1024 * 16) hstack hstackEnd
  have hbinary : processMapBinary m chunk ptr size = (0, m₂) := by
    unfold processMapBinary
    rw [pagingAlignAddress_end hptr hend, e₁, hscreen]
    dsimp only
    rw [e₂]
  refine ⟨m₃, ?_, fun a ha => ?_, fun v hv => ?_⟩
  · unfold processMapMemory
    dsimp only
    rw [hbinary]
    dsimp only
    rw [if_neg (by decide), hstackAlign, e₃]
  · obtain ⟨ha₁, hm₁⟩ := hframe₁ a ha
    obtain ⟨ha₂, hm₂⟩ := hframe₂ a ha₁
    rw [(hframe₃ a ha₂).2, hm₂, hm₁]
  · unfold binaryTranslation
    rw [ht₃ v hv]
    refine Translation.map_congr ((ht₂ v hv).trans (Translation.map_congr ((ht₁ v hv).trans ?_) ..))
      ..
    exact Translation.map_congr (h.translation hv) ..

end Mapping

/-! ## 2. The address space of a binary -/

/-- The program's own addresses: its pages, and its stack. -/
def OwnAddress (size v : Nat) : Prop :=
  (0x400000 ≤ v ∧ v < 0x400000 + blocksFor size * 4096) ∨ (0x3FF000 - 1024 * 16 ≤ v ∧ v < 0x3FF000)

/-- **The address space of a binary**, which was loaded when `heap` was the heap. -/
structure BinarySpace (heap : Heap) (m : Mem) (dir : Nat) (bytes : List UInt8) : Prop where
  program : slice (userView m dir) 0x400000 bytes.length = bytes
  stack : slice (userView m dir) (0x3FF000 - 1024 * 16) (1024 * 16) = List.replicate (1024 * 16) 0
  /-- What it may write, and nobody had in use. -/
  own : ∀ v, OwnAddress bytes.length v → flagsAt m dir v = programFlags ∧
    ¬ heap.InUse (pagingGetPhysicalAddress m dir v)
  apart : ∀ v w, OwnAddress bytes.length v → OwnAddress bytes.length w →
    pagingGetPhysicalAddress m dir v = pagingGetPhysicalAddress m dir w → v = w
  screen : ∀ v, 0xB8000 ≤ v → v < 0xB9000 →
    pagingGetPhysicalAddress m dir v = v ∧ flagsAt m dir v = programFlags
  others : ∀ v, v < 4294967296 → ¬ OwnAddress bytes.length v → v < 0xB8000 ∨ 0xB9000 ≤ v →
    pagingGetPhysicalAddress m dir v = v ∧ flagsAt m dir v = pagingIsPresent ||| pagingAccessFromAll

section Space

variable {heap : Heap} {m : Mem} {dir ptr size stack v : Nat}

theorem Translation.map_inside (t : Translation) {virt phys n flags : Nat} (h1 : virt ≤ v)
    (h2 : v < virt + n * 4096) : t.map virt phys n flags v = (phys + (v - virt), flags) :=
  if_pos ⟨h1, h2⟩

theorem Translation.map_outside (t : Translation) {virt phys n flags : Nat}
    (h : v < virt ∨ virt + n * 4096 ≤ v) : t.map virt phys n flags v = t v :=
  if_neg (by omega)

theorem binaryTranslation_program (h1 : 0x400000 ≤ v) (h2 : v < 0x400000 + blocksFor size * 4096) :
    binaryTranslation ptr size stack v = (ptr + (v - 0x400000), programFlags) := by
  unfold binaryTranslation
  rw [Translation.map_outside _ (by omega), Translation.map_outside _ (by omega),
    Translation.map_inside _ h1 h2]

theorem binaryTranslation_stack (h1 : 0x3FF000 - 1024 * 16 ≤ v) (h2 : v < 0x3FF000) :
    binaryTranslation ptr size stack v = (stack + (v - (0x3FF000 - 1024 * 16)), programFlags) := by
  unfold binaryTranslation
  rw [Translation.map_inside _ h1 (by omega)]

theorem binaryTranslation_screen (h1 : 0xB8000 ≤ v) (h2 : v < 0xB9000) :
    binaryTranslation ptr size stack v = (v, programFlags) := by
  unfold binaryTranslation
  rw [Translation.map_outside _ (by omega), Translation.map_inside _ h1 (by omega)]
  exact Prod.ext (by dsimp only; omega) rfl

theorem binaryTranslation_others (h : ¬ OwnAddress size v) (hs : v < 0xB8000 ∨ 0xB9000 ≤ v) :
    binaryTranslation ptr size stack v = (v, pagingIsPresent ||| pagingAccessFromAll) := by
  unfold OwnAddress at h
  unfold binaryTranslation
  rw [Translation.map_outside _ (by omega), Translation.map_outside _ (by omega),
    Translation.map_outside _ (by omega)]
  rfl

/-- **The translation makes the address space**, where the program and its stack lie in blocks that
    were free. -/
theorem binarySpace_of {bytes : List UInt8}
    (ht : ∀ v, v < 4294967296 → translation m dir v = binaryTranslation ptr bytes.length stack v)
    (hbytes : slice m ptr bytes.length = bytes)
    (hstack : ∀ a, stack ≤ a → a < stack + 1024 * 16 → m a = 0) (hlow : 0x400000 ≤ ptr)
    (hend : ptr + blocksFor bytes.length * 4096 < 4294967296)
    (hfresh : ∀ a, ptr ≤ a → a < ptr + blocksFor bytes.length * 4096 → ¬ heap.InUse a)
    (hstackFresh : ∀ a, stack ≤ a → a < stack + 1024 * 16 → ¬ heap.InUse a)
    (hapart : ptr + blocksFor bytes.length * 4096 ≤ stack ∨ stack + 1024 * 16 ≤ ptr) :
    BinarySpace heap m dir bytes := by
  have hlen : bytes.length ≤ blocksFor bytes.length * 4096 := by
    unfold blocksFor ceilDiv
    omega
  have hprogram : ∀ v, 0x400000 ≤ v → v < 0x400000 + blocksFor bytes.length * 4096 →
      pagingGetPhysicalAddress m dir v = ptr + (v - 0x400000) ∧ flagsAt m dir v = programFlags :=
    fun v h1 h2 => Prod.ext_iff.mp ((ht v (by omega)).trans (binaryTranslation_program h1 h2))
  have hown : ∀ v, 0x3FF000 - 1024 * 16 ≤ v → v < 0x3FF000 →
      pagingGetPhysicalAddress m dir v = stack + (v - (0x3FF000 - 1024 * 16)) ∧
        flagsAt m dir v = programFlags :=
    fun v h1 h2 => Prod.ext_iff.mp ((ht v (by omega)).trans (binaryTranslation_stack h1 h2))
  constructor
  · refine (slice_congr fun i hi => ?_).trans hbytes
    unfold userView
    rw [(hprogram (0x400000 + i) (by omega) (by omega)).1, Nat.add_sub_cancel_left]
  · refine List.eq_replicate_iff.mpr ⟨slice_length .., fun b hb => ?_⟩
    obtain ⟨i, hi, rfl⟩ := List.mem_map.mp hb
    have hi' := List.mem_range.mp hi
    unfold userView
    rw [(hown (0x3FF000 - 1024 * 16 + i) (by omega) (by omega)).1]
    exact hstack _ (by omega) (by omega)
  · rintro v (⟨h1, h2⟩ | ⟨h1, h2⟩)
    · obtain ⟨hphys, hflags⟩ := hprogram v h1 h2
      rw [hphys]
      exact ⟨hflags, hfresh _ (by omega) (by omega)⟩
    · obtain ⟨hphys, hflags⟩ := hown v h1 h2
      rw [hphys]
      exact ⟨hflags, hstackFresh _ (by omega) (by omega)⟩
  · rintro v w (⟨h1, h2⟩ | ⟨h1, h2⟩) (⟨h3, h4⟩ | ⟨h3, h4⟩) he
    · rw [(hprogram v h1 h2).1, (hprogram w h3 h4).1] at he
      omega
    · rw [(hprogram v h1 h2).1, (hown w h3 h4).1] at he
      omega
    · rw [(hown v h1 h2).1, (hprogram w h3 h4).1] at he
      omega
    · rw [(hown v h1 h2).1, (hown w h3 h4).1] at he
      omega
  · exact fun v h1 h2 => Prod.ext_iff.mp ((ht v (by omega)).trans (binaryTranslation_screen h1 h2))
  · exact fun v hv h hs => Prod.ext_iff.mp ((ht v hv).trans (binaryTranslation_others h hs))

end Space

/-! ## 3. A load -/

section Load

variable {k₀ k : Kernel} {own : List Allocation}

/-- What was allocated since was not in use. -/
theorem Since.not_inUse (h : Since k₀ k own) {y : Allocation} (hy : y ∈ own) {a : Nat}
    (h1 : y.ptr ≤ a) (h2 : a < y.ptr + blocksFor y.size * 4096) : ¬ k₀.heap.InUse a := by
  intro ha
  have haddr := h.inv.addr y hy
  have hin := h.inv.inside hy
  rw [h.saddr] at haddr hin
  rw [h.total] at hin
  have hlen : (y.extent k₀.heap.saddr).len = blocksFor y.size := rfl
  have hhas : (y.extent k₀.heap.saddr).Has ((a - k₀.heap.saddr) / 4096) := by
    unfold Extent.Has
    omega
  have hfree := h.fresh y hy _ hhas
  unfold Extent.Has at hhas
  have hoff := ha.2 _ (by omega) hfree
  unfold OffBlock at hoff
  omega

/-- An allocation keeps its bytes when more is asked for. -/
theorem HeapInv.kzalloc_mem (h : HeapInv k.heap own) (hn : k.heap.NullStops) {size : Nat}
    (hs : k.heap.Reaches size) {y : Allocation} (hy : y ∈ own) {a : Nat} (h1 : y.ptr ≤ a)
    (h2 : a < y.ptr + blocksFor y.size * 4096) : (kzalloc k size).2.mem a = k.mem a :=
  ((Since.refl h.placed hn).kzalloc hs).mem a (h.inUse hy h1 h2)

/-- **The stack of a process**: a block of its own, zero, and what was held before is as it was. -/
theorem Since.stack (h : Since k₀ k own) {size : Nat} (hs : k₀.heap.Reaches size) (h1 : 1 ≤ size)
    (h0 : (PeachKernel.kzalloc k size).1 ≠ 0)
    (hin : (PeachKernel.kzalloc k size).1 + size ≤ k₀.heap.saddr + k₀.heap.table.total * 4096) :
    Since k₀ (PeachKernel.kzalloc k size).2 (⟨(PeachKernel.kzalloc k size).1, size⟩ :: own) ∧
      (∀ a, (PeachKernel.kzalloc k size).1 ≤ a → a < (PeachKernel.kzalloc k size).1 + size →
        (PeachKernel.kzalloc k size).2.mem a = 0) ∧
      ∀ y ∈ own, ∀ a, y.ptr ≤ a → a < y.ptr + blocksFor y.size * 4096 →
        (PeachKernel.kzalloc k size).2.mem a = k.mem a := by
  have hin' := hin
  rw [← h.saddr, ← h.total] at hin'
  obtain ⟨b, -, -, hk⟩ := kzalloc_inside h.inv.placed h1 h0 hin'
  have hbound := h.inv.placed.bound
  refine ⟨h.request hs h1 h0 hin, fun a h2 h3 => ?_, fun y hy a h2 h3 => ?_⟩
  · have hmem := congrArg Kernel.mem hk
    rw [hmem]
    exact fill_inside (by omega) h2 h3
  · exact h.inv.kzalloc_mem h.stops (hs.congr h.saddr h.total) hy h2 h3

/-- Different allocations have different pages. -/
theorem HeapInv.pages_apart {heap : Heap} {live : List Allocation} (h : HeapInv heap live)
    {x y : Allocation} (hx : x ∈ live) (hy : y ∈ live) (hne : x ≠ y) :
    x.ptr + blocksFor x.size * 4096 ≤ y.ptr ∨ y.ptr + blocksFor y.size * 4096 ≤ x.ptr := by
  have hap := h.apart hx hy hne
  have e1 := h.addr x hx
  have e2 := h.addr y hy
  unfold Extent.Apart Allocation.extent at hap
  unfold Allocation.extent at e1 e2
  dsimp only at hap e1 e2
  omega

section Created

variable {g : TaskGlobals} {process : TaskProcess} {task : Nat} {d : Directory}

/-- Behind `task_new` what was held is as it was, and lies outside the tables: the word of the link
    is in use, and what is held was not. -/
theorem Since.held (h : Since k₀ k own) (hg : TailInUse k₀ g) {k' : Kernel} {new : List Allocation}
    (hsince : Since (k.linked g task) k' (d.allocations ++ new)) {y : Allocation} (hy : y ∈ own)
    {a : Nat} (h1 : y.ptr ≤ a) (h2 : a < y.ptr + blocksFor y.size * 4096) :
    k'.mem a = k.mem a ∧ ∀ t ∈ d.tables, OffBlock a t := by
  have huse : (k.linked g task).heap.InUse a := by
    rw [Kernel.linked_heap]
    exact h.inv.inUse hy h1 h2
  refine ⟨?_, fun t ht => hsince.off_own huse
    (List.mem_append_left _ (List.mem_append_left _ (List.mem_map_of_mem ht)))⟩
  rw [hsince.mem a huse]
  unfold Kernel.linked
  split
  · rfl
  · rename_i hh
    refine store32_other ?_
    by_contra hin
    exact h.not_inUse hy h1 h2 (hg hh a (by omega) (by omega))

/-- The directory of a task is found, whatever was written into the tables. -/
theorem taskDirectory_tablesOnly {heap : Heap} {m m' : Mem}
    (h : HeapInv heap (d.allocations ++ taskAlloc task :: own)) (hd : HasDirectory m d)
    (hchunk : pageDirectoryOf m task = d.chunk) (hm : TablesOnly d m m') :
    taskDirectory m' task = d.directory := by
  have hs : d.Separate :=
    h.separate (fun x hx => List.mem_append_left _ hx) (List.nodup_append.mp h.nodup).1
  have htask : taskAlloc task ∈ d.allocations ++ taskAlloc task :: own :=
    List.mem_append_right _ List.mem_cons_self
  have hword : pageDirectoryOf m' task = d.chunk := by
    rw [← hchunk]
    refine load32_congr fun a h1 h2 => hm a fun t ht => ?_
    have hmem : tableAlloc t ∈ d.allocations := List.mem_append_left _ (List.mem_map_of_mem ht)
    have hne : taskAlloc task ≠ tableAlloc t := fun e =>
      List.disjoint_of_nodup_append h.nodup hmem (e ▸ List.mem_cons_self)
    exact h.off_of_ne htask (List.mem_append_left _ hmem) hne (taskAlloc_blocks task)
      (tableAlloc_blocks t) h1 (show a < task + 4096 by omega)
  unfold taskDirectory
  rw [hword]
  exact (hd.tablesOnly hs hm).chunk

/-- **The task and the mapping of a binary**, behind the request for its stack. -/
theorem taskNew_binarySpace {ptr stack : Nat} {bytes : List UInt8}
    (h : Since k₀ k [⟨stack, 1024 * 16⟩, ⟨ptr, bytes.length⟩]) (hg : TailInUse k₀ g)
    (ht : (taskNew k g process).1 = .ok task) (hlow : 0x400000 ≤ ptr)
    (hbytes : slice k.mem ptr bytes.length = bytes)
    (hstack : ∀ a, stack ≤ a → a < stack + 1024 * 16 → k.mem a = 0) :
    BinarySpace k₀.heap
      (processMapMemory (taskNew k g process).2.1.mem
        (pageDirectoryOf (taskNew k g process).2.1.mem task) (.binary ptr bytes.length) stack).2
      (taskDirectory (processMapMemory (taskNew k g process).2.1.mem
        (pageDirectoryOf (taskNew k g process).2.1.mem task) (.binary ptr bytes.length) stack).2
          task)
      bytes := by
  generalize hown : [(⟨stack, 1024 * 16⟩ : Allocation), ⟨ptr, bytes.length⟩] = own at h
  have hstackMem : (⟨stack, 1024 * 16⟩ : Allocation) ∈ own := hown ▸ List.mem_cons_self
  have hptrMem : (⟨ptr, bytes.length⟩ : Allocation) ∈ own :=
    hown ▸ List.mem_cons_of_mem _ List.mem_cons_self
  have hne : (⟨ptr, bytes.length⟩ : Allocation) ≠ ⟨stack, 1024 * 16⟩ := by
    have hnd := h.inv.nodup
    rw [← hown] at hnd
    exact fun e => (List.nodup_cons.mp hnd).1 (e ▸ List.mem_cons_self)
  have hg' : TailInUse k g := fun hh a h1 h2 => h.inUse (hg hh a h1 h2)
  have hself := Since.refl h.inv.placed h.stops
  obtain ⟨d, hsince, hdir, hchunk, hid⟩ := taskNew_since process hself hg' task ht
  have hitself := hsince.inv.mapsItself hdir hid
  have hstackEnd := h.inv.end_lt hstackMem
  have hptrEnd := h.inv.end_lt hptrMem
  have hsixteen : blocksFor (1024 * 16) = 4 := by decide
  dsimp only at hstackEnd hptrEnd
  rw [hsixteen] at hstackEnd
  -- the mapping
  obtain ⟨m', hmap, hframe, htr⟩ := processMapMemory_binary hitself hptrEnd.1 hstackEnd.1 hptrEnd.2
    hstackEnd.2 hlow
  have honly : TablesOnly d (taskNew k g process).2.1.mem m' := fun a ha =>
    hframe a fun i hi => (hdir.tableOf hi).symm ▸ ha _ (hdir.mem_tables hi)
  rw [hchunk, hmap]
  dsimp only
  rw [taskDirectory_tablesOnly hsince.inv hdir hchunk honly]
  have hsame : ∀ y ∈ own, ∀ a, y.ptr ≤ a → a < y.ptr + blocksFor y.size * 4096 →
      m' a = k.mem a := by
    intro y hy a h1 h2
    obtain ⟨hmem, hoff⟩ := h.held hg hsince hy h1 h2
    exact (honly a hoff).trans hmem
  have hlen : bytes.length ≤ blocksFor bytes.length * 4096 := by
    unfold blocksFor ceilDiv
    omega
  have hapart := h.inv.pages_apart hptrMem hstackMem hne
  dsimp only at hapart
  rw [hsixteen] at hapart
  refine binarySpace_of htr ?_ (fun a h1 h2 => ?_) hlow hptrEnd.2
    (fun a h1 h2 => h.not_inUse hptrMem h1 h2)
    (fun a h1 h2 => h.not_inUse hstackMem h1 (by dsimp only; rw [hsixteen]; omega)) (by omega)
  · refine (slice_congr fun i hi => ?_).trans hbytes
    exact hsame _ hptrMem (ptr + i) (Nat.le_add_right ..) (by dsimp only; omega)
  · rw [hsame _ hstackMem a h1 (by dsimp only; rw [hsixteen]; omega)]
    exact hstack a h1 h2

end Created

/-- A task that was created is no error code. -/
theorem TaskCreated.ok {s : LoadState π} {slot : Nat} {program : ProgramData} {files : Files π}
    (h : TaskCreated (loadedProcess s slot program files)) :
    ∃ task, (loadTask s program files).1 = .ok task := by
  have herror := taskNew_error (kzalloc files.kernel (1024 * 16)).2 s.tasks
    ⟨(kzalloc s.files.kernel 9364).1, program.entry (kzalloc files.kernel (1024 * 16)).2.mem⟩
  unfold TaskCreated loadedProcess at h
  dsimp only at h
  unfold loadTask at h ⊢
  generalize taskNew _ _ _ = created at h herror ⊢
  obtain ⟨r, k, tasks⟩ := created
  cases r with
  | ok task => exact ⟨task, rfl⟩
  | error e =>
    rcases herror e rfl with rfl | rfl
    · exact absurd rfl h.1
    · exact absurd rfl h.2

theorem processLoad_slot {s s' : LoadState π} {filename : List UInt8} {process : LoadedProcess}
    (h : processLoad s filename = some (.ok process, s')) :
    ∃ slot, processLoadForSlot s filename slot = some (.ok process, s') := by
  unfold processLoad at h
  split at h
  · cases h
  · exact ⟨_, h⟩

/-- The opens of a load find a descriptor and their blocks. -/
structure OpensWithRoom {π : Type} (s : Files π) (filename : List UInt8) : Prop where
  first : FopenRoom (elfStart s) filename
  second : ∀ s₁, PeachKernel.elfLoadFrom s filename = some (.error (-EINFORMAT), s₁) →
    FopenRoom s₁ filename

variable {d : Disk} {fs : Fat32Private} {fuel imageSize : Nat} {s s' : LoadState FileHandle}
  {t : OpenTable} {filename : List UInt8} {process : LoadedProcess} {ptr size : Nat}

/-- **The address space of a raw binary**: a load that created a task for it has mapped the bytes of
    the file on the disk at 4 MiB and a zero stack below, in memory that nobody had in use; of all
    other addresses the program may write the screen only. -/
theorem processLoad_binarySpace (hv : SoundVolume d fs imageSize) (hr : LoadReady s)
    (hg : TailInUse s.files.kernel s.tasks)
    (hplace : 0x400000 ≤ s.files.kernel.heap.saddr) (hs : FilesOf d fs fuel imageSize s.files t)
    (hfit : FileFits (loadStart s) filename) (hroom : OpensWithRoom (loadStart s) filename)
    (h : processLoad s filename = some (.ok process, s')) (htask : TaskCreated process)
    (hbinary : process.program = .binary ptr size)
    (hptr : ptr + size ≤ s.files.kernel.heap.saddr + s.files.kernel.heap.table.total * 4096)
    (hstack : process.stack + 1024 * 16 ≤
      s.files.kernel.heap.saddr + s.files.kernel.heap.table.total * 4096) :
    ∃ item, LeadsTo d fs filename item ∧ BinarySpace s.files.kernel.heap s'.files.kernel.mem
      (taskDirectory s'.files.kernel.mem process.task) (storedBytes d fs item) := by
  have hbound := hr.placed.bound
  obtain ⟨slot, hslot⟩ := processLoad_slot h
  obtain ⟨program, files, hat, rfl, rfl⟩ := processLoadForSlot_ok hslot
  obtain rfl : program = .binary ptr size := hbinary
  -- the program's bytes
  rcases processLoadData_way hat.data with ⟨_, e, -⟩ | ⟨_, e, -⟩ | ⟨s₁, helf, hload⟩
  · cases e
  · cases e
  have hstart : FilesOf d fs fuel imageSize (loadStart s) t := hs.kernel (hs.heap.kzalloc 9364)
  obtain ⟨t₁, hs₁⟩ := hstart.elfLoadFrom hv hroom.first helf
  obtain ⟨item, hitem, hsize, h1, hbytes⟩ :=
    hs₁.processLoadBinary hv (hroom.second s₁ helf) hload (by omega)
  have hlen : size = (storedBytes d fs item).length := hsize.trans (slice_length ..).symm
  -- its memory, and the stack
  have hf : ∀ f, (loadStart s).disk = some f → f.KeepsOwn := hr.drivers
  have hsince₁ : Since s.files.kernel s₁.kernel [] := elfLoadFrom_since hf hfit hr.since_start helf
  have hdisk₁ := elfLoadFrom_disk helf
  have hf₁ : ∀ f, s₁.disk = some f → f.KeepsOwn := fun f h => hf f (hdisk₁ ▸ h)
  have hheld := processLoadBinary_held hf₁
    (fun ho => (hfit.size s₁ hdisk₁ ho).congr hr.since_start.saddr.symm hr.since_start.total.symm)
    hsince₁ h1 hptr hload
  obtain ⟨hall, hzero, hsame⟩ := hheld.stack hr.reaches (by decide) hat.stack hstack
  obtain ⟨task, hnew⟩ := htask.ok
  have hlow : 0x400000 ≤ ptr := by
    have haddr := hheld.inv.addr _ List.mem_cons_self
    rw [hheld.saddr] at haddr
    have haddr : ptr = s.files.kernel.heap.saddr + _ := haddr
    omega
  have hblocks : size ≤ blocksFor size * 4096 := by
    unfold blocksFor ceilDiv
    omega
  refine ⟨item, hitem, ?_⟩
  have hkeep : slice (kzalloc files.kernel (1024 * 16)).2.mem ptr size = storedBytes d fs item := by
    refine (slice_congr fun i hi => ?_).trans hbytes
    exact hsame _ List.mem_cons_self (ptr + i) (Nat.le_add_right ..) (by dsimp only; omega)
  subst hlen
  have hspace := taskNew_binarySpace hall hg hnew hlow hkeep hzero
  have hpointer :
      taskPointer (loadTask s (.binary ptr (storedBytes d fs item).length) files).1 = task := by
    rw [hnew]
    rfl
  unfold loadMapped loadedProcess loadMapping
  dsimp only
  rw [hpointer]
  exact hspace

end Load

/-! ## 4. A binary of 700 bytes -/

/-- The binary and its stack end inside the heap. -/
def binaryInside : Option (Except Int ProgramData × Files FileHandle) → Bool
  | some (.ok (.binary ptr size), files) =>
    decide (ptr + size ≤ 0x01000000 + 25600 * 4096) &&
      decide ((kzalloc files.kernel (1024 * 16)).1 + 1024 * 16 ≤ 0x01000000 + 25600 * 4096)
  | _ => false

/-- A file that is no ELF file leaves a descriptor and six blocks. -/
def secondOpenFits (s : Files FileHandle) : Bool :=
  (elfLoadFrom s pathA).all fun r => (r.2.fileDescriptors 0).isNone &&
    decide (70 ≤ r.2.kernel.heap.table.total) &&
    (List.range 6).all fun i => decide (r.2.kernel.heap.IsFree (64 + i))

theorem opensWithRoom_of {s : Files FileHandle} (h : secondOpenFits s = true)
    (hfirst : FopenRoom (elfStart s) pathA) : OpensWithRoom s pathA where
  first := hfirst
  second s₁ h₁ := by
    unfold secondOpenFits at h
    rw [h₁] at h
    simp only [Option.all_some, Bool.and_eq_true, Option.isNone_iff_eq_none, decide_eq_true_eq,
      List.all_eq_true, List.mem_range] at h
    obtain ⟨⟨hslot, htotal⟩, hfree⟩ := h
    refine ⟨⟨0, by decide, hslot⟩, ?_⟩
    have hsix : 6 ≤ freeBlocks s₁.kernel.heap := le_freeBlocks htotal hfree
    exact hsix

theorem smallState_files : FilesOf oneFileVolume smallPrivate 8 4096 smallState.files fun _ =>
    none :=
  filesOf_init smallKernel_lowHeap

theorem smallState_opens : OpensWithRoom (loadStart smallState) pathA := by
  refine opensWithRoom_of (by decide +kernel) ⟨⟨0, by decide, rfl⟩, ?_⟩
  have htotal : 64 + 6 ≤ (elfStart (loadStart smallState)).kernel.heap.table.total := by
    decide +kernel
  have hfree : ∀ i, i < 6 → (elfStart (loadStart smallState)).kernel.heap.IsFree (64 + i) := by
    decide +kernel
  have hsix := le_freeBlocks htotal hfree
  exact hsix

/-- The file of 700 bytes. -/
theorem processLoad_binarySpace_small : ∃ process s₁ item,
    processLoad smallState pathA = some (.ok process, s₁) ∧
    LeadsTo oneFileVolume smallPrivate pathA item ∧
    BinarySpace smallState.files.kernel.heap s₁.files.kernel.mem
      (taskDirectory s₁.files.kernel.mem process.task)
      (storedBytes oneFileVolume smallPrivate item) := by
  obtain ⟨process, s₁, hl, -⟩ := smallState_loads
  obtain ⟨slot, hslot⟩ := processLoad_slot hl
  have hinside : binaryInside (processLoadData (loadStart smallState) pathA) =
    true := by decide +kernel
  have hfit : FileFits (loadStart smallState) pathA :=
    oneFile_fits rfl (by unfold Heap.Reaches; decide +kernel) (by decide +kernel)
  have hcreates : LoadCreates smallState pathA slot :=
    loadCreates_of_fits smallState_placed smallState_fits
  obtain ⟨program, files, hat, rfl, rfl⟩ := processLoadForSlot_ok hslot
  obtain ⟨task, htask⟩ := hcreates program files hat
  have hsince := (smallState_ready.since_data hfit hat.data).kzalloc smallState_ready.reaches
  rcases program with file | ⟨ptr, size⟩
  · rw [hat.data] at hinside
    cases hinside
  rw [hat.data] at hinside
  unfold binaryInside at hinside
  simp only [Bool.and_eq_true, decide_eq_true_eq] at hinside
  have hcreated : TaskCreated (loadedProcess smallState slot (.binary ptr size) files) := by
    refine taskCreated_of_ok hsince.inv htask ?_
    show taskPointer (loadTask smallState (.binary ptr size) files).1 = task
    rw [htask]
    rfl
  obtain ⟨item, hitem, hspace⟩ := processLoad_binarySpace oneFileVolume_sound smallState_ready
    (fun h => absurd rfl h)
      (by decide +kernel) smallState_files hfit smallState_opens hl hcreated rfl hinside.1 hinside.2
  exact ⟨_, _, item, hl, hitem, hspace⟩

end PeachKernel
