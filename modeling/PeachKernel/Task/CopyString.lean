/-
  File:      PeachKernel/Task/CopyString.lean
  Subject:   `copy_string_from_task`: a string is read in the address space of a task.

  A block of the kernel heap is mapped to itself in the pages of the task, the string is copied into
  it while these pages are in effect, and the entry of its page is put back. While the copy runs the
  task's own page at the address of the block is not to be seen.

  * `copyStringFromTask` -- the source function; `taskByte`, `taskString` -- what the task sees;
  * `overlay` -- memory with bytes laid over it; `Seen` -- the string that the copy comes to read;
    `pagedStrncpyLoop_seen` -- it does; `Seen.unique`;
  * `CopyStart` -- the state before; `copyStringFromTask_leaves` -- what any such call leaves;
  * `copyStringFromTask_ok_iff` -- when the string is the one that the task sees;
    `undisturbed_of_apart` -- a string off that page and off the block.
-/
import PeachKernel.Process.Invoke

namespace PeachKernel

open CInt Mem

/-! ## 1. The source function -/

/-- A byte as a task sees it; its address space goes around at 4 GiB. -/
def taskByte (m : Mem) (directory v : Nat) : UInt8 := userView m directory (u32 (v : Int))

/-- The loop of `strncpy` while the pages of `directory` are in effect. -/
def pagedStrncpyLoop (directory dest src : Nat) : (left i : Nat) → Mem → Mem
  | 0, i, m => Function.update m (pagingGetPhysicalAddress m directory (dest + i)) 0x00
  | left + 1, i, m =>
    if taskByte m directory (src + i) = 0x00 then
      Function.update m (pagingGetPhysicalAddress m directory (dest + i)) 0x00
    else
      pagedStrncpyLoop directory dest src left (i + 1)
        (Function.update m (pagingGetPhysicalAddress m directory (dest + i))
          (taskByte m directory (src + i)))

/-- The flags of the block's page. -/
def copyFlags : Nat := pagingIsWriteable ||| pagingIsPresent ||| pagingAccessFromAll

/-- `copy_string_from_task`: the status, the state, and the directory that is in effect; `directory`
    is the one before the call, `kernelChunk` the kernel's own. -/
def copyStringFromTask (k : Kernel) (directory kernelChunk task virtual phys max : Nat) :
    Int × Kernel × Nat :=
  if 4096 ≤ max then (-EINVARG, k, directory)
  else
    match kzalloc k max with
    | (tmp, k) =>
      if tmp = 0 then (-ENOMEM, k, directory)
      else
        let chunk := pageDirectoryOf k.mem task
        let taskDirectory := load32 k.mem chunk
        let oldEntry := pagingGet k.mem taskDirectory tmp
        let m := (pagingMap k.mem chunk tmp tmp copyFlags).2
        -- `paging_switch`, up to `kernel_page`
        let m := pagedStrncpyLoop (load32 m (pageDirectoryOf m task)) tmp virtual (max - 1) 0 m
        let directory := load32 m kernelChunk
        match pagingSet m taskDirectory tmp oldEntry with
        | (res, m) =>
          if res < 0 then (- EIO, kfree ⟨k.heap, m⟩ tmp, directory)
          else (res, kfree ⟨k.heap, strncpy m phys tmp max⟩ tmp, directory)

/-- The string at `virtual` as the task sees it, no more than `max - 1` characters of it. -/
def taskString (k : Kernel) (task virtual max : Nat) : List UInt8 :=
  readString (taskByte k.mem (taskDirectory k.mem task)) (max - 1) virtual

/-! ## 2. A copy over the memory -/

/-- Memory with the bytes `cs` laid over it from `a` on. -/
def overlay (m : Mem) (a : Nat) (cs : List UInt8) : Mem := fun b =>
  if a ≤ b ∧ b < a + cs.length then cs.getD (b - a) 0 else m b

section Overlay

variable {m : Mem} {a b : Nat} {cs : List UInt8}

theorem overlay_nil : overlay m a [] = m := by
  funext b
  exact if_neg (by simp)

theorem overlay_other (h : b < a ∨ a + cs.length ≤ b) : overlay m a cs b = m b := if_neg (by omega)

theorem overlay_inside {i : Nat} (h : i < cs.length) : overlay m a cs (a + i) = cs.getD i 0 := by
  unfold overlay
  rw [if_pos (by omega), Nat.add_sub_cancel_left]

/-- One byte more. -/
theorem overlay_snoc (c : UInt8) :
    Function.update (overlay m a cs) (a + cs.length) c = overlay m a (cs ++ [c]) := by
  funext b
  by_cases he : b = a + cs.length
  · subst he
    rw [Function.update_self, overlay_inside (by simp)]
    simp
  · rw [Function.update_of_ne he]
    unfold overlay
    by_cases hin : a ≤ b ∧ b < a + cs.length
    · rw [if_pos hin, if_pos (by simp; omega), List.getD_append _ _ _ _ (by omega)]
    · rw [if_neg hin, if_neg (by simp; omega)]

/-- A string that was laid over the memory is there. -/
theorem overlay_cString (h0 : ∀ c ∈ cs, c ≠ 0) : CString (overlay m a (cs ++ [0])) a cs :=
  cString_of_bytes cs h0 fun _ hi => overlay_inside hi

end Overlay

/-- Byte `i` of the string at `virtual` behind the first `i` characters of the copy to `tmp`. -/
def seenByte (m : Mem) (directory tmp virtual : Nat) (cs : List UInt8) (i : Nat) : UInt8 :=
  overlay m tmp (cs.take i) (pagingGetPhysicalAddress m directory (u32 ((virtual + i : Nat) : Int)))

/-- The characters `cs` are read one behind the other, each with those before it copied to `tmp`. -/
structure SeenPrefix (m : Mem) (directory tmp virtual : Nat) (cs : List UInt8) : Prop where
  char : ∀ i < cs.length, seenByte m directory tmp virtual cs i = cs.getD i 0
  ne_zero : ∀ c ∈ cs, c ≠ 0

/-- **The string that a copy to `tmp` reads**, up to a NUL or to `max - 1` characters. -/
structure Seen (m : Mem) (directory tmp virtual max : Nat) (cs : List UInt8) : Prop
    extends SeenPrefix m directory tmp virtual cs where
  length : cs.length ≤ max - 1
  stop : cs.length < max - 1 → seenByte m directory tmp virtual cs cs.length = 0

section Seen

variable {m : Mem} {directory tmp virtual max : Nat} {cs cs' : List UInt8}

theorem seenByte_congr {i : Nat} (h : cs.take i = cs'.take i) :
    seenByte m directory tmp virtual cs i = seenByte m directory tmp virtual cs' i := by
  unfold seenByte
  rw [h]

/-- One character more. -/
theorem SeenPrefix.snoc (h : SeenPrefix m directory tmp virtual cs) {c : UInt8} (h0 : c ≠ 0)
    (hc : seenByte m directory tmp virtual cs cs.length = c) :
    SeenPrefix m directory tmp virtual (cs ++ [c]) where
  char i hi := by
    have hlen : i < cs.length + 1 := by simpa using hi
    have htake : (cs ++ [c]).take i = cs.take i := List.take_append_of_le_length (by omega)
    rw [seenByte_congr htake]
    by_cases he : i = cs.length
    · subst he
      rw [hc]
      simp
    · rw [h.char i (by omega), List.getD_append _ _ _ _ (by omega)]
  ne_zero d hd := by
    rcases List.mem_append.mp hd with hd | hd
    · exact h.ne_zero d hd
    · rw [List.mem_singleton.mp hd]
      exact h0

/-- Where the one string has a character, the other has it too. -/
theorem Seen.next (h : Seen m directory tmp virtual max cs)
    (h' : Seen m directory tmp virtual max cs') {i : Nat} (htake : cs.take i = cs'.take i)
    (hi : i < cs.length) : i < cs'.length ∧ cs'.getD i 0 = cs.getD i 0 := by
  have hbyte := h.char i hi
  rw [seenByte_congr htake] at hbyte
  have hlen := congrArg List.length htake
  rw [List.length_take, List.length_take] at hlen
  have hmax := h.length
  by_cases hi' : i < cs'.length
  · exact ⟨hi', (h'.char i hi').symm.trans hbyte⟩
  · -- the other string would have ended here, at a NUL
    have he : cs'.length = i := by omega
    have hstop := h'.stop (by omega)
    rw [he, hbyte, List.getD_eq_getElem _ _ hi] at hstop
    exact absurd hstop (h.ne_zero _ (List.getElem_mem hi))

/-- Two such strings agree in their first characters. -/
theorem Seen.take_eq (h : Seen m directory tmp virtual max cs)
    (h' : Seen m directory tmp virtual max cs') (i : Nat) : cs.take i = cs'.take i := by
  induction i with
  | zero => rfl
  | succ i ih =>
    by_cases hi : i < cs.length
    · obtain ⟨hi', hbyte⟩ := h.next h' ih hi
      rw [List.getD_eq_getElem _ _ hi, List.getD_eq_getElem _ _ hi'] at hbyte
      rw [List.take_succ_eq_append_getElem hi, List.take_succ_eq_append_getElem hi', ih, hbyte]
    · have hi' : ¬ i < cs'.length := fun hi' => hi (h'.next h ih.symm hi').1
      rw [List.take_of_length_le (by omega), List.take_of_length_le (by omega)] at ih ⊢
      exact ih

/-- **The copy reads one string only.** -/
theorem Seen.unique (h : Seen m directory tmp virtual max cs)
    (h' : Seen m directory tmp virtual max cs') : cs = cs' := by
  have heq := h.take_eq h' (max - 1)
  rw [List.take_of_length_le h.length, List.take_of_length_le h'.length] at heq
  exact heq

/-- **The loop of `strncpy` copies such a string**, where the copy is mapped to itself and no
    character of it changes what is mapped where. Induction on the room that is left. -/
theorem pagedStrncpyLoop_seen (h1 : 1 ≤ max)
    (hself : ∀ i < max, pagingGetPhysicalAddress m directory (tmp + i) = tmp + i)
    (hsame : ∀ cs : List UInt8, cs.length < max → ∀ v < 4294967296,
      pagingGetPhysicalAddress (overlay m tmp cs) directory v = pagingGetPhysicalAddress m directory
        v)
    (htop : tmp + max ≤ 4294967296) (left : Nat) : ∀ {cs : List UInt8}, cs.length + left = max - 1 →
      SeenPrefix m directory tmp virtual cs →
      ∃ ds, Seen m directory tmp virtual max ds ∧
        pagedStrncpyLoop directory tmp virtual left cs.length (overlay m tmp cs) =
          overlay m tmp (ds ++ [0]) := by
  have hnul : ∀ {cs : List UInt8}, cs.length < max → ∀ c : UInt8,
      Function.update (overlay m tmp cs)
        (pagingGetPhysicalAddress (overlay m tmp cs) directory (tmp + cs.length)) c =
          overlay m tmp (cs ++ [c]) := fun {cs} hlen c => by
    rw [hsame cs hlen _ (by omega), hself _ hlen, overlay_snoc]
  induction left with
  | zero =>
    intro cs hlen hc
    exact ⟨cs, ⟨hc, by omega, fun h => absurd h (by omega)⟩, hnul (by omega) 0⟩
  | succ left ih =>
    intro cs hlen hc
    have hbyte : taskByte (overlay m tmp cs) directory (virtual + cs.length) =
        seenByte m directory tmp virtual cs cs.length := by
      unfold taskByte userView seenByte
      rw [hsame cs (by omega) _ (u32_lt _), List.take_of_length_le (Nat.le_refl _)]
    rw [pagedStrncpyLoop, hbyte]
    by_cases h0 : seenByte m directory tmp virtual cs cs.length = 0
    · rw [if_pos h0]
      exact ⟨cs, ⟨hc, by omega, fun _ => h0⟩, hnul (by omega) 0⟩
    · rw [if_neg h0, hnul (by omega)]
      have hrest := @ih (cs ++ [seenByte m directory tmp virtual cs cs.length])
        (by simp only [List.length_append, List.length_singleton]; omega) (hc.snoc h0 rfl)
      rw [List.length_append, List.length_singleton] at hrest
      exact hrest

end Seen

/-! ## 3. A block mapped to itself -/

/-- The word of the entry of page `q`. -/
def entryAddress (m : Mem) (directory q : Nat) : Nat :=
  tableOf m directory (q / 1024) + 4 * (q % 1024)

/-- The block at `tmp` mapped to itself, in the pages of the task. -/
def mapSelf (m : Mem) (directory tmp : Nat) : Mem :=
  store32 m (entryAddress m directory (tmp / 4096)) (tmp ||| copyFlags)

/-- **A block apart from a directory**: no byte of the block is a byte of the paging structures. -/
structure BlockApart (m : Mem) (chunk directory tmp : Nat) : Prop where
  dirOk : DirOk m directory
  chunkOk : ChunkOk m chunk directory
  aligned : tmp % 4096 = 0
  bound : tmp + 4096 ≤ 4294967296
  off : ∀ a, PagingByte m chunk directory a → OffBlock a tmp

section Block

variable {m : Mem} {chunk directory tmp : Nat} {cs : List UInt8}

/-- The entry of a page is a word of a table. -/
theorem entryAddress_pagingByte {q : Nat} (hq : q < 1048576) {a : Nat}
    (h1 : entryAddress m directory q ≤ a) (h2 : a < entryAddress m directory q + 4) :
    PagingByte m chunk directory a := by
  unfold entryAddress at h1 h2
  exact Or.inr (Or.inr (not_outsideTables (i := q / 1024) (by omega) (by omega) (by omega)))

theorem BlockApart.remaps (h : BlockApart m chunk directory tmp) :
    Remaps m (mapSelf m directory tmp) chunk directory
      fun q => if q = tmp / 4096 then some (tmp ||| copyFlags) else none := by
  have hb := h.bound
  have hv : tmp ||| copyFlags < 4294967296 := by
    rw [or_flags h.aligned (by decide)]
    have hf : copyFlags = 7 := rfl
    have ha := h.aligned
    omega
  exact (mapsTo_store h.dirOk (by omega) hv).remaps h.dirOk h.chunkOk

/-- The block stays apart. -/
theorem BlockApart.mapSelf (h : BlockApart m chunk directory tmp) :
    BlockApart (mapSelf m directory tmp) chunk directory tmp where
  dirOk := h.remaps.dirOk h.dirOk
  chunkOk := h.remaps.chunkOk h.chunkOk
  aligned := h.aligned
  bound := h.bound
  off _ ha := h.off _ (h.remaps.pagingByte ha)

theorem overlay_offBlock (hlen : cs.length ≤ 4096) {a : Nat} (ha : OffBlock a tmp) :
    overlay m tmp cs a = m a := by
  rcases ha with hlt | hle
  · exact overlay_other (Or.inl hlt)
  · exact overlay_other (Or.inr (by omega))

/-- Memory off the paging structures is as it was. -/
theorem BlockApart.mapSelf_other (h : BlockApart m chunk directory tmp) {a : Nat}
    (ha : ¬ PagingByte m chunk directory a) : PeachKernel.mapSelf m directory tmp a = m a := by
  have hb := h.bound
  refine store32_other ?_
  by_contra hno
  exact ha (entryAddress_pagingByte (q := tmp / 4096) (by omega) (by omega) (by omega))

/-- What is laid over the block is no part of the paging structures. -/
theorem BlockApart.overlay_eq (h : BlockApart m chunk directory tmp) (hlen : cs.length ≤ 4096)
    {a : Nat} (ha : PagingByte m chunk directory a) : overlay m tmp cs a = m a :=
  overlay_offBlock hlen (h.off a ha)

/-- ... and changes no translation. -/
theorem BlockApart.physical_overlay (h : BlockApart m chunk directory tmp) (hlen : cs.length ≤ 4096)
    {v : Nat} (hv : v < 4294967296) :
    pagingGetPhysicalAddress (overlay m tmp cs) directory v =
      pagingGetPhysicalAddress m directory v := by
  have hr := remaps_of_agree fun a ha => h.overlay_eq hlen ha
  rw [pagingGetPhysicalAddress_eq, pagingGetPhysicalAddress_eq, hr.entry _ (by omega)]
  rfl

/-- **The block is mapped to itself.** -/
theorem BlockApart.physical_self (h : BlockApart m chunk directory tmp) {i : Nat} (hi : i < 4096) :
    pagingGetPhysicalAddress (PeachKernel.mapSelf m directory tmp) directory (tmp + i) =
      tmp + i := by
  have ha := h.aligned
  have hb := h.bound
  have hq : (tmp + i) / 4096 = tmp / 4096 := by omega
  have he := h.remaps.entry (tmp / 4096) (by omega)
  rw [if_pos rfl] at he
  rw [pagingGetPhysicalAddress_eq, hq, he, Option.getD_some,
    (entry_parts ha (by decide) (by omega)).1, u32_natCast_of_lt (by omega)]
  omega

/-- **A copy into the block.** -/
theorem BlockApart.copy (h : BlockApart m chunk directory tmp) (virtual : Nat) {max : Nat}
    (h1 : 1 ≤ max) (h2 : max < 4096) :
    ∃ ds, Seen (PeachKernel.mapSelf m directory tmp) directory tmp virtual max ds ∧
      pagedStrncpyLoop directory tmp virtual (max - 1) 0 (PeachKernel.mapSelf m directory tmp) =
        overlay (PeachKernel.mapSelf m directory tmp) tmp (ds ++ [0]) := by
  have hb := h.bound
  have hnone : SeenPrefix (PeachKernel.mapSelf m directory tmp) directory tmp virtual [] :=
    ⟨fun i hi => absurd hi (Nat.not_lt_zero i), fun c hc => absurd hc List.not_mem_nil⟩
  have hcopy := pagedStrncpyLoop_seen h1 (fun i hi => h.physical_self (by omega))
    (fun cs hlen v hv => h.mapSelf.physical_overlay (by omega) hv) (by omega) (max - 1)
    (Nat.zero_add _) hnone
  rw [overlay_nil] at hcopy
  exact hcopy

/-- **The entry is put back**: behind the copy the memory is the one before, with the copy in the
    block. -/
theorem BlockApart.restore (h : BlockApart m chunk directory tmp) (hlen : cs.length ≤ 4096) :
    pagingSet (overlay (PeachKernel.mapSelf m directory tmp) tmp cs) directory tmp
      (pagingGet m directory tmp) = (0, overlay m tmp cs) := by
  have hb := h.bound
  have htables : tableOf (overlay (PeachKernel.mapSelf m directory tmp) tmp cs) directory
      (tmp / 4096 / 1024) = tableOf m directory (tmp / 4096 / 1024) :=
    ((remaps_of_agree fun a ha => h.mapSelf.overlay_eq hlen ha).tables (by omega)).trans
      (h.remaps.tables (by omega))
  have hentry : pagingGet m directory tmp = load32 m (entryAddress m directory (tmp / 4096)) := by
    have hlower := pagingGet_lower m directory tmp
    unfold pagingAlignToLowerPage at hlower
    rw [h.aligned, Nat.sub_zero] at hlower
    exact hlower
  rw [pagingSet_of_aligned _ _ _ h.aligned, htables, hentry]
  refine congrArg (Prod.mk 0) (funext fun a => ?_)
  by_cases hin : entryAddress m directory (tmp / 4096) ≤ a ∧
      a < entryAddress m directory (tmp / 4096) + 4
  · -- a byte of the entry
    rw [h.overlay_eq hlen (entryAddress_pagingByte (by omega) hin.1 hin.2)]
    have hsplit : entryAddress m directory (tmp / 4096) +
        (a - entryAddress m directory (tmp / 4096)) = a := by omega
    have hbyte := wordByte_load32 m (entryAddress m directory (tmp / 4096))
      (k := a - entryAddress m directory (tmp / 4096)) (by omega)
    rw [hsplit] at hbyte
    exact (if_pos hin).trans hbyte
  · refine (if_neg hin).trans ?_
    unfold overlay
    by_cases hc : tmp ≤ a ∧ a < tmp + cs.length
    · rw [if_pos hc, if_pos hc]
    · rw [if_neg hc, if_neg hc]
      exact if_neg hin

end Block

/-! ## 4. What a call leaves -/

/-- An address off the free blocks. -/
def Heap.OffFree (heap : Heap) (a : Nat) : Prop :=
  a < 4294967296 ∧
    ∀ b, b < heap.table.total → heap.IsFree b → OffBlock a (heap.saddr + b * 4096)

/-- A byte of the paging structures of a task. -/
def TaskPaging (k : Kernel) (task a : Nat) : Prop :=
  PagingByte k.mem (pageDirectoryOf k.mem task) (taskDirectory k.mem task) a

/-- **The state before**: a block is free, the directory of the task is sound, and neither the
    paging structures, nor the words that are read, nor the place of the copy lie in a free
    block. -/
structure CopyStart (k : Kernel) (directory kernelChunk task phys max : Nat) : Prop where
  placed : k.heap.Placed
  clean : k.heap.Clean
  free : 0 < freeBlocks k.heap
  dirOk : DirOk k.mem (taskDirectory k.mem task)
  chunkOk : ChunkOk k.mem (pageDirectoryOf k.mem task) (taskDirectory k.mem task)
  paging : ∀ a, TaskPaging k task a → k.heap.OffFree a
  taskWord : ∀ a, task ≤ a → a < task + 4 → k.heap.OffFree a ∧ ¬ TaskPaging k task a
  kernelWord : ∀ a, kernelChunk ≤ a → a < kernelChunk + 4 →
    k.heap.OffFree a ∧ ¬ TaskPaging k task a
  active : load32 k.mem kernelChunk = directory
  out : ∀ a, phys ≤ a → a < phys + max → k.heap.OffFree a ∧ ¬ TaskPaging k task a

/-- The block that is asked for is the first one that is free, and its release gives back the
    heap. -/
theorem kzalloc_first {k : Kernel} (hp : k.heap.Placed) (hc : k.heap.Clean)
    (hf : 0 < freeBlocks k.heap) {size : Nat} (h1 : 1 ≤ size) (h2 : size ≤ 4096) :
    ∃ b k₁, FirstRun k.heap.IsFree k.heap.table.total 1 b ∧
      kzalloc k size = (k.heap.saddr + b * 4096, k₁) ∧
      k₁.mem = fill k.mem (k.heap.saddr + b * 4096) 0x00 size ∧
      heapFree k₁.heap (k.heap.saddr + b * 4096) = k.heap ∧ k.heap.saddr + b * 4096 ≠ 0 := by
  have hone := blocksFor_one h1 h2
  obtain ⟨ptr, k₁, e, hg, h0, -⟩ := kzalloc_grows (.nil hp) hf size h1 h2
  have hrun : HasRun k.heap.IsFree k.heap.table.total (blocksFor size) := by
    rw [hone]
    exact hasRun_one hf
  rcases kzalloc_serves hp (by omega) (Or.inl ⟨h1, hrun⟩) with ⟨b, hgrant, e'⟩ | ⟨hno, -⟩
  · have hfirst := hgrant.first
    rw [hone] at hfirst
    rw [e] at e'
    obtain ⟨rfl, rfl⟩ := Prod.mk.inj e'
    exact ⟨b, _, hfirst, e, rfl, hg.release hc, h0⟩
  · exact absurd ⟨h1, hrun⟩ hno

/-- The memory that the copy starts in: the block is cleared and mapped to itself. -/
def copyMemory (k : Kernel) (task tmp max : Nat) : Mem :=
  mapSelf (fill k.mem tmp 0x00 max) (taskDirectory k.mem task) tmp

section Copy

variable {k : Kernel} {directory kernelChunk task virtual phys max b : Nat}

/-- The calls of the function, one behind the other. -/
theorem copyStringFromTask_eq (directory kernelChunk phys : Nat) {k₁ : Kernel}
    {chunk taskDirectory tmp : Nat} {cs : List UInt8}
    (h2 : max < 4096) (e : kzalloc k max = (tmp, k₁)) (h0 : tmp ≠ 0)
    (hap : BlockApart k₁.mem chunk taskDirectory tmp) (hchunk : pageDirectoryOf k₁.mem task = chunk)
    (htask : pageDirectoryOf (mapSelf k₁.mem taskDirectory tmp) task = chunk)
    (hlen : cs.length ≤ 4096) (hloop : pagedStrncpyLoop taskDirectory tmp virtual (max - 1) 0
      (mapSelf k₁.mem taskDirectory tmp) = overlay (mapSelf k₁.mem taskDirectory tmp) tmp cs) :
    copyStringFromTask k directory kernelChunk task virtual phys max =
      (0, kfree ⟨k₁.heap, strncpy (overlay k₁.mem tmp cs) phys tmp max⟩ tmp,
        load32 (overlay (mapSelf k₁.mem taskDirectory tmp) tmp cs) kernelChunk) := by
  have hmap : pagingMap k₁.mem chunk tmp tmp copyFlags =
      (0, mapSelf k₁.mem taskDirectory tmp) := by
    rw [pagingMap_of_aligned _ _ _ hap.aligned hap.aligned, hap.chunkOk.1]
    rfl
  unfold copyStringFromTask
  rw [if_neg (by omega), e]
  dsimp only
  rw [if_neg h0, hchunk, hap.chunkOk.1, hmap]
  dsimp only
  rw [htask, hap.mapSelf.chunkOk.1, hloop, hap.restore hlen]
  rfl

/-- The first free block is off what is off the free blocks. -/
theorem Heap.OffFree.offBlock {a : Nat} (h : k.heap.OffFree a)
    (hb : FirstRun k.heap.IsFree k.heap.table.total 1 b) :
    OffBlock a (k.heap.saddr + b * 4096) := by
  have hin := hb.1
  exact h.2 b (by omega) (hb.2.1 b (Nat.le_refl b) (by omega))

/-- A block of the heap lies in the address space. -/
theorem CopyStart.bound (hs : CopyStart k directory kernelChunk task phys max)
    (hb : FirstRun k.heap.IsFree k.heap.table.total 1 b) :
    k.heap.saddr + b * 4096 + 4096 ≤ 4294967296 := by
  have hin := hb.1
  have hend := hs.placed.bound
  omega

/-- Clearing the block changes nothing off the free blocks. -/
theorem CopyStart.fill_same (hs : CopyStart k directory kernelChunk task phys max) (h2 : max < 4096)
    (hb : FirstRun k.heap.IsFree k.heap.table.total 1 b) {a : Nat} (ha : k.heap.OffFree a) :
    fill k.mem (k.heap.saddr + b * 4096) 0x00 max a = k.mem a := by
  have hbound := hs.bound hb
  have hoff := ha.offBlock hb
  unfold OffBlock at hoff
  exact fill_other ha.1 (by omega) (by omega)

theorem CopyStart.remaps (hs : CopyStart k directory kernelChunk task phys max) (h2 : max < 4096)
    (hb : FirstRun k.heap.IsFree k.heap.table.total 1 b) :
    Remaps k.mem (fill k.mem (k.heap.saddr + b * 4096) 0x00 max) (pageDirectoryOf k.mem task)
      (taskDirectory k.mem task) fun _ => none :=
  remaps_of_agree fun a h => hs.fill_same h2 hb (hs.paging a h)

/-- **The block lies apart from the directory of the task.** -/
theorem CopyStart.blockApart (hs : CopyStart k directory kernelChunk task phys max)
    (h2 : max < 4096) (hb : FirstRun k.heap.IsFree k.heap.table.total 1 b) :
    BlockApart (fill k.mem (k.heap.saddr + b * 4096) 0x00 max) (pageDirectoryOf k.mem task)
      (taskDirectory k.mem task) (k.heap.saddr + b * 4096) where
  dirOk := (hs.remaps h2 hb).dirOk hs.dirOk
  chunkOk := (hs.remaps h2 hb).chunkOk hs.chunkOk
  aligned := block_aligned hs.placed b
  bound := hs.bound hb
  off a ha := (hs.paging a ((hs.remaps h2 hb).pagingByte ha)).offBlock hb

/-- Memory that is neither in a free block nor in the paging structures, while the copy is made. -/
theorem CopyStart.copyMemory_other (hs : CopyStart k directory kernelChunk task phys max)
    (h2 : max < 4096) (hb : FirstRun k.heap.IsFree k.heap.table.total 1 b) {a : Nat}
    (ha : k.heap.OffFree a ∧ ¬ TaskPaging k task a) :
    copyMemory k task (k.heap.saddr + b * 4096) max a = k.mem a :=
  ((hs.blockApart h2 hb).mapSelf_other fun hp => ha.2 ((hs.remaps h2 hb).pagingByte hp)).trans
    (hs.fill_same h2 hb ha.1)

/-- **What a call leaves**: a string that the copy has read, and all else as before. -/
theorem copyStringFromTask_leaves (virtual : Nat)
    (hs : CopyStart k directory kernelChunk task phys max) (h1 : 1 ≤ max)
    (h2 : max < 4096) :
    ∃ b cs m, FirstRun k.heap.IsFree k.heap.table.total 1 b ∧
      Seen (copyMemory k task (k.heap.saddr + b * 4096) max) (taskDirectory k.mem task)
        (k.heap.saddr + b * 4096) virtual max cs ∧
      copyStringFromTask k directory kernelChunk task virtual phys max =
        (0, ⟨k.heap, m⟩, directory) ∧
      CString m phys cs ∧
      ∀ a, k.heap.OffFree a → (a < phys ∨ phys + max ≤ a) → m a = k.mem a := by
  obtain ⟨b, ⟨heap, m₁⟩, hb, e, hfill, hrelease, h0⟩ :=
    kzalloc_first hs.placed hs.clean hs.free h1 (by omega)
  have hm₁ : m₁ = fill k.mem (k.heap.saddr + b * 4096) 0x00 max := hfill
  subst hm₁
  have hap := hs.blockApart h2 hb
  obtain ⟨cs, hcs, hloop⟩ := hap.copy virtual h1 h2
  have hlen := hcs.length
  have hlen' : (cs ++ [0]).length ≤ 4096 := by
    rw [List.length_append, List.length_singleton]
    omega
  have htask : ∀ m : Mem, (∀ a, k.heap.OffFree a ∧ ¬ TaskPaging k task a → m a = k.mem a) →
      pageDirectoryOf m task = pageDirectoryOf k.mem task := fun m hm =>
    load32_congr fun a ha1 ha2 => hm a (hs.taskWord a ha1 ha2)
  have hkernel : load32 (overlay (copyMemory k task (k.heap.saddr + b * 4096) max)
      (k.heap.saddr + b * 4096) (cs ++ [0])) kernelChunk = directory := by
    rw [load32_congr fun a ha1 ha2 => (overlay_offBlock hlen' ((hs.kernelWord a ha1 ha2).1.offBlock
      hb)).trans (hs.copyMemory_other h2 hb (hs.kernelWord a ha1 ha2))]
    exact hs.active
  have heq := copyStringFromTask_eq directory kernelChunk phys h2 e h0 hap
    (htask _ fun a ha => hs.fill_same h2 hb ha.1)
    (htask _ fun a ha => hs.copyMemory_other h2 hb ha) hlen' hloop
  -- the copy for the caller lies off the block
  obtain ⟨hout, hframe⟩ := @strncpy_spec
    (overlay (fill k.mem (k.heap.saddr + b * 4096) 0x00 max) (k.heap.saddr + b * 4096) (cs ++ [0]))
    phys (k.heap.saddr + b * 4096) max h1 fun a ha1 ha2 => by
      by_contra hno
      have hoff := (hs.out a (by omega) (by omega)).1.offBlock hb
      unfold OffBlock at hoff
      omega
  rw [(overlay_cString hcs.ne_zero).readString cs, List.take_of_length_le hlen] at hout
  refine ⟨b, cs, _, hb, hcs, heq.trans ?_, hout, fun a hfree ha => ?_⟩
  · refine Prod.ext rfl (Prod.ext ?_ hkernel)
    exact congrArg (fun h => (⟨h, _⟩ : Kernel)) hrelease
  · rw [hframe a ha, overlay_offBlock hlen' (hfree.offBlock hb)]
    exact hs.fill_same h2 hb hfree

end Copy

/-! ## 5. The string of the task -/

/-- A string is the one that is read, if each of its characters is, and then its end. -/
theorem seen_iff {m : Mem} {directory tmp virtual max : Nat} {cs : List UInt8}
    (hlen : cs.length ≤ max - 1) (h0 : ∀ c ∈ cs, c ≠ 0) :
    Seen m directory tmp virtual max cs ↔ ∀ i ≤ cs.length, i < max - 1 →
      seenByte m directory tmp virtual cs i = cs.getD i 0 := by
  constructor
  · intro h i hi hmax
    rcases Nat.lt_or_eq_of_le hi with hlt | rfl
    · exact h.char i hlt
    · rw [h.stop hmax, List.getD_eq_default _ _ (Nat.le_refl _)]
  · intro h
    refine ⟨⟨fun i hi => h i (Nat.le_of_lt hi) (by omega), h0⟩, hlen, fun hmax => ?_⟩
    rw [h _ (Nat.le_refl _) hmax, List.getD_eq_default _ _ (Nat.le_refl _)]

/-- **What a call should leave**: the string of the task at its place, and the paging structures of
    the task, the heap and the directory in effect as before. -/
structure CopyOk (k : Kernel) (directory task virtual phys max : Nat) (r : Int × Kernel × Nat) :
    Prop where
  status : r.1 = 0
  out : CString r.2.1.mem phys (taskString k task virtual max)
  paging : ∀ a, TaskPaging k task a → r.2.1.mem a = k.mem a
  heap : r.2.1.heap = k.heap
  active : r.2.2 = directory

/-- **The string is left to be seen**: behind the characters before it, copied to the first free
    block, which was cleared and is mapped to itself, each byte of it is still the one that the task
    sees. -/
def Undisturbed (k : Kernel) (task virtual max : Nat) : Prop :=
  ∀ b, FirstRun k.heap.IsFree k.heap.table.total 1 b →
    ∀ i ≤ (taskString k task virtual max).length, i < max - 1 →
      seenByte (copyMemory k task (k.heap.saddr + b * 4096) max) (taskDirectory k.mem task)
          (k.heap.saddr + b * 4096) virtual (taskString k task virtual max) i =
        (taskString k task virtual max).getD i 0

section String

variable {k : Kernel} {directory kernelChunk task virtual phys max b : Nat}

/-- **The string of the task is copied exactly when it is left to be seen.** All else is as before
    in any case. -/
theorem copyStringFromTask_ok_iff (hs : CopyStart k directory kernelChunk task phys max)
    (h1 : 1 ≤ max) (h2 : max < 4096) :
    CopyOk k directory task virtual phys max
        (copyStringFromTask k directory kernelChunk task virtual phys max) ↔
      Undisturbed k task virtual max := by
  obtain ⟨b, cs, m, hb, hcs, e, hout, hframe⟩ := copyStringFromTask_leaves virtual hs h1 h2
  have hlen : (taskString k task virtual max).length ≤ max - 1 := readString_length _ _ _
  have h0 : ∀ c ∈ taskString k task virtual max, c ≠ 0 := readString_ne_zero _ _
  rw [e]
  constructor
  · intro h b' hb'
    have hbb : b' = b := Nat.le_antisymm (hb'.2.2 b hb.1 hb.2.1) (hb.2.2 b' hb'.1 hb'.2.1)
    subst hbb
    rw [hout.unique _ h.out] at hcs
    exact (seen_iff hlen h0).mp hcs
  · intro h
    have hstring := hcs.unique ((seen_iff hlen h0).mpr (h b hb))
    subst hstring
    refine ⟨rfl, hout, fun a ha => hframe a (hs.paging a ha) ?_, rfl, rfl⟩
    by_contra hno
    exact (hs.out a (by omega) (by omega)).2 ha

/-- A byte of the task that lies on another page than the block, and neither in the block nor in the
    paging structures. -/
def ByteApart (k : Kernel) (task tmp v : Nat) : Prop :=
  v / 4096 ≠ tmp / 4096 ∧
    OffBlock (pagingGetPhysicalAddress k.mem (taskDirectory k.mem task) v) tmp ∧
    ¬ TaskPaging k task (pagingGetPhysicalAddress k.mem (taskDirectory k.mem task) v)

/-- Such a byte is seen as before. -/
theorem CopyStart.seen_apart (hs : CopyStart k directory kernelChunk task phys max)
    (h2 : max < 4096) (hb : FirstRun k.heap.IsFree k.heap.table.total 1 b) {cs : List UInt8}
    {i : Nat} (hi : i ≤ 4096)
    (ha : ByteApart k task (k.heap.saddr + b * 4096) (u32 ((virtual + i : Nat) : Int))) :
    seenByte (copyMemory k task (k.heap.saddr + b * 4096) max) (taskDirectory k.mem task)
        (k.heap.saddr + b * 4096) virtual cs i =
      taskByte k.mem (taskDirectory k.mem task) (virtual + i) := by
  obtain ⟨hpage, hoff, hpaging⟩ := ha
  have hap := hs.blockApart h2 hb
  have hv : u32 ((virtual + i : Nat) : Int) < 4294967296 := u32_lt _
  have hbound := hs.bound hb
  have hsame : pagingGetPhysicalAddress (copyMemory k task (k.heap.saddr + b * 4096) max)
      (taskDirectory k.mem task) (u32 ((virtual + i : Nat) : Int)) =
      pagingGetPhysicalAddress k.mem (taskDirectory k.mem task)
        (u32 ((virtual + i : Nat) : Int)) := by
    unfold copyMemory
    rw [pagingGetPhysicalAddress_eq, pagingGetPhysicalAddress_eq, hap.remaps.entry _ (by omega),
      if_neg hpage, (hs.remaps h2 hb).entry _ (by omega)]
    rfl
  have hlt : pagingGetPhysicalAddress k.mem (taskDirectory k.mem task)
      (u32 ((virtual + i : Nat) : Int)) < 4294967296 := u32_lt _
  unfold seenByte taskByte userView copyMemory at *
  rw [hsame]
  generalize pagingGetPhysicalAddress k.mem (taskDirectory k.mem task)
    (u32 ((virtual + i : Nat) : Int)) = p at *
  rw [overlay_offBlock (by rw [List.length_take]; omega) hoff,
    hap.mapSelf_other fun hp => hpaging ((hs.remaps h2 hb).pagingByte hp)]
  unfold OffBlock at hoff
  exact fill_other hlt (by omega) (by omega)

/-- **A string apart from the first free block is left to be seen.** -/
theorem undisturbed_of_apart (hs : CopyStart k directory kernelChunk task phys max)
    (h2 : max < 4096) (h : ∀ b, FirstRun k.heap.IsFree k.heap.table.total 1 b →
      ∀ i ≤ (taskString k task virtual max).length, i < max - 1 →
        ByteApart k task (k.heap.saddr + b * 4096) (u32 ((virtual + i : Nat) : Int))) :
    Undisturbed k task virtual max := fun b hb i hi hmax => by
  rw [hs.seen_apart h2 hb (by omega) (h b hb i hi hmax)]
  exact readString_getD _ _ hi hmax

/-- **A string at the address of the block is read as the empty string**: the block was cleared. -/
theorem CopyStart.seen_self (hs : CopyStart k directory kernelChunk task phys max) (h1 : 1 ≤ max)
    (h2 : max < 4096) (hb : FirstRun k.heap.IsFree k.heap.table.total 1 b) :
    Seen (copyMemory k task (k.heap.saddr + b * 4096) max) (taskDirectory k.mem task)
      (k.heap.saddr + b * 4096) (k.heap.saddr + b * 4096) max [] := by
  have hap := hs.blockApart h2 hb
  have hbound := hs.bound hb
  refine (seen_iff (Nat.zero_le _) fun c hc => absurd hc List.not_mem_nil).mpr fun i hi _ => ?_
  obtain rfl : i = 0 := Nat.le_zero.mp hi
  have hself := hap.physical_self (i := 0) (by decide)
  have hoff : ¬ PagingByte (fill k.mem (k.heap.saddr + b * 4096) 0x00 max)
      (pageDirectoryOf k.mem task) (taskDirectory k.mem task) (k.heap.saddr + b * 4096) :=
    fun hp => by
    have := hap.off _ hp
    unfold OffBlock at this
    omega
  unfold seenByte copyMemory
  rw [u32_natCast_of_lt (by omega), hself, List.take_nil, overlay_nil, Nat.add_zero,
    hap.mapSelf_other hoff]
  exact fill_inside (by omega) (Nat.le_refl _) (by omega)

end String

/-! ## 6. A task with the first free block's page mapped elsewhere -/

/-- The pages map each address to itself, but for the one at 16 MiB, where the heap starts: it is
    mapped to 3 MiB, where the string `"a"` is. The task is at 4 MiB, the kernel's chunk at 5
    MiB. -/
def stringWords (a : Nat) : Nat :=
  if a = 0x00300000 then 0x61
  else if a = 0x00400000 then 0x00200000
  else if a = 0x00500000 then 0x00600000
  else if a = 0x08004000 then 0x00300007
  else identityWords a

def stringKernel : Kernel := ⟨kernelHeap fun _ => 0, ofWords stringWords⟩

theorem stringKernel_word {a : Nat} (ha : a % 4 = 0) (hw : stringWords a < 4294967296) :
    load32 stringKernel.mem a = stringWords a := load32_ofWords ha hw

/-- Chunk and directory are the same ones. -/
theorem stringKernel_same {a : Nat} (h1 : 0x00100000 ≤ a) (h2 : a < 0x00200004) :
    stringKernel.mem a = identityMem a := by
  have hword : stringWords (a - a % 4) = identityWords (a - a % 4) := by
    unfold stringWords
    rw [if_neg (by omega), if_neg (by omega), if_neg (by omega), if_neg (by omega)]
  show wordByte (stringWords (a - a % 4)) (a % 4) = wordByte (identityWords (a - a % 4)) (a % 4)
  rw [hword]

theorem stringKernel_tables {i : Nat} (hi : i < 1024) :
    tableOf stringKernel.mem 0x00100000 i = tableOf identityMem 0x00100000 i := by
  unfold tableOf
  rw [load32_congr fun a h1 h2 => stringKernel_same (by omega) (by omega)]

theorem stringKernel_task : pageDirectoryOf stringKernel.mem 0x00400000 = 0x00200000 ∧
    taskDirectory stringKernel.mem 0x00400000 = 0x00100000 := by
  have hchunk : pageDirectoryOf stringKernel.mem 0x00400000 = 0x00200000 :=
    stringKernel_word (by decide) (by decide)
  refine ⟨hchunk, ?_⟩
  unfold taskDirectory
  rw [hchunk]
  exact stringKernel_word (by decide) (by decide)

/-- Where the paging structures lie. -/
theorem stringKernel_paging {a : Nat} (h : TaskPaging stringKernel 0x00400000 a) :
    (0x00100000 ≤ a ∧ a < 0x00200004) ∨ (0x08000000 ≤ a ∧ a < 0x08400000) := by
  unfold TaskPaging at h
  rw [stringKernel_task.1, stringKernel_task.2] at h
  rcases h with h | h | h
  · omega
  · omega
  · by_contra hno
    refine h fun i hi => ?_
    rw [stringKernel_tables hi, identityMem_tableOf hi]
    omega

/-- The heap's blocks lie between 16 MiB and 116 MiB. -/
theorem stringKernel_offFree {a : Nat} (ha : a < 4294967296) (h : a < 0x01000000 ∨ 0x08000000 ≤ a) :
    stringKernel.heap.OffFree a := by
  refine ⟨ha, fun b hb _ => ?_⟩
  have hb' : b < 25600 := hb
  show a < 0x01000000 + b * 4096 ∨ 0x01000000 + b * 4096 + 4096 ≤ a
  omega

/-- Below 16 MiB, off chunk and directory. -/
theorem stringKernel_apart {a : Nat} (h1 : 0x00200004 ≤ a) (h2 : a < 0x01000000) :
    stringKernel.heap.OffFree a ∧ ¬ TaskPaging stringKernel 0x00400000 a := by
  refine ⟨stringKernel_offFree (by omega) (by omega), fun h => ?_⟩
  have := stringKernel_paging h
  omega

theorem stringKernel_start :
    CopyStart stringKernel 0x00600000 0x00500000 0x00400000 0x00700000 10 where
  placed := kernelHeap_placed _
  clean := kernel_processStart.clean
  free := by
    show 0 < freeBlocks (kernelHeap fun _ => 0)
    rw [kernelHeap_freeBlocks]
    decide
  dirOk := by
    rw [stringKernel_task.2]
    exact identityMem_dirOk.of_tables fun _ hi => stringKernel_tables hi
  chunkOk := by
    rw [stringKernel_task.1, stringKernel_task.2]
    refine ⟨stringKernel_word (by decide) (by decide), fun a h1 h2 => ?_⟩
    exact (identityMem_chunkOk.2 a h1 h2).of_tables fun _ hi => stringKernel_tables hi
  paging a ha := by
    have := stringKernel_paging ha
    exact stringKernel_offFree (by omega) (by omega)
  taskWord a h1 h2 := stringKernel_apart (by omega) (by omega)
  kernelWord a h1 h2 := stringKernel_apart (by omega) (by omega)
  active := stringKernel_word (by decide) (by decide)
  out a h1 h2 := stringKernel_apart (by omega) (by omega)

/-- The first free block is the first one. -/
theorem stringKernel_first {b : Nat}
    (hb : FirstRun stringKernel.heap.IsFree stringKernel.heap.table.total 1 b) : b = 0 := by
  have hzero := hb.2.2 0 (show 0 + 1 ≤ 25600 by decide) fun i _ hi => kernelHeap_isFree _ (by omega)
  omega

/-- What is computed: the string at 3 MiB and at 16 MiB, and where the first is. -/
theorem stringKernel_sees : taskString stringKernel 0x00400000 0x00300000 10 = [0x61] ∧
    taskString stringKernel 0x00400000 0x01000000 10 = [0x61] ∧
    ∀ i ≤ 1, pagingGetPhysicalAddress stringKernel.mem 0x00100000 (0x00300000 + i) =
      0x00300000 + i := by
  decide +kernel

/-- At 3 MiB the string is copied. -/
theorem copyStringFromTask_ok_iff_a :
    CopyOk stringKernel 0x00600000 0x00400000 0x00300000 0x00700000 10
      (copyStringFromTask stringKernel 0x00600000 0x00500000 0x00400000 0x00300000 0x00700000
          10) := by
  refine (copyStringFromTask_ok_iff stringKernel_start (by decide) (by decide)).mpr ?_
  refine undisturbed_of_apart stringKernel_start (by decide) fun b hb i hi _ => ?_
  obtain rfl := stringKernel_first hb
  rw [stringKernel_sees.1] at hi
  have hi1 : i ≤ 1 := hi
  unfold ByteApart
  rw [u32_natCast_of_lt (by omega), stringKernel_task.2, stringKernel_sees.2.2 i hi1]
  refine ⟨?_, Or.inl ?_, (stringKernel_apart (by omega) (by omega)).2⟩
  · show (0x00300000 + i) / 4096 ≠ (0x01000000 + 0 * 4096) / 4096
    omega
  · show 0x00300000 + i < 0x01000000 + 0 * 4096
    omega

/-- **At 16 MiB the task sees `"a"`, and the copy is empty.** -/
theorem copyStringFromTask_blanks :
    CopyStart stringKernel 0x00600000 0x00500000 0x00400000 0x00700000 10 ∧
    taskString stringKernel 0x00400000 0x01000000 10 = [0x61] ∧
    CString (copyStringFromTask stringKernel 0x00600000 0x00500000 0x00400000 0x01000000 0x00700000
      10).2.1.mem 0x00700000 [] ∧
    ¬ CopyOk stringKernel 0x00600000 0x00400000 0x01000000 0x00700000 10
      (copyStringFromTask stringKernel 0x00600000 0x00500000 0x00400000 0x01000000 0x00700000
          10) := by
  obtain ⟨b, cs, m, hb, hcs, e, hout, -⟩ := copyStringFromTask_leaves 0x01000000
    stringKernel_start (by decide) (by decide)
  have hb0 := stringKernel_first hb
  subst hb0
  have hempty := hcs.unique (stringKernel_start.seen_self (by decide) (by decide) hb)
  subst hempty
  rw [e]
  refine ⟨stringKernel_start, stringKernel_sees.2.1, hout, fun h => ?_⟩
  have hstring := hout.unique _ h.out
  rw [stringKernel_sees.2.1] at hstring
  exact absurd hstring (by decide)

end PeachKernel
