/-
  File:      PeachKernel/Process/Arguments.lean
  Subject:   The arguments of a program: `process_inject_arguments` of `task/process.c`.

  The caller's list is walked twice, once to count its nodes and once to copy them; between two
  nodes the kernel allocates for the process, so blocks are cleared and tables of the process's
  directory are written while the list is still read. The list stays what it is where it lies in
  neither.

  * `strncpy` -- byte by byte, with a NUL behind the last one;
  * `processCountCommandArguments`, `processInjectArguments` -- the source functions; a walk ends
    where a node has no next one, within `fuel` steps;
  * `ArgumentList` -- memory holds a list of arguments; `NodeHeld` -- where its nodes may lie;
  * `Takes` -- what a `process_malloc` that is granted leaves;
  * `processInjectArguments_spec` -- the arguments are there, or nothing was said to be.
-/
import PeachKernel.Lib.CString
import PeachKernel.Paging.Calls
import PeachKernel.Process.Alloc

namespace PeachKernel

open CInt Mem

/-! ## 1. The source functions -/

/-- The loop of `strncpy` from character `i`, with room for `left` more and the NUL. -/
def strncpyLoop (dest src : Nat) : (left i : Nat) → Mem → Mem
  | 0, i, m => Function.update m (dest + i) 0x00
  | left + 1, i, m =>
    if m (src + i) = 0x00 then Function.update m (dest + i) 0x00
    else strncpyLoop dest src left (i + 1) (Function.update m (dest + i) (m (src + i)))

/-- `strncpy` of the kernel: at most `count - 1` characters, and a NUL. -/
def strncpy (m : Mem) (dest src count : Nat) : Mem := strncpyLoop dest src (count - 1) 0 m

/-- `current->next`: a node is `char argument[512]`, then the pointer. -/
def argumentNext (m : Mem) (current : Nat) : Nat := load32 m (current + 512)

/-- `struct process_arguments`. -/
structure ProcessArguments where
  argc : Nat
  argv : Nat
  deriving DecidableEq

/-- The loop of `process_count_command_arguments`. -/
def countArgumentsLoop (m : Mem) : (fuel current i : Nat) → Option Nat
  | 0, current, i => if current = 0 then some i else none
  | fuel + 1, current, i =>
    if current = 0 then some i else countArgumentsLoop m fuel (argumentNext m current) (i + 1)

def processCountCommandArguments (m : Mem) (fuel rootArgument : Nat) : Option Nat :=
  countArgumentsLoop m fuel rootArgument 0

/-- The second loop of `process_inject_arguments`: the status, and the state behind it. -/
def injectArgumentsLoop (argv : Nat) :
    (fuel current i : Nat) → Kernel → Process → Option (Int × Kernel × Process)
  | 0, current, _, k, p => if current = 0 then some (0, k, p) else none
  | fuel + 1, current, i, k, p =>
    if current = 0 then some (0, k, p)
    else
      match processMalloc k p 512 with
      | (argumentStr, k, p) =>
        if argumentStr = 0 then some (-ENOMEM, k, p)
        else
          let m := strncpy k.mem argumentStr current 512
          let m := store32 m (argv + 4 * i) argumentStr
          injectArgumentsLoop argv fuel (argumentNext m current) (i + 1) ⟨k.heap, m⟩ p

/-- `process_inject_arguments`: the status, the state, and `process->arguments`. -/
def processInjectArguments (fuel : Nat) (k : Kernel) (p : Process) (arguments : ProcessArguments)
    (rootArgument : Nat) : Option (Int × Kernel × Process × ProcessArguments) :=
  match processCountCommandArguments k.mem fuel rootArgument with
  | none => none
  | some argc =>
    if argc = 0 then some (- EIO, k, p, arguments)
    else
      match processMalloc k p (u32 ((4 * argc : Nat) : Int)) with
      | (argv, k, p) =>
        if argv = 0 then some (-ENOMEM, k, p, arguments)
        else
          (injectArgumentsLoop argv fuel rootArgument 0 k p).map fun r =>
            (r.1, r.2.1, r.2.2, if r.1 < 0 then arguments else ⟨argc, argv⟩)

/-! ## 2. Copies -/

/-- The characters are those of the bytes that are read. -/
theorem readString_congr {m m' : Mem} (n : Nat) : ∀ {p : Nat},
    (∀ a, p ≤ a → a < p + n → m' a = m a) → readString m' n p = readString m n p := by
  induction n with
  | zero => exact fun _ => rfl
  | succ n ih =>
    intro p h
    have hrest := @ih (p + 1) fun a h1 h2 => h a (by omega) (by omega)
    rw [readString, readString, h p (Nat.le_refl p) (by omega), hrest]

/-- **A copy**: the string is at its place, cut to the room that is there, and nothing else changed.
    Induction on that room. -/
theorem strncpyLoop_spec (dest src left : Nat) : ∀ {i : Nat} {m : Mem},
    (∀ a, src + i ≤ a → a ≤ src + i + left → a < dest + i ∨ dest + i + left < a) →
    CString (strncpyLoop dest src left i m) (dest + i) (readString m left (src + i)) ∧
      ∀ a, a < dest + i ∨ dest + i + left < a → strncpyLoop dest src left i m a = m a := by
  induction left with
  | zero =>
    intro i m _
    refine ⟨Function.update_self _ _ _, fun a ha => ?_⟩
    exact Function.update_of_ne (by omega) _ _
  | succ left ih =>
    intro i m hoff
    rw [strncpyLoop, readString]
    by_cases h0 : m (src + i) = 0
    · rw [if_pos h0, if_pos h0]
      refine ⟨Function.update_self _ _ _, fun a ha => ?_⟩
      exact Function.update_of_ne (by omega) _ _
    · rw [if_neg h0, if_neg h0]
      obtain ⟨hcopy, hother⟩ := @ih (i + 1) (Function.update m (dest + i) (m (src + i)))
        fun a h1 h2 => by
          have := hoff a (by omega) (by omega)
          omega
      refine ⟨⟨?_, h0, ?_⟩, fun a ha => ?_⟩
      · rw [hother _ (by omega), Function.update_self]
      · -- the characters still to copy are not those written
        rw [readString_congr left fun a h1 h2 => ?_] at hcopy
        · exact hcopy
        · have := hoff a (by omega) (by omega)
          exact Function.update_of_ne (by omega) _ _
      · rw [hother a (by omega), Function.update_of_ne (by omega)]

theorem strncpy_spec {m : Mem} {dest src count : Nat} (h1 : 1 ≤ count)
    (hoff : ∀ a, src ≤ a → a < src + count → a < dest ∨ dest + count ≤ a) :
    CString (strncpy m dest src count) dest (readString m (count - 1) src) ∧
      ∀ a, a < dest ∨ dest + count ≤ a → strncpy m dest src count a = m a := by
  obtain ⟨hcopy, hother⟩ := @strncpyLoop_spec dest src (count - 1) 0 m fun a h2 h3 => by
    have := hoff a (by omega) (by omega)
    omega
  exact ⟨hcopy, fun a ha => hother a (by omega)⟩

/-! ## 3. What a process is given -/

/-- The address lies outside the blocks of an allocation. -/
def OffAlloc (a : Nat) (x : Allocation) : Prop := a < x.ptr ∨ x.ptr + blocksFor x.size * 4096 ≤ a

/-- **Memory that an allocation of the process leaves alone**: no free block, and no table of its
    directory. -/
structure Kept (heap : Heap) (d : Directory) (a : Nat) : Prop where
  lt : a < 4294967296
  free : ∀ b, b < heap.table.total → heap.IsFree b → OffBlock a (heap.saddr + b * 4096)
  tables : ∀ t ∈ d.tables, OffBlock a t

section Blocks

variable {heap : Heap} {d : Directory} {live : List Allocation} {x y : Allocation} {a : Nat}

theorem HeapInv.offAlloc (h : HeapInv heap live) (hx : x ∈ live) (hy : y ∈ live) (hne : x ≠ y)
    (h1 : x.ptr ≤ a) (h2 : a < x.ptr + blocksFor x.size * 4096) : OffAlloc a y := by
  have hap := h.apart hx hy hne
  have e1 := h.addr x hx
  have e2 := h.addr y hy
  have hlx : (x.extent heap.saddr).len = blocksFor x.size := rfl
  have hly : (y.extent heap.saddr).len = blocksFor y.size := rfl
  unfold Extent.Apart at hap
  unfold OffAlloc
  omega

/-- A table is no other allocation. -/
theorem HeapInv.ne_table (h : HeapInv heap (d.allocations ++ live)) (hx : x ∈ live) {t : Nat}
    (ht : t ∈ d.tables) : x ≠ tableAlloc t := fun e =>
  (List.nodup_append.mp h.nodup).2.2 _ (List.mem_append_left _ (List.mem_map_of_mem ht)) _ hx e.symm

/-- **What is allocated is kept**, but for the tables. -/
theorem HeapInv.kept (h : HeapInv heap (d.allocations ++ live)) (hx : x ∈ live) (h1 : x.ptr ≤ a)
    (h2 : a < x.ptr + blocksFor x.size * 4096) : Kept heap d a where
  lt := Nat.lt_trans h2 (h.end_lt (List.mem_append_right _ hx)).2
  free b hb hfree := by
    have haddr := h.addr x (List.mem_append_right _ hx)
    have hno : ¬ (x.extent heap.saddr).Has b := fun hhas =>
      h.not_isFree (List.mem_append_right _ hx) hhas hfree
    have hlen : (x.extent heap.saddr).len = blocksFor x.size := rfl
    unfold Extent.Has at hno
    unfold OffBlock
    omega
  tables t ht := by
    have hoff := h.offAlloc (List.mem_append_right _ hx)
      (List.mem_append_left _ (List.mem_append_left _ (List.mem_map_of_mem ht)))
        (h.ne_table hx ht) h1 h2
    rwa [OffAlloc, tableAlloc_blocks] at hoff

/-- What is kept lies off a run of free blocks. -/
theorem Kept.offAlloc (hk : Kept heap d a)
    (haddr : x.ptr = heap.saddr + (x.extent heap.saddr).start * 4096)
    (hin : (x.extent heap.saddr).start + blocksFor x.size ≤ heap.table.total)
    (hfree : ∀ b, (x.extent heap.saddr).Has b → heap.IsFree b) : OffAlloc a x := by
  by_contra hno
  unfold OffAlloc at hno
  have hlen : (x.extent heap.saddr).len = blocksFor x.size := rfl
  have hb := hk.free ((a - heap.saddr) / 4096) (by omega) (hfree _ (by unfold Extent.Has; omega))
  unfold OffBlock at hb
  omega

/-- A request of at most a page is served, whatever the heap is like. -/
theorem Heap.serves_page {size : Nat} (h1 : 1 ≤ size) (h2 : size ≤ 4096) : heap.Serves size := by
  by_cases hf : 0 < freeBlocks heap
  · exact Or.inl ⟨h1, by rw [blocksFor_one h1 h2]; exact hasRun_one hf⟩
  · refine Or.inr fun i hi hfree => hf (Finset.card_pos.mpr ⟨i, ?_⟩)
    exact Finset.mem_filter.mpr ⟨Finset.mem_range.mpr (by omega), hfree⟩

end Blocks

/-- **A `process_malloc` that was granted**: `x` is allocated and recorded, and what is kept is as
    it was. -/
structure Takes (d : Directory) (k k' : Kernel) (p p' : Process) (live : List Allocation)
    (x : Allocation) : Prop where
  inv : HeapInv k'.heap (d.allocations ++ x :: live)
  ne : x.ptr ≠ 0
  saddr : k'.heap.saddr = k.heap.saddr
  total : k'.heap.table.total = k.heap.table.total
  free : ∀ b, k'.heap.IsFree b → k.heap.IsFree b
  wasFree : ∀ b, (x.extent k.heap.saddr).Has b → k.heap.IsFree b
  mem : ∀ a, a < 4294967296 → OffAlloc a x → (∀ t ∈ d.tables, OffBlock a t) → k'.mem a = k.mem a
  directory : HasDirectory k'.mem d
  pageDirectory : p'.pageDirectory = d.chunk
  recorded : p'.recorded.Perm (x :: p.recorded)

section Takes

variable {d : Directory} {k k' : Kernel} {p p' : Process} {live : List Allocation} {x : Allocation}
  {size a : Nat}

/-- The parts of a directory that is live beside other allocations are apart. -/
theorem HeapInv.separate_append {heap : Heap} (h : HeapInv heap (d.allocations ++ live)) :
    d.Separate :=
  h.separate (fun _ hx => List.mem_append_left _ hx) (List.nodup_append.mp h.nodup).1

/-- Memory that is written outside a directory's own words keeps it. -/
theorem HasDirectory.offAlloc {heap : Heap} {m m' : Mem} (hd : HasDirectory m d)
    (h : HeapInv heap (d.allocations ++ live)) (hx : x ∈ live)
    (hm : ∀ a, a < 4294967296 → OffAlloc a x → m' a = m a) : HasDirectory m' d := by
  have hoff : ∀ y ∈ d.allocations, ∀ a, y.ptr ≤ a → a < y.ptr + blocksFor y.size * 4096 →
      m' a = m a := by
    intro y hy a h1 h2
    have hne : y ≠ x := (List.nodup_append.mp h.nodup).2.2 y hy x hx
    exact hm a (Nat.lt_trans h2 (h.end_lt (List.mem_append_left _ hy)).2)
      (h.offAlloc (List.mem_append_left _ hy) (List.mem_append_right _ hx) hne h1 h2)
  have h4 : blocksFor 4 = 1 := blocksFor_one (by decide) (by decide)
  refine hd.congr (fun a h1 h2 => ?_) fun a h1 h2 => ?_
  · refine hoff ⟨d.chunk, 4⟩ (List.mem_append_right _ (List.mem_cons_of_mem _ List.mem_cons_self))
      a h1 ?_
    rw [h4]
    exact Nat.lt_of_lt_of_le h2 (Nat.add_le_add_left (by decide) _)
  · refine hoff (tableAlloc d.directory) (List.mem_append_right _ List.mem_cons_self) a h1 ?_
    rw [tableAlloc_blocks, Nat.one_mul]
    exact h2

/-- **A request that the heap serves and grants.** -/
theorem processMalloc_takes (h : HeapInv k.heap (d.allocations ++ live)) (hd : HasDirectory k.mem d)
    (hp : p.pageDirectory = d.chunk) (hs : size < 4294967296) (hserves : k.heap.Serves size)
    (h0 : (processMalloc k p size).1 ≠ 0) :
    Takes d k (processMalloc k p size).2.1 p (processMalloc k p size).2.2 live
      ⟨(processMalloc k p size).1, size⟩ := by
  have hplaced := h.placed
  rcases processMalloc_serves hplaced p hs hserves with
    ⟨b, i, hi, hb, hslot, e⟩ | ⟨b, -, -, e⟩ | ⟨-, e⟩
  · have hpos := hplaced.pos
    have hsz := hb.size_le hplaced
    have hrun := hb.first
    have htake := heapInv_take h hb.pos hrun.1 hrun.2.1
    have hext := extent_of_addr k.heap.saddr b size
    have hperm : (d.allocations ++ (⟨k.heap.saddr + b * 4096, size⟩ : Allocation) :: live).Perm
        (⟨k.heap.saddr + b * 4096, size⟩ :: (d.allocations ++ live)) := List.perm_middle
    have hinv := htake.perm hperm
    have hne : k.heap.saddr + b * 4096 ≠ 0 := by omega
    have hfill : ∀ a, a < 4294967296 → OffAlloc a ⟨k.heap.saddr + b * 4096, size⟩ →
        fill k.mem (k.heap.saddr + b * 4096) 0x00 size a = k.mem a := by
      intro a ha hoff
      unfold OffAlloc at hoff
      dsimp only at hoff
      exact fill_other ha (by omega) (by omega)
    have hdir : HasDirectory (fill k.mem (k.heap.saddr + b * 4096) 0x00 size) d :=
      hd.offAlloc hinv List.mem_cons_self hfill
    have hframe := pagingMapTo_frame hdir hinv.separate_append
      (show k.heap.saddr + b * 4096 < 4294967296 by omega) (k.heap.saddr + b * 4096)
      (k.heap.saddr + b * 4096 + blocksFor size * 4096) 7
    rw [e, hp]
    exact {
      inv := hinv
      ne := hne
      saddr := rfl
      total := heapMarkBlocksTaken_total ..
      free := fun c hc => by
        by_cases hin : (⟨b, blocksFor size⟩ : Extent).Has c
        · exact absurd hc (Heap.not_isFree_of_chain (heapMarkBlocksTaken_chain k.heap b _) hin)
        · unfold Heap.IsFree at hc ⊢
          rwa [heapMarkBlocksTaken_other k.heap b _ hin] at hc
      wasFree := fun c hc => by
        rw [hext] at hc
        exact hrun.2.1 c hc.1 hc.2
      mem := fun a ha hoff htables => (hframe a htables).trans (hfill a ha hoff)
      directory := hdir.tablesOnly hinv.separate_append hframe
      pageDirectory := hp
      recorded := recorded_setAllocation hi hslot hne }
  · rw [e] at h0
    exact absurd rfl h0
  · rw [e] at h0
    exact absurd rfl h0

/-- **A request of at most a page** is refused exactly without a free block or an empty slot;
    otherwise it takes a block. -/
theorem processMalloc_page (hp : k.heap.Placed) (p : Process) (h1 : 1 ≤ size) (h2 : size ≤ 4096) :
    ((processMalloc k p size).1 = 0 ↔ freeBlocks k.heap = 0 ∨ p.recorded.length = 1024) ∧
      ((processMalloc k p size).1 ≠ 0 →
        freeBlocks (processMalloc k p size).2.1.heap + 1 = freeBlocks k.heap) := by
  have hone := blocksFor_one h1 h2
  have hpos := hp.pos
  rcases processMalloc_serves hp p (by omega) (Heap.serves_page h1 h2) with
    ⟨b, i, hi, hb, hslot, e⟩ | ⟨b, -, hfull, e⟩ | ⟨hno, e⟩
  · have hlt := recorded_length_lt hi hslot
    have hfirst := hb.first
    rw [hone] at hfirst
    have htake := freeBlocks_take (show b < k.heap.table.total by have := hfirst.1; omega)
      (hfirst.2.1 b (Nat.le_refl b) (by omega))
    rw [e, hone]
    dsimp only
    omega
  · rw [e]
    exact ⟨⟨fun _ => Or.inr hfull, fun _ => rfl⟩, fun h0 => absurd rfl h0⟩
  · have hzero : freeBlocks k.heap = 0 := by
      by_contra hf
      exact hno ⟨h1, by rw [hone]; exact hasRun_one (Nat.pos_of_ne_zero hf)⟩
    rw [e]
    exact ⟨⟨fun _ => Or.inl hzero, fun _ => rfl⟩, fun h0 => absurd rfl h0⟩

theorem Takes.kept (h : Takes d k k' p p' live x) (hk : Kept k.heap d a) : Kept k'.heap d a where
  lt := hk.lt
  free b hb hfree := by
    rw [h.saddr]
    rw [h.total] at hb
    exact hk.free b hb (h.free b hfree)
  tables := hk.tables

theorem Takes.off (h : Takes d k k' p p' live x) (hk : Kept k.heap d a) : OffAlloc a x := by
  have hx : x ∈ d.allocations ++ x :: live := List.mem_append_right _ List.mem_cons_self
  have haddr := h.inv.addr x hx
  have hin := h.inv.inside hx
  rw [h.saddr] at haddr hin
  rw [h.total] at hin
  exact hk.offAlloc haddr hin h.wasFree

/-- **What is kept is as it was.** -/
theorem Takes.same (h : Takes d k k' p p' live x) (hk : Kept k.heap d a) : k'.mem a = k.mem a :=
  h.mem a hk.lt (h.off hk) hk.tables

end Takes

/-! ## 4. Lists of arguments -/

/-- **Memory holds a list of arguments** at `q`, in nodes of which `P` holds; of each text the first
    511 characters count. -/
def ArgumentList (m : Mem) (P : Nat → Prop) : (q : Nat) → List (List UInt8) → Prop
  | q, [] => q = 0
  | q, s :: ss => q ≠ 0 ∧ P q ∧ readString m 511 q = s ∧ ArgumentList m P (argumentNext m q) ss

/-- The bytes of a node are kept, and lie outside an allocation. -/
def NodeHeld (heap : Heap) (d : Directory) (av : Allocation) (q : Nat) : Prop :=
  ∀ a, q ≤ a → a < q + 516 → Kept heap d a ∧ OffAlloc a av

/-- A list is a matter of the bytes of its nodes. -/
theorem ArgumentList.congr {m m' : Mem} {P P' : Nat → Prop} (ss : List (List UInt8)) : ∀ {q : Nat},
    ArgumentList m P q ss → (∀ q, P q → P' q ∧ ∀ a, q ≤ a → a < q + 516 → m' a = m a) →
    ArgumentList m' P' q ss := by
  induction ss with
  | nil => exact fun h _ => h
  | cons s ss ih =>
    intro q h hm
    obtain ⟨h0, hP, hs, hrest⟩ := h
    obtain ⟨hP', hsame⟩ := hm q hP
    have hnext : argumentNext m' q = argumentNext m q :=
      load32_congr fun a h1 h2 => hsame a (by omega) (by omega)
    refine ⟨h0, hP', ?_, ?_⟩
    · rw [readString_congr 511 fun a h1 h2 => hsame a h1 (by omega), hs]
    · rw [hnext]
      exact ih hrest hm

/-- **The count**: the walk takes a step for each node. -/
theorem countArgumentsLoop_list {m : Mem} {P : Nat → Prop} (ss : List (List UInt8)) :
    ∀ {fuel q : Nat} (i : Nat), ArgumentList m P q ss → ss.length ≤ fuel →
      countArgumentsLoop m fuel q i = some (i + ss.length) := by
  induction ss with
  | nil =>
    intro fuel q i h _
    obtain rfl : q = 0 := h
    cases fuel with
    | zero => rfl
    | succ fuel => rfl
  | cons s ss ih =>
    intro fuel q i h hfuel
    obtain ⟨h0, -, -, hrest⟩ := h
    cases fuel with
    | zero => exact absurd hfuel (Nat.not_succ_le_zero _)
    | succ fuel =>
      rw [countArgumentsLoop, if_neg h0, ih (i + 1) hrest (Nat.le_of_succ_le_succ hfuel),
        List.length_cons]
      congr 1
      omega

theorem readString_length (m : Mem) (n : Nat) : ∀ p : Nat, (readString m n p).length ≤ n := by
  induction n with
  | zero => exact fun _ => Nat.le_refl 0
  | succ n ih =>
    intro p
    rw [readString]
    split
    · exact Nat.zero_le _
    · exact Nat.succ_le_succ (ih (p + 1))

/-! ## 5. Copying the arguments -/

/-- **The strings that were copied**: they are recorded, the words of `argv` from the `i`-th on name
    them, and memory holds the arguments there. -/
structure Copied (d : Directory) (live : List Allocation) (argv i : Nat) (ss : List (List UInt8))
    (strs : List Nat) (p : Process) (k' : Kernel) (p' : Process) : Prop where
  length : strs.length = ss.length
  inv : HeapInv k'.heap (d.allocations ++ ((strs.map fun str => ⟨str, 512⟩) ++ live))
  directory : HasDirectory k'.mem d
  pageDirectory : p'.pageDirectory = d.chunk
  recorded : p'.recorded.Perm ((strs.map fun str => ⟨str, 512⟩) ++ p.recorded)
  word : ∀ j, j < ss.length → load32 k'.mem (argv + 4 * (i + j)) = strs.getD j 0
  string : ∀ j, j < ss.length → CString k'.mem (strs.getD j 0) (ss.getD j [])

/-- There are blocks and slots for `n` allocations of a page. -/
def RoomFor (k : Kernel) (p : Process) (n : Nat) : Prop :=
  n ≤ freeBlocks k.heap ∧ p.recorded.length + n ≤ 1024

section Copying

variable {d : Directory} {av : Allocation}

/-- **One node**: behind the allocation of its string, the argument is copied and its word
    entered. -/
theorem injectArguments_node {k k₁ : Kernel} {p p₁ : Process} {live : List Allocation}
    {q i str : Nat} (ht : Takes d k k₁ p p₁ live ⟨str, 512⟩) (hav : av ∈ live)
    (hi : 4 * (i + 1) ≤ blocksFor av.size * 4096) (hnode : NodeHeld k.heap d av q) {m : Mem}
    (hm : m = store32 (strncpy k₁.mem str q 512) (av.ptr + 4 * i) str) :
    HasDirectory m d ∧ load32 m (av.ptr + 4 * i) = str ∧ CString m str (readString k.mem 511 q) ∧
      ∀ a, Kept k.heap d a → a < av.ptr + 4 * i ∨ av.ptr + 4 * (i + 1) ≤ a → m a = k.mem a := by
  have hx : (⟨str, 512⟩ : Allocation) ∈ d.allocations ++ ⟨str, 512⟩ :: live :=
    List.mem_append_right _ List.mem_cons_self
  have hav' : av ∈ d.allocations ++ ⟨str, 512⟩ :: live :=
    List.mem_append_right _ (List.mem_cons_of_mem _ hav)
  have hone : blocksFor 512 = 1 := blocksFor_one (by decide) (by decide)
  have hne : (⟨str, 512⟩ : Allocation) ≠ av := fun e =>
    (List.nodup_cons.mp (List.nodup_append.mp ht.inv.nodup).2.1).1 (e ▸ hav)
  have hend := (ht.inv.end_lt hx).2
  have hendav := (ht.inv.end_lt hav').2
  dsimp only at hend
  rw [hone] at hend
  have hkept : ∀ a, q ≤ a → a < q + 512 → Kept k.heap d a :=
    fun a h1 h2 => (hnode a h1 (by omega)).1
  have hsrc : ∀ a, q ≤ a → a < q + 512 → a < str ∨ str + 512 ≤ a := by
    intro a h1 h2
    have hoff := ht.off (hkept a h1 h2)
    unfold OffAlloc at hoff
    dsimp only at hoff
    rw [hone] at hoff
    omega
  have hspec := @strncpy_spec k₁.mem str q 512 (by decide) hsrc
  rw [show 512 - 1 = 511 from rfl] at hspec
  obtain ⟨hcopy, hother⟩ := hspec
  have hread : readString k₁.mem 511 q = readString k.mem 511 q :=
    readString_congr 511 fun a h1 h2 => ht.same (hkept a h1 (by omega))
  rw [hread] at hcopy
  have hcopied : ∀ a, OffAlloc a ⟨str, 512⟩ → strncpy k₁.mem str q 512 a = k₁.mem a := by
    intro a hoff
    unfold OffAlloc at hoff
    dsimp only at hoff
    rw [hone] at hoff
    exact hother a (by omega)
  have hstore : ∀ a, a < av.ptr + 4 * i ∨ av.ptr + 4 * (i + 1) ≤ a →
      m a = strncpy k₁.mem str q 512 a := by
    intro a ha
    rw [hm]
    exact store32_other (by omega)
  refine ⟨?_, ?_, ?_, fun a hk ha => ?_⟩
  · have hd₁ : HasDirectory (strncpy k₁.mem str q 512) d :=
      ht.directory.offAlloc ht.inv List.mem_cons_self fun a _ hoff => hcopied a hoff
    refine hd₁.offAlloc ht.inv (List.mem_cons_of_mem _ hav) fun a _ hoff => hstore a ?_
    unfold OffAlloc at hoff
    omega
  · rw [hm]
    exact load32_store32_same (by omega)
  · have hlen := readString_length k.mem 511 q
    refine hcopy.congr _ fun a h1 h2 => hstore a ?_
    have hoff := ht.inv.offAlloc hx hav' hne h1 (by dsimp only; rw [hone]; omega)
    unfold OffAlloc at hoff
    omega
  · rw [hstore a ha, hcopied a (ht.off hk), ht.same hk]

/-- **A node before the copies of the others**: what these wrote is neither its word nor its
    string. -/
theorem Copied.cons {k k₁ k' : Kernel} {p p₁ p' : Process} {live : List Allocation} {i str : Nat}
    {s : List UInt8} {ss : List (List UInt8)} {strs : List Nat} {m : Mem}
    (ht : Takes d k k₁ p p₁ live ⟨str, 512⟩) (hav : av ∈ live)
    (hroom : 4 * (i + 1 + ss.length) ≤ blocksFor av.size * 4096)
    (hword : load32 m (av.ptr + 4 * i) = str) (hstring : CString m str s) (hlen : s.length ≤ 511)
    (hc : Copied d (⟨str, 512⟩ :: live) av.ptr (i + 1) ss strs p₁ k' p')
    (hframe : ∀ a, Kept k₁.heap d a →
      a < av.ptr + 4 * (i + 1) ∨ av.ptr + 4 * (i + 1 + ss.length) ≤ a → k'.mem a = m a) :
    Copied d live av.ptr i (s :: ss) (str :: strs) p k' p' := by
  have hinv₁ := ht.inv
  have hx : (⟨str, 512⟩ : Allocation) ∈ (⟨str, 512⟩ : Allocation) :: live := List.mem_cons_self
  have hne : (⟨str, 512⟩ : Allocation) ≠ av := fun e =>
    (List.nodup_cons.mp (List.nodup_append.mp hinv₁.nodup).2.1).1 (e ▸ hav)
  have hone : blocksFor 512 = 1 := blocksFor_one (by decide) (by decide)
  refine ⟨congrArg (· + 1) hc.length, ?_, hc.directory, hc.pageDirectory, ?_, fun j hj => ?_,
    fun j hj => ?_⟩
  · exact hc.inv.perm (List.Perm.append_left _ List.perm_middle.symm)
  · exact (hc.recorded.trans (ht.recorded.append_left _)).trans List.perm_middle
  · cases j with
    | zero =>
      -- a later string, its word or a table is not written over the word
      refine (load32_congr fun a h1 h2 => ?_).trans hword
      refine hframe a (hinv₁.kept (List.mem_cons_of_mem _ hav) (by omega) (by omega)) ?_
      omega
    | succ j =>
      have hrest := hc.word j (Nat.lt_of_succ_lt_succ hj)
      rwa [Nat.add_assoc, Nat.add_comm 1 j] at hrest
  · cases j with
    | zero =>
      refine hstring.congr s fun a h1 h2 => ?_
      have hblock : a < str + blocksFor 512 * 4096 := by
        rw [hone]
        omega
      have hoff := hinv₁.offAlloc (List.mem_append_right _ hx)
        (List.mem_append_right _ (List.mem_cons_of_mem _ hav)) hne h1 hblock
      unfold OffAlloc at hoff
      exact hframe a (hinv₁.kept hx h1 hblock) (by omega)
    | succ j => exact hc.string j (Nat.lt_of_succ_lt_succ hj)

/-- **The loop**: with room for every node the arguments are copied; without, the call fails.
    Induction on the nodes that are left. -/
theorem injectArgumentsLoop_spec (ss : List (List UInt8)) : ∀ {k : Kernel} {p : Process}
    {live : List Allocation} {q i fuel : Nat}, HeapInv k.heap (d.allocations ++ live) →
    HasDirectory k.mem d → p.pageDirectory = d.chunk → av ∈ live → i ≤ p.recorded.length →
    ArgumentList k.mem (NodeHeld k.heap d av) q ss → ss.length ≤ fuel →
    ∃ res k' p', injectArgumentsLoop av.ptr fuel q i k p = some (res, k', p') ∧
      (RoomFor k p ss.length → res = 0 ∧ (∃ strs, Copied d live av.ptr i ss strs p k' p') ∧
        ∀ a, Kept k.heap d a → a < av.ptr + 4 * i ∨ av.ptr + 4 * (i + ss.length) ≤ a →
          k'.mem a = k.mem a) ∧
      (¬ RoomFor k p ss.length → res = -ENOMEM) := by
  induction ss with
  | nil =>
    intro k p live q i fuel h hd hp hav _ hlist _
    obtain rfl : q = 0 := hlist
    have hdone : injectArgumentsLoop av.ptr fuel 0 i k p = some (0, k, p) := by
      cases fuel with
      | zero => rfl
      | succ fuel => rfl
    refine ⟨0, k, p, hdone, fun _ => ⟨rfl, ⟨[], ?_⟩, fun _ _ _ => rfl⟩, fun hno => ?_⟩
    · exact ⟨rfl, h, hd, hp, List.Perm.refl _, fun j hj => absurd hj (Nat.not_lt_zero j),
        fun j hj => absurd hj (Nat.not_lt_zero j)⟩
    · exact absurd ⟨Nat.zero_le _, recorded_length_le p⟩ hno
  | cons s ss ih =>
    intro k p live q i fuel h hd hp hav hi hlist hfuel
    obtain ⟨hq0, hnode, hs, hrest⟩ := hlist
    have hblocks := h.pos (List.mem_append_right _ hav)
    have hle := recorded_length_le p
    have hlen : (av.extent k.heap.saddr).len = blocksFor av.size := rfl
    rw [List.length_cons] at hfuel
    cases fuel with
    | zero => exact absurd hfuel (Nat.not_succ_le_zero _)
    | succ fuel =>
      obtain ⟨hnull, hcount⟩ := @processMalloc_page k 512 h.placed p (by decide) (by decide)
      have htakes := processMalloc_takes h hd hp (by decide)
        (Heap.serves_page (by decide) (by decide) : k.heap.Serves 512)
      rw [injectArgumentsLoop, if_neg hq0, List.length_cons]
      generalize processMalloc k p 512 = r at hnull hcount htakes
      obtain ⟨str, k₁, p₁⟩ := r
      dsimp only at hnull hcount htakes ⊢
      by_cases h0 : str = 0
      · have hfull := hnull.mp h0
        rw [if_pos h0]
        refine ⟨_, _, _, rfl, fun hroom => ?_, fun _ => rfl⟩
        unfold RoomFor at hroom
        omega
      · have ht := htakes h0
        have hfree := hcount h0
        have hroom₁ := mt hnull.mpr h0
        have hrec := ht.recorded.length_eq
        rw [List.length_cons] at hrec
        rw [if_neg h0]
        generalize hm : store32 (strncpy k₁.mem str q 512) (av.ptr + 4 * i) str = m
        obtain ⟨hd₂, hword, hstring, hsame⟩ := injectArguments_node ht hav (by omega) hnode hm.symm
        have hfar : ∀ a, OffAlloc a av → a < av.ptr + 4 * i ∨ av.ptr + 4 * (i + 1) ≤ a := by
          intro a hoff
          unfold OffAlloc at hoff
          omega
        have hnext : argumentNext m q = argumentNext k.mem q := load32_congr fun a h1 h2 =>
          hsame a (hnode a (by omega) (by omega)).1 (hfar a (hnode a (by omega) (by omega)).2)
        have hlist₂ : ArgumentList m (NodeHeld k₁.heap d av) (argumentNext m q) ss := by
          rw [hnext]
          exact hrest.congr ss fun q' hq' =>
            ⟨fun a h1 h2 => ⟨ht.kept (hq' a h1 h2).1, (hq' a h1 h2).2⟩,
            fun a h1 h2 => hsame a (hq' a h1 h2).1 (hfar a (hq' a h1 h2).2)⟩
        obtain ⟨res, k', p', e', hok, hfail⟩ :=
          @ih ⟨k₁.heap, m⟩ p₁ (⟨str, 512⟩ :: live) _ (i + 1) fuel
          ht.inv hd₂ ht.pageDirectory (List.mem_cons_of_mem _ hav) (by omega) hlist₂
          (Nat.le_of_succ_le_succ hfuel)
        refine ⟨res, k', p', e', fun hroom => ?_, fun hno => ?_⟩
        · have hroom₂ : RoomFor ⟨k₁.heap, m⟩ p₁ ss.length := by
            unfold RoomFor at hroom ⊢
            dsimp only
            omega
          obtain ⟨hres, ⟨strs, hc⟩, hframe⟩ := hok hroom₂
          have hlen := readString_length k.mem 511 q
          rw [hs] at hlen hstring
          refine ⟨hres, ⟨str :: strs, ?_⟩, fun a hk ha => ?_⟩
          · unfold RoomFor at hroom₂
            exact Copied.cons ht hav (by omega) hword hstring hlen hc hframe
          · exact (hframe a (ht.kept hk) (by omega)).trans (hsame a hk (by omega))
        · refine hfail fun hroom₂ => hno ?_
          unfold RoomFor at hroom₂ ⊢
          dsimp only at hroom₂
          omega

end Copying

/-! ## 6. The call -/

/-- **The arguments of a process**: `argv` names distinct allocations of the process that hold
    them. -/
structure Injected (k : Kernel) (p : Process) (arguments : ProcessArguments)
    (ss : List (List UInt8)) : Prop where
  argc : arguments.argc = ss.length
  argv : ⟨arguments.argv, 4 * ss.length⟩ ∈ p.recorded
  strings : ∃ strs : List Nat, strs.length = ss.length ∧ strs.Nodup ∧ ∀ i, i < ss.length →
    load32 k.mem (arguments.argv + 4 * i) = strs.getD i 0 ∧ ⟨strs.getD i 0, 512⟩ ∈ p.recorded ∧
      CString k.mem (strs.getD i 0) (ss.getD i [])

/-- The strings of a whole copy, behind the allocation of `argv`. -/
theorem Copied.injected {d : Directory} {live : List Allocation} {argv : Nat}
    {ss : List (List UInt8)} {strs : List Nat} {p₁ p' : Process} {k' : Kernel}
    (h : Copied d live argv 0 ss strs p₁ k' p') (hargv : ⟨argv, 4 * ss.length⟩ ∈ p₁.recorded) :
    Injected k' p' ⟨ss.length, argv⟩ ss where
  argc := rfl
  argv := h.recorded.mem_iff.mpr (List.mem_append_right _ hargv)
  strings := by
    have hnodup := (List.nodup_append.mp (List.nodup_append.mp h.inv.nodup).2.1).1
    refine ⟨strs, h.length, List.Nodup.of_map _ hnodup, fun i hi => ⟨?_, ?_, h.string i hi⟩⟩
    · have hword := h.word i hi
      rwa [Nat.zero_add] at hword
    · have hlt : i < strs.length := by rw [h.length]; exact hi
      have hmem : strs.getD i 0 ∈ strs := by
        rw [List.getD_eq_getElem strs 0 hlt]
        exact List.getElem_mem hlt
      exact h.recorded.mem_iff.mpr (List.mem_append_left _ (List.mem_map_of_mem hmem))

/-- The bytes of a node are kept. -/
def NodeKept (heap : Heap) (d : Directory) (q : Nat) : Prop :=
  ∀ a, q ≤ a → a < q + 516 → Kept heap d a

section Inject

variable {k : Kernel} {p : Process} {d : Directory} {live : List Allocation}

/-- **`process_inject_arguments`** of a list in memory that is kept: with blocks and slots for the
    words and for every argument the process has its arguments; without, `-ENOMEM` is answered and
    `process->arguments` is what it was. -/
theorem processInjectArguments_spec (h : HeapInv k.heap (d.allocations ++ live))
    (hd : HasDirectory k.mem d) (hp : p.pageDirectory = d.chunk) {ss : List (List UInt8)}
    {rootArgument fuel : Nat} (hlist : ArgumentList k.mem (NodeKept k.heap d) rootArgument ss)
    (hne : ss ≠ []) (hfuel : ss.length ≤ fuel)
    (hserves : 4096 < 4 * ss.length → k.heap.Serves (u32 ((4 * ss.length : Nat) : Int)))
    (arguments : ProcessArguments) :
    ∃ res k' p' arguments', processInjectArguments fuel k p arguments rootArgument =
        some (res, k', p', arguments') ∧
      (RoomFor k p (ss.length + 1) → res = 0 ∧ Injected k' p' arguments' ss) ∧
      (¬ RoomFor k p (ss.length + 1) → res = -ENOMEM ∧ arguments' = arguments) := by
  have hpos : 0 < ss.length := List.length_pos_iff.mpr hne
  have hle := recorded_length_le p
  have hserves' : k.heap.Serves (u32 ((4 * ss.length : Nat) : Int)) := by
    by_cases hbig : 4096 < 4 * ss.length
    · exact hserves hbig
    · rw [u32_natCast_of_lt (by omega)]
      exact Heap.serves_page (by omega) (by omega)
  have htakes := processMalloc_takes h hd hp (u32_lt _) hserves'
  have hword : ss.length ≤ 1024 → u32 ((4 * ss.length : Nat) : Int) = 4 * ss.length := fun hsmall =>
    u32_natCast_of_lt (by omega)
  have hmalloc : ss.length ≤ 1024 → _ := fun hsmall =>
    @processMalloc_page k (u32 ((4 * ss.length : Nat) : Int)) h.placed p
      (by rw [hword hsmall]; omega) (by rw [hword hsmall]; omega)
  unfold processInjectArguments processCountCommandArguments
  rw [countArgumentsLoop_list ss 0 hlist hfuel, Nat.zero_add]
  dsimp only
  rw [if_neg (by omega)]
  generalize processMalloc k p (u32 ((4 * ss.length : Nat) : Int)) = r at htakes hmalloc
  obtain ⟨argv, k₁, p₁⟩ := r
  dsimp only at htakes hmalloc ⊢
  by_cases h0 : argv = 0
  · rw [if_pos h0]
    refine ⟨_, _, _, _, rfl, fun hroom => ?_, fun _ => ⟨rfl, rfl⟩⟩
    unfold RoomFor at hroom
    have hfull := (hmalloc (by omega)).1.mp h0
    omega
  · rw [if_neg h0]
    have ht := htakes h0
    have hrec := ht.recorded.length_eq
    rw [List.length_cons] at hrec
    have hlist₁ : ArgumentList k₁.mem (NodeHeld k₁.heap d ⟨argv, u32 ((4 * ss.length : Nat) : Int)⟩)
        rootArgument ss :=
      hlist.congr ss fun q hq => ⟨fun a h1 h2 => ⟨ht.kept (hq a h1 h2), ht.off (hq a h1 h2)⟩,
        fun a h1 h2 => ht.same (hq a h1 h2)⟩
    obtain ⟨res, k', p', e, hok, hfail⟩ := injectArgumentsLoop_spec ss ht.inv ht.directory
      ht.pageDirectory List.mem_cons_self (Nat.zero_le _) hlist₁ hfuel
    have hroom_iff : RoomFor k₁ p₁ ss.length ↔ RoomFor k p (ss.length + 1) := by
      unfold RoomFor
      by_cases hsmall : ss.length ≤ 1024
      · have hfree := (hmalloc hsmall).2 h0
        omega
      · -- neither process has as many slots
        omega
    dsimp only at e
    rw [e]
    refine ⟨_, _, _, _, rfl, fun hroom => ?_, fun hno => ?_⟩
    · obtain ⟨hres, ⟨strs, hc⟩, -⟩ := hok (hroom_iff.mpr hroom)
      have hsmall : ss.length ≤ 1024 := by
        unfold RoomFor at hroom
        omega
      have hargv : ⟨argv, 4 * ss.length⟩ ∈ p₁.recorded := by
        rw [hword hsmall] at ht
        exact ht.recorded.mem_iff.mpr List.mem_cons_self
      refine ⟨hres, ?_⟩
      rw [hres]
      exact hc.injected hargv
    · have hres := hfail fun hroom => hno (hroom_iff.mp hroom)
      exact ⟨hres, by rw [hres]; rfl⟩

/-- What the call may answer: the arguments, all of them; or `-ENOMEM`, without blocks or slots, and
    `process->arguments` as it was. -/
def InjectAnswer (k : Kernel) (p : Process) (arguments : ProcessArguments) (ss : List (List UInt8))
    (res : Int) (k' : Kernel) (p' : Process) (arguments' : ProcessArguments) : Prop :=
  (RoomFor k p (ss.length + 1) ∧ res = 0 ∧ Injected k' p' arguments' ss) ∨
    (¬ RoomFor k p (ss.length + 1) ∧ res = -ENOMEM ∧ arguments' = arguments)

/-- **Every list in memory that the process's allocations leave alone** is injected, or `-ENOMEM` is
    answered. A request of more than a page, for the words of more than 1024 arguments, has to be
    granted or refused. -/
theorem processInjectArguments_answer (h : HeapInv k.heap (d.allocations ++ live))
    (hd : HasDirectory k.mem d) (hp : p.pageDirectory = d.chunk) {ss : List (List UInt8)}
    {rootArgument fuel : Nat} (hlist : ArgumentList k.mem (NodeKept k.heap d) rootArgument ss)
    (hne : ss ≠ []) (hfuel : ss.length ≤ fuel)
    (hserves : 4096 < 4 * ss.length → k.heap.Serves (u32 ((4 * ss.length : Nat) : Int)))
    (arguments : ProcessArguments) :
    ∃ res k' p' arguments', processInjectArguments fuel k p arguments rootArgument =
        some (res, k', p', arguments') ∧ InjectAnswer k p arguments ss res k' p' arguments' := by
  obtain ⟨res, k', p', arguments', e, hok, hfail⟩ :=
    processInjectArguments_spec h hd hp hlist hne hfuel hserves arguments
  refine ⟨res, k', p', arguments', e, ?_⟩
  by_cases hroom : RoomFor k p (ss.length + 1)
  · exact Or.inl ⟨hroom, hok hroom⟩
  · exact Or.inr ⟨hroom, hfail hroom⟩

end Inject

/-! ## 7. A list above the heap, and one in a free block -/

/-- A directory on the fresh kernel heap, with what memory is outside it. -/
theorem freshDirectory (m : Mem) :
    ∃ (k : Kernel) (d : Directory), HeapInv k.heap (d.allocations ++ []) ∧ HasDirectory k.mem d ∧
    freeBlocks k.heap = 24574 ∧ k.heap.saddr = 0x01000000 ∧ k.heap.table.total = 25600 ∧
    ∀ a, a < 4294967296 → (∀ x ∈ d.allocations, OffBlock a x.ptr) → k.mem a = m a := by
  have hfree := kernelHeap_freeBlocks fun _ => 0
  obtain ⟨k, d, -, -, hg, hd, -⟩ := @pagingNew4gb_grows [] 7 ⟨kernelHeap fun _ => 0, m⟩
    (HeapInv.nil (kernelHeap_placed _)) (by rw [hfree]; decide) (by decide)
  have hlen : d.allocations.length = 1026 := by
    simp [Directory.allocations, hd.length]
  have hnow := hg.free
  rw [hlen, hfree] at hnow
  exact ⟨k, d, hg.inv, hd, by omega, hg.saddr, hg.total, hg.mem⟩

/-- Memory with the nodes `a` and `b` above the heap. -/
def twoNodes (a : Nat) : UInt8 :=
  if a = 0x08000000 then 0x61
  else if a = 0x08001000 then 0x62
  else if a = 0x08000201 then 0x10 -- the node at 0x08000000 is followed by the one at 0x08001000
  else if a = 0x08000203 then 0x08
  else 0

theorem twoNodes_list : ArgumentList twoNodes (fun q => 0x08000000 ≤ q ∧ q ≤ 0x08001000) 0x08000000
    [[0x61], [0x62]] := by
  refine ⟨by decide, by decide, by decide +kernel, ?_⟩
  rw [show argumentNext twoNodes 0x08000000 = 0x08001000 by decide +kernel]
  exact ⟨by decide, by
    decide, by decide +kernel, show argumentNext twoNodes _ = 0 by decide +kernel⟩

/-- A list of two nodes above the heap, on a fresh one: both texts arrive. -/
theorem processInjectArguments_answer_two : ∃ (k : Kernel) (p : Process), ∃ res k' p' arguments',
    processInjectArguments 2 k p ⟨0, 0⟩ 0x08000000 = some (res, k', p', arguments') ∧ res = 0 ∧
      Injected k' p' arguments' [[0x61], [0x62]] := by
  obtain ⟨k, d, h, hd, hfree, hsaddr, htotal, hmem⟩ := freshDirectory twoNodes
  -- the heap ends below the nodes
  have hbelow : ∀ a, 0x08000000 ≤ a → ∀ x ∈ d.allocations, OffBlock a x.ptr := by
    intro a ha x hx
    have haddr := h.addr x (List.mem_append_left _ hx)
    have hin := h.inside (List.mem_append_left _ hx)
    have hpos := h.pos (List.mem_append_left _ hx)
    have hlen : (x.extent k.heap.saddr).len = blocksFor x.size := rfl
    unfold OffBlock
    omega
  have hlist : ArgumentList k.mem (NodeKept k.heap d) 0x08000000 [[0x61], [0x62]] :=
    twoNodes_list.congr _ fun q hq => ⟨fun a h1 h2 =>
      ⟨by omega, fun b hb _ => by unfold OffBlock; omega,
        fun t ht => hbelow a (by omega) _ (List.mem_append_left _ (List.mem_map_of_mem ht))⟩,
      fun a h1 h2 => hmem a (by omega) (hbelow a (by omega))⟩
  have hroom : RoomFor k (freshProcess d.chunk) 3 := by
    unfold RoomFor
    rw [freshProcess_recorded, List.length_nil]
    omega
  obtain ⟨res, k', p', arguments', e, ha⟩ := processInjectArguments_answer h hd
    (show (freshProcess d.chunk).pageDirectory = d.chunk from rfl) hlist (by decide) (Nat.le_refl 2)
    (fun hbig => absurd hbig (by decide)) ⟨0, 0⟩
  rcases ha with ⟨-, hres, hin⟩ | ⟨hno, -⟩
  · exact ⟨k, freshProcess d.chunk, res, k', p', arguments', e, hres, hin⟩
  · exact absurd hroom hno

/-- Memory with a node at `q`: the text is the character `c`, and no node follows. -/
def oneNode (q : Nat) (c : UInt8) (m : Mem) : Mem := Function.update (fill m q 0x00 4096) q c

theorem oneNode_other {q a : Nat} {c : UInt8} {m : Mem} (hq : q + 4096 ≤ 4294967296)
    (ha : a < 4294967296) (h : OffBlock a q) : oneNode q c m a = m a := by
  unfold OffBlock at h
  unfold oneNode
  rw [Function.update_of_ne (by omega), fill_other ha hq (by omega)]

theorem oneNode_list {q : Nat} {c : UInt8} {m : Mem} {P : Nat → Prop} (h0 : q ≠ 0) (hc : c ≠ 0)
    (hq : q + 4096 ≤ 4294967296) (hP : P q) : ArgumentList (oneNode q c m) P q [[c]] := by
  have hfirst : oneNode q c m q = c := Function.update_self ..
  have hrest : ∀ a, q < a → a < q + 4096 → oneNode q c m a = 0 := by
    intro a h1 h2
    rw [oneNode, Function.update_of_ne (by omega)]
    exact fill_inside hq (by omega) h2
  refine ⟨h0, hP, ?_, ?_⟩
  · rw [readString, if_neg (by rw [hfirst]; exact hc), hfirst, readString,
      if_pos (hrest (q + 1) (by omega) (by omega))]
  · show argumentNext (oneNode q c m) q = 0
    unfold argumentNext load32
    simp only [hrest (q + 512) (by omega) (by omega), hrest (q + 512 + 1) (by omega) (by omega),
      hrest (q + 512 + 2) (by omega) (by omega), hrest (q + 512 + 3) (by omega) (by omega)]
    rfl

/-- A cleared range does not keep what it was. -/
theorem fill_oneNode (q : Nat) (c c' : UInt8) (m : Mem) :
    fill (oneNode q c m) q 0x00 4 = fill (oneNode q c' m) q 0x00 4 := by
  funext a
  by_cases ha : a = q
  · rw [ha]
    unfold fill u32
    rw [Int.sub_self]
    rfl
  · unfold fill oneNode
    rw [Function.update_of_ne ha, Function.update_of_ne ha]

/-- **A list in a free block is cleared before it is read**: the words of `argv` go there. Two texts
    make no difference. -/
theorem processInjectArguments_freed : ¬ ∀ (k : Kernel) (p : Process) (d : Directory)
    (live : List Allocation) (ss : List (List UInt8)) (rootArgument fuel : Nat)
    (arguments : ProcessArguments), HeapInv k.heap (d.allocations ++ live) → HasDirectory k.mem d →
    p.pageDirectory = d.chunk → ArgumentList k.mem (fun _ => True) rootArgument ss → ss ≠ [] →
    ss.length ≤ fuel →
    (4096 < 4 * ss.length → k.heap.Serves (u32 ((4 * ss.length : Nat) : Int))) →
    ∃ res k' p' arguments', processInjectArguments fuel k p arguments rootArgument =
      some (res, k', p', arguments') ∧ InjectAnswer k p arguments ss res k' p' arguments' := by
  intro hall
  obtain ⟨k, d, h, hd, hfree, -, -, -⟩ := freshDirectory fun _ => 0
  -- `q` is the block that the words will have
  obtain ⟨q, k₁, e, hg, hq0, -, hqe, -⟩ := kzalloc_grows h (by omega) 4 (by decide) (by decide)
  have hinv : HeapInv k₁.heap (d.allocations ++ [⟨q, 4⟩]) :=
    hg.inv.perm (by rw [List.append_nil]; exact List.perm_append_comm)
  have hone : blocksFor 4 = 1 := blocksFor_one (by decide) (by decide)
  have hd' : ∀ c, HasDirectory (oneNode q c k.mem) d := fun c =>
    hd.offAlloc hinv List.mem_cons_self fun a ha hoff => oneNode_other hqe ha (by
      unfold OffAlloc at hoff
      dsimp only at hoff
      rw [hone] at hoff
      unfold OffBlock
      omega)
  have hlist : ∀ c, c ≠ 0 → ArgumentList (oneNode q c k.mem) (fun _ => True) q [[c]] := fun c hc =>
    oneNode_list hq0 hc hqe trivial
  have hzalloc : kzalloc ⟨k.heap, oneNode q 0x61 k.mem⟩ 4 =
      kzalloc ⟨k.heap, oneNode q 0x62 k.mem⟩ 4 := by
    have hptr := congrArg Prod.fst e
    rw [kzalloc_ptr] at hptr
    unfold kzalloc kmalloc
    dsimp only at hptr ⊢
    rw [hptr, if_neg hq0, if_neg hq0, fill_oneNode q 0x61 0x62]
  have hmalloc : processMalloc ⟨k.heap, oneNode q 0x61 k.mem⟩ (freshProcess d.chunk) 4 =
      processMalloc ⟨k.heap, oneNode q 0x62 k.mem⟩ (freshProcess d.chunk) 4 := by
    unfold processMalloc
    rw [hzalloc]
  have hsame : processInjectArguments 1 ⟨k.heap, oneNode q 0x61 k.mem⟩ (freshProcess d.chunk)
      ⟨0, 0⟩ q = processInjectArguments 1 ⟨k.heap, oneNode q 0x62 k.mem⟩ (freshProcess d.chunk)
        ⟨0, 0⟩ q := by
    have h1 := @countArgumentsLoop_list _ _ [[0x61]] 1 _ 0 (hlist 0x61 (by decide)) (Nat.le_refl 1)
    have h2 := @countArgumentsLoop_list _ _ [[0x62]] 1 _ 0 (hlist 0x62 (by decide)) (Nat.le_refl 1)
    unfold processInjectArguments processCountCommandArguments
    rw [h1, h2]
    dsimp only [List.length_singleton]
    rw [show u32 ((4 * (0 + 1) : Nat) : Int) = 4 from rfl, hmalloc, if_neg (Nat.succ_ne_zero 0),
      if_neg (Nat.succ_ne_zero 0)]
  have hrun : ∀ c : UInt8, c ≠ 0 → _ := fun c hc =>
    hall ⟨k.heap, oneNode q c k.mem⟩ (freshProcess d.chunk) d [] [[c]] q 1 ⟨0, 0⟩ h (hd' c) rfl
      (hlist c hc) (by simp) (Nat.le_refl 1) fun hbig => absurd hbig (by simp)
  have hroom : ∀ c, RoomFor ⟨k.heap, oneNode q c k.mem⟩ (freshProcess d.chunk) 2 := by
    intro c
    unfold RoomFor
    rw [freshProcess_recorded]
    dsimp only [List.length_nil]
    omega
  obtain ⟨res, k', p', arguments', e₁, ha⟩ := hrun 0x61 (by decide)
  obtain ⟨res₂, k₂, p₂, arguments₂, e₂, hb⟩ := hrun 0x62 (by decide)
  have hresult := (e₁.symm.trans hsame).trans e₂
  obtain ⟨rfl, rfl, rfl, rfl⟩ : res = res₂ ∧ k' = k₂ ∧ p' = p₂ ∧ arguments' = arguments₂ := by
    simpa using hresult
  rcases ha with ⟨-, -, ha⟩ | ⟨hno, -⟩
  · rcases hb with ⟨-, -, hb⟩ | ⟨hno, -⟩
    · obtain ⟨strs, -, -, hstr⟩ := ha.strings
      obtain ⟨strs₂, -, -, hstr₂⟩ := hb.strings
      obtain ⟨hword, -, hbyte, -⟩ := hstr 0 (by decide)
      obtain ⟨hword₂, -, hbyte₂, -⟩ := hstr₂ 0 (by decide)
      rw [hword.symm.trans hword₂, hbyte₂] at hbyte
      exact absurd hbyte (by decide)
    · exact hno (hroom _)
  · exact hno (hroom _)

end PeachKernel
