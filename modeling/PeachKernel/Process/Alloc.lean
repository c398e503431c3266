/-
  File:      PeachKernel/Process/Alloc.lean
  Subject:   The malloc and free system calls of `task/process.c`: a process's table of
             allocations, over the kernel heap and the process's page directory.

  * `Process` -- the table of 1024 slots and the page directory; a slot with a null pointer is
    empty, `recorded` are the others;
  * `processMalloc`, `processFree` -- the source functions, over the state `Kernel` and `Process`;
  * `processMalloc_serves`, `processFree_recorded`, `processFree_null` -- what a call does to heap,
    memory and table, one case for each way through the code;
  * `recorded_setAllocation`, `recorded_unjoin` -- the table as a set of allocations.
-/
import PeachKernel.Heap.Kheap
import PeachKernel.Paging.Paging

namespace PeachKernel

open CInt Mem

/-! ## 1. The source functions -/

/-- What the two calls use of `struct process`: the table of allocations
    (`PEACHOS_MAX_PROGRAM_ALLOCATIONS` slots) and `task->page_directory`. -/
@[ext] structure Process where
  allocations : List Allocation
  pageDirectory : Nat
  allocations_length : allocations.length = 1024

/-- A write of one slot. -/
def Process.setAllocation (p : Process) (i : Nat) (a : Allocation) : Process :=
  { p with
    allocations := p.allocations.set i a
    allocations_length := by rw [List.length_set, p.allocations_length] }

def processFindFreeAllocationIndex (p : Process) : Int :=
  match p.allocations.findIdx? fun a => a.ptr == 0 with
  | some i => i
  | none => -ENOMEM

/-- `process_malloc`: the answer, and the state after the call. -/
def processMalloc (k : Kernel) (p : Process) (size : Nat) : Nat × Kernel × Process :=
  match kzalloc k size with
  | (ptr, k) =>
    if ptr = 0 then (0, k, p)
    else
      let index := processFindFreeAllocationIndex p
      if index < 0 then (0, kfree k ptr, p)
      else
        match pagingMapTo k.mem p.pageDirectory ptr ptr
            (pagingAlignAddress (u32 ((ptr + size : Nat) : Int)))
            (pagingIsWriteable ||| pagingIsPresent ||| pagingAccessFromAll) with
        | (res, m) =>
          if res < 0 then (0, kfree { k with mem := m } ptr, p)
          else (ptr, { k with mem := m }, p.setAllocation index.toNat ⟨ptr, size⟩)

def processAllocationUnjoin (p : Process) (ptr : Nat) : Process :=
  { p with
    allocations := p.allocations.map fun a => if a.ptr = ptr then ⟨0, 0⟩ else a
    allocations_length := by rw [List.length_map, p.allocations_length] }

def processGetAllocationByAddr (p : Process) (addr : Nat) : Option Allocation :=
  p.allocations.find? fun a => a.ptr == addr

def processFree (k : Kernel) (p : Process) (ptr : Nat) : Kernel × Process :=
  match processGetAllocationByAddr p ptr with
  | none => (k, p)
  | some allocation =>
    match pagingMapTo k.mem p.pageDirectory allocation.ptr allocation.ptr
        (pagingAlignAddress (u32 ((allocation.ptr + allocation.size : Nat) : Int))) 0x00 with
    | (res, m) =>
      if res < 0 then ({ k with mem := m }, p)
      else (kfree { k with mem := m } ptr, processAllocationUnjoin p ptr)

/-! ## 2. The table as a set of allocations -/

/-- The allocations in the table. -/
def Process.recorded (p : Process) : List Allocation := p.allocations.filter fun a => a.ptr ≠ 0

theorem mem_recorded {p : Process} {a : Allocation} :
    a ∈ p.recorded ↔ a ∈ p.allocations ∧ a.ptr ≠ 0 := by
  unfold Process.recorded
  rw [List.mem_filter, decide_eq_true_iff]

/-- Filling an empty slot adds an element. -/
theorem filter_fill_slot {α : Type} {q : α → Bool} (l : List α) :
    ∀ {i : Nat} {a : α} (hi : i < l.length), q (l.get ⟨i, hi⟩) = false → q a = true →
      ((l.set i a).filter q).Perm (a :: l.filter q) := by
  induction l with
  | nil =>
    intro i a hi
    exact absurd hi (Nat.not_lt_zero _)
  | cons x l ih =>
    intro i a hi hx ha
    cases i with
    | zero =>
      have hx' : ¬ q x = true := by
        rw [show q x = false from hx]
        exact Bool.false_ne_true
      rw [List.set_cons_zero, List.filter_cons_of_pos ha, List.filter_cons_of_neg hx']
    | succ i =>
      have h := ih (Nat.lt_of_succ_lt_succ hi) hx ha
      rw [List.set_cons_succ]
      by_cases hq : q x = true
      · rw [List.filter_cons_of_pos hq, List.filter_cons_of_pos hq]
        exact (h.cons x).trans (List.Perm.swap a x _)
      · rw [List.filter_cons_of_neg hq, List.filter_cons_of_neg hq]
        exact h

/-- The slot the search finds is empty; without one, all 1024 slots are in use. -/
theorem processFindFreeAllocationIndex_spec (p : Process) :
    (∃ i : Nat, processFindFreeAllocationIndex p = i ∧
      ∃ h : i < p.allocations.length, (p.allocations.get ⟨i, h⟩).ptr = 0) ∨
    (processFindFreeAllocationIndex p < 0 ∧ p.recorded.length = 1024) := by
  unfold processFindFreeAllocationIndex
  cases e : p.allocations.findIdx? fun a => a.ptr == 0 with
  | some i =>
    obtain ⟨hi, h0, _⟩ := List.findIdx?_eq_some_iff_getElem.mp e
    exact Or.inl ⟨i, rfl, hi, beq_iff_eq.mp h0⟩
  | none =>
    refine Or.inr ⟨by decide, ?_⟩
    have hall : ∀ a ∈ p.allocations, decide (a.ptr ≠ 0) = true := by
      intro a ha
      have := List.findIdx?_eq_none_iff.mp e a ha
      rw [beq_eq_false_iff_ne] at this
      exact decide_eq_true this
    rw [Process.recorded, List.filter_eq_self.mpr hall, p.allocations_length]

theorem recorded_setAllocation {p : Process} {i : Nat} (hi : i < p.allocations.length)
    (h0 : (p.allocations.get ⟨i, hi⟩).ptr = 0) {a : Allocation} (ha : a.ptr ≠ 0) :
    (p.setAllocation i a).recorded.Perm (a :: p.recorded) :=
  filter_fill_slot p.allocations hi (by rw [h0]; rfl) (decide_eq_true ha)

theorem recorded_length_le (p : Process) : p.recorded.length ≤ 1024 := by
  have h := List.length_filter_le (fun a : Allocation => decide (a.ptr ≠ 0)) p.allocations
  rw [p.allocations_length] at h
  exact h

/-- A table with an empty slot records fewer than 1024 allocations. -/
theorem recorded_length_lt {p : Process} {i : Nat} (hi : i < p.allocations.length)
    (h0 : (p.allocations.get ⟨i, hi⟩).ptr = 0) : p.recorded.length < 1024 := by
  have hp := recorded_setAllocation (a := ⟨1, 0⟩) hi h0 (by decide)
  have hle := List.length_filter_le (fun a : Allocation => decide (a.ptr ≠ 0))
    (p.setAllocation i ⟨1, 0⟩).allocations
  rw [(p.setAllocation i ⟨1, 0⟩).allocations_length] at hle
  have := hp.length_eq
  rw [List.length_cons] at this
  unfold Process.recorded at this ⊢
  omega

theorem recorded_unjoin (p : Process) (ptr : Nat) :
    (processAllocationUnjoin p ptr).recorded = p.recorded.filter fun a => a.ptr ≠ ptr := by
  unfold Process.recorded processAllocationUnjoin
  dsimp only
  generalize p.allocations = l
  induction l with
  | nil => rfl
  | cons a l ih =>
    rw [List.map_cons]
    by_cases e : a.ptr = ptr
    · rw [if_pos e, List.filter_cons_of_neg (by simp), ih]
      by_cases h0 : a.ptr = 0
      · rw [List.filter_cons_of_neg (by simpa using h0)]
      · rw [List.filter_cons_of_pos (by simpa using h0), List.filter_cons_of_neg (by simpa using e)]
    · rw [if_neg e]
      by_cases h0 : a.ptr = 0
      · rw [List.filter_cons_of_neg (by simpa using h0),
          List.filter_cons_of_neg (by simpa using h0), ih]
      · rw [List.filter_cons_of_pos (by simpa using h0),
          List.filter_cons_of_pos (by simpa using h0), List.filter_cons_of_pos (by simpa using e),
          ih]

/-- Where the recorded allocations are represented by the heap, taking out a pointer takes out its
    allocation. -/
theorem recorded_unjoin_erase {heap : Heap} {p : Process} (h : HeapInv heap p.recorded)
    {a : Allocation} (ha : a ∈ p.recorded) :
    (processAllocationUnjoin p a.ptr).recorded = p.recorded.erase a := by
  rw [recorded_unjoin, h.nodup.erase_eq_filter]
  refine List.filter_congr fun b hb => ?_
  by_cases e : b = a
  · simp [e]
  · have hne : b.ptr ≠ a.ptr := fun hp => e (h.eq_of_ptr hb ha hp)
    simp [e, hne]

theorem recorded_unjoin_null (p : Process) :
    (processAllocationUnjoin p 0).recorded = p.recorded := by
  rw [recorded_unjoin]
  refine List.filter_eq_self.mpr fun a ha => ?_
  exact decide_eq_true (mem_recorded.mp ha).2

/-- A process with an empty table. -/
def freshProcess (pageDirectory : Nat) : Process :=
  ⟨List.replicate 1024 ⟨0, 0⟩, pageDirectory, List.length_replicate⟩

theorem freshProcess_recorded (pageDirectory : Nat) :
    (freshProcess pageDirectory).recorded = [] := by
  refine List.filter_eq_nil_iff.mpr fun a ha => ?_
  rw [freshProcess] at ha
  rw [List.eq_of_mem_replicate ha]
  decide

/-! ## 3. The calls -/

/-- Both calls compute the end of the pages of an allocation from pointer and size. -/
theorem pagingAlignAddress_end {ptr size : Nat} (ha : ptr % 4096 = 0)
    (hb : ptr + blocksFor size * 4096 < 4294967296) :
    pagingAlignAddress (u32 ((ptr + size : Nat) : Int)) = ptr + blocksFor size * 4096 := by
  unfold blocksFor ceilDiv at *
  rw [u32_natCast_of_lt (by omega)]
  unfold pagingAlignAddress
  split
  · rw [u32_natCast_of_lt (by omega)]
    omega
  · omega

theorem not_mapRefused {ptr n : Nat} (h : ptr % 4096 = 0) :
    ¬ MapRefused ptr ptr (ptr + n * 4096) := by
  unfold MapRefused
  omega

/-- `PAGING_IS_WRITEABLE | PAGING_IS_PRESENT | PAGING_ACCESS_FROM_ALL`. -/
theorem userFlags_eq : pagingIsWriteable ||| pagingIsPresent ||| pagingAccessFromAll = 7 := rfl

/-- **A served request** takes a run, clears it, maps its pages and enters it into the table; or it
    finds no slot and gives the run back; or there is no run and nothing changes. -/
theorem processMalloc_serves {k : Kernel} (hp : k.heap.Placed) (p : Process) {size : Nat}
    (hs : size < 4294967296) (h : k.heap.Serves size) :
    (∃ b i, ∃ hi : i < p.allocations.length, Granted k.heap size b ∧
      (p.allocations.get ⟨i, hi⟩).ptr = 0 ∧
      processMalloc k p size = (k.heap.saddr + b * 4096,
        ⟨heapMarkBlocksTaken k.heap b (blocksFor size),
          (pagingMapTo (fill k.mem (k.heap.saddr + b * 4096) 0x00 size) p.pageDirectory
            (k.heap.saddr + b * 4096) (k.heap.saddr + b * 4096)
            (k.heap.saddr + b * 4096 + blocksFor size * 4096) 7).2⟩,
        p.setAllocation i ⟨k.heap.saddr + b * 4096, size⟩)) ∨
    (∃ b, Granted k.heap size b ∧ p.recorded.length = 1024 ∧
      processMalloc k p size = (0,
        ⟨heapFree (heapMarkBlocksTaken k.heap b (blocksFor size)) (k.heap.saddr + b * 4096),
          fill k.mem (k.heap.saddr + b * 4096) 0x00 size⟩, p)) ∨
    (¬ (1 ≤ size ∧ HasRun k.heap.IsFree k.heap.table.total (blocksFor size)) ∧
      processMalloc k p size = (0, k, p)) := by
  have hpos := hp.pos
  rcases kzalloc_serves hp hs h with ⟨b, hb, e⟩ | ⟨hno, e⟩
  · have hsz := hb.size_le hp
    have hne : ¬ k.heap.saddr + b * 4096 = 0 := by omega
    rcases processFindFreeAllocationIndex_spec p with ⟨i, ei, hi, h0⟩ | ⟨ei, hfull⟩
    · refine Or.inl ⟨b, i, hi, hb, h0, ?_⟩
      have hst := pagingMapTo_status (fill k.mem (k.heap.saddr + b * 4096) 0x00 size)
        p.pageDirectory 7 (not_mapRefused (n := blocksFor size) (block_aligned hp b))
      simp only [processMalloc, e, if_neg hne, ei]
      rw [if_neg (by omega), userFlags_eq,
        pagingAlignAddress_end (block_aligned hp b) hsz.2.2]
      generalize pagingMapTo _ _ _ _ _ _ = r at hst
      obtain ⟨res, m⟩ := r
      subst hst
      rfl
    · refine Or.inr (Or.inl ⟨b, hb, hfull, ?_⟩)
      simp only [processMalloc, e, if_neg hne, if_pos ei, kfree]
  · refine Or.inr (Or.inr ⟨hno, ?_⟩)
    simp only [processMalloc, e, if_true]

/-- A pointer that is in no slot. -/
theorem processFree_absent {p : Process} {ptr : Nat} (k : Kernel)
    (h : ∀ a ∈ p.allocations, a.ptr ≠ ptr) : processFree k p ptr = (k, p) := by
  have e : processGetAllocationByAddr p ptr = none := by
    refine List.find?_eq_none.mpr fun a ha => ?_
    simpa using h a ha
  simp only [processFree, e]

/-- A pointer that is in a slot: the call takes the first such slot. -/
theorem processFree_present {p : Process} {ptr : Nat} (k : Kernel)
    (h : ∃ a ∈ p.allocations, a.ptr = ptr) :
    ∃ a ∈ p.allocations, a.ptr = ptr ∧
      (¬ MapRefused a.ptr a.ptr (pagingAlignAddress (u32 ((a.ptr + a.size : Nat) : Int))) →
        processFree k p ptr = (kfree { k with mem := (pagingMapTo k.mem p.pageDirectory a.ptr a.ptr
          (pagingAlignAddress (u32 ((a.ptr + a.size : Nat) : Int))) 0x00).2 } ptr,
          processAllocationUnjoin p ptr)) := by
  obtain ⟨a, e⟩ : ∃ a, processGetAllocationByAddr p ptr = some a := by
    refine Option.isSome_iff_exists.mp (List.find?_isSome.mpr ?_)
    obtain ⟨a, ha, hp⟩ := h
    exact ⟨a, ha, by simpa using hp⟩
  refine ⟨a, List.mem_of_find?_eq_some e, by simpa using List.find?_some e, fun hr => ?_⟩
  have hst := pagingMapTo_status k.mem p.pageDirectory 0x00 hr
  simp only [processFree, e]
  generalize pagingMapTo _ _ _ _ _ _ = r at hst
  obtain ⟨res, m⟩ := r
  subst hst
  rfl

/-- **A recorded pointer** is unmapped over its whole allocation, taken out of the table and
    released. -/
theorem processFree_recorded {k : Kernel} {p : Process} (h : HeapInv k.heap p.recorded)
    {a : Allocation} (ha : a ∈ p.recorded) :
    processFree k p a.ptr = (⟨heapFree k.heap a.ptr, (pagingMapTo k.mem p.pageDirectory a.ptr a.ptr
      (a.ptr + blocksFor a.size * 4096) 0x00).2⟩, processAllocationUnjoin p a.ptr) := by
  obtain ⟨hmem, hne⟩ := mem_recorded.mp ha
  obtain ⟨a', ha', hp, e⟩ := processFree_present k ⟨a, hmem, rfl⟩
  have hrec : a' ∈ p.recorded := mem_recorded.mpr ⟨ha', by rwa [hp]⟩
  obtain rfl : a' = a := h.eq_of_ptr hrec ha hp
  obtain ⟨hal, hlt⟩ := h.end_lt ha
  rw [pagingAlignAddress_end hal hlt] at e
  exact e (not_mapRefused hal)

/-- A pointer that is not recorded and not null changes nothing. -/
theorem processFree_unrecorded {k : Kernel} {p : Process} {ptr : Nat} (h0 : ptr ≠ 0)
    (h : ∀ a ∈ p.recorded, a.ptr ≠ ptr) : processFree k p ptr = (k, p) :=
  processFree_absent k fun a ha e => h a (mem_recorded.mpr ⟨ha, by rwa [e]⟩) e

/-- **The null pointer** is found in the first empty slot, and released. -/
theorem processFree_null (k : Kernel) (p : Process) :
    processFree k p 0 = (k, p) ∨
      ((processFree k p 0).1.heap = heapFree k.heap 0 ∧
        (processFree k p 0).2 = processAllocationUnjoin p 0) := by
  by_cases h : ∃ a ∈ p.allocations, a.ptr = 0
  · obtain ⟨a, ha, hp, e⟩ := processFree_present k h
    have hr : ¬ MapRefused a.ptr a.ptr
        (pagingAlignAddress (u32 ((a.ptr + a.size : Nat) : Int))) := by
      rw [hp]
      unfold MapRefused pagingAlignAddress u32
      split <;> omega
    rw [e hr]
    exact Or.inr ⟨rfl, rfl⟩
  · exact Or.inl (processFree_absent k fun a ha e => h ⟨a, ha, e⟩)

end PeachKernel
