/-
  File:      PeachKernel/Heap/Table.lean
  Subject:   The block heap of `memory/heap/heap.c`, as the code computes it.

  The heap hands out runs of 4096-byte blocks (`PEACH_OS_HEAP_BLOCK_SIZE`). Its whole state is a
  table with one byte for each block. The bytes are read and written through a C pointer, so the
  model is the memory AROUND that pointer: `entries i` is `table->entries[i]` for every `int` index,
  and only the indices `0 .. total-1` are the table. An access outside it is an access to some other
  byte of memory, never a failure.

  * `heapCreate`, `heapMalloc`, `heapFree` -- the interface;
  * `heapGetStartBlock` -- the scan, with its two counters (`bs`, `bc`) and its two ways out;
  * `heapMarkBlocksTaken`, `heapMarkBlocksFree` -- the loops that write and read the chain of a run.
-/
import PeachKernel.Status
import PeachKernel.Lib.CInt
import PeachKernel.Lib.Extents

namespace PeachKernel

open CInt

/-! ## 1. Data -/

/-- `HEAP_BLOCK_TABLE_ENTRY_TAKEN`. -/
def entryTaken : UInt8 := 0x1

/-- `HEAP_BLOCK_TABLE_ENTRY_FREE`. -/
def entryFree : UInt8 := 0x0

/-- `HEAP_BLOCK_HAS_NEXT`. -/
def blockHasNext : UInt8 := 0b10000000

/-- `HEAP_BLOCK_IS_FIRST`. -/
def blockIsFirst : UInt8 := 0b01000000

/-- `struct heap_table`: the bytes around `entries`, and the number of them that are the table. -/
@[ext] structure HeapTable where
  entries : Int → UInt8
  total : Nat

/-- `struct heap`. -/
@[ext] structure Heap where
  table : HeapTable
  saddr : Nat

/-- A write of one table entry. -/
def HeapTable.set (t : HeapTable) (i : Int) (e : UInt8) : HeapTable :=
  { t with entries := fun j => if j = i then e else t.entries j }

@[simp] theorem HeapTable.set_total (t : HeapTable) (i : Int) (e : UInt8) :
    (t.set i e).total = t.total := rfl

@[simp] theorem HeapTable.set_entries (t : HeapTable) (i : Int) (e : UInt8) (j : Int) :
    (t.set i e).entries j = if j = i then e else t.entries j := rfl

/-! ## 2. Creation -/

def heapValidateTable (ptr endp : Nat) (table : HeapTable) : Int :=
  let tableSize := u32 ((endp : Int) - ptr)
  let totalBlocks := tableSize / 4096
  if table.total ≠ totalBlocks then -EINVARG else 0

def heapValidateAlignment (ptr : Nat) : Bool := ptr % 4096 == 0

/-- `memset(table->entries, FREE, total)`: the table's own bytes, nothing around them. -/
def HeapTable.clear (t : HeapTable) : HeapTable :=
  { t with entries := fun i => if 0 ≤ i ∧ i < t.total then entryFree else t.entries i }

/-- `heap_create`: the status and the heap structure as it is left behind. -/
def heapCreate (heap : Heap) (ptr endp : Nat) (table : HeapTable) : Int × Heap :=
  if !heapValidateAlignment ptr || !heapValidateAlignment endp then (-EINVARG, heap)
  else
    let res := heapValidateTable ptr endp table
    if res < 0 then (res, { table := table, saddr := ptr })
    else (res, { table := table.clear, saddr := ptr })

/-! ## 3. The scan for a start block -/

/-- `heap_align_value_to_upper`, on `uint32_t`. -/
def heapAlignValueToUpper (val : Nat) : Nat :=
  if val % 4096 = 0 then val else u32 ((val - val % 4096 + 4096 : Nat) : Int)

def heapGetEntryType (entry : UInt8) : UInt8 := entry &&& 0b00001111

/-- The loop of `heap_get_start_block` over the last `left` entries, from entry `i`: `bc` counts the
    free blocks of the current run, `bs` is its first block (`-1`: no run). The value is `bs` at
    the `break`, or at the end of the table. -/
def startBlockLoop (entries : Int → UInt8) (totalBlocks : Nat) :
    (left i bc : Nat) → (bs : Int) → Int
  | 0, _, _, bs => bs
  | left + 1, i, bc, bs =>
    if heapGetEntryType (entries i) ≠ entryFree then
      startBlockLoop entries totalBlocks left (i + 1) 0 (-1)
    else
      let bs := if bs = -1 then (i : Int) else bs
      let bc := bc + 1
      if bc = totalBlocks then bs
      else startBlockLoop entries totalBlocks left (i + 1) bc bs

def heapGetStartBlock (heap : Heap) (totalBlocks : Nat) : Int :=
  let bs := startBlockLoop heap.table.entries totalBlocks heap.table.total 0 0 (-1)
  if bs = -1 then -ENOMEM else bs

/-! ## 4. Marking blocks -/

/-- `heap_block_to_address`: pointer arithmetic, modulo `2^32`. -/
def heapBlockToAddress (heap : Heap) (block : Int) : Nat := u32 (heap.saddr + block * 4096)

/-- The loop of `heap_mark_blocks_taken` for the `left` blocks from `i`; `entry` is the value the
    next iteration writes, chosen one block ahead. -/
def markTakenLoop (endBlock : Int) : (left : Nat) → (i : Int) → UInt8 → HeapTable → HeapTable
  | 0, _, _, t => t
  | left + 1, i, entry, t =>
    let t := t.set i entry
    let entry := if i ≠ endBlock - 1 then entryTaken ||| blockHasNext else entryTaken
    markTakenLoop endBlock left (i + 1) entry t

def heapMarkBlocksTaken (heap : Heap) (startBlock : Int) (totalBlocks : Nat) : Heap :=
  let endBlock := startBlock + totalBlocks - 1
  let entry := entryTaken ||| blockIsFirst
  let entry := if totalBlocks > 1 then entry ||| blockHasNext else entry
  { heap with table := markTakenLoop endBlock totalBlocks startBlock entry heap.table }

/-- The loop of `heap_mark_blocks_free` for at most `left` blocks from `i`: it stops after the
    first entry without `HAS_NEXT`. -/
def markFreeLoop : (left : Nat) → (i : Int) → HeapTable → HeapTable
  | 0, _, t => t
  | left + 1, i, t =>
    let entry := t.entries i
    let t := t.set i entryFree
    if entry &&& blockHasNext = 0 then t else markFreeLoop left (i + 1) t

def heapMarkBlocksFree (heap : Heap) (startingBlock : Int) : Heap :=
  { heap with
    table := markFreeLoop (heap.table.total - startingBlock).toNat startingBlock heap.table }

/-- `heap_address_to_block`: the pointer difference as an `int`, divided as C divides. -/
def heapAddressToBlock (heap : Heap) (address : Nat) : Int :=
  (i32 ((address : Int) - heap.saddr)).tdiv 4096

/-! ## 5. Allocation and release -/

/-- `heap_malloc_block`: the address (`0`: no memory) and the heap after the call. -/
def heapMallocBlock (heap : Heap) (totalBlocks : Nat) : Nat × Heap :=
  let startBlock := heapGetStartBlock heap totalBlocks
  if startBlock < 0 then (0, heap)
  else (heapBlockToAddress heap startBlock, heapMarkBlocksTaken heap startBlock totalBlocks)

def heapMalloc (heap : Heap) (size : Nat) : Nat × Heap :=
  heapMallocBlock heap (heapAlignValueToUpper size / 4096)

def heapFree (heap : Heap) (ptr : Nat) : Heap :=
  heapMarkBlocksFree heap (heapAddressToBlock heap ptr)

/-- `kheap_init` (`kheap.c`): 100 MiB from 16 MiB on, over the table bytes found at
    `PEACH_OS_HEAP_TABLE_ADDRESS`. The structures are zero before. -/
def kheapInit (entries : Int → UInt8) : Int × Heap :=
  heapCreate ⟨⟨entries, 0⟩, 0⟩ 0x01000000 (0x01000000 + 104857600)
    ⟨entries, 104857600 / 4096⟩

/-! ## 6. What the operations leave alone -/

@[simp] theorem markTakenLoop_total (endBlock : Int) (left : Nat) (i : Int) (e : UInt8)
    (t : HeapTable) : (markTakenLoop endBlock left i e t).total = t.total := by
  induction left generalizing i e t with
  | zero => rfl
  | succ left ih => simp only [markTakenLoop, ih, HeapTable.set_total]

@[simp] theorem markFreeLoop_total (left : Nat) (i : Int) (t : HeapTable) :
    (markFreeLoop left i t).total = t.total := by
  induction left generalizing i t with
  | zero => rfl
  | succ left ih =>
    simp only [markFreeLoop]
    split
    · rfl
    · rw [ih]
      rfl

@[simp] theorem heapMarkBlocksTaken_total (heap : Heap) (b : Int) (n : Nat) :
    (heapMarkBlocksTaken heap b n).table.total = heap.table.total := by
  simp [heapMarkBlocksTaken]

@[simp] theorem heapMarkBlocksTaken_saddr (heap : Heap) (b : Int) (n : Nat) :
    (heapMarkBlocksTaken heap b n).saddr = heap.saddr := rfl

@[simp] theorem heapFree_total (heap : Heap) (ptr : Nat) :
    (heapFree heap ptr).table.total = heap.table.total := by
  simp [heapFree, heapMarkBlocksFree]

@[simp] theorem heapFree_saddr (heap : Heap) (ptr : Nat) :
    (heapFree heap ptr).saddr = heap.saddr := rfl

end PeachKernel
