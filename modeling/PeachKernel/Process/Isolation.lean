/-
  File:      PeachKernel/Process/Isolation.lean
  Subject:   Several processes on one heap: any interleaving of their malloc and free system calls.

  * `Owned` -- several owners, each with its allocations in one heap table, all of them apart;
  * `System`, `SyscallStep`, `SyscallRun` -- the processes, and any order of their calls, where a
    `process_malloc` is issued only under a condition `M` and a `process_free` only under `F`;
  * `syscallRun_isolated` -- while every request is one the heap serves (`Heap.Serves`) and a null
    pointer is freed only where the release stops before the table (`Heap.NullStops`), no address
    is in two tables, and no call of one process touches the entries of another's blocks;
  * `syscallRun_shared_block` -- a request of 0 bytes is answered by a block that stays free, and
    the next process gets the same block.
-/
import PeachKernel.Process.Alloc
import Mathlib.Logic.Relation
import Mathlib.Logic.Function.Basic

namespace PeachKernel

open CInt Mem

variable {ι : Type} [DecidableEq ι]

/-! ## 1. Owners -/

/-- **Owners of one heap**: the table represents each one's allocations, and the allocations of two
    owners have no block in common. -/
structure Owned (heap : Heap) (live : ι → List Allocation) : Prop where
  inv : ∀ i, HeapInv heap (live i)
  cross : ∀ i j, i ≠ j → ∀ a ∈ live i, ∀ b ∈ live j,
    (a.extent heap.saddr).Apart (b.extent heap.saddr)

section Owners

variable {heap : Heap} {live : ι → List Allocation}

omit [DecidableEq ι] in
theorem Owned.perm (h : Owned heap live) {live' : ι → List Allocation}
    (hp : ∀ i, (live' i).Perm (live i)) : Owned heap live' where
  inv i := (h.inv i).perm (hp i)
  cross i j hij a ha b hb := h.cross i j hij a ((hp i).subset ha) b ((hp j).subset hb)

omit [DecidableEq ι] in
theorem Owned.congr (h : Owned heap live) {heap' : Heap}
    (ht : heap'.table.total = heap.table.total) (hs : heap'.saddr = heap.saddr)
    (he : ∀ i, ∀ a ∈ live i, ∀ n : Nat, (a.extent heap.saddr).Has n →
      heap'.table.entries n = heap.table.entries n) : Owned heap' live where
  inv i := (h.inv i).congr ht hs (he i)
  cross := by
    rw [hs]
    exact h.cross

/-- **One owner takes a run.** -/
theorem Owned.take (h : Owned heap live) (i : ι) {size b : Nat} (hb : Granted heap size b) :
    Owned (heapMarkBlocksTaken heap b (blocksFor size))
      (Function.update live i (⟨heap.saddr + b * 4096, size⟩ :: live i)) := by
  have hpos := blocksFor_pos hb.pos
  have hap : ∀ j, ∀ a ∈ live j, (⟨b, blocksFor size⟩ : Extent).Apart (a.extent heap.saddr) :=
    fun j a ha => (h.inv j).run_apart hpos hb.first.2.1 ha
  constructor
  · intro j
    by_cases e : j = i
    · subst e
      rw [Function.update_self]
      exact heapInv_take (h.inv j) hb.pos hb.first.1 hb.first.2.1
    · rw [Function.update_of_ne e]
      refine (h.inv j).congr (heapMarkBlocksTaken_total ..) rfl fun a ha n hn => ?_
      exact heapMarkBlocksTaken_other heap b _ ((hap j a ha).symm.not_has hn)
  · intro j l hjl a ha c hc
    rw [heapMarkBlocksTaken_saddr]
    by_cases ej : j = i
    · subst ej
      rw [Function.update_self] at ha
      rw [Function.update_of_ne (Ne.symm hjl)] at hc
      rcases List.mem_cons.mp ha with rfl | ha
      · rw [extent_of_addr]
        exact hap l c hc
      · exact h.cross j l hjl a ha c hc
    · rw [Function.update_of_ne ej] at ha
      by_cases el : l = i
      · subst el
        rw [Function.update_self] at hc
        rcases List.mem_cons.mp hc with rfl | hc
        · rw [extent_of_addr]
          exact (hap j a ha).symm
        · exact h.cross j l hjl a ha c hc
      · rw [Function.update_of_ne el] at hc
        exact h.cross j l hjl a ha c hc

omit [DecidableEq ι] in
/-- A release by one owner leaves the entries of the others alone. -/
theorem Owned.free_other (h : Owned heap live) {i j : ι} (hij : j ≠ i) {a : Allocation}
    (ha : a ∈ live i) {b : Allocation} (hb : b ∈ live j) {n : Nat}
    (hn : (b.extent heap.saddr).Has n) :
    (heapFree heap a.ptr).table.entries n = heap.table.entries n := by
  have hna : ¬ (a.extent heap.saddr).Has n := (h.cross j i hij b hb a ha).not_has hn
  rw [heapFree_entries (h.inv i) ha, if_neg (by rwa [Extent.hasInt_natCast])]

/-- **One owner releases an allocation.** -/
theorem Owned.release (h : Owned heap live) {i : ι} {a : Allocation} (ha : a ∈ live i) :
    Owned (heapFree heap a.ptr) (Function.update live i ((live i).erase a)) := by
  have hsub : ∀ j, ∀ b ∈ Function.update live i ((live i).erase a) j, b ∈ live j := by
    intro j b hb
    by_cases e : j = i
    · subst e
      rw [Function.update_self] at hb
      exact List.mem_of_mem_erase hb
    · rwa [Function.update_of_ne e] at hb
  constructor
  · intro j
    by_cases e : j = i
    · subst e
      rw [Function.update_self]
      exact heapInv_free (h.inv j) ha
    · rw [Function.update_of_ne e]
      exact (h.inv j).congr (heapFree_total ..) rfl fun b hb n hn => h.free_other e ha hb hn
  · intro j l hjl b hb c hc
    exact h.cross j l hjl b (hsub j b hb) c (hsub l c hc)

end Owners

/-! ## 2. The system -/

/-- The kernel and its processes. -/
structure System (ι : Type) where
  kernel : Kernel
  procs : ι → Process

/-- Process `i` calls `process_malloc`. -/
def System.malloc (s : System ι) (i : ι) (size : Nat) : System ι :=
  let r := processMalloc s.kernel (s.procs i) size
  { kernel := r.2.1, procs := Function.update s.procs i r.2.2 }

/-- Process `i` calls `process_free`. -/
def System.free (s : System ι) (i : ι) (ptr : Nat) : System ι :=
  let r := processFree s.kernel (s.procs i) ptr
  { kernel := r.1, procs := Function.update s.procs i r.2 }

/-- The allocations recorded in the tables. -/
def System.recorded (s : System ι) (i : ι) : List Allocation := (s.procs i).recorded

/-- One system call of one process. -/
inductive SyscallStep (M F : System ι → Nat → Prop) : System ι → System ι → Prop where
  | malloc (s : System ι) (i : ι) (size : Nat) (hs : size < 4294967296) (hM : M s size) :
      SyscallStep M F s (s.malloc i size)
  | free (s : System ι) (i : ι) (ptr : Nat) (hF : F s ptr) : SyscallStep M F s (s.free i ptr)

/-- Any interleaving of system calls. -/
def SyscallRun (M F : System ι → Nat → Prop) : System ι → System ι → Prop :=
  Relation.ReflTransGen (SyscallStep M F)

/-- No process has an allocation on record. -/
def System.Fresh (s : System ι) : Prop := ∀ i, s.recorded i = []

/-- **Isolation**: no address is in the tables of two processes, and a `process_free` of one process
    (issued under `F`) leaves the heap table entries of every other's blocks alone. -/
def SyscallIsolated (F : System ι → Nat → Prop) (s : System ι) : Prop :=
  (∀ i j, i ≠ j → ∀ a ∈ s.recorded i, ∀ b ∈ s.recorded j, a.ptr ≠ b.ptr) ∧
  ∀ i ptr, F s ptr → ∀ j, j ≠ i → ∀ b ∈ s.recorded j, ∀ n : Nat,
    (b.extent s.kernel.heap.saddr).Has n →
    (s.free i ptr).kernel.heap.table.entries n = s.kernel.heap.table.entries n

/-- The requests of the theorem: those the heap serves. -/
def ServedMalloc (s : System ι) (size : Nat) : Prop := s.kernel.heap.Serves size

/-- The releases of the theorem: not of null, or stopping before the table. -/
def HarmlessFree (s : System ι) (ptr : Nat) : Prop := ptr ≠ 0 ∨ s.kernel.heap.NullStops

/-! ## 3. Steps and runs -/

theorem recorded_update (s : System ι) (k : Kernel) (i : ι) (p : Process) :
    (System.mk k (Function.update s.procs i p)).recorded =
      Function.update s.recorded i p.recorded := by
  funext j
  unfold System.recorded
  dsimp only
  by_cases e : j = i
  · subst e
    rw [Function.update_self, Function.update_self]
  · rw [Function.update_of_ne e, Function.update_of_ne e]

theorem perm_update {live : ι → List Allocation} {i : ι} {l l' : List Allocation} (h : l.Perm l')
    (j : ι) : (Function.update live i l j).Perm (Function.update live i l' j) := by
  by_cases e : j = i
  · subst e
    rwa [Function.update_self, Function.update_self]
  · rw [Function.update_of_ne e, Function.update_of_ne e]

theorem owned_malloc {s : System ι} (h : Owned s.kernel.heap s.recorded) (i : ι) {size : Nat}
    (hs : size < 4294967296) (hM : ServedMalloc s size) :
    Owned (s.malloc i size).kernel.heap (s.malloc i size).recorded := by
  have hp := (h.inv i).placed
  unfold System.malloc
  rcases processMalloc_serves hp (s.procs i) hs hM with
    ⟨b, j, hj, hb, h0, e⟩ | ⟨b, hb, _, e⟩ | ⟨_, e⟩
  · rw [e]
    dsimp only
    rw [recorded_update]
    refine (h.take i hb).perm (perm_update ?_)
    have := hp.pos
    exact recorded_setAllocation hj h0 (by dsimp only; omega)
  · -- the run is given back: its entries are free again, the others as before
    rw [e]
    dsimp only
    rw [recorded_update]
    have hself : Function.update s.recorded i (s.procs i).recorded = s.recorded :=
      Function.update_eq_self i s.recorded
    rw [hself]
    refine h.congr (by simp) (by simp) fun j a ha n hn => ?_
    have hap := (h.inv j).run_apart (blocksFor_pos hb.pos) hb.first.2.1 ha
    rw [heapFree_take hp hb, if_neg]
    rw [Extent.hasInt_natCast]
    exact hap.symm.not_has hn
  · rw [e]
    dsimp only
    rw [Function.update_eq_self]
    exact h

/-- What a release does to the heap: nothing, the release of a recorded allocation, or that of the
    null pointer. -/
theorem free_cases {s : System ι} (h : Owned s.kernel.heap s.recorded) (i : ι) (ptr : Nat) :
    (∃ a ∈ s.recorded i, (s.free i ptr).kernel.heap = heapFree s.kernel.heap a.ptr ∧
      (s.free i ptr).recorded = Function.update s.recorded i ((s.recorded i).erase a)) ∨
    (ptr = 0 ∧ (s.free i ptr).kernel.heap = heapFree s.kernel.heap 0 ∧
      (s.free i ptr).recorded = s.recorded) ∨
    s.free i ptr = s := by
  unfold System.free
  have hsame : processFree s.kernel (s.procs i) ptr = (s.kernel, s.procs i) →
      System.mk (processFree s.kernel (s.procs i) ptr).1
        (Function.update s.procs i (processFree s.kernel (s.procs i) ptr).2) = s := by
    intro e
    rw [e]
    dsimp only
    rw [Function.update_eq_self]
  by_cases h0 : ptr = 0
  · subst h0
    rcases processFree_null s.kernel (s.procs i) with e | ⟨e1, e2⟩
    · exact Or.inr (Or.inr (hsame e))
    · refine Or.inr (Or.inl ⟨rfl, e1, ?_⟩)
      rw [recorded_update, e2, recorded_unjoin_null]
      exact Function.update_eq_self i s.recorded
  · by_cases hrec : ∃ a ∈ s.recorded i, a.ptr = ptr
    · obtain ⟨a, ha, rfl⟩ := hrec
      refine Or.inl ⟨a, ha, ?_, ?_⟩
      · rw [processFree_recorded (h.inv i) ha]
      · rw [recorded_update, processFree_recorded (h.inv i) ha, recorded_unjoin_erase (h.inv i) ha]
        rfl
    · refine Or.inr (Or.inr (hsame ?_))
      exact processFree_unrecorded h0 fun a ha e => hrec ⟨a, ha, e⟩

theorem owned_free {s : System ι} (h : Owned s.kernel.heap s.recorded) (i : ι) {ptr : Nat}
    (hF : HarmlessFree s ptr) : Owned (s.free i ptr).kernel.heap (s.free i ptr).recorded := by
  rcases free_cases h i ptr with ⟨a, ha, e1, e2⟩ | ⟨h0, e1, e2⟩ | e
  · rw [e1, e2]
    exact h.release ha
  · rw [e1, e2]
    have hstop := hF.resolve_left (not_not_intro h0)
    exact h.congr (by simp) (by simp) fun _ _ _ n _ => heapFree_null hstop n
  · rw [e]
    exact h

theorem owned_run {s s' : System ι} (hr : SyscallRun ServedMalloc HarmlessFree s s')
    (h : Owned s.kernel.heap s.recorded) : Owned s'.kernel.heap s'.recorded := by
  induction hr with
  | refl => exact h
  | tail _ hs ih =>
    cases hs with
    | malloc i size hlt hM => exact owned_malloc ih i hlt hM
    | free i ptr hF => exact owned_free ih i hF

/-- Owners do not share an address, nor does one's release reach another's entries. -/
theorem Owned.isolated {s : System ι} (h : Owned s.kernel.heap s.recorded) :
    SyscallIsolated HarmlessFree s := by
  constructor
  · intro i j hij a ha b hb e
    have hap := h.cross i j hij a ha b hb
    have hpa := (h.inv i).pos ha
    have hstart : (a.extent s.kernel.heap.saddr).start = (b.extent s.kernel.heap.saddr).start := by
      simp only [Allocation.extent, e]
    refine hap.not_has (i := (a.extent s.kernel.heap.saddr).start) ⟨Nat.le_refl _, by omega⟩ ?_
    have hpb := (h.inv j).pos hb
    exact ⟨by omega, by omega⟩
  · intro i ptr hF j hji b hb n hn
    rcases free_cases h i ptr with ⟨a, ha, e, _⟩ | ⟨h0, e, _⟩ | e
    · rw [e]
      exact h.free_other hji ha hb hn
    · rw [e]
      exact heapFree_null (hF.resolve_left (not_not_intro h0)) n
    · rw [e]

/-- **Isolation in every state of every interleaving** whose requests the heap serves and whose
    releases of null stop before the table. The heap may hold anything at the start. -/
theorem syscallRun_isolated {s₀ s : System ι} (hp : s₀.kernel.heap.Placed) (hf : s₀.Fresh)
    (hr : SyscallRun ServedMalloc HarmlessFree s₀ s) : SyscallIsolated HarmlessFree s := by
  refine (owned_run hr ⟨fun i => ?_, fun i j _ a ha => ?_⟩).isolated
  · rw [hf i]
    exact HeapInv.nil hp
  · rw [hf i] at ha
    exact absurd ha List.not_mem_nil

/-! ## 4. Two processes on the kernel heap -/

/-- A request of 0 bytes, while the last block is free, records the start of the free run that ends
    the table, and leaves the heap table as it is. -/
theorem processMalloc_zero {k : Kernel} (hp : k.heap.Placed) (p : Process)
    (hl : ∃ i, i + 1 = k.heap.table.total ∧ k.heap.IsFree i) (hslot : p.recorded.length < 1024) :
    ∃ b m i, ∃ hi : i < p.allocations.length, TailRun k.heap.IsFree k.heap.table.total b ∧
      (p.allocations.get ⟨i, hi⟩).ptr = 0 ∧
      processMalloc k p 0 = (k.heap.saddr + b * 4096, ⟨k.heap, m⟩,
        p.setAllocation i ⟨k.heap.saddr + b * 4096, 0⟩) := by
  have hpos := hp.pos
  rcases heapMalloc_zero hp (Or.inl rfl) (by decide) with ⟨b, hb, e⟩ | ⟨hno, _⟩
  · rcases processFindFreeAllocationIndex_spec p with ⟨i, ei, hi, h0⟩ | ⟨_, hfull⟩
    · have hb1 := hb.1
      have hbd := hp.bound
      have hlt : k.heap.saddr + b * 4096 + blocksFor 0 * 4096 < 4294967296 := by
        simp only [show blocksFor 0 = 0 by decide, Nat.zero_mul, Nat.add_zero]
        exact lt_of_le_of_lt (Nat.add_le_add_left (Nat.mul_le_mul_right 4096 hb1.le) _) hbd
      have hend := pagingAlignAddress_end (block_aligned hp b) hlt
      have hst := pagingMapTo_status (fill k.mem (k.heap.saddr + b * 4096) 0x00 0)
        p.pageDirectory 7 (not_mapRefused (n := blocksFor 0) (block_aligned hp b))
      obtain ⟨m, hm⟩ : ∃ m, pagingMapTo (fill k.mem (k.heap.saddr + b * 4096) 0x00 0)
          p.pageDirectory (k.heap.saddr + b * 4096) (k.heap.saddr + b * 4096)
          (k.heap.saddr + b * 4096 + blocksFor 0 * 4096) 7 = (0, m) := ⟨_, Prod.ext hst rfl⟩
      refine ⟨b, m, i, hi, hb, h0, ?_⟩
      have hne : ¬ k.heap.saddr + b * 4096 = 0 := by omega
      have hni : ¬ (i : Int) < 0 := by omega
      simp only [processMalloc, kzalloc, kmalloc, e, if_neg hne, ei, if_neg hni, userFlags_eq, hend,
        hm, lt_irrefl, if_false, Int.toNat_natCast]
    · omega
  · obtain ⟨i, hi, hfree⟩ := hl
    exact absurd hfree (hno i hi)

/-- Two fresh processes on the kernel heap. -/
def twoProcesses : System Bool where
  kernel := ⟨kernelHeap fun _ => 0, fun _ => 0⟩
  procs _ := freshProcess 0

theorem twoProcesses_fresh : twoProcesses.Fresh := fun _ => freshProcess_recorded 0

/-- On the fresh kernel heap every run of free blocks that counts starts with block 0. -/
theorem kernelHeap_tail {entries : Int → UInt8} {b : Nat}
    (h : TailRun (kernelHeap entries).IsFree (kernelHeap entries).table.total b) : b = 0 := by
  obtain ⟨hlt, _, h0 | h0⟩ := h
  · exact h0
  · have hlt' : b < 25600 := hlt
    exact absurd (kernelHeap_isFree entries (by omega)) h0

/-- One process asks for a page: the run is there, and the theorem applies. -/
theorem syscallRun_isolated_kernel :
    SyscallRun ServedMalloc HarmlessFree twoProcesses (twoProcesses.malloc true 4096) ∧
      SyscallIsolated HarmlessFree (twoProcesses.malloc true 4096) := by
  have hr : SyscallRun ServedMalloc HarmlessFree twoProcesses (twoProcesses.malloc true 4096) :=
    .tail .refl (.malloc _ true 4096 (by decide) (kernelHeap_serves _ (by decide) (by decide)))
  exact ⟨hr, syscallRun_isolated (kernelHeap_placed _) twoProcesses_fresh hr⟩

/-- **One process asks for 0 bytes, then another for a page**: both have block 0 on record. -/
theorem syscallRun_shared_block :
    ¬ ∀ s, SyscallRun (fun _ _ => True) (fun _ _ => True) twoProcesses s →
      SyscallIsolated (fun _ _ => True) s := by
  intro hall
  have hlast : (kernelHeap fun _ => 0).IsFree 25599 := kernelHeap_isFree _ (by decide)
  obtain ⟨b, m, i, hi, hb, h0, e⟩ := processMalloc_zero (k := ⟨kernelHeap fun _ => 0, fun _ => 0⟩)
    (kernelHeap_placed _) (freshProcess 0) ⟨25599, rfl, hlast⟩
    (by rw [freshProcess_recorded]; decide)
  obtain rfl := kernelHeap_tail hb
  have e1 : twoProcesses.malloc true 0 = ⟨⟨kernelHeap fun _ => 0, m⟩, Function.update
      twoProcesses.procs true ((freshProcess 0).setAllocation i ⟨0x01000000, 0⟩)⟩ := by
    unfold System.malloc
    have e' : processMalloc twoProcesses.kernel (twoProcesses.procs true) 0 = _ := e
    rw [e']
    rfl
  have hrec := recorded_setAllocation (a := ⟨0x01000000, 0⟩) hi h0 (by decide)
  rw [freshProcess_recorded] at hrec
  -- the second request finds block 0 free
  have hserves : (kernelHeap fun _ => 0).Serves 4096 :=
    kernelHeap_serves _ (by decide) (by decide)
  rcases processMalloc_serves (k := ⟨kernelHeap fun _ => 0, m⟩) (kernelHeap_placed _)
    (freshProcess 0) (by decide) hserves with ⟨c, j, hj, hc, h0', e'⟩ | ⟨_, _, hfull, _⟩ | ⟨hno, _⟩
  · obtain rfl : c = 0 := by
      have := hc.first.2.2 0 (by show 0 + blocksFor 4096 ≤ 25600; decide)
        fun i _ hi => kernelHeap_isFree _ (by have : blocksFor 4096 = 1 := by decide
                                              omega)
      omega
    have hrec' := recorded_setAllocation (a := ⟨0x01000000, 4096⟩) hj h0' (by decide)
    rw [freshProcess_recorded] at hrec'
    have hrun : SyscallRun (fun _ _ => True) (fun _ _ => True) twoProcesses
        ((twoProcesses.malloc true 0).malloc false 4096) :=
      .tail (.tail .refl (.malloc _ true 0 (by decide) trivial)) (.malloc _ false 4096 (by decide)
        trivial)
    refine (hall _ hrun).1 true false (by decide) ⟨0x01000000, 0⟩ ?_ ⟨0x01000000, 4096⟩ ?_ rfl
    · rw [e1]
      exact hrec.symm.subset List.mem_cons_self
    · have e2 : ((twoProcesses.malloc true 0).malloc false 4096).procs false =
          (freshProcess 0).setAllocation j ⟨0x01000000, 4096⟩ := by
        rw [e1]
        unfold System.malloc
        dsimp only
        rw [Function.update_self,
          show Function.update twoProcesses.procs true
            ((freshProcess 0).setAllocation i ⟨0x01000000, 0⟩) false = freshProcess 0 from rfl, e']
        rfl
      unfold System.recorded
      rw [e2]
      exact hrec'.symm.subset List.mem_cons_self
  · rw [freshProcess_recorded] at hfull
    exact absurd hfull (by decide)
  · exact hno (hserves.resolve_right fun h => h 25599 rfl hlast)

end PeachKernel
