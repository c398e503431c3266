/-
  File:      PeachKernel/Heap/Runs.lean
  Subject:   Runs of heap_malloc and heap_free from heap_create.

  A state is the heap and the allocations that are live (handed out and not yet freed). One step is
  a `heap_malloc` of at least one byte, under a condition `C` on the state and the size, or a
  `heap_free` of a live allocation.

  * `MallocContract` -- what a caller of `heap_malloc` relies on: a non-null answer is a run of free
    blocks inside the table, apart from every live allocation; without such a run the answer is null
    and the table is as before;
  * `heapRun_mallocContract` -- the contract holds exactly when a run is there or the table's last
    block is taken (`NoShortTail`). Otherwise the scan answers the short free run at the end of the
    table, and the marking loop writes past the table (`heapMalloc_past_table`);
  * `TableParts` -- the table read as free entries and chains; `heapRun_wellFormed` -- while every
    request finds a run, the chains ARE the live allocations, a release clears one of them and
    nothing else, and releasing all of them, in any order, gives back the created table.
-/
import PeachKernel.Heap.Live
import Mathlib.Logic.Relation

namespace PeachKernel

open CInt

/-! ## 1. Steps and runs -/

structure HeapState where
  heap : Heap
  live : List Allocation

/-- `heap_malloc`, with the answer entered into the live list unless it is null. -/
def HeapState.malloc (s : HeapState) (size : Nat) : HeapState :=
  let r := heapMalloc s.heap size
  { heap := r.2, live := if r.1 = 0 then s.live else ⟨r.1, size⟩ :: s.live }

def HeapState.free (s : HeapState) (a : Allocation) : HeapState :=
  { heap := heapFree s.heap a.ptr, live := s.live.erase a }

/-- One step; a request is issued only where `C` holds. -/
inductive HeapStep (C : HeapState → Nat → Prop) : HeapState → HeapState → Prop where
  | malloc (s : HeapState) (size : Nat) (h1 : 1 ≤ size) (hC : C s size) :
      HeapStep C s (s.malloc size)
  | free (s : HeapState) (a : Allocation) (ha : a ∈ s.live) : HeapStep C s (s.free a)

/-- Any number of steps. -/
def HeapRun (C : HeapState → Nat → Prop) : HeapState → HeapState → Prop :=
  Relation.ReflTransGen (HeapStep C)

/-- Some run of free blocks holds `size` bytes. -/
def HasRoom (s : HeapState) (size : Nat) : Prop :=
  HasRun s.heap.IsFree s.heap.table.total (blocksFor size)

/-- There is room, or the last block of the table is taken. -/
def NoShortTail (s : HeapState) (size : Nat) : Prop :=
  HasRoom s size ∨ ∀ i, i + 1 = s.heap.table.total → ¬ s.heap.IsFree i

/-- **What a caller of `heap_malloc` relies on.** -/
def MallocContract (s : HeapState) (size : Nat) : Prop :=
  ((heapMalloc s.heap size).1 ≠ 0 →
    ∃ b, (heapMalloc s.heap size).1 = s.heap.saddr + b * 4096 ∧
      b + blocksFor size ≤ s.heap.table.total ∧
      IsRun s.heap.IsFree b (blocksFor size) ∧
      ∀ a ∈ s.live, (⟨b, blocksFor size⟩ : Extent).Apart (a.extent s.heap.saddr)) ∧
  (¬ HasRoom s size → heapMalloc s.heap size = (0, s.heap))

/-! ## 2. The contract along a run -/

/-- What a request does where it has room or the last block is taken: it takes the first run, or
    it changes nothing. -/
theorem malloc_cases {s : HeapState} (hp : s.heap.Placed) {size : Nat} (h1 : 1 ≤ size)
    (h2 : size ≤ 0xFFFFF000) (hC : NoShortTail s size) :
    (∃ b, FirstRun s.heap.IsFree s.heap.table.total (blocksFor size) b ∧
      heapMalloc s.heap size =
        (s.heap.saddr + b * 4096, heapMarkBlocksTaken s.heap b (blocksFor size)) ∧
      s.malloc size = ⟨heapMarkBlocksTaken s.heap b (blocksFor size),
        ⟨s.heap.saddr + b * 4096, size⟩ :: s.live⟩) ∨
    (¬ HasRoom s size ∧ heapMalloc s.heap size = (0, s.heap) ∧ s.malloc size = s) := by
  have hpos := hp.pos
  rcases heapMalloc_spec hp h1 h2 with ⟨b, hb, e⟩ | ⟨hno, b, hb, e⟩ | ⟨hno, _, e⟩
  · refine Or.inl ⟨b, hb, e, ?_⟩
    unfold HeapState.malloc
    rw [e]
    dsimp only
    rw [if_neg (by omega)]
  · exfalso
    rcases hC with h | h
    · exact hno h
    · have := hb.1
      exact h (s.heap.table.total - 1) (by omega) hb.last
  · refine Or.inr ⟨hno, e, ?_⟩
    unfold HeapState.malloc
    rw [e]
    rfl

theorem heapInv_step {s s' : HeapState} (hs : HeapStep (fun s n => n ≤ 0xFFFFF000 ∧ NoShortTail s n)
    s s') (h : HeapInv s.heap s.live) : HeapInv s'.heap s'.live := by
  cases hs with
  | malloc size h1 hC =>
    rcases malloc_cases h.placed h1 hC.1 hC.2 with ⟨b, hb, _, e⟩ | ⟨_, _, e⟩
    · rw [e]
      exact heapInv_take h h1 hb.1 hb.2.1
    · rw [e]
      exact h
  | free a ha => exact heapInv_free h ha

theorem heapInv_run {s s' : HeapState} (hr : HeapRun (fun s n => n ≤ 0xFFFFF000 ∧ NoShortTail s n)
    s s') (h : HeapInv s.heap s.live) : HeapInv s'.heap s'.live := by
  induction hr with
  | refl => exact h
  | tail _ hs ih => exact heapInv_step hs ih

/-- The contract at one state, exactly. -/
theorem mallocContract_iff {s : HeapState} (h : HeapInv s.heap s.live) {size : Nat} (h1 : 1 ≤ size)
    (h2 : size ≤ 0xFFFFF000) : MallocContract s size ↔ NoShortTail s size := by
  have hpos := h.placed.pos
  constructor
  · intro hc
    rcases heapMalloc_spec h.placed h1 h2 with ⟨b, hb, _⟩ | ⟨hno, b, _, e⟩ | ⟨_, hl, _⟩
    · exact Or.inl ⟨b, hb.1, hb.2.1⟩
    · -- the short tail: the answer is not null although no run is there
      have h0 := congrArg Prod.fst (hc.2 hno)
      rw [e] at h0
      dsimp only at h0
      omega
    · exact Or.inr hl
  · intro hC
    rcases malloc_cases h.placed h1 h2 hC with ⟨b, hb, e, _⟩ | ⟨hno, e, _⟩
    · refine ⟨fun _ => ⟨b, by rw [e], hb.1, hb.2.1, fun a ha => ?_⟩, fun hno => ?_⟩
      · exact h.run_apart (blocksFor_pos h1) hb.2.1 ha
      · exact absurd ⟨b, hb.1, hb.2.1⟩ hno
    · refine ⟨fun hne => ?_, fun _ => e⟩
      rw [e] at hne
      exact absurd rfl hne

/-- **The contract in every state of every run** whose requests find room or a taken last block:
    the live allocations are a layout of the table, and the next request meets the contract exactly
    when it finds room or a taken last block itself. -/
theorem heapRun_mallocContract {heap₀ heap : Heap} (area : MemArea) {table : HeapTable}
    (hc : heapCreate heap₀ area.ptr area.endp table = (0, heap)) {s : HeapState}
    (hr : HeapRun (fun s n => n ≤ 0xFFFFF000 ∧ NoShortTail s n) ⟨heap, []⟩ s) :
    Layout s.heap.table.total (s.live.map (Allocation.extent s.heap.saddr)) ∧
    ∀ size, 1 ≤ size → size ≤ 0xFFFFF000 → (MallocContract s size ↔ NoShortTail s size) := by
  have h : HeapInv s.heap s.live := heapInv_run hr (HeapInv.nil (heapCreate_ok area hc).2)
  exact ⟨h.layout, fun size h1 h2 => mallocContract_iff h h1 h2⟩

theorem kernelHeap_hasRoom (entries : Int → UInt8) (size : Nat) (h : blocksFor size ≤ 25600) :
    HasRoom ⟨kernelHeap entries, []⟩ size :=
  ⟨0, by show 0 + blocksFor size ≤ 25600; omega,
    fun i _ hi => kernelHeap_isFree entries (by omega)⟩

theorem kernelHeap_malloc_live (entries : Int → UInt8) :
    (HeapState.malloc ⟨kernelHeap entries, []⟩ 5000).live.length = 1 := by
  have hroom := kernelHeap_hasRoom entries 5000 (by decide)
  rcases malloc_cases (kernelHeap_placed _) (by decide) (by decide) (Or.inl hroom) with
    ⟨b, _, _, e⟩ | ⟨hno, _⟩
  · rw [e]
    rfl
  · exact absurd hroom hno

/-- The kernel heap after one request of two blocks. -/
theorem heapRun_mallocContract_kernel :
    ∃ s, HeapRun (fun s n => n ≤ 0xFFFFF000 ∧ NoShortTail s n) ⟨kernelHeap fun _ => 0, []⟩ s ∧
      s.live.length = 1 ∧ (MallocContract s 5000 ↔ NoShortTail s 5000) := by
  have hroom := kernelHeap_hasRoom (fun _ => 0) 5000 (by decide)
  have hr : HeapRun (fun s n => n ≤ 0xFFFFF000 ∧ NoShortTail s n) ⟨kernelHeap fun _ => 0, []⟩
      (HeapState.malloc ⟨kernelHeap fun _ => 0, []⟩ 5000) :=
    .tail .refl (.malloc _ 5000 (by decide) ⟨by decide, Or.inl hroom⟩)
  exact ⟨_, hr, kernelHeap_malloc_live _, (heapRun_mallocContract kheapArea (kheapInit_eq _) hr).2
    5000 (by decide) (by decide)⟩

/-- One byte more than the fresh kernel heap holds: the answer is the heap's first block, although
    25601 blocks are nowhere free. -/
theorem heapMalloc_past_table :
    ¬ MallocContract ⟨kernelHeap fun _ => 0, []⟩ 104857601 := by
  intro hc
  have h0 : HeapInv (kernelHeap fun _ => 0) [] := HeapInv.nil (kernelHeap_placed _)
  rcases (mallocContract_iff h0 (by decide) (by decide)).mp hc with ⟨s, hs, _⟩ | hl
  · have : s + 25601 ≤ 25600 := hs
    omega
  · exact hl 25599 rfl (kernelHeap_isFree _ (by decide))

/-! ## 3. The table as free entries and chains -/

/-- **The table from entry `i` on is free entries and chains**: the list of its chains, each a
    `TAKEN|IS_FIRST` entry and `n - 1` `TAKEN` entries, `HAS_NEXT` on all but the last. -/
inductive TableParts : Nat → List UInt8 → List Extent → Prop where
  | nil (i : Nat) : TableParts i [] []
  | free {i : Nat} {es : List UInt8} {cs : List Extent} (h : TableParts (i + 1) es cs) :
      TableParts i (entryFree :: es) cs
  | chain {i n : Nat} {es : List UInt8} {cs : List Extent} (hn : 0 < n)
      (h : TableParts (i + n) es cs) :
      TableParts i ((List.range n).map (chainEntry n) ++ es) (⟨i, n⟩ :: cs)

/-- The `k` entries from `i`. -/
def HeapTable.slice (t : HeapTable) (i k : Nat) : List UInt8 :=
  (List.range' i k).map fun j : Nat => t.entries (j : Int)

theorem HeapTable.slice_succ (t : HeapTable) (i k : Nat) :
    t.slice i (k + 1) = t.entries i :: t.slice (i + 1) k := by
  simp [HeapTable.slice, List.range'_succ]

theorem HeapTable.slice_add (t : HeapTable) (i m k : Nat) :
    t.slice i (m + k) = t.slice i m ++ t.slice (i + m) k := by
  unfold HeapTable.slice
  rw [← List.range'_append_1, List.map_append]

theorem HeapTable.slice_chain {t : HeapTable} {a : Extent} (h : t.Chain a) :
    t.slice a.start a.len = (List.range a.len).map (chainEntry a.len) := by
  unfold HeapTable.slice
  rw [List.range'_eq_map_range, List.map_map]
  refine List.map_congr_left fun k hk => ?_
  exact h k (List.mem_range.mp hk)

/-- The first chain of a list of entries is determined by the entries. -/
theorem chain_append_inj {n m : Nat} {es fs : List UInt8}
    (h : (List.range n).map (chainEntry n) ++ es = (List.range m).map (chainEntry m) ++ fs)
    (hm : 0 < m) : n ≤ m := by
  by_contra hlt
  -- at the last entry of the shorter chain, the longer one has `HAS_NEXT`
  have e := congrArg (fun l => l[m - 1]?) h
  rw [List.getElem?_append_left (by simp; omega), List.getElem?_append_left (by simp; omega),
    List.getElem?_map, List.getElem?_map, List.getElem?_range (by omega),
    List.getElem?_range (by omega)] at e
  simp only [Option.map_some, Option.some.injEq] at e
  have h1 := chainEntry_hasNext (n := n) (k := m - 1) (by omega)
  rw [e] at h1
  exact h1 (chainEntry_last (by omega))

theorem chainEntry_ne_free (n k : Nat) : chainEntry n k ≠ entryFree := by
  intro e
  have h := chainEntry_type n k
  rw [e] at h
  exact absurd h (by decide)

theorem chain_head {n : Nat} (hn : 0 < n) (es : List UInt8) :
    ∃ l, (List.range n).map (chainEntry n) ++ es = chainEntry n 0 :: l := by
  obtain ⟨m, rfl⟩ : ∃ m, n = m + 1 := ⟨n - 1, by omega⟩
  rw [List.range_succ_eq_map]
  exact ⟨_, rfl⟩

/-- **The chains of a table are unique.** -/
theorem TableParts.unique {i : Nat} {es : List UInt8} {cs cs' : List Extent}
    (h : TableParts i es cs) (h' : TableParts i es cs') : cs' = cs := by
  induction h generalizing cs' with
  | nil i =>
    generalize hes : ([] : List UInt8) = es at h'
    cases h' with
    | nil => rfl
    | free h' => cases hes
    | chain hn h' =>
      obtain ⟨l, hl⟩ := chain_head hn _
      rw [hl] at hes
      cases hes
  | free h ih =>
    rename_i i es cs
    generalize hes : entryFree :: es = fs at h'
    cases h' with
    | nil => cases hes
    | free h' =>
      cases hes
      exact ih h'
    | chain hn h' =>
      obtain ⟨l, hl⟩ := chain_head hn _
      rw [hl] at hes
      exact absurd (List.cons.inj hes).1.symm (chainEntry_ne_free _ _)
  | chain hn h ih =>
    rename_i i n es cs
    generalize hes : (List.range n).map (chainEntry n) ++ es = fs at h'
    cases h' with
    | nil =>
      obtain ⟨l, hl⟩ := chain_head hn es
      rw [hl] at hes
      cases hes
    | free h' =>
      obtain ⟨l, hl⟩ := chain_head hn es
      rw [hl] at hes
      exact absurd (List.cons.inj hes).1 (chainEntry_ne_free _ _)
    | chain hm h' =>
      rename_i m fs cs'
      have e : n = m :=
        Nat.le_antisymm (chain_append_inj hes hm) (chain_append_inj hes.symm hn)
      subst e
      have := List.append_cancel_left hes
      subst this
      rw [ih h']

/-- From entry `i` on the table is free entries and chains, and the chains are the extents of `L`
    that start there or later. -/
def PartsFrom (t : HeapTable) (L : List Extent) (i k : Nat) : Prop :=
  ∃ cs, TableParts i (t.slice i k) cs ∧ cs.Nodup ∧ ∀ e, e ∈ cs ↔ e ∈ L ∧ i ≤ e.start

section Parts

variable {t : HeapTable} {L : List Extent}

/-- No extent holds `i`: its entry is free, and the rest is as from `i + 1`. -/
theorem PartsFrom.free {i k : Nat} (hL : Layout t.total L) (hnone : ∀ a ∈ L, ¬ a.Has i)
    (hfree : t.entries i = entryFree) (h : PartsFrom t L (i + 1) k) : PartsFrom t L i (k + 1) := by
  obtain ⟨cs, hcs, hnd, hmem⟩ := h
  refine ⟨cs, ?_, hnd, fun e => ?_⟩
  · rw [HeapTable.slice_succ, hfree]
    exact .free hcs
  · rw [hmem]
    constructor
    · rintro ⟨he, hle⟩
      exact ⟨he, by omega⟩
    · rintro ⟨he, hle⟩
      have hp := hL.pos e he
      have hne : e.start ≠ i := fun h => hnone e he ⟨by omega, by omega⟩
      exact ⟨he, by omega⟩

/-- An extent starts at `i`: its entries are its chain, and the rest is as from its end. -/
theorem PartsFrom.chain {a : Extent} {k : Nat} (hL : Layout t.total L) (ha : a ∈ L)
    (hchain : t.Chain a) (h : PartsFrom t L (a.start + a.len) k) :
    PartsFrom t L a.start (a.len + k) := by
  obtain ⟨cs, hcs, hnd, hmem⟩ := h
  have hpos := hL.pos a ha
  refine ⟨a :: cs, ?_, ?_, fun e => ?_⟩
  · rw [HeapTable.slice_add, HeapTable.slice_chain hchain]
    exact .chain hpos hcs
  · refine List.nodup_cons.mpr ⟨fun h => ?_, hnd⟩
    have := ((hmem a).mp h).2
    omega
  · rw [List.mem_cons, hmem]
    constructor
    · rintro (rfl | ⟨he, hle⟩)
      · exact ⟨ha, by omega⟩
      · exact ⟨he, by omega⟩
    · rintro ⟨he, hle⟩
      by_cases hne : e = a
      · exact Or.inl hne
      · -- an extent behind `a`'s start that is apart from `a` starts behind its end
        have hap : e.start + e.len ≤ a.start ∨ a.start + a.len ≤ e.start :=
          hL.apart_of_ne he ha hne
        have := hL.pos e he
        exact Or.inr ⟨he, by omega⟩

/-- **A represented layout is read off the table**, from every entry that no extent straddles. -/
theorem partsFrom_of_layout (hL : Layout t.total L) (hchain : ∀ a ∈ L, t.Chain a)
    (hfree : ∀ i, i < t.total → (∀ a ∈ L, ¬ a.Has i) → t.entries i = entryFree) (k : Nat) :
    ∀ i, i + k = t.total → (∀ a ∈ L, a.start < i → a.start + a.len ≤ i) → PartsFrom t L i k := by
  induction k using Nat.strong_induction_on with
  | _ k ih =>
    intro i hik hstr
    rcases Nat.eq_zero_or_pos k with rfl | hk
    · refine ⟨[], .nil i, List.nodup_nil, fun e => ⟨fun h => absurd h List.not_mem_nil, ?_⟩⟩
      rintro ⟨he, hi⟩
      have := hL.inside e he
      have := hL.pos e he
      omega
    · by_cases hhas : ∃ a ∈ L, a.Has i
      · obtain ⟨a, ha, hai⟩ := hhas
        have hai' : a.start ≤ i ∧ i < a.start + a.len := hai
        have hin := hL.inside a ha
        have hst : a.start = i := by
          by_contra hne
          have := hstr a ha (by omega)
          omega
        have hrest : PartsFrom t L (a.start + a.len) (k - a.len) := by
          refine ih (k - a.len) (by omega) _ (by omega) fun b hb hlt => ?_
          by_cases e : b = a
          · rw [e]
          · have hap : b.start + b.len ≤ a.start ∨ a.start + a.len ≤ b.start :=
              hL.apart_of_ne hb ha e
            omega
        have h := PartsFrom.chain hL ha (hchain a ha) hrest
        have ek : a.len + (k - a.len) = k := by omega
        rw [ek, hst] at h
        exact h
      · have hnone : ∀ a ∈ L, ¬ a.Has i := fun a ha hai => hhas ⟨a, ha, hai⟩
        have hrest : PartsFrom t L (i + 1) (k - 1) := by
          refine ih (k - 1) (by omega) _ (by omega) fun a ha hlt => ?_
          have hp := hL.pos a ha
          have hne : a.start ≠ i := fun h => hnone a ha ⟨by omega, by omega⟩
          have := hstr a ha (by omega)
          omega
        have h := PartsFrom.free hL hnone (hfree i (by omega) hnone) hrest
        have ek : k - 1 + 1 = k := by omega
        rw [ek] at h
        exact h

end Parts

/-! ## 4. Well-formedness along a run -/

/-- **The invariant of runs that always find room**, relative to the heap they started from. -/
structure RunInv (base : Heap) (s : HeapState) : Prop where
  inv : HeapInv s.heap s.live
  off : OffLive base s.heap s.live
  saddr : s.heap.saddr = base.saddr
  total : s.heap.table.total = base.table.total
  clean : ∀ i, i < base.table.total → base.table.entries i = entryFree

theorem RunInv.start {heap₀ heap : Heap} (area : MemArea) {table : HeapTable}
    (hc : heapCreate heap₀ area.ptr area.endp table = (0, heap)) : RunInv heap ⟨heap, []⟩ where
  inv := HeapInv.nil (heapCreate_ok area hc).2
  off _ _ := rfl
  saddr := rfl
  total := rfl
  clean i hi := by
    rw [(heapCreate_ok area hc).1] at hi ⊢
    simp only [HeapTable.clear] at hi ⊢
    rw [if_pos (by omega)]

/-- A request that has room is no larger than the heap. -/
theorem HasRoom.size_le {s : HeapState} (hp : s.heap.Placed) {size : Nat} (h : HasRoom s size) :
    size ≤ 0xFFFFF000 := by
  obtain ⟨b, hb, _⟩ := h
  have := hp.span
  unfold blocksFor ceilDiv at hb
  omega

/-- The blocks of a live allocation were free at the start. -/
theorem RunInv.base_free {base : Heap} {s : HeapState} (h : RunInv base s) {a : Allocation}
    (ha : a ∈ s.live) {j : Int} (hj : (a.extent s.heap.saddr).HasInt j) :
    base.table.entries j = entryFree := by
  have hj' : ((a.extent s.heap.saddr).start : Int) ≤ j ∧
    j < (a.extent s.heap.saddr).start + (a.extent s.heap.saddr).len := hj
  have hin := h.inv.inside ha
  rw [h.total] at hin
  obtain ⟨i, rfl⟩ : ∃ i : Nat, j = i := ⟨j.toNat, by omega⟩
  exact h.clean i (by omega)

theorem RunInv.free {base : Heap} {s : HeapState} (h : RunInv base s) {a : Allocation}
    (ha : a ∈ s.live) : RunInv base (s.free a) where
  inv := heapInv_free h.inv ha
  off := offLive_free h.inv h.off ha fun _ hj => h.base_free ha hj
  saddr := h.saddr
  total := by rw [← h.total]; exact heapFree_total ..
  clean := h.clean

theorem runInv_step {base : Heap} {s s' : HeapState} (hs : HeapStep HasRoom s s')
    (h : RunInv base s) : RunInv base s' := by
  cases hs with
  | malloc size h1 hroom =>
    rcases malloc_cases h.inv.placed h1 (hroom.size_le h.inv.placed) (Or.inl hroom) with
      ⟨b, hb, _, e⟩ | ⟨hno, _⟩
    · rw [e]
      exact ⟨heapInv_take h.inv h1 hb.1 hb.2.1, offLive_take h.off, h.saddr,
        (heapMarkBlocksTaken_total ..).trans h.total, h.clean⟩
    · exact absurd hroom hno
  | free a ha => exact h.free ha

theorem runInv_run {base : Heap} {s s' : HeapState} (hr : HeapRun HasRoom s s')
    (h : RunInv base s) : RunInv base s' := by
  induction hr with
  | refl => exact h
  | tail _ hs ih => exact runInv_step hs ih

/-- The chains of the table are the live allocations. -/
theorem RunInv.parts {base : Heap} {s : HeapState} (h : RunInv base s) :
    ∃ cs, TableParts 0 (s.heap.table.slice 0 s.heap.table.total) cs ∧
      cs.Perm (s.live.map (Allocation.extent s.heap.saddr)) := by
  have hchain : ∀ a ∈ s.live.map (Allocation.extent s.heap.saddr), s.heap.table.Chain a := by
    intro e he
    obtain ⟨a, ha, rfl⟩ := List.mem_map.mp he
    exact h.inv.chain a ha
  have hfree : ∀ i, i < s.heap.table.total →
      (∀ a ∈ s.live.map (Allocation.extent s.heap.saddr), ¬ a.Has i) →
      s.heap.table.entries i = entryFree := by
    intro i hi hnone
    rw [h.off i fun a ha => by
      rw [Extent.hasInt_natCast]
      exact hnone _ (List.mem_map_of_mem ha)]
    exact h.clean i (by rw [← h.total]; exact hi)
  obtain ⟨cs, hcs, hnd, hmem⟩ := partsFrom_of_layout h.inv.layout hchain hfree
    s.heap.table.total 0 (by omega) fun a _ hlt => absurd hlt (Nat.not_lt_zero _)
  refine ⟨cs, hcs, (List.perm_ext_iff_of_nodup hnd h.inv.layout.nodup).mpr fun e => ?_⟩
  rw [hmem]
  exact ⟨fun h => h.1, fun h => ⟨h, Nat.zero_le _⟩⟩

/-- Releasing the live allocations in any order gives back the heap of the start. -/
theorem RunInv.free_all {base : Heap} {s : HeapState} (h : RunInv base s) {order : List Allocation}
    (hp : order.Perm s.live) : order.foldl (fun h a => heapFree h a.ptr) s.heap = base :=
  freeAll_restores order (h.inv.perm hp) (h.off.perm hp) h.saddr h.total fun _ ha _ hj =>
    h.base_free (hp.subset ha) hj

/-- **The heap table along every run whose requests find room**: it is a concatenation of free
    entries and chains, in one way only; the chains are the live allocations; a release clears the
    entries of its allocation and no other; releasing all, in any order, restores the created
    heap. -/
theorem heapRun_wellFormed {heap₀ heap : Heap} (area : MemArea) {table : HeapTable}
    (hc : heapCreate heap₀ area.ptr area.endp table = (0, heap)) {s : HeapState}
    (hr : HeapRun HasRoom ⟨heap, []⟩ s) :
    (∃ cs, TableParts 0 (s.heap.table.slice 0 s.heap.table.total) cs ∧
      (∀ cs', TableParts 0 (s.heap.table.slice 0 s.heap.table.total) cs' → cs' = cs) ∧
      cs.Perm (s.live.map (Allocation.extent s.heap.saddr))) ∧
    (∀ a ∈ s.live, ∀ j, (heapFree s.heap a.ptr).table.entries j =
      if (a.extent s.heap.saddr).HasInt j then entryFree else s.heap.table.entries j) ∧
    (∀ order : List Allocation, order.Perm s.live →
        order.foldl (fun h a => heapFree h a.ptr) s.heap = heap) := by
  have h : RunInv heap s := runInv_run hr (RunInv.start area hc)
  obtain ⟨cs, hcs, hp⟩ := h.parts
  exact ⟨⟨cs, hcs, fun cs' hcs' => hcs.unique hcs', hp⟩, fun a ha j => heapFree_entries h.inv ha j,
    fun _ ho => h.free_all ho⟩

/-- Room for a request of one block. -/
theorem HasRoom.one {s : HeapState} {b size : Nat} (hb : b < s.heap.table.total)
    (hfree : s.heap.IsFree b) (hs : blocksFor size = 1) : HasRoom s size := by
  refine ⟨b, by omega, fun i h1 h2 => ?_⟩
  obtain rfl : i = b := by omega
  exact hfree

/-- On the kernel heap: two requests, a release of the first one, a request that takes its place;
    then everything is released. -/
theorem heapRun_wellFormed_kernel :
    ∃ s, HeapRun HasRoom ⟨kernelHeap fun _ => 0, []⟩ s ∧
      s.live = [⟨0x01000000, 4000⟩, ⟨0x01002000, 100⟩] ∧
      s.live.foldl (fun h a => heapFree h a.ptr) s.heap = kernelHeap fun _ => 0 := by
  obtain ⟨s₁, e₁⟩ : ∃ s₁, HeapState.malloc ⟨kernelHeap fun _ => 0, []⟩ 5000 = s₁ := ⟨_, rfl⟩
  obtain ⟨s₂, e₂⟩ : ∃ s₂, s₁.malloc 100 = s₂ := ⟨_, rfl⟩
  obtain ⟨s₃, e₃⟩ : ∃ s₃, s₂.free ⟨0x01000000, 5000⟩ = s₃ := ⟨_, rfl⟩
  have h₁ : HasRoom s₁ 100 := HasRoom.one (b := 2) (by subst e₁; decide +kernel)
    (by subst e₁; decide +kernel) (by decide)
  have h₂ : (⟨0x01000000, 5000⟩ : Allocation) ∈ s₂.live := by
    subst e₂ e₁
    decide +kernel
  have h₃ : HasRoom s₃ 4000 := HasRoom.one (b := 0) (by subst e₃ e₂ e₁; decide +kernel)
    (by subst e₃ e₂ e₁; decide +kernel) (by decide)
  have hlive : (s₃.malloc 4000).live = [⟨0x01000000, 4000⟩, ⟨0x01002000, 100⟩] := by
    subst e₃ e₂ e₁
    decide +kernel
  have hr₁ : HeapRun HasRoom ⟨kernelHeap fun _ => 0, []⟩ s₁ :=
    e₁ ▸ .tail .refl (.malloc _ 5000 (by decide) (kernelHeap_hasRoom (fun _ => 0) 5000 (by decide)))
  have hr₂ : HeapRun HasRoom ⟨kernelHeap fun _ => 0, []⟩ s₂ :=
    e₂ ▸ .tail hr₁ (.malloc s₁ 100 (by decide) h₁)
  have hr₃ : HeapRun HasRoom ⟨kernelHeap fun _ => 0, []⟩ s₃ := e₃ ▸ .tail hr₂ (.free s₂ _ h₂)
  have hr : HeapRun HasRoom ⟨kernelHeap fun _ => 0, []⟩ (s₃.malloc 4000) :=
    .tail hr₃ (.malloc s₃ 4000 (by decide) h₃)
  exact ⟨_, hr, hlive, (heapRun_wellFormed kheapArea (kheapInit_eq _) hr).2.2 _ (List.Perm.refl _)⟩

end PeachKernel
