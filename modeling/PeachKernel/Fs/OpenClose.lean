/-
  File:      PeachKernel/Fs/OpenClose.lean
  Subject:   What `fopen` and the `fclose` behind it leave on the heap.

  `fopen` parses the path into a root and parts, each in a block of its own, and no exit of `fopen`
  hands them to `pathparser_free`. The root is allocated first and stays.

  * `Holds` -- allocations that are still there; requests and releases of other blocks keep them;
  * `openClose_holds_root` -- the root is there behind `fopen` and `fclose` over FAT32;
  * `openClose_restores_iff` -- when the table is as before: exactly where no root is allocated.
-/
import PeachKernel.Fs.Fat32File

namespace PeachKernel

open CInt Mem

/-! ## 1. Blocks that stay -/

/-- The allocations are in place, and a release of the null pointer cannot reach them. -/
structure Holds (saddr : Nat) (live : List Allocation) (k : Kernel) : Prop where
  place : k.heap.saddr = saddr
  inv : HeapInv k.heap live
  stops : k.heap.NullStops

section Holding

variable {k k' : Kernel} {saddr : Nat} {live : List Allocation} {a : Allocation}

/-- An owner may forget an allocation. -/
theorem Holds.forget (h : Holds saddr (a :: live) k) : Holds saddr live k where
  inv :=
    { placed := h.inv.placed
      addr := fun b hb => h.inv.addr b (List.mem_cons_of_mem _ hb)
      layout := h.inv.layout.sublist ((List.sublist_cons_self a live).map _)
      chain := fun b hb => h.inv.chain b (List.mem_cons_of_mem _ hb) }
  stops := h.stops
  place := h.place

theorem Holds.swap {b : Allocation} (h : Holds saddr (a :: b :: live) k) :
    Holds saddr (b :: a :: live) k :=
  ⟨h.place, h.inv.perm (List.Perm.swap a b live), h.stops⟩

/-- **A request that is granted** adds an allocation. -/
theorem Holds.grant (h : Holds saddr live k) {size : Nat} (h1 : 1 ≤ size) (h2 : size ≤ 4096)
    (hne : (kzalloc k size).1 ≠ 0) :
    Holds saddr (⟨(kzalloc k size).1, size⟩ :: live) (kzalloc k size).2 := by
  have hf := freeBlocks_pos h.inv.placed h1 h2 hne
  obtain ⟨ptr, k', e, hg, -⟩ := kzalloc_grows h.inv hf size h1 h2
  rw [e]
  exact ⟨hg.saddr.trans h.place, hg.inv, h.stops.congr hg.saddr fun j hj =>
    hg.off j fun b _ => (b.extent _).not_hasInt_neg hj⟩

/-- A release takes an allocation away. -/
theorem Holds.free (h : Holds saddr (a :: live) k) : Holds saddr live (kfree k a.ptr) where
  place := h.place
  inv := by
    have hinv := heapInv_free h.inv List.mem_cons_self
    rwa [List.erase_cons_head] at hinv
  stops := h.stops.congr (heapFree_saddr ..) fun j hj => by
    show (heapFree k.heap a.ptr).table.entries j = _
    rw [heapFree_entries h.inv List.mem_cons_self,
      if_neg ((a.extent _).not_hasInt_neg hj)]

/-- The release of the null pointer. -/
theorem Holds.free_null (h : Holds saddr live k) : Holds saddr live (kfree k 0) where
  place := h.place
  inv := h.inv.congr (heapFree_total ..) (heapFree_saddr ..) fun _ _ i _ => heapFree_null h.stops i
  stops := h.stops.free

/-- **The parser keeps what others hold.** -/
theorem parserKeeps_holds (saddr : Nat) (live : List Allocation) :
    ParserKeeps (Holds saddr live) where
  alloc {k} size h1 h2 h := by
    by_cases h0 : (kzalloc k size).1 = 0
    · rw [kzalloc_null h.inv.placed h1 h2 h0]
      exact h
    · exact (h.grant h1 h2 h0).forget
  giveBack {k} h := by
    by_cases h0 : (kzalloc k 108).1 = 0
    · rw [kzalloc_null h.inv.placed (by decide) (by decide) h0]
      exact h.free_null
    · exact (h.grant (by decide) (by decide) h0).free

end Holding

/-! ## 2. Opening and closing -/

/-- `fopen`, and `fclose` of the file descriptor where there is one. -/
def openClose {π : Type} (s : Files π) (filename modeStr : List UInt8) : Option (Files π) :=
  match fopen s filename modeStr with
  | none => none
  | some (fd, s) => some (if 0 < fd then (fclose s fd).2 else s)

/-- No root is allocated: the path is too long or has no drive, or no block is free. -/
def NoRoot {π : Type} (s : Files π) (filename : List UInt8) : Prop :=
  108 < strlen filename ∨ ¬ StartsWithDrive filename ∨ freeBlocks s.kernel.heap = 0

/-- Without a root nothing happens. -/
theorem openClose_noRoot {π : Type} {s : Files π} (hp : s.kernel.heap.Placed)
    {filename : List UInt8} (modeStr : List UInt8) (h : NoRoot s filename) :
    openClose s filename modeStr = some s := by
  have hparse : pathparserParse s.kernel filename = (none, s.kernel) := by
    rcases pathparserParse_cases s.kernel filename with
      ⟨-, e⟩ | ⟨hl, hd, ⟨h0, e⟩ | ⟨h0, -⟩⟩
    · exact e
    all_goals
      have hf : freeBlocks s.kernel.heap = 0 :=
        (h.resolve_left (Nat.not_lt.mpr hl)).resolve_left (not_not.mpr hd)
      have hnull := kzalloc_full hp hf (show 1 ≤ 8 by decide) (by decide)
    · rw [e, hnull]
    · exact absurd (congrArg Prod.fst hnull) h0
  have hfopen : fopen s filename modeStr = some (0, s) := by
    unfold fopen fopenPrivate
    rw [hparse]
    rfl
  unfold openClose
  rw [hfopen]
  rfl

section Fat32

variable {s s' : Files FileHandle} {filename modeStr : List UInt8}

/-- The disk has a FAT32 volume, or no filesystem. -/
def OnFat32 (s : Files FileHandle) : Prop :=
  ∀ filesystem, s.disk = some filesystem → ∃ d fs fuel, filesystem = fat32Fs d fs fuel

/-- Up to the descriptor: what is held stays held, and the handle is held too. -/
theorem fopenPrivate_holds {saddr : Nat} {live : List Allocation} (hd : OnFat32 s)
    (h : Holds saddr live (pathparserParse s.kernel filename).2)
    {r : Except Int (Filesystem FileHandle × Nat × FileHandle)} {k : Kernel}
    (hr : fopenPrivate s filename modeStr = some (r, k)) :
    Holds saddr live k ∧ ∀ filesystem ptr p, r = .ok (filesystem, ptr, p) →
      (∃ d fs fuel, filesystem = fat32Fs d fs fuel) ∧ Holds saddr (⟨ptr, 24⟩ :: live) k := by
  rcases fopenPrivate_cases hr with
    ⟨e, -, rfl, rfl⟩ | ⟨root, part, next, filesystem, r', -, -, -, hdisk, ho, hcase⟩
  · refine ⟨h, fun _ _ _ e => ?_⟩
    cases e
  · obtain ⟨d, fs, fuel, rfl⟩ := hd filesystem hdisk
    rw [fat32Fs_open] at ho
    rcases fat32Open_cases ho with ⟨e, -, rfl, rfl⟩ | ⟨rfl, halloc⟩
    · refine ⟨h, fun _ _ _ e' => ?_⟩
      rcases hcase with ⟨_, -, rfl⟩ | ⟨_, e'', -⟩
      · cases e'
      · cases e''
    · refine ⟨(parserKeeps_holds saddr live).alloc 24 (by decide) (by decide) h,
        fun _ ptr p e' => ?_⟩
      rcases hcase with ⟨_, -, rfl⟩ | ⟨q, rfl, rfl⟩
      · cases e'
      · obtain ⟨rfl, rfl⟩ := Prod.mk.inj (Except.ok.inj e')
        rcases halloc with ⟨-, e⟩ | ⟨hne, _, e⟩
        · cases e
        · obtain ⟨rfl, -⟩ := Prod.mk.inj (Except.ok.inj e)
          exact ⟨⟨d, fs, fuel, rfl⟩, h.grant (by decide) (by decide) hne⟩

/-- **What is held behind the parser is held behind `fopen` and `fclose`.** -/
theorem openClose_holds {saddr : Nat} {live : List Allocation} (hd : OnFat32 s)
    (h : Holds saddr live (pathparserParse s.kernel filename).2)
    (hr : openClose s filename modeStr = some s') : Holds saddr live s'.kernel := by
  unfold openClose at hr
  cases hopen : fopen s filename modeStr with
  | none =>
    rw [hopen] at hr
    cases hr
  | some r =>
    obtain ⟨fd, s₁⟩ := r
    rw [hopen] at hr
    obtain rfl := Option.some.inj hr
    rcases fopen_cases hopen with
      ⟨rfl, r, k, hpriv, rfl⟩ | ⟨filesystem, ⟨ptr, p⟩, k, i, hpriv, hfree, rfl, hcase⟩
    · exact (fopenPrivate_holds hd h hpriv).1
    · obtain ⟨⟨d, fs, fuel, rfl⟩, hk⟩ := (fopenPrivate_holds hd h hpriv).2 _ _ _ rfl
      have hslot : ((i : Int) + 1 - 1).toNat = i := by omega
      rw [if_pos (by omega)]
      rcases hcase with ⟨h0, rfl⟩ | ⟨h0, rfl⟩
      · -- the slot is empty, so `fclose` finds no descriptor
        obtain ⟨-, hnone, -⟩ := freeSlot_some hfree
        have hget : fileGetDescriptor { s with kernel := (kzalloc k 16).2 }
            ((i : Int) + 1) = none := by
          unfold fileGetDescriptor
          dsimp only
          rw [hslot]
          split
          · rfl
          · exact hnone
        unfold fclose
        rw [hget]
        exact ((parserKeeps_holds _ _).alloc 16 (by decide) (by decide) hk).forget
      · have hdesc := hk.grant (show 1 ≤ 16 by decide) (by decide) h0
        by_cases hi : i < 511
        · have hget : fileGetDescriptor ({ s with kernel := (kzalloc k 16).2 }.set i
              (some ⟨(kzalloc k 16).1, i + 1, fat32Fs d fs fuel, (ptr, p)⟩)) ((i : Int) + 1) =
              some ⟨(kzalloc k 16).1, i + 1, fat32Fs d fs fuel, (ptr, p)⟩ := by
            rw [fileGetDescriptor_inside (by omega) (by omega), hslot, Files.set_self]
          rw [fclose_eq hget]
          exact (hdesc.swap.free).free
        · have hget : fileGetDescriptor ({ s with kernel := (kzalloc k 16).2 }.set i
              (some ⟨(kzalloc k 16).1, i + 1, fat32Fs d fs fuel, (ptr, p)⟩))
              ((i : Int) + 1) = none :=
            if_pos (by omega)
          unfold fclose
          rw [hget]
          exact hdesc.forget.forget

/-- **The root stays**: its block was free before, and is not free behind `fopen` and `fclose`. -/
theorem openClose_holds_root (hp : s.kernel.heap.Placed) (hn : s.kernel.heap.NullStops)
    (hd : OnFat32 s) (hroot : ¬ NoRoot s filename)
    (hr : openClose s filename modeStr = some s') :
    ∃ b, b < s.kernel.heap.table.total ∧ s.kernel.heap.IsFree b ∧ ¬ s'.kernel.heap.IsFree b := by
  have hroot := not_or.mp hroot
  have hroot' := not_or.mp hroot.2
  obtain ⟨ptr, k₁, e₁, hg, hne, -⟩ := kzalloc_grows (HeapInv.nil hp)
    (Nat.pos_of_ne_zero hroot'.2) 8 (by decide) (by decide)
  -- the block of the root, held from its allocation on
  have hhold : Holds s.kernel.heap.saddr [⟨ptr, 8⟩] (kzalloc s.kernel 8).2 := by
    have h := Holds.grant ⟨rfl, HeapInv.nil hp, hn⟩ (show 1 ≤ 8 by decide) (by decide)
      (by rw [e₁]; exact hne)
    rwa [congrArg Prod.fst e₁] at h
  have hparse : Holds s.kernel.heap.saddr [⟨ptr, 8⟩] (pathparserParse s.kernel filename).2 := by
    rcases pathparserParse_cases s.kernel filename with
      ⟨href, -⟩ | ⟨-, -, ⟨h0, -⟩ | ⟨-, root, k', e, -, hkeep⟩⟩
    · exact absurd href (not_or.mpr ⟨hroot.1, hroot'.1⟩)
    · rw [e₁] at h0
      exact absurd h0 hne
    · rw [e]
      exact hkeep (parserKeeps_holds _ _) hhold
  have hend := openClose_holds hd hparse hr
  have hmem : (⟨ptr, 8⟩ : Allocation) ∈ [(⟨ptr, 8⟩ : Allocation)] := List.mem_cons_self
  have hpos := hg.inv.pos hmem
  have hin := hg.inv.inside hmem
  have htotal := hg.total
  refine ⟨(Allocation.extent k₁.heap.saddr ⟨ptr, 8⟩).start, by omega,
    hg.wasFree _ hmem _ ⟨Nat.le_refl _, by omega⟩, hend.inv.not_isFree hmem ?_⟩
  rw [hend.place, ← hg.saddr]
  exact ⟨Nat.le_refl _, by omega⟩

end Fat32

/-- **When `fopen` and `fclose` leave the heap table as it was.** Over every filesystem they do
    where no root is allocated; over FAT32, where memory below the table stops a release of the null
    pointer, they do only there. -/
theorem openClose_restores_iff (filename modeStr : List UInt8) :
    (∀ (π : Type) (s : Files π), s.kernel.heap.Placed → NoRoot s filename →
      ∃ s', openClose s filename modeStr = some s' ∧ SameTable s.kernel.heap s'.kernel.heap) ∧
    (∀ s s' : Files FileHandle, s.kernel.heap.Placed → s.kernel.heap.NullStops → OnFat32 s →
      openClose s filename modeStr = some s' →
      (SameTable s.kernel.heap s'.kernel.heap ↔ NoRoot s filename)) := by
  refine ⟨fun π s hp h => ⟨s, openClose_noRoot hp modeStr h, fun _ _ => rfl⟩,
    fun s s' hp hn hd hr => ⟨fun hsame => ?_, fun h => ?_⟩⟩
  · by_contra hroot
    obtain ⟨b, hb, hfree, htaken⟩ := openClose_holds_root hp hn hd hroot hr
    refine htaken ?_
    unfold Heap.IsFree at hfree ⊢
    rwa [hsame b hb]
  · obtain rfl := Option.some.inj ((openClose_noRoot hp modeStr h).symm.trans hr)
    exact fun _ _ => rfl

/-! ## 3. On the small volume -/

theorem smallKernel_nullStops : smallKernel.heap.NullStops :=
  ⟨-1, by decide +kernel, by decide, by decide +kernel⟩

/-- `fopen("0:/a", "r")` comes back. -/
theorem openClose_small : ∃ s', openClose
    (fsInit smallKernel (some (fat32Fs oneFileVolume smallPrivate 1))) pathA modeR = some s' := by
  obtain ⟨c, s, hopen, -⟩ := openA (show SmallFiles _ (25592 + 5) from smallKernel_files)
    (show freeSlot _ = some 0 from List.find?_range_eq_some.mpr
      ⟨rfl, List.mem_range.mpr (by decide), fun j hj => absurd hj (Nat.not_lt_zero j)⟩)
  unfold openClose
  rw [hopen]
  exact ⟨_, rfl⟩

theorem onFat32_small :
    OnFat32 (fsInit smallKernel (some (fat32Fs oneFileVolume smallPrivate 1))) := by
  intro filesystem h
  exact ⟨oneFileVolume, smallPrivate, 1, (Option.some.inj h).symm⟩

theorem not_noRoot_small :
    ¬ NoRoot (fsInit smallKernel (some (fat32Fs oneFileVolume smallPrivate 1))) pathA := by
  have hfree : freeBlocks smallKernel.heap = 25597 := smallKernel_files.free
  rintro (h | h | h)
  · exact absurd h (by decide)
  · exact h ⟨rfl, rfl, rfl⟩
  · have h : freeBlocks smallKernel.heap = 0 := h
    omega

/-- **A file is opened and closed, and the table is not as before.** -/
theorem openClose_leaks : ∃ s', openClose
    (fsInit smallKernel (some (fat32Fs oneFileVolume smallPrivate 1))) pathA modeR = some s' ∧
    ¬ SameTable smallKernel.heap s'.kernel.heap := by
  obtain ⟨s', hr⟩ := openClose_small
  obtain ⟨b, hb, hfree, htaken⟩ := openClose_holds_root smallKernel_files.placed
    smallKernel_nullStops onFat32_small not_noRoot_small hr
  refine ⟨s', hr, fun hsame => htaken ?_⟩
  unfold Heap.IsFree at hfree ⊢
  rw [hsame b hb]
  exact hfree

/-- `"a"` has no drive; `"0:/a"` has one, and its root stays. -/
theorem openClose_restores_iff_small :
    (∃ s', openClose (fsInit smallKernel (some (fat32Fs oneFileVolume smallPrivate 1))) [0x61]
      modeR = some s' ∧ SameTable smallKernel.heap s'.kernel.heap) ∧
    ∃ s', openClose (fsInit smallKernel (some (fat32Fs oneFileVolume smallPrivate 1))) pathA
      modeR = some s' ∧ ¬ SameTable smallKernel.heap s'.kernel.heap := by
  obtain ⟨h1, -⟩ := openClose_restores_iff [0x61] modeR
  obtain ⟨-, h2⟩ := openClose_restores_iff pathA modeR
  obtain ⟨s', hr⟩ := openClose_small
  refine ⟨h1 _ _ smallKernel_files.placed (Or.inr (Or.inl fun h => ?_)), s', hr,
    fun hsame => not_noRoot_small ?_⟩
  · exact absurd h.1 (by decide)
  · exact (h2 _ s' smallKernel_files.placed smallKernel_nullStops onFat32_small hr).mp hsame

end PeachKernel
