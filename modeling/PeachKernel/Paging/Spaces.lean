/-
  File:      PeachKernel/Paging/Spaces.lean
  Subject:   Many directories on one heap: any order of `paging_new_4gb`, mapping calls and
             `paging_free_4gb`.

  A caller knows a directory by the address of its chunk and expects a map of its own: 1048576
  pages, each with an entry, changed by the calls on that chunk and by nothing else. Memory holds
  1026 blocks for each, side by side in one heap with everything else the kernel asks for.

  * `PageMap`, `PagingCall.apply` -- the entries of all pages, and what a mapping call does to them,
    around the end of the address space and for arguments that are not aligned as well;
  * `HoldsPages` -- memory holds a page map; `HoldsPages.run` -- any call does to it what `apply`
    says;
  * `Spaces`, `SpaceStep` -- the kernel with its directories; `AddressStep` -- page maps by
    themselves;
  * `spaceRun_refines` -- every run of the one is a run of the other; `spaceRun_own_calls` -- the
    calls on other directories do not count.
-/
import PeachKernel.Lib.Simulation
import PeachKernel.Paging.NewDirectory
import Mathlib.Logic.Function.Basic

namespace PeachKernel

open CInt Mem

/-! ## 1. Page maps -/

/-- The entry of every page. -/
abbrev PageMap : Type := Fin 1048576 → Nat

/-- The page of an address. -/
def pageOf (v : UInt32) : Fin 1048576 := ⟨v.toNat / 4096, by have := v.toNat_lt; omega⟩

/-- Every page is itself, with these flags. -/
def PageMap.identity (flags : Nat) : PageMap := fun q => (q.val * 4096) ||| flags

def PageMap.set (p : PageMap) (page val : Nat) : PageMap :=
  fun q => if q.val = page then val else p q

/-- `n` pages from `virt` on get the entries of the pages from `phys` on, both counted around the
    end of the address space. -/
def PageMap.range (p : PageMap) (virt phys n flags : Nat) : PageMap := fun q =>
  if (q.val + 1048576 - virt / 4096) % 1048576 < n then
    u32 ((phys + (q.val + 1048576 - virt / 4096) % 1048576 * 4096 : Nat) : Int) ||| flags
  else p q

/-- Where an address leads. -/
def PageMap.physical (p : PageMap) (v : UInt32) : Nat :=
  u32 (((p (pageOf v) &&& 0xFFFFF000) + v.toNat % 4096 : Nat) : Int)

/-- **What a call does to the page map.** -/
def PagingCall.apply (p : PageMap) : PagingCall → PageMap
  | .map virt phys flags =>
    if virt.toNat % 4096 = 0 ∧ phys.toNat % 4096 = 0 then
      p.set (virt.toNat / 4096) (phys.toNat ||| flags.toNat)
    else p
  | .mapRange virt phys count flags =>
    if virt.toNat % 4096 = 0 ∧ phys.toNat % 4096 = 0 then
      p.range virt.toNat phys.toNat count.toNat flags.toNat
    else p
  | .mapTo virt phys physEnd flags =>
    if MapRefused virt.toNat phys.toNat physEnd.toNat then p
    else p.range virt.toNat phys.toNat ((physEnd.toNat - phys.toNat) / 4096) flags.toNat
  | .set virt val => if virt.toNat % 4096 = 0 then p.set (virt.toNat / 4096) val.toNat else p

theorem PageMap.range_zero (p : PageMap) (virt phys flags : Nat) : p.range virt phys 0 flags = p :=
  funext fun _ => if_neg (Nat.not_lt_zero _)

/-- The page behind page `i` from the next one on. -/
theorem u32_page_succ (phys i : Nat) :
    u32 ((u32 ((phys : Int) + 4096) + i * 4096 : Nat) : Int) =
      u32 ((phys + (i + 1) * 4096 : Nat) : Int) := by
  unfold u32
  omega

/-- An address, a whole address space further. -/
theorem u32_round {v : Nat} (h : v < 4294967296) : u32 ((v + 4294967296 : Nat) : Int) = v := by
  have hcast : ((v + 4294967296 : Nat) : Int) = (v : Int) + 4294967296 := Nat.cast_add _ _
  unfold u32
  rw [hcast, Int.add_emod_right, Int.emod_eq_of_lt (by omega) (by omega)]
  rfl

/-- The first page of a range, then the rest. A range longer than the address space comes round to
    the pages it began with, and enters the same there: the physical addresses have come round as
    well. -/
theorem PageMap.range_succ (p : PageMap) {virt phys : Nat} (hv : virt % 4096 = 0)
    (hvb : virt < 4294967296) (hpb : phys < 4294967296) (n flags : Nat) :
    (p.set (virt / 4096) (phys ||| flags)).range (u32 ((virt : Int) + 4096))
    (u32 ((phys : Int) + 4096)) n
      flags = p.range virt phys (n + 1) flags := by
  funext ⟨q, hq⟩
  have hnext : u32 ((virt : Int) + 4096) / 4096 = (virt / 4096 + 1) % 1048576 := by
    unfold u32
    omega
  unfold PageMap.range PageMap.set
  dsimp only
  rw [hnext]
  by_cases hfirst : q = virt / 4096
  · -- the first page, which the rest may reach again, a whole address space later
    have h0 : (q + 1048576 - virt / 4096) % 1048576 = 0 := by omega
    have hlast : (q + 1048576 - (virt / 4096 + 1) % 1048576) % 1048576 = 1048575 := by omega
    have hround : u32 ((phys + (1048575 + 1) * 4096 : Nat) : Int) = phys := u32_round hpb
    have hself : u32 ((phys + 0 * 4096 : Nat) : Int) = phys := u32_natCast_of_lt (by omega)
    rw [h0, hlast, u32_page_succ, hround, hself, if_pos (Nat.succ_pos n), if_pos hfirst]
    exact ite_self _
  · have hbehind : (q + 1048576 - virt / 4096) % 1048576 =
        (q + 1048576 - (virt / 4096 + 1) % 1048576) % 1048576 + 1 := by omega
    generalize (q + 1048576 - (virt / 4096 + 1) % 1048576) % 1048576 = i at hbehind
    rw [hbehind, u32_page_succ, if_neg hfirst]
    simp only [Nat.succ_lt_succ_iff]

/-! ## 2. Page maps in memory -/

/-- **Memory holds the page map** in the directory of the chunk. -/
structure HoldsPages (m : Mem) (chunk dir : Nat) (p : PageMap) : Prop where
  dirOk : DirOk m dir
  chunkOk : ChunkOk m chunk dir
  entry : ∀ q : Fin 1048576, pte m dir q.val = p q

section Holding

variable {m : Mem} {chunk dir : Nat} {p : PageMap}

/-- A word of a table. -/
theorem HoldsPages.set (h : HoldsPages m chunk dir p) {page val : Nat} (hp : page < 1048576)
    (hv : val < 4294967296) :
    HoldsPages (store32 m (tableOf m dir (page / 1024) + 4 * (page % 1024)) val) chunk dir
      (p.set page val) := by
  have hm := mapsTo_store h.dirOk hp hv
  refine ⟨hm.dirOk h.dirOk, hm.chunkOk h.chunkOk, fun q => ?_⟩
  rw [hm.entry q.val q.isLt, h.entry q]
  unfold PageMap.set
  split
  · rfl
  · rfl

theorem HoldsPages.map (h : HoldsPages m chunk dir p) {virt phys flags : Nat} (hv : virt % 4096 = 0)
    (hp : phys % 4096 = 0) (hvb : virt < 4294967296) (hpb : phys < 4294967296)
    (hf : flags < 4294967296) :
    (pagingMap m chunk virt phys flags).1 = 0 ∧
      HoldsPages (pagingMap m chunk virt phys flags).2 chunk dir
        (p.set (virt / 4096) (phys ||| flags)) := by
  rw [pagingMap_of_aligned m chunk flags hv hp, h.chunkOk.1]
  exact ⟨rfl, h.set (by omega) (Nat.or_lt_two_pow (n := 32) hpb hf)⟩

/-- A call with an address that is not aligned. -/
theorem pagingMap_unaligned (m : Mem) (chunk : Nat) {virt phys : Nat} (flags : Nat)
    (h : ¬ (virt % 4096 = 0 ∧ phys % 4096 = 0)) :
    pagingMap m chunk virt phys flags = (-EINVARG, m) := by
  unfold pagingMap
  exact if_pos (by omega)

/-- **The loop of `paging_map_range`**: induction on the pages still to map. -/
theorem HoldsPages.mapRange {flags : Nat} (hf : flags < 4294967296) (n : Nat) :
    ∀ {m : Mem} {p : PageMap} {virt phys : Nat} (res : Int), HoldsPages m chunk dir p →
    virt % 4096 = 0 →
      phys % 4096 = 0 → virt < 4294967296 → phys < 4294967296 →
      HoldsPages (pagingMapRange chunk flags n virt phys res m).2 chunk dir
        (p.range virt phys n flags) := by
  induction n with
  | zero =>
    intro m p virt phys res h _ _ _ _
    rw [PageMap.range_zero]
    exact h
  | succ n ih =>
    intro m p virt phys res h hv hp hvb hpb
    obtain ⟨hres, h₁⟩ := h.map hv hp hvb hpb hf
    rw [← PageMap.range_succ p hv hvb hpb]
    unfold pagingMapRange
    dsimp only
    rw [hres, if_neg (Int.lt_irrefl 0)]
    refine ih 0 h₁ ?_ ?_ (u32_lt _) (u32_lt _)
    · unfold u32
      omega
    · unfold u32
      omega

theorem pagingMapRange_unaligned (m : Mem) (chunk flags n : Nat) {virt phys : Nat} (res : Int)
    (h : ¬ (virt % 4096 = 0 ∧ phys % 4096 = 0)) :
    (pagingMapRange chunk flags n virt phys res m).2 = m := by
  cases n with
  | zero => rfl
  | succ n =>
    unfold pagingMapRange
    rw [pagingMap_unaligned m chunk flags h]
    exact congrArg Prod.snd (if_pos (by decide))

/-- **Any mapping call**, with any arguments, does to the page map what it says. -/
theorem HoldsPages.run (h : HoldsPages m chunk dir p) (c : PagingCall) :
    HoldsPages (c.run chunk m) chunk dir (c.apply p) := by
  cases c with
  | map virt phys flags =>
    unfold PagingCall.run PagingCall.apply
    dsimp only
    split
    · rename_i hal
      exact (h.map hal.1 hal.2 virt.toNat_lt phys.toNat_lt flags.toNat_lt).2
    · rename_i hal
      rw [pagingMap_unaligned m chunk _ hal]
      exact h
  | mapRange virt phys count flags =>
    unfold PagingCall.run PagingCall.apply
    dsimp only
    split
    · rename_i hal
      exact HoldsPages.mapRange flags.toNat_lt _ 0 h hal.1 hal.2 virt.toNat_lt phys.toNat_lt
    · rename_i hal
      rw [pagingMapRange_unaligned m chunk _ _ 0 hal]
      exact h
  | mapTo virt phys physEnd flags =>
    unfold PagingCall.run PagingCall.apply
    dsimp only
    split
    · rename_i href
      rw [pagingMapTo_refused m chunk _ href]
      exact h
    · rename_i href
      unfold MapRefused at href
      unfold pagingMapTo
      rw [if_neg (by omega), if_neg (by omega), if_neg (by omega), if_neg (by omega)]
      exact HoldsPages.mapRange flags.toNat_lt _ 0 h (by omega)
        (by omega) virt.toNat_lt phys.toNat_lt
  | set virt val =>
    unfold PagingCall.run PagingCall.apply
    dsimp only
    rw [h.chunkOk.1]
    have hpage := (pageOf virt).isLt
    split
    · rename_i hal
      rw [pagingSet_of_aligned m dir _ hal]
      exact h.set hpage val.toNat_lt
    · rename_i hal
      unfold pagingSet pagingIsAligned
      rw [if_pos (by simpa using hal)]
      exact h

/-- The translation of the directory is that of the page map, -/
theorem HoldsPages.physical (h : HoldsPages m chunk dir p) (v : UInt32) :
    pagingGetPhysicalAddress m dir v.toNat = p.physical v := by
  rw [pagingGetPhysicalAddress_eq]
  unfold PageMap.physical
  rw [← h.entry (pageOf v)]
  rfl

/-- ... and so are its flags. -/
theorem HoldsPages.flags (h : HoldsPages m chunk dir p) (v : UInt32) :
    flagsAt m dir v.toNat = p (pageOf v) &&& 0xFFF := by
  unfold flagsAt
  rw [pagingGet_lower, ← h.entry (pageOf v)]
  rfl

end Holding

/-! ## 3. Directories side by side -/

/-- The page map of a directory. -/
def pageMap (m : Mem) (dir : Nat) : PageMap := fun q => pte m dir q.val

/-- The kernel, and the directories that were made and not freed. -/
structure Spaces where
  kernel : Kernel
  live : List Directory

/-- The blocks of all directories. -/
def Spaces.blocks (s : Spaces) : List Allocation := s.live.flatMap Directory.allocations

/-- What happens to a directory, which is known by its chunk, or to something else. -/
inductive SpaceEvent where
  | new (flags : UInt8) (chunk : Nat)
  | call (chunk : Nat) (c : PagingCall)
  | free (chunk : Nat)
  | other

/-- **One step.** Whatever else the kernel does, it takes and gives back other blocks, and does not
    write into those of the directories. -/
inductive SpaceStep : Spaces → SpaceEvent → Spaces → Prop where
  | new {s : Spaces} {flags : UInt8} {k : Kernel} {d : Directory}
      (hroom : 1026 ≤ freeBlocks s.kernel.heap)
      (h : pagingNew4gb s.kernel flags.toNat = (d.chunk, k)) (hd : HasDirectory k.mem d) :
      SpaceStep s (.new flags d.chunk) ⟨k, d :: s.live⟩
  | call {s : Spaces} {d : Directory} {c : PagingCall} (hd : d ∈ s.live) :
      SpaceStep s (.call d.chunk c) ⟨⟨s.kernel.heap, c.run d.chunk s.kernel.mem⟩, s.live⟩
  | free {s : Spaces} {d : Directory} {rest : List Directory} (hd : s.live.Perm (d :: rest)) :
      SpaceStep s (.free d.chunk) ⟨pagingFree4gb s.kernel d.chunk, rest⟩
  | other {s : Spaces} {k : Kernel} (hinv : HeapInv k.heap s.blocks)
      (hmem : ∀ x ∈ s.blocks, ∀ a, x.ptr ≤ a → a < x.ptr + 4096 → k.mem a = s.kernel.mem a) :
      SpaceStep s .other ⟨k, s.live⟩

/-- The directories lie in blocks of their own, and memory holds them. -/
structure SpacesOk (s : Spaces) : Prop where
  inv : HeapInv s.kernel.heap s.blocks
  dirs : ∀ d ∈ s.live, HasDirectory s.kernel.mem d

/-- Every part of a directory is a block. -/
theorem Directory.allocations_small {d : Directory} {x : Allocation} (hx : x ∈ d.allocations) :
    blocksFor x.size = 1 := by
  rcases List.mem_append.mp hx with hx | hx
  · obtain ⟨t, -, rfl⟩ := List.mem_map.mp hx
    exact tableAlloc_blocks t
  · rcases List.mem_cons.mp hx with rfl | hx
    · exact tableAlloc_blocks _
    · obtain rfl := List.mem_singleton.mp hx
      exact blocksFor_one (Nat.le_add_left 1 3) (Nat.le_of_ble_eq_true rfl)

theorem Directory.chunk_mem (d : Directory) : (⟨d.chunk, 4⟩ : Allocation) ∈ d.allocations :=
  List.mem_append_right _ (List.mem_cons_of_mem _ List.mem_cons_self)

section Side

variable {s : Spaces} {d e : Directory} {m m' : Mem}

/-- A directory is what memory says it is. -/
theorem HasDirectory.unique {d' : Directory} (h : HasDirectory m d) (h' : HasDirectory m d')
    (hc : d.chunk = d'.chunk) : d = d' := by
  obtain ⟨chunk, directory, tables⟩ := d
  obtain ⟨chunk', directory', tables'⟩ := d'
  obtain rfl : chunk = chunk' := hc
  obtain rfl : directory = directory' := h.chunk.symm.trans h'.chunk
  have htables : tables = tables' := by
    have e₁ : tables.length = 1024 := h.length
    have e₂ : tables'.length = 1024 := h'.length
    refine List.ext_getElem (e₁.trans e₂.symm) fun j h₁ h₂ => ?_
    have hj := (h.word j (by omega)).symm.trans (h'.word j (by omega))
    dsimp only at hj
    rwa [List.getD_eq_getElem _ _ h₁, List.getD_eq_getElem _ _ h₂] at hj
  rw [htables]

/-- The pages of a directory decide its page map. -/
theorem HasDirectory.pages_congr (hd : HasDirectory m d)
    (hm : ∀ x ∈ d.allocations, ∀ a, x.ptr ≤ a → a < x.ptr + 4096 → m' a = m a) :
    HasDirectory m' d ∧ pageMap m' d.directory = pageMap m d.directory := by
  have hd' : HasDirectory m' d := by
    refine hd.congr (fun a h1 h2 => hm _ d.chunk_mem a h1 ?_) fun a h1 h2 => ?_
    · show a < d.chunk + 4096
      omega
    · exact hm (tableAlloc d.directory) (List.mem_append_right _ List.mem_cons_self) a h1 h2
  refine ⟨hd', funext fun q => ?_⟩
  have hi : q.val / 1024 < 1024 := Nat.div_lt_of_lt_mul q.isLt
  unfold pageMap pte
  rw [hd.tableOf hi, hd'.tableOf hi]
  refine load32_congr fun a h1 h2 => ?_
  have hmem : tableAlloc (d.tables.getD (q.val / 1024) 0) ∈ d.allocations :=
    List.mem_append_left _ (List.mem_map_of_mem (hd.mem_tables hi))
  refine hm _ hmem a (Nat.le_trans (Nat.le_add_right ..) h1) ?_
  show a < d.tables.getD (q.val / 1024) 0 + 4096
  omega

/-- One directory apart from the others. -/
theorem SpacesOk.split (h : SpacesOk s) (hd : d ∈ s.live) :
    ∃ rest, s.live.Perm (d :: rest) ∧ d.Separate ∧
      HeapInv s.kernel.heap (d.allocations ++ rest.flatMap Directory.allocations) := by
  obtain ⟨before, behind, hlive⟩ := List.append_of_mem hd
  have hp : s.live.Perm (d :: (before ++ behind)) := hlive ▸ List.perm_middle
  have hinv : HeapInv s.kernel.heap
      (d.allocations ++ (before ++ behind).flatMap Directory.allocations) := by
    refine h.inv.perm ?_
    rw [← List.flatMap_cons]
    exact (hp.flatMap_right Directory.allocations).symm
  exact ⟨_, hp, hinv.separate (fun x hx => List.mem_append_left _ hx)
    (List.nodup_append.mp hinv.nodup).1, hinv⟩

/-- **Memory holds the page map of every directory.** -/
theorem SpacesOk.holds (h : SpacesOk s) (hd : d ∈ s.live) :
    HoldsPages s.kernel.mem d.chunk d.directory (pageMap s.kernel.mem d.directory) := by
  obtain ⟨rest, -, hsep, hinv⟩ := h.split hd
  have hdir := h.dirs d hd
  refine ⟨hinv.dirOk hdir, ⟨hdir.chunk, fun a h1 h2 i hi => ?_⟩, fun q => rfl⟩
  rw [hdir.tableOf hi]
  exact hsep.chunk _ (hdir.mem_tables hi) a h1 h2

/-- Different directories share no page, -/
theorem SpacesOk.apart (h : SpacesOk s) (hd : d ∈ s.live) (he : e ∈ s.live) (hne : e ≠ d)
    {x y : Allocation} (hx : x ∈ e.allocations) (hy : y ∈ d.allocations) {a : Nat} (h1 : x.ptr ≤ a)
    (h2 : a < x.ptr + 4096) : OffBlock a y.ptr := by
  obtain ⟨rest, hp, -, hinv⟩ := h.split hd
  have he' : e ∈ rest := List.mem_of_ne_of_mem hne (hp.mem_iff.mp he)
  have hxrest : x ∈ rest.flatMap Directory.allocations := List.mem_flatMap_of_mem he' hx
  have hxy : x ≠ y := fun hxy => List.disjoint_of_nodup_append hinv.nodup hy (hxy ▸ hxrest)
  exact hinv.off_of_ne (List.mem_append_right _ hxrest) (List.mem_append_left _ hy) hxy
    (Directory.allocations_small hx) (Directory.allocations_small hy) h1 h2

/-- ... and so have different chunks. -/
theorem SpacesOk.chunk_ne (h : SpacesOk s) (hd : d ∈ s.live) (he : e ∈ s.live) (hne : e ≠ d) :
    e.chunk ≠ d.chunk := by
  have hoff := h.apart hd he hne e.chunk_mem d.chunk_mem (Nat.le_refl _)
    (Nat.lt_add_of_pos_right (by decide))
  unfold OffBlock at hoff
  dsimp only at hoff
  omega

/-- **A mapping call on one directory** changes nothing of another. -/
theorem SpacesOk.call_other (h : SpacesOk s) (hd : d ∈ s.live) (he : e ∈ s.live) (hne : e ≠ d)
    (c : PagingCall) : HasDirectory (c.run d.chunk s.kernel.mem) e ∧
      pageMap (c.run d.chunk s.kernel.mem) e.directory = pageMap s.kernel.mem e.directory := by
  obtain ⟨-, -, hsep, -⟩ := h.split hd
  have honly := c.run_frame (h.dirs d hd) hsep
  exact (h.dirs e he).pages_congr fun x hx a h1 h2 => honly a fun t ht =>
    h.apart hd he hne hx (List.mem_append_left _ (List.mem_map_of_mem ht)) h1 h2

end Side

/-! ## 4. Page maps by themselves -/

/-- A page map for every chunk that is in use. -/
abbrev AddressSpaces : Type := Nat → Option PageMap

/-- **One step**: each concerns the page map it names, and nothing else. -/
inductive AddressStep : AddressSpaces → SpaceEvent → AddressSpaces → Prop where
  | new {a : AddressSpaces} {flags : UInt8} {chunk : Nat} (h : a chunk = none) :
      AddressStep a (.new flags chunk) (Function.update a chunk (some (.identity flags.toNat)))
  | call {a : AddressSpaces} {chunk : Nat} {p : PageMap} {c : PagingCall} (h : a chunk = some p) :
      AddressStep a (.call chunk c) (Function.update a chunk (some (c.apply p)))
  | free {a : AddressSpaces} {chunk : Nat} {p : PageMap} (h : a chunk = some p) :
      AddressStep a (.free chunk) (Function.update a chunk none)
  | other {a : AddressSpaces} : AddressStep a .other a

/-- The directories of the kernel hold the page maps. -/
structure Shows (s : Spaces) (a : AddressSpaces) : Prop extends SpacesOk s where
  live : ∀ d ∈ s.live, a d.chunk = some (pageMap s.kernel.mem d.directory)
  absent : ∀ chunk, (∀ d ∈ s.live, d.chunk ≠ chunk) → a chunk = none

theorem Shows.start {k : Kernel} (hp : k.heap.Placed) : Shows ⟨k, []⟩ fun _ => none where
  inv := HeapInv.nil hp
  dirs _ hd := absurd hd List.not_mem_nil
  live _ hd := absurd hd List.not_mem_nil
  absent _ _ := rfl

section Steps

variable {s s' : Spaces} {a : AddressSpaces}

/-- A new directory: its blocks were free, the others are as before. -/
theorem Shows.new (h : Shows s a) {flags : UInt8} {k : Kernel} {d : Directory}
    (hroom : 1026 ≤ freeBlocks s.kernel.heap)
    (hnew : pagingNew4gb s.kernel flags.toNat = (d.chunk, k)) (hd : HasDirectory k.mem d) :
    a d.chunk = none ∧
      Shows ⟨k, d :: s.live⟩ (Function.update a d.chunk (some (.identity flags.toNat))) := by
  have hfl : flags.toNat < 4096 := by
    have := flags.toNat_lt
    omega
  obtain ⟨k', d', e, -, hg, hd', hid⟩ := pagingNew4gb_grows h.inv hroom hfl
  obtain ⟨hchunk, rfl⟩ := Prod.mk.inj (hnew.symm.trans e)
  obtain rfl := hd.unique hd' hchunk
  have hinv : HeapInv k.heap (d.allocations ++ s.blocks) := hg.inv
  have hother : ∀ e ∈ s.live, ∀ x ∈ e.allocations, ∀ y ∈ d.allocations, ∀ b, x.ptr ≤ b →
      b < x.ptr + 4096 → OffBlock b y.ptr := by
    intro e he x hx y hy b h1 h2
    have hxb : x ∈ s.blocks := List.mem_flatMap_of_mem he hx
    have hxy : x ≠ y := fun hxy => List.disjoint_of_nodup_append hinv.nodup hy (hxy ▸ hxb)
    exact hinv.off_of_ne (List.mem_append_right _ hxb) (List.mem_append_left _ hy) hxy
      (Directory.allocations_small hx) (Directory.allocations_small hy) h1 h2
  have hne : ∀ e ∈ s.live, e.chunk ≠ d.chunk := by
    intro e he
    have hoff := hother e he _ e.chunk_mem _ d.chunk_mem e.chunk (Nat.le_refl _)
      (Nat.lt_add_of_pos_right (by decide))
    unfold OffBlock at hoff
    dsimp only at hoff
    omega
  have hkept : ∀ e ∈ s.live, HasDirectory k.mem e ∧
      pageMap k.mem e.directory = pageMap s.kernel.mem e.directory := by
    intro e he
    refine (h.dirs e he).pages_congr fun x hx b h1 h2 => hg.mem b ?_ fun y hy =>
      hother e he x hx y hy b h1 h2
    have hxb : x ∈ d.allocations ++ s.blocks :=
      List.mem_append_right _ (List.mem_flatMap_of_mem he hx)
    have hend := hinv.end_lt hxb
    rw [Directory.allocations_small hx] at hend
    omega
  refine ⟨h.absent _ hne, ⟨hinv, ?_⟩, ?_, ?_⟩
  · intro e he
    rcases List.mem_cons.mp he with rfl | he
    · exact hd
    · exact (hkept e he).1
  · intro e he
    rcases List.mem_cons.mp he with rfl | he
    · rw [Function.update_self]
      exact congrArg some (funext fun q => (hd.pte_identity hid q.isLt).symm)
    · rw [Function.update_of_ne (hne e he), h.live e he, (hkept e he).2]
  · intro chunk hnone
    rw [Function.update_of_ne (fun e => hnone d List.mem_cons_self e.symm)]
    exact h.absent chunk fun e he => hnone e (List.mem_cons_of_mem _ he)

/-- A mapping call. -/
theorem Shows.call (h : Shows s a) {d : Directory} (hd : d ∈ s.live) (c : PagingCall) :
    Shows ⟨⟨s.kernel.heap, c.run d.chunk s.kernel.mem⟩, s.live⟩
      (Function.update a d.chunk (some (c.apply (pageMap s.kernel.mem d.directory)))) := by
  obtain ⟨-, -, hsep, -⟩ := h.toSpacesOk.split hd
  have hown := (h.toSpacesOk.holds hd).run c
  refine ⟨⟨h.inv, fun e he => ?_⟩, fun e he => ?_, fun chunk hnone => ?_⟩
  · by_cases hne : e = d
    · subst hne
      exact (h.dirs e he).tablesOnly hsep
        (c.run_frame (h.dirs e he) hsep)
    · exact (h.toSpacesOk.call_other hd he hne c).1
  · by_cases hne : e = d
    · subst hne
      rw [Function.update_self]
      exact congrArg some (funext fun q => (hown.entry q).symm)
    · rw [Function.update_of_ne (h.toSpacesOk.chunk_ne hd he hne), h.live e he,
        (h.toSpacesOk.call_other hd he hne c).2]
  · rw [Function.update_of_ne fun e => hnone d hd e.symm]
    exact h.absent chunk hnone

/-- A release. -/
theorem Shows.free (h : Shows s a) {d : Directory} {rest : List Directory}
    (hp : s.live.Perm (d :: rest)) :
    Shows ⟨pagingFree4gb s.kernel d.chunk, rest⟩ (Function.update a d.chunk none) := by
  have hd : d ∈ s.live := hp.mem_iff.mpr List.mem_cons_self
  have hrest : ∀ e ∈ rest, e ∈ s.live := fun e he => hp.mem_iff.mpr (List.mem_cons_of_mem _ he)
  have hinv : HeapInv s.kernel.heap (d.allocations ++ rest.flatMap Directory.allocations) := by
    refine h.inv.perm ?_
    rw [← List.flatMap_cons]
    exact (hp.flatMap_right Directory.allocations).symm
  have hne : ∀ e ∈ rest, e ≠ d := by
    rintro e he rfl
    exact List.disjoint_of_nodup_append hinv.nodup e.chunk_mem
      (List.mem_flatMap_of_mem he e.chunk_mem)
  rw [pagingFree4gb_heap (h.dirs d hd)]
  refine ⟨⟨heapInv_freeAll _ hinv, fun e he => h.dirs e (hrest e he)⟩, fun e he => ?_,
    fun chunk hnone => ?_⟩
  · rw [Function.update_of_ne (h.toSpacesOk.chunk_ne hd (hrest e he) (hne e he)),
      h.live e (hrest e he)]
  · by_cases hc : chunk = d.chunk
    · rw [hc, Function.update_self]
    · rw [Function.update_of_ne hc]
      refine h.absent chunk fun e he => ?_
      rcases List.mem_cons.mp (hp.mem_iff.mp he) with rfl | he
      · exact fun e => hc e.symm
      · exact hnone e he

/-- Anything else. -/
theorem Shows.other (h : Shows s a) {k : Kernel} (hinv : HeapInv k.heap s.blocks)
    (hmem : ∀ x ∈ s.blocks, ∀ b, x.ptr ≤ b → b < x.ptr + 4096 → k.mem b = s.kernel.mem b) :
    Shows ⟨k, s.live⟩ a := by
  have hkept : ∀ e ∈ s.live, HasDirectory k.mem e ∧
      pageMap k.mem e.directory = pageMap s.kernel.mem e.directory := fun e he =>
    (h.dirs e he).pages_congr fun x hx => hmem x (List.mem_flatMap_of_mem he hx)
  refine ⟨⟨hinv, fun e he => (hkept e he).1⟩, fun e he => ?_, h.absent⟩
  dsimp only
  rw [h.live e he, (hkept e he).2]

end Steps

/-- **The kernel's directories behave as page maps by themselves.** -/
theorem spaces_simulate : Simulates SpaceStep AddressStep Shows := by
  intro s a l s' h hs
  cases hs with
  | new hroom hnew hd =>
    obtain ⟨hnone, hshows⟩ := h.new hroom hnew hd
    exact ⟨_, .new hnone, hshows⟩
  | call hd => exact ⟨_, .call (h.live _ hd), h.call hd _⟩
  | free hp => exact ⟨_, .free (h.live _ (hp.mem_iff.mpr List.mem_cons_self)), h.free hp⟩
  | other hinv hmem => exact ⟨_, .other, h.other hinv hmem⟩

/-- The kernel's answers are those of the page maps. -/
theorem Shows.translates {s : Spaces} {a : AddressSpaces} (h : Shows s a) {chunk : Nat}
    {p : PageMap} (hp : a chunk = some p) (v : UInt32) :
    pagingGetPhysicalAddress s.kernel.mem (load32 s.kernel.mem chunk) v.toNat = p.physical v ∧
      flagsAt s.kernel.mem (load32 s.kernel.mem chunk) v.toNat = p (pageOf v) &&& 0xFFF := by
  by_cases hlive : ∀ d ∈ s.live, d.chunk ≠ chunk
  · rw [h.absent chunk hlive] at hp
    cases hp
  · push Not at hlive
    obtain ⟨d, hd, rfl⟩ := hlive
    obtain rfl := Option.some.inj ((h.live d hd).symm.trans hp)
    have hholds := h.toSpacesOk.holds hd
    rw [hholds.chunkOk.1]
    exact ⟨hholds.physical v, hholds.flags v⟩

/-- **Any run over any number of directories** is a run of page maps by themselves, and in its end
    each address leads where the page map of its directory says. -/
theorem spaceRun_refines {k : Kernel} (hp : k.heap.Placed) {es : List SpaceEvent} {s : Spaces}
    (hr : LabelledRun SpaceStep ⟨k, []⟩ es s) :
    ∃ a, LabelledRun AddressStep (fun _ => none) es a ∧ Shows s a ∧
      ∀ chunk p, a chunk = some p → ∀ v : UInt32,
        pagingGetPhysicalAddress s.kernel.mem (load32 s.kernel.mem chunk) v.toNat = p.physical v ∧
          flagsAt s.kernel.mem (load32 s.kernel.mem chunk) v.toNat = p (pageOf v) &&& 0xFFF := by
  obtain ⟨a, hrun, hshows⟩ := spaces_simulate.run hr (Shows.start hp)
  exact ⟨a, hrun, hshows, fun _ _ hc v => hshows.translates hc v⟩

/-! ## 5. The calls on one directory -/

/-- The mapping calls on a chunk, in order. -/
def callsOn (chunk : Nat) (es : List SpaceEvent) : List PagingCall :=
  es.filterMap fun e =>
    match e with
    | .call chunk' c => if chunk' = chunk then some c else none
    | _ => none

section Own

variable {a a' : AddressSpaces} {e : SpaceEvent} {chunk : Nat} {p : PageMap}

/-- One step: a chunk that is not released keeps its page map, or has the call on it applied. -/
theorem AddressStep.own (h : AddressStep a e a') (hp : a chunk = some p) (hfree : e ≠ .free chunk) :
    a' chunk = some ((callsOn chunk [e]).foldl PagingCall.apply p) := by
  cases h with
  | new hnone =>
    rw [Function.update_of_ne fun hc => by rw [hc, hnone] at hp; cases hp]
    exact hp
  | @call chunk' p' c hc =>
    by_cases hsame : chunk' = chunk
    · subst hsame
      obtain rfl := Option.some.inj (hc.symm.trans hp)
      simp [callsOn]
    · rw [Function.update_of_ne fun hc => hsame hc.symm]
      simpa [callsOn, hsame] using hp
  | @free chunk' p' hc =>
    rw [Function.update_of_ne fun hc => hfree (congrArg SpaceEvent.free hc.symm)]
    exact hp
  | other => exact hp

/-- **A run**: the calls on the chunk one after the other. -/
theorem addressRun_own {es : List SpaceEvent} (hr : LabelledRun AddressStep a es a') :
    ∀ {p : PageMap}, a chunk = some p → .free chunk ∉ es →
      a' chunk = some ((callsOn chunk es).foldl PagingCall.apply p) := by
  induction hr with
  | nil _ => exact fun hp _ => hp
  | @cons _ _ _ e es hs _ ih =>
    intro p hp hfree
    have hstep := hs.own hp fun he => hfree (he ▸ List.mem_cons_self)
    have hsplit : callsOn chunk (e :: es) = callsOn chunk [e] ++ callsOn chunk es :=
      List.filterMap_append (l := [e])
    rw [hsplit, List.foldl_append]
    exact ih hstep fun he => hfree (List.mem_cons_of_mem _ he)

end Own

/-- The page maps that the directories hold. -/
def Spaces.view (s : Spaces) : AddressSpaces := fun chunk =>
  (s.live.find? fun d => d.chunk = chunk).map fun d => pageMap s.kernel.mem d.directory

theorem SpacesOk.shows {s : Spaces} (h : SpacesOk s) : Shows s s.view where
  toSpacesOk := h
  live d hd := by
    obtain ⟨e, he⟩ := Option.isSome_iff_exists.mp
      (List.find?_isSome (p := fun e : Directory => e.chunk = d.chunk).mpr
          ⟨d, hd, decide_eq_true rfl⟩)
    have hchunk : e.chunk = d.chunk := by simpa using List.find?_some he
    have hsame : e = d := by
      by_contra hne
      exact h.chunk_ne hd (List.mem_of_find?_eq_some he) hne hchunk
    unfold Spaces.view
    rw [he, hsame]
    rfl
  absent chunk hnone := by
    unfold Spaces.view
    rw [List.find?_eq_none.mpr fun d hd => by simpa using hnone d hd]
    rfl

/-- The calls one after the other. -/
theorem HoldsPages.runCalls {chunk dir : Nat} (calls : List PagingCall) :
    ∀ {m : Mem} {p : PageMap}, HoldsPages m chunk dir p →
      HoldsPages (PeachKernel.runCalls chunk calls m) chunk dir
        (calls.foldl PagingCall.apply p) := by
  induction calls with
  | nil => exact fun h => h
  | cons c calls ih => exact fun h => ih (h.run c)

/-- **A directory is changed by its own calls only**: whatever is made, mapped and released besides
    it, each of its addresses leads where the calls on it alone would have led. -/
theorem spaceRun_own_calls {s s' : Spaces} (h : SpacesOk s) {es : List SpaceEvent}
    (hr : LabelledRun SpaceStep s es s') {d : Directory} (hd : d ∈ s.live)
    (hfree : .free d.chunk ∉ es) (v : UInt32) :
    pagingGetPhysicalAddress s'.kernel.mem (load32 s'.kernel.mem d.chunk) v.toNat =
        pagingGetPhysicalAddress (runCalls d.chunk (callsOn d.chunk es) s.kernel.mem) d.directory
          v.toNat ∧
      flagsAt s'.kernel.mem (load32 s'.kernel.mem d.chunk) v.toNat =
        flagsAt (runCalls d.chunk (callsOn d.chunk es) s.kernel.mem) d.directory v.toNat := by
  obtain ⟨a', hrun, hshows⟩ := spaces_simulate.run hr h.shows
  have hown := addressRun_own hrun (h.shows.live d hd) hfree
  have halone := (h.holds hd).runCalls (callsOn d.chunk es)
  obtain ⟨hphysical, hflags⟩ := hshows.translates hown v
  exact ⟨hphysical.trans (halone.physical v).symm, hflags.trans (halone.flags v).symm⟩

/-! ## 6. Two directories on the fresh heap -/

theorem HasDirectory.allocations_length {m : Mem} {d : Directory} (hd : HasDirectory m d) :
    d.allocations.length = 1026 := by
  unfold Directory.allocations
  rw [List.length_append, List.length_map, hd.length]
  rfl

/-- Two directories, one after the other. -/
theorem spaceRun_two : ∃ (k : Kernel) (d₁ d₂ : Directory),
    LabelledRun SpaceStep ⟨emptyKernel, []⟩ [.new 7 d₁.chunk, .new 5 d₂.chunk] ⟨k, [d₂, d₁]⟩ := by
  have hroom : 1026 ≤ freeBlocks emptyKernel.heap := emptyKernel_room (by decide)
  have h7 : (7 : UInt8).toNat < 4096 := by decide
  have h5 : (5 : UInt8).toNat < 4096 := by decide
  obtain ⟨k₁, d₁, e₁, -, hg₁, hd₁, -⟩ :=
    pagingNew4gb_grows (HeapInv.nil emptyKernel_placed) hroom h7
  have hfree₁ := hg₁.free
  rw [hd₁.allocations_length, emptyKernel_free] at hfree₁
  have hroom₁ : 1026 ≤ freeBlocks k₁.heap := by omega
  obtain ⟨k₂, d₂, e₂, -, -, hd₂, -⟩ := pagingNew4gb_grows hg₁.inv hroom₁ h5
  exact ⟨k₂, d₁, d₂, .cons (.new hroom e₁ hd₁) (.cons (.new hroom₁ e₂ hd₂) (.nil _))⟩

/-- Two directories on the fresh heap, with page maps of their own. -/
theorem spaceRun_refines_two : ∃ (k : Kernel) (d₁ d₂ : Directory) (a : AddressSpaces),
    LabelledRun AddressStep (fun _ => none) [.new 7 d₁.chunk, .new 5 d₂.chunk] a ∧
      Shows ⟨k, [d₂, d₁]⟩ a ∧ ∀ chunk p, a chunk = some p → ∀ v : UInt32,
        pagingGetPhysicalAddress k.mem (load32 k.mem chunk) v.toNat = p.physical v ∧
          flagsAt k.mem (load32 k.mem chunk) v.toNat = p (pageOf v) &&& 0xFFF := by
  obtain ⟨k, d₁, d₂, hrun⟩ := spaceRun_two
  obtain ⟨a, ha⟩ := spaceRun_refines emptyKernel_placed hrun
  exact ⟨k, d₁, d₂, a, ha⟩

/-- The second of two directories, while a page is mapped in the first one, which is then
    released. -/
theorem spaceRun_own_calls_two : ∃ (s s' : Spaces) (d₁ d₂ : Directory),
    LabelledRun SpaceStep s [.call d₁.chunk (.map 0x400000 0x1000 7),
      .call d₂.chunk (.set 0x5000 3), .free d₁.chunk] s' ∧
    pagingGetPhysicalAddress s'.kernel.mem (load32 s'.kernel.mem d₂.chunk)
        (0x400000 : UInt32).toNat = pagingGetPhysicalAddress
          (runCalls d₂.chunk [.set 0x5000 3] s.kernel.mem) d₂.directory (0x400000 : UInt32).toNat ∧
      flagsAt s'.kernel.mem (load32 s'.kernel.mem d₂.chunk) (0x400000 : UInt32).toNat =
        flagsAt (runCalls d₂.chunk [.set 0x5000 3] s.kernel.mem) d₂.directory
          (0x400000 : UInt32).toNat := by
  obtain ⟨k, d₁, d₂, hrun⟩ := spaceRun_two
  obtain ⟨a, -, hshows⟩ := spaces_simulate.run hrun (Shows.start emptyKernel_placed)
  have hok := hshows.toSpacesOk
  have hfirst : d₁ ∈ [d₂, d₁] := List.mem_cons_of_mem _ List.mem_cons_self
  have hd : d₁ ≠ d₂ := by
    rintro rfl
    exact List.disjoint_of_nodup_append hok.inv.nodup d₁.chunk_mem
      (List.mem_append_left _ d₁.chunk_mem)
  have hne : d₁.chunk ≠ d₂.chunk := hok.chunk_ne List.mem_cons_self hfirst hd
  have hcalls : callsOn d₂.chunk [.call d₁.chunk (.map 0x400000 0x1000 7),
      .call d₂.chunk (.set 0x5000 3), .free d₁.chunk] = [.set 0x5000 3] := by
    simp [callsOn, hne]
  have hmore : LabelledRun SpaceStep ⟨k, [d₂, d₁]⟩ [.call d₁.chunk (.map 0x400000 0x1000 7),
      .call d₂.chunk (.set 0x5000 3), .free d₁.chunk] _ :=
    .cons (.call hfirst)
      (.cons (.call List.mem_cons_self) (.cons (.free (List.Perm.swap ..)) (.nil _)))
  have hown := spaceRun_own_calls hok hmore List.mem_cons_self (by simp [hne.symm])
    (0x400000 : UInt32)
  rw [hcalls] at hown
  exact ⟨_, _, d₁, d₂, hmore, hown⟩

end PeachKernel
