/-
  File:      PeachKernel/Paging/Paging.lean
  Subject:   The page directories of `memory/paging/paging.c`: the mapping functions, as the code
             computes them over the memory, and what each of them does to the translation.

  A directory is a page of 1024 words; word `i` holds the address of a page table and flags, and
  word `j` of that table maps the page at `i * 4 MiB + j * 4096`. Both live in memory, so a write
  of an entry is a write of a word, and the directory is what memory says it is.

  * `pagingSet`, `pagingMap`, `pagingMapRange`, `pagingMapTo` -- the source functions;
  * `tableOf`, `pte` -- the table of a directory word and the entry of a page (numbered from 0);
  * `DirOk` -- a directory whose tables are apart from each other and from it;
  * `pagingMapTo_ok` -- a mapping call that is not refused enters exactly its pages, and writes no
    byte outside the page tables (`MapsTo`);
  * `pagingMapTo_translates` -- for addresses: the translation is updated on the range, and only
    there.
-/
import PeachKernel.Status
import PeachKernel.Lib.ByteMem

namespace PeachKernel

open CInt Mem

/-! ## 1. The source functions -/

/-- `PAGING_ACCESS_FROM_ALL`. -/
def pagingAccessFromAll : Nat := 0b00000100

/-- `PAGING_IS_WRITEABLE`. -/
def pagingIsWriteable : Nat := 0b00000010

/-- `PAGING_IS_PRESENT`. -/
def pagingIsPresent : Nat := 0b00000001

def pagingIsAligned (addr : Nat) : Bool := addr % 4096 == 0

/-- `paging_get_indexes`: the directory index and the table index of an aligned address. -/
def pagingGetIndexes (virt : Nat) : Except Int (Nat × Nat) :=
  if !pagingIsAligned virt then .error (-EINVARG)
  else .ok (virt / (1024 * 4096), virt % (1024 * 4096) / 4096)

def pagingAlignAddress (ptr : Nat) : Nat :=
  if ptr % 4096 ≠ 0 then u32 ((ptr + 4096 - ptr % 4096 : Nat) : Int) else ptr

def pagingAlignToLowerPage (addr : Nat) : Nat := addr - addr % 4096

/-- `paging_set`: the status and the memory after the call. -/
def pagingSet (m : Mem) (directory virt val : Nat) : Int × Mem :=
  if !pagingIsAligned virt then (-EINVARG, m)
  else
    match pagingGetIndexes virt with
    | .error res => (res, m)
    | .ok (directoryIndex, tableIndex) =>
      let entry := load32 m (directory + 4 * directoryIndex)
      let table := entry &&& 0xFFFFF000
      (0, store32 m (table + 4 * tableIndex) val)

/-- `paging_map`; `chunk` is the address of a `struct paging_4gb_chunk`, whose only field is the
    address of the directory. -/
def pagingMap (m : Mem) (chunk virt phys flags : Nat) : Int × Mem :=
  if virt % 4096 ≠ 0 ∨ phys % 4096 ≠ 0 then (-EINVARG, m)
  else pagingSet m (load32 m chunk) virt (phys ||| flags)

/-- The loop of `paging_map_range`, `count` pages still to map; `res` is the last status. -/
def pagingMapRange (chunk flags : Nat) : (count : Nat) → (virt phys : Nat) → Int → Mem → Int × Mem
  | 0, _, _, res, m => (res, m)
  | count + 1, virt, phys, _, m =>
    match pagingMap m chunk virt phys flags with
    | (res, m) =>
      if res < 0 then (res, m)
      else pagingMapRange chunk flags count (u32 (virt + 4096)) (u32 (phys + 4096)) res m

def pagingMapTo (m : Mem) (chunk virt phys physEnd flags : Nat) : Int × Mem :=
  if virt % 4096 ≠ 0 then (-EINVARG, m)
  else if phys % 4096 ≠ 0 then (-EINVARG, m)
  else if physEnd % 4096 ≠ 0 then (-EINVARG, m)
  else if physEnd < phys then (-EINVARG, m)
  else
    let totalBytes := physEnd - phys
    let totalPages := totalBytes / 4096
    pagingMapRange chunk flags totalPages virt phys 0 m

/-- `paging_get`, with both indexes 0 for an address that is not aligned, as the source leaves
    them. -/
def pagingGet (m : Mem) (directory virt : Nat) : Nat :=
  let indexes := (pagingGetIndexes virt).toOption.getD (0, 0)
  let entry := load32 m (directory + 4 * indexes.1)
  let table := entry &&& 0xFFFFF000
  load32 m (table + 4 * indexes.2)

def pagingGetPhysicalAddress (m : Mem) (directory virt : Nat) : Nat :=
  let virtAddrNew := pagingAlignToLowerPage virt
  let difference := virt - virtAddrNew
  u32 (((pagingGet m directory virtAddrNew &&& 0xFFFFF000) + difference : Nat) : Int)

/-! ## 2. The translation -/

/-- The page table that directory word `i` names. -/
def tableOf (m : Mem) (dir i : Nat) : Nat := load32 m (dir + 4 * i) &&& 0xFFFFF000

/-- The entry of page `q` (the page at address `q * 4096`). -/
def pte (m : Mem) (dir q : Nat) : Nat := load32 m (tableOf m dir (q / 1024) + 4 * (q % 1024))

/-- **A directory in memory**: page-aligned, its 1024 tables pairwise apart and apart from it. -/
structure DirOk (m : Mem) (dir : Nat) : Prop where
  aligned : dir % 4096 = 0
  bound : dir + 4096 ≤ 4294967296
  ne_dir : ∀ i, i < 1024 → tableOf m dir i ≠ dir
  distinct : ∀ i j, i < 1024 → j < 1024 → tableOf m dir i = tableOf m dir j → i = j

theorem tableOf_aligned (m : Mem) (dir i : Nat) : tableOf m dir i % 4096 = 0 := by
  have := load32_lt m (dir + 4 * i)
  unfold tableOf
  rw [and_pageMask this]
  omega

theorem tableOf_bound (m : Mem) (dir i : Nat) : tableOf m dir i + 4096 ≤ 4294967296 := by
  have := load32_lt m (dir + 4 * i)
  unfold tableOf
  rw [and_pageMask this]
  omega

/-- The memory outside the page tables of a directory. -/
def OutsideTables (m : Mem) (dir a : Nat) : Prop :=
  ∀ i, i < 1024 → a < tableOf m dir i ∨ tableOf m dir i + 4096 ≤ a

/-- **What a mapping call does**: the pages `f` gives a new entry for have it, the others keep
    theirs; the directory's tables are the same ones; no byte outside them is written. -/
structure MapsTo (m m' : Mem) (dir : Nat) (f : Nat → Option Nat) : Prop where
  tables : ∀ i, i < 1024 → tableOf m' dir i = tableOf m dir i
  entry : ∀ q, q < 1048576 → pte m' dir q = (f q).getD (pte m dir q)
  frame : ∀ a, OutsideTables m dir a → m' a = m a

theorem OutsideTables.of_tables {m m' : Mem} {dir a : Nat}
    (h : ∀ i, i < 1024 → tableOf m' dir i = tableOf m dir i) (ha : OutsideTables m dir a) :
    OutsideTables m' dir a := fun i hi => by
  rw [h i hi]
  exact ha i hi

theorem DirOk.of_tables {m m' : Mem} {dir : Nat} (hd : DirOk m dir)
    (h : ∀ i, i < 1024 → tableOf m' dir i = tableOf m dir i) : DirOk m' dir where
  aligned := hd.aligned
  bound := hd.bound
  ne_dir i hi := by
    rw [h i hi]
    exact hd.ne_dir i hi
  distinct i j hi hj e := by
    rw [h i hi, h j hj] at e
    exact hd.distinct i j hi hj e

theorem MapsTo.refl (m : Mem) (dir : Nat) : MapsTo m m dir fun _ => none :=
  ⟨fun _ _ => rfl, fun _ _ => rfl, fun _ _ => rfl⟩

/-- One mapping after another. -/
theorem MapsTo.trans {m m' m'' : Mem} {dir : Nat} {f g : Nat → Option Nat} (h : MapsTo m m' dir f)
    (h' : MapsTo m' m'' dir g) : MapsTo m m'' dir fun q => (g q).or (f q) where
  tables i hi := (h'.tables i hi).trans (h.tables i hi)
  entry q hq := by
    rw [h'.entry q hq, h.entry q hq]
    cases g q <;> rfl
  frame a ha := (h'.frame a (ha.of_tables h.tables)).trans (h.frame a ha)

theorem MapsTo.congr {m m' : Mem} {dir : Nat} {f g : Nat → Option Nat} (h : MapsTo m m' dir f)
    (e : ∀ q, q < 1048576 → f q = g q) : MapsTo m m' dir g where
  tables := h.tables
  entry q hq := by
    rw [h.entry q hq, e q hq]
  frame := h.frame

theorem MapsTo.dirOk {m m' : Mem} {dir : Nat} {f : Nat → Option Nat} (h : MapsTo m m' dir f)
    (hd : DirOk m dir) : DirOk m' dir := hd.of_tables h.tables

/-! ## 3. One entry -/

/-- **A write of one entry.** Two tables are different pages, so the word lies in one of them, and
    in no directory word. -/
theorem mapsTo_store {m : Mem} {dir q v : Nat} (hd : DirOk m dir) (hq : q < 1048576)
    (hv : v < 4294967296) :
    MapsTo m (store32 m (tableOf m dir (q / 1024) + 4 * (q % 1024)) v) dir
      fun q' => if q' = q then some v else none := by
  have hal := tableOf_aligned m dir
  have hne := hd.ne_dir (q / 1024) (by omega)
  have htab : ∀ i, i < 1024 →
      tableOf (store32 m (tableOf m dir (q / 1024) + 4 * (q % 1024)) v) dir i =
        tableOf m dir i := by
    intro i hi
    have ha := hal (q / 1024)
    have hda := hd.aligned
    have e := load32_store32_other (m := m) (a := tableOf m dir (q / 1024) + 4 * (q % 1024))
      (v := v) (b := dir + 4 * i) (by omega)
    unfold tableOf at e ⊢
    rw [e]
  refine ⟨htab, fun q' hq' => ?_, fun a ha => ?_⟩
  · unfold pte
    rw [htab (q' / 1024) (by omega)]
    by_cases e : q' = q
    · subst e
      rw [if_pos rfl, load32_store32_same hv]
      rfl
    · rw [if_neg e]
      refine load32_store32_other ?_
      -- another page has another index in the same table, or another table
      by_cases et : q' / 1024 = q / 1024
      · rw [et]
        omega
      · have hnt : tableOf m dir (q' / 1024) ≠ tableOf m dir (q / 1024) := fun h =>
          et (hd.distinct _ _ (by omega) (by omega) h)
        have h1 := hal (q / 1024)
        have h2 := hal (q' / 1024)
        omega
  · have h := ha (q / 1024) (by omega)
    exact store32_other (by omega)

theorem pagingSet_of_aligned (m : Mem) (dir : Nat) {virt : Nat} (val : Nat) (hv : virt % 4096 = 0) :
    pagingSet m dir virt val =
      (0, store32 m (tableOf m dir (virt / 4096 / 1024) + 4 * (virt / 4096 % 1024)) val) := by
  have e1 : virt / (1024 * 4096) = virt / 4096 / 1024 := by omega
  have e2 : virt % (1024 * 4096) / 4096 = virt / 4096 % 1024 := by omega
  simp only [pagingSet, pagingGetIndexes, pagingIsAligned, hv, tableOf, e1, e2, beq_self_eq_true,
    Bool.not_true, Bool.false_eq_true, if_false]

theorem pagingMap_of_aligned (m : Mem) (chunk : Nat) {virt phys : Nat} (flags : Nat)
    (hv : virt % 4096 = 0) (hp : phys % 4096 = 0) :
    pagingMap m chunk virt phys flags = (0, store32 m
      (tableOf m (load32 m chunk) (virt / 4096 / 1024) + 4 * (virt / 4096 % 1024))
      (phys ||| flags)) := by
  unfold pagingMap
  rw [if_neg (by omega), pagingSet_of_aligned m _ _ hv]

/-! ## 4. A range -/

/-- The entries a range of `count` pages from `virt` gets: consecutive physical pages from `phys`.
    The virtual pages are counted around the end of the address space. -/
def rangeEntries (virt phys flags count : Nat) (q : Nat) : Option Nat :=
  if (q + 1048576 - virt / 4096) % 1048576 < count then
    some ((phys + (q + 1048576 - virt / 4096) % 1048576 * 4096) ||| flags)
  else none

/-- The chunk's word lies outside the page tables. -/
def ChunkOk (m : Mem) (chunk dir : Nat) : Prop :=
  load32 m chunk = dir ∧ ∀ a, chunk ≤ a → a < chunk + 4 → OutsideTables m dir a

theorem MapsTo.chunkOk {m m' : Mem} {chunk dir : Nat} {f : Nat → Option Nat} (h : MapsTo m m' dir f)
    (hc : ChunkOk m chunk dir) : ChunkOk m' chunk dir := by
  refine ⟨?_, fun a h1 h2 => (hc.2 a h1 h2).of_tables h.tables⟩
  rw [load32_congr fun a h1 h2 => h.frame a (hc.2 a h1 h2)]
  exact hc.1

/-- The first page of a range, then the rest. -/
theorem rangeEntries_succ {virt phys flags count q : Nat} (hv : virt % 4096 = 0)
    (hvb : virt < 4294967296) (hcb : count + 1 ≤ 1048576) (hq : q < 1048576) :
    (rangeEntries (u32 ((virt : Int) + 4096)) (phys + 4096) flags count q).or
      (if q = virt / 4096 then some (phys ||| flags) else none) =
    rangeEntries virt phys flags (count + 1) q := by
  have hu : u32 ((virt : Int) + 4096) / 4096 = (virt / 4096 + 1) % 1048576 := by
    unfold u32
    omega
  unfold rangeEntries
  rw [hu]
  by_cases e : q = virt / 4096
  · have e0 : (q + 1048576 - virt / 4096) % 1048576 = 0 := by omega
    rw [if_neg (by omega), if_pos e, e0, if_pos (by omega), Nat.zero_mul, Nat.add_zero]
    rfl
  · have e1 : (q + 1048576 - virt / 4096) % 1048576 =
        (q + 1048576 - (virt / 4096 + 1) % 1048576) % 1048576 + 1 := by omega
    rw [if_neg e, e1, Option.or_none]
    by_cases h : (q + 1048576 - (virt / 4096 + 1) % 1048576) % 1048576 < count
    · rw [if_pos h, if_pos (by omega)]
      congr 2
      omega
    · rw [if_neg h, if_neg (by omega)]

theorem rangeEntries_zero (virt phys flags q : Nat) : rangeEntries virt phys flags 0 q = none :=
  if_neg (Nat.not_lt_zero _)

/-- **The loop of `paging_map_range`** on aligned addresses: induction on the pages still to map. -/
theorem pagingMapRange_ok {chunk dir flags : Nat} (hf : flags < 4096) (count : Nat) :
    ∀ {virt phys : Nat} {m : Mem}, DirOk m dir → ChunkOk m chunk dir → virt % 4096 = 0 →
      phys % 4096 = 0 → virt < 4294967296 → phys + count * 4096 ≤ 4294967296 →
      ∃ m', pagingMapRange chunk flags count virt phys 0 m = (0, m') ∧
        MapsTo m m' dir (rangeEntries virt phys flags count) := by
  induction count with
  | zero =>
    intro virt phys m _ _ _ _ _ _
    exact ⟨m, rfl, (MapsTo.refl m dir).congr fun q _ => (rangeEntries_zero ..).symm⟩
  | succ count ih =>
    intro virt phys m hd hc hv hp hvb hpb
    have hone := mapsTo_store (q := virt / 4096) (v := phys ||| flags) hd (by omega)
      (by rw [or_flags hp hf]; omega)
    have estep : pagingMapRange chunk flags (count + 1) virt phys 0 m =
        pagingMapRange chunk flags count (u32 ((virt : Int) + 4096)) (u32 ((phys : Int) + 4096)) 0
          (store32 m (tableOf m dir (virt / 4096 / 1024) + 4 * (virt / 4096 % 1024))
            (phys ||| flags)) := by
      simp only [pagingMapRange, pagingMap_of_aligned m chunk flags hv hp, hc.1]
      rw [if_neg (by decide)]
    generalize store32 m _ (phys ||| flags) = m₁ at hone estep
    have hrest : ∃ m', pagingMapRange chunk flags count (u32 ((virt : Int) + 4096))
        (u32 ((phys : Int) + 4096)) 0 m₁ = (0, m') ∧
        MapsTo m₁ m' dir (rangeEntries (u32 ((virt : Int) + 4096)) (phys + 4096) flags count) := by
      rcases Nat.eq_zero_or_pos count with rfl | hpos
      · exact ⟨_, rfl, (MapsTo.refl _ dir).congr fun q _ => (rangeEntries_zero ..).symm⟩
      · have ep : u32 ((phys : Int) + 4096) = phys + 4096 := by
          unfold u32
          omega
        rw [ep]
        exact ih (hone.dirOk hd) (hone.chunkOk hc) (by unfold u32; omega) (by omega) (u32_lt _)
          (by omega)
    obtain ⟨m', e, hm⟩ := hrest
    exact ⟨m', estep.trans e,
      (hone.trans hm).congr fun q hq => rangeEntries_succ hv hvb (by omega) hq⟩

/-- The addresses `paging_map_to` refuses. -/
def MapRefused (virt phys physEnd : Nat) : Prop :=
  virt % 4096 ≠ 0 ∨ phys % 4096 ≠ 0 ∨ physEnd % 4096 ≠ 0 ∨ physEnd < phys

instance (virt phys physEnd : Nat) : Decidable (MapRefused virt phys physEnd) :=
  inferInstanceAs (Decidable (_ ∨ _))

/-- A refused call changes nothing. -/
theorem pagingMapTo_refused (m : Mem) (chunk : Nat) {virt phys physEnd : Nat} (flags : Nat)
    (h : MapRefused virt phys physEnd) :
    pagingMapTo m chunk virt phys physEnd flags = (-EINVARG, m) := by
  unfold pagingMapTo
  split
  · rfl
  split
  · rfl
  split
  · rfl
  split
  · rfl
  · unfold MapRefused at h
    omega

/-- On aligned addresses the loop ends with status 0, whatever the directory holds. -/
theorem pagingMapRange_status (chunk flags count : Nat) :
    ∀ {virt phys : Nat} {m : Mem}, virt % 4096 = 0 → phys % 4096 = 0 →
      (pagingMapRange chunk flags count virt phys 0 m).1 = 0 := by
  induction count with
  | zero =>
    intro virt phys m _ _
    rfl
  | succ count ih =>
    intro virt phys m hv hp
    simp only [pagingMapRange, pagingMap_of_aligned m chunk flags hv hp]
    rw [if_neg (by decide)]
    exact ih (by unfold u32; omega) (by unfold u32; omega)

theorem pagingMapTo_status (m : Mem) (chunk : Nat) {virt phys physEnd : Nat} (flags : Nat)
    (h : ¬ MapRefused virt phys physEnd) :
    (pagingMapTo m chunk virt phys physEnd flags).1 = 0 := by
  unfold MapRefused at h
  unfold pagingMapTo
  rw [if_neg (by omega), if_neg (by omega), if_neg (by omega), if_neg (by omega)]
  exact pagingMapRange_status chunk flags _ (by omega) (by omega)

/-- **A call that is not refused enters its pages** and nothing else. -/
theorem pagingMapTo_ok {m : Mem} {chunk dir virt phys physEnd flags : Nat} (hf : flags < 4096)
    (hd : DirOk m dir) (hc : ChunkOk m chunk dir) (hvb : virt < 4294967296)
    (hpb : physEnd < 4294967296) (h : ¬ MapRefused virt phys physEnd) :
    ∃ m', pagingMapTo m chunk virt phys physEnd flags = (0, m') ∧
      MapsTo m m' dir (rangeEntries virt phys flags ((physEnd - phys) / 4096)) := by
  unfold MapRefused at h
  unfold pagingMapTo
  rw [if_neg (by omega), if_neg (by omega), if_neg (by omega), if_neg (by omega)]
  exact pagingMapRange_ok hf _ hd hc (by omega) (by omega) hvb (by omega)

/-! ## 5. Addresses -/

/-- The flags with which an address is mapped. -/
def flagsAt (m : Mem) (dir v : Nat) : Nat := pagingGet m dir (pagingAlignToLowerPage v) &&& 0xFFF

theorem pagingGet_lower (m : Mem) (dir v : Nat) :
    pagingGet m dir (pagingAlignToLowerPage v) = pte m dir (v / 4096) := by
  have hal : pagingIsAligned (v - v % 4096) = true := by
    unfold pagingIsAligned
    exact decide_eq_true (by omega)
  have hdir : (v - v % 4096) / (1024 * 4096) = v / 4096 / 1024 := by omega
  have htab : (v - v % 4096) % (1024 * 4096) / 4096 = v / 4096 % 1024 := by omega
  unfold pagingGet pagingGetIndexes pagingAlignToLowerPage pte tableOf
  rw [hal, hdir, htab]
  rfl

/-- The translation of an address: the page of its entry, and its place in the page. -/
theorem pagingGetPhysicalAddress_eq (m : Mem) (dir v : Nat) : pagingGetPhysicalAddress m dir v =
    u32 (((pte m dir (v / 4096) &&& 0xFFFFF000) + v % 4096 : Nat) : Int) := by
  unfold pagingGetPhysicalAddress
  dsimp only
  rw [pagingGet_lower]
  have hdiff : v - pagingAlignToLowerPage v = v % 4096 := by
    unfold pagingAlignToLowerPage
    omega
  rw [hdiff]

/-- An entry made of a page and flags. -/
theorem entry_parts {p f : Nat} (hp : p % 4096 = 0) (hf : f < 4096) (hb : p < 4294967296) :
    (p ||| f) &&& 0xFFFFF000 = p ∧ (p ||| f) &&& 0xFFF = f := by
  rw [or_flags hp hf]
  constructor
  · rw [and_pageMask (by omega)]
    omega
  · rw [show 0xFFF = 2 ^ 12 - 1 from rfl, Nat.and_two_pow_sub_one_eq_mod]
    omega

/-- The page of an address in the range: how far it lies behind the first one. -/
theorem rangeEntries_inside {virt phys flags count v : Nat} (hv : virt % 4096 = 0) (h1 : virt ≤ v)
    (h2 : v < virt + count * 4096) (hb : virt + count * 4096 ≤ 4294967296) :
    rangeEntries virt phys flags count (v / 4096) =
      some ((phys + (v / 4096 - virt / 4096) * 4096) ||| flags) := by
  have hoff : (v / 4096 + 1048576 - virt / 4096) % 1048576 = v / 4096 - virt / 4096 := by omega
  unfold rangeEntries
  rw [hoff, if_pos (by omega)]

theorem rangeEntries_outside {virt phys flags count v : Nat} (hv : virt % 4096 = 0)
    (hvb : v < 4294967296) (h : v < virt ∨ virt + count * 4096 ≤ v)
    (hb : virt + count * 4096 ≤ 4294967296) :
    rangeEntries virt phys flags count (v / 4096) = none := by
  unfold rangeEntries
  exact if_neg (by omega)

/-- A directory at 1 MiB that maps every page to itself, not writeable, with its tables from
    128 MiB on; the chunk is at 2 MiB. -/
def identityWords (a : Nat) : Nat :=
  if a = 0x00200000 then 0x00100000
  else if 0x00100000 ≤ a ∧ a < 0x00101000 then 0x08000000 + (a - 0x00100000) / 4 * 4096 + 7
  else if 0x08000000 ≤ a ∧ a < 0x08400000 then (a - 0x08000000) / 4 * 4096 + 5
  else 0

def identityMem : Mem := ofWords identityWords

theorem identityMem_word {i : Nat} (hi : i < 1024) :
    load32 identityMem (0x00100000 + 4 * i) = 0x08000000 + i * 4096 + 7 := by
  have e : identityWords (0x00100000 + 4 * i) = 0x08000000 + i * 4096 + 7 := by
    unfold identityWords
    rw [if_neg (by omega), if_pos (by omega)]
    omega
  unfold identityMem
  rw [load32_ofWords (by omega) (by omega), e]

theorem identityMem_tableOf {i : Nat} (hi : i < 1024) :
    tableOf identityMem 0x00100000 i = 0x08000000 + i * 4096 := by
  unfold tableOf
  rw [identityMem_word hi, and_pageMask (by omega)]
  omega

theorem identityMem_pte {q : Nat} (hq : q < 1048576) :
    pte identityMem 0x00100000 q = q * 4096 + 5 := by
  have e : identityWords (0x08000000 + q / 1024 * 4096 + 4 * (q % 1024)) = q * 4096 + 5 := by
    unfold identityWords
    rw [if_neg (by omega), if_neg (by omega), if_pos (by omega)]
    omega
  unfold pte
  rw [identityMem_tableOf (by omega)]
  unfold identityMem
  rw [load32_ofWords (by omega) (by omega), e]

theorem identityMem_dirOk : DirOk identityMem 0x00100000 where
  aligned := by decide
  bound := by decide
  ne_dir i hi := by
    rw [identityMem_tableOf hi]
    omega
  distinct i j hi hj e := by
    rw [identityMem_tableOf hi, identityMem_tableOf hj] at e
    omega

theorem identityMem_chunkOk : ChunkOk identityMem 0x00200000 0x00100000 := by
  constructor
  · exact load32_ofWords (w := identityWords) (by decide) (by decide)
  · intro a h1 h2 i hi
    rw [identityMem_tableOf hi]
    omega

/-- **`paging_map_to` is an exact update of the translation**: it is refused exactly for addresses
    that are not aligned or a range that ends before it starts, and then changes nothing; else every
    address of the range is translated into the physical range with these flags, and every other as
    before. -/
theorem pagingMapTo_translates {m : Mem} {chunk dir virt phys physEnd flags : Nat}
    (hd : DirOk m dir) (hc : ChunkOk m chunk dir) (hv : virt < 4294967296)
    (he : physEnd < 4294967296) (hf : flags < 4096) (hr : virt + (physEnd - phys) ≤ 4294967296) :
    ((pagingMapTo m chunk virt phys physEnd flags).1 = -EINVARG ↔
      virt % 4096 ≠ 0 ∨ phys % 4096 ≠ 0 ∨ physEnd % 4096 ≠ 0 ∨ physEnd < phys) ∧
    ((pagingMapTo m chunk virt phys physEnd flags).1 = -EINVARG →
      (pagingMapTo m chunk virt phys physEnd flags).2 = m) ∧
    ((pagingMapTo m chunk virt phys physEnd flags).1 ≠ -EINVARG →
      (pagingMapTo m chunk virt phys physEnd flags).1 = 0 ∧ ∀ v, v < 4294967296 →
        if virt ≤ v ∧ v < virt + (physEnd - phys) then
          pagingGetPhysicalAddress (pagingMapTo m chunk virt phys physEnd flags).2 dir v =
            phys + (v - virt) ∧ flagsAt (pagingMapTo m chunk virt phys physEnd flags).2 dir v =
              flags
        else
          pagingGetPhysicalAddress (pagingMapTo m chunk virt phys physEnd flags).2 dir v =
            pagingGetPhysicalAddress m dir v ∧
          flagsAt (pagingMapTo m chunk virt phys physEnd flags).2 dir v = flagsAt m dir v) := by
  by_cases href : MapRefused virt phys physEnd
  · rw [pagingMapTo_refused m chunk flags href]
    exact ⟨⟨fun _ => href, fun _ => rfl⟩, fun _ => rfl, fun h => absurd rfl h⟩
  obtain ⟨m', e, hmaps⟩ := pagingMapTo_ok hf hd hc hv he href
  have hne : (0 : Int) ≠ -EINVARG := by decide
  rw [e]
  refine ⟨⟨fun h => absurd h hne, fun h => absurd h href⟩, fun h => absurd h hne,
    fun _ => ⟨rfl, fun v hvb => ?_⟩⟩
  obtain ⟨hva, hpa, hea, hle⟩ : virt % 4096 = 0 ∧ phys % 4096 = 0 ∧ physEnd % 4096 = 0 ∧
      phys ≤ physEnd := by
    unfold MapRefused at href
    omega
  have hcount : (physEnd - phys) / 4096 * 4096 = physEnd - phys := by omega
  have hentry := hmaps.entry (v / 4096) (by omega)
  unfold flagsAt
  rw [pagingGetPhysicalAddress_eq, pagingGet_lower]
  split
  · rename_i hin
    rw [rangeEntries_inside hva hin.1 (by omega) (by omega), Option.getD_some] at hentry
    obtain ⟨hpage, hflags⟩ :=
      entry_parts (p := phys + (v / 4096 - virt / 4096) * 4096) (by omega) hf
      (by omega)
    rw [hentry, hpage]
    refine ⟨?_, hflags⟩
    rw [u32_natCast_of_lt (by omega)]
    omega
  · rw [rangeEntries_outside hva hvb (by omega) (by omega), Option.getD_none] at hentry
    rw [hentry, pagingGetPhysicalAddress_eq, pagingGet_lower]
    exact ⟨rfl, rfl⟩

/-- Two pages of a directory that maps every page to itself, across the end of a table. -/
theorem pagingMapTo_translates_identity :
    (pagingMapTo identityMem 0x00200000 0x3FF000 0x5000 0x7000 7).1 = 0 ∧
    pagingGetPhysicalAddress (pagingMapTo identityMem 0x00200000 0x3FF000 0x5000 0x7000 7).2
      0x00100000 0x400123 = 0x6123 ∧
    flagsAt (pagingMapTo identityMem 0x00200000 0x3FF000 0x5000 0x7000 7).2 0x00100000 0x400123 =
        7 := by
  have h := @pagingMapTo_translates identityMem 0x00200000 0x00100000 0x3FF000 0x5000 0x7000 7
    identityMem_dirOk identityMem_chunkOk (by decide) (by decide) (by decide) (by decide)
  obtain ⟨hstatus, -, hmaps⟩ := h
  obtain ⟨h0, htrans⟩ := hmaps fun e => absurd (hstatus.mp e) (by decide)
  have hv := htrans 0x400123 (by decide)
  rw [if_pos (by decide)] at hv
  exact ⟨h0, hv⟩

end PeachKernel
