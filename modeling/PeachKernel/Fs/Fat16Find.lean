/-
  File:      PeachKernel/Fs/Fat16Find.lean
  Subject:   What `fat16_find_item_in_directory` finds.

  A directory is counted without its deleted items, and as many items as were counted are read and
  searched, deleted ones among them. So a deleted item in front pushes a live one out of the search.
  The count of a subdirectory goes on behind its first cluster, the buffer is read along the chain.

  * `LoadedDirectory` -- a root directory, or a subdirectory, as it was loaded, with its content on
    the disk and the number of items counted; `root_counts` -- in the root directory, that of the
    live ones;
  * `findItemLoop_cases` -- the search answers with the last item of the name that it sees;
  * `Finds` -- the answer is right; `InSight` -- the search sees what it needs of a name;
  * `fat16FindItemInDirectory_iff` -- the answer is right exactly for the names in sight, and all
    names are in sight exactly where no deleted item stands before a live one.
-/
import PeachKernel.Fs.Fat16Layout

namespace PeachKernel

open CInt Mem

/-! ## 1. The content of a directory -/

/-- The item ends the directory. -/
def DirectoryItem.Ends (item : DirectoryItem) : Prop := item.filename.headD 0 = 0x00

/-- The item is not deleted. -/
def DirectoryItem.Live (item : DirectoryItem) : Prop := item.filename.headD 0 ≠ 0xE5

instance : DecidablePred DirectoryItem.Ends := fun _ => inferInstanceAs (Decidable (_ = _))

instance : DecidablePred DirectoryItem.Live := fun _ => inferInstanceAs (Decidable (_ ≠ _))

/-- Item `i` of the root directory. -/
def rootItem (d : Disk) (header : Fat16Header) (i : Nat) : DirectoryItem :=
  directoryItemAt d.byte (header.rootDirSectorPos * 512 + 32 * i)

/-- Item `i` of the subdirectory that an item leads to, along its chain. -/
def subItem (d : Disk) (fs : Fat16Private) (item : DirectoryItem) (i : Nat) : DirectoryItem :=
  directoryItemAt (fat16FileByte d fs (fat16GetFirstCluster item)) (32 * i)

/-- The items that are counted from a sector on: the live ones before the first that starts with
    0. -/
def CountsTo (d : Disk) (sector : Int) (count : Nat) : Prop :=
  ∃ m, EndsAt (IsEnd d (directoryStart sector)) m ∧
    count = Nat.count (IsLive d (directoryStart sector)) m

/-- **A directory as it was loaded**, its content, the number of items before the one that ends it,
    and the number of items that were counted. The chain of a subdirectory can be followed for so
    many. -/
inductive LoadedDirectory (d : Disk) (fs : Fat16Private) :
    (Nat → DirectoryItem) → (n count : Nat) → FatDirectory → Prop where
  | root {k k' : Kernel} {fuel address n count : Nat} {dir : FatDirectory} :
      fat16GetRootDirectory k d fuel fs.header address = some (.ok dir, k') →
      fs.header.rootDirSectorPos * 512 + 32 * fs.header.rootDirEntries.toNat < 2147483648 →
      n < fs.header.rootDirEntries.toNat → EndsAt (fun i => (rootItem d fs.header i).Ends) n →
      CountsTo d fs.header.rootDirSectorPos count →
      LoadedDirectory d fs (rootItem d fs.header) n count dir
  | subdirectory {k k' : Kernel} {fuel n count imageSize : Nat} {item : DirectoryItem}
      {dir : FatDirectory} :
      fat16LoadFatDirectory k d fs fuel item = some ⟨0, some dir, k'⟩ →
      EndsAt (fun i => (subItem d fs item i).Ends) n →
      CountsTo d (fat16ClusterToSector fs (fat16GetFirstCluster item : Nat)) count →
      32 * count < 2147483648 → 0 < fs.sizeOfClusterBytes → imageSize < 2147483648 →
      Readable d fs (fat16GetFirstCluster item) (32 * count) imageSize →
      LoadedDirectory d fs (subItem d fs item) n count dir

/-- The buffer of a loaded directory holds the first items of its content, as many as were
    counted. -/
structure FatDirectory.Shows (dir : FatDirectory) (entry : Nat → DirectoryItem) (count : Nat) :
    Prop where
  total : dir.total = count
  item : ∀ mem i, i < count → dir.itemAt mem i = entry i

/-! ## 2. Loading -/

section Loading

variable {d : Disk} {fs : Fat16Private} {n : Nat} {dir : FatDirectory}

/-- The first byte of an item that the count looks at. -/
theorem entryByte_eq {start i : Nat} (h : start + 32 * i + 32 < 2147483648) :
    entryByte d start i = (directoryItemAt d.byte (start + 32 * i)).filename.headD 0 := by
  have hpos : i32 ((start : Int) + 32 * i) = ((start + 32 * i : Nat) : Int) := by
    rw [i32_of_range (by omega) (by omega)]
    push_cast
    rfl
  unfold entryByte
  rw [hpos, show (32 : Int) = (32 : Nat) from rfl, readAt_eq d h]
  rfl

/-- A sector has one count, and it is what the function finds. -/
theorem CountsTo.total {sector total : Int} {fuel count : Nat} (hc : CountsTo d sector count)
    (h : fat16GetTotalItemsForDirectory d fuel sector = some total) : total = count := by
  obtain ⟨m, hm, rfl⟩ := hc
  obtain ⟨m', -, hm', rfl⟩ := totalItems_iff.mp h
  rw [hm'.unique hm]

/-- **The count of a directory** whose items lie on the disk from `start` on. -/
theorem countsTo_content {entry : Nat → DirectoryItem} {start count : Nat} {sector : Int}
    (hs : directoryStart sector = start) (hin : start + 32 * n + 32 < 2147483648)
    (hitem : ∀ i ≤ n, entry i = directoryItemAt d.byte (start + 32 * i))
    (hend : EndsAt (fun i => (entry i).Ends) n) (h : CountsTo d sector count) :
    count = Nat.count (fun i => (entry i).Live) n := by
  have hbyte : ∀ i ≤ n, entryByte d start i = (entry i).filename.headD 0 := fun i hi => by
    rw [entryByte_eq (by omega), hitem i hi]
  obtain ⟨m, hm, rfl⟩ := h
  rw [hs] at hm ⊢
  have hend' : EndsAt (IsEnd d start) n := by
    refine ⟨?_, fun i hi => ?_⟩
    · show entryByte d start n = 0x00
      rw [hbyte n (Nat.le_refl n)]
      exact hend.1
    · show ¬ entryByte d start i = 0x00
      rw [hbyte i (Nat.le_of_lt hi)]
      exact hend.2 i hi
  rw [hm.unique hend']
  refine count_congr fun i hi => ?_
  show entryByte d start i ≠ 0xE5 ↔ _
  rw [hbyte i (Nat.le_of_lt hi)]
  rfl

/-- An item of a buffer that holds bytes of the content. -/
theorem itemAt_eq {content : Nat → UInt8} {size i : Nat} (hb : dir.bytes = slice content 0 size)
    (hi : 32 * i + 32 ≤ size) (mem : Mem) :
    dir.itemAt mem i = directoryItemAt content (32 * i) := by
  unfold FatDirectory.itemAt
  refine directoryItemAt_congr fun j hj => ?_
  rw [hb, slice_getD 0 _ (by omega), Nat.zero_add]

/-- A directory at a sector of the first 2 GiB. -/
theorem directoryStart_of_lt {sector : Nat} (h : sector * 512 < 2147483648) :
    directoryStart sector = ((sector * 512 : Nat) : Int) := by
  unfold directoryStart
  rw [u32_natCast_of_lt (by omega), i32_of_range (by omega) (by omega)]
  rfl

/-- **In the root directory the live items are counted.** -/
theorem root_counts {header : Fat16Header} {count : Nat}
    (hin : header.rootDirSectorPos * 512 + 32 * header.rootDirEntries.toNat < 2147483648)
    (hn : n < header.rootDirEntries.toNat) (hend : EndsAt (fun i => (rootItem d header i).Ends) n)
    (h : CountsTo d header.rootDirSectorPos count) :
    count = Nat.count (fun i => (rootItem d header i).Live) n := by
  have hitem : rootItem d header =
      fun i => directoryItemAt d.byte (header.rootDirSectorPos * 512 + 32 * i) := rfl
  generalize header.rootDirSectorPos = sector at hin h hitem
  have hle : 32 * n + 32 ≤ 32 * header.rootDirEntries.toNat := Nat.mul_le_mul_left 32 hn
  have hlast : sector * 512 + 32 * n + 32 < 2147483648 := by
    rw [Nat.add_assoc]
    exact Nat.lt_of_le_of_lt (Nat.add_le_add_left hle _) hin
  have hfirst : sector * 512 < 2147483648 := Nat.lt_of_le_of_lt (Nat.le_add_right _ _) hin
  exact countsTo_content (directoryStart_of_lt hfirst) hlast (fun i _ => by rw [hitem]) hend h

/-- **The root directory shows its content.** -/
theorem root_shows {k k' : Kernel} {header : Fat16Header} {fuel address count : Nat}
    (h : fat16GetRootDirectory k d fuel header address = some (.ok dir, k'))
    (hin : header.rootDirSectorPos * 512 + 32 * header.rootDirEntries.toNat < 2147483648)
    (hn : n < header.rootDirEntries.toNat) (hend : EndsAt (fun i => (rootItem d header i).Ends) n)
    (hc : CountsTo d header.rootDirSectorPos count) : dir.Shows (rootItem d header) count := by
  obtain ⟨total, htotal, -, -, rfl⟩ := fat16GetRootDirectory_ok_iff.mp h
  refine ⟨hc.total htotal, fun mem i hi => ?_⟩
  rw [root_counts hin hn hend hc] at hi
  have hlt : i < n := Nat.lt_of_lt_of_le hi (Nat.count_le _)
  have hitem : rootItem d header =
      fun i => directoryItemAt d.byte (header.rootDirSectorPos * 512 + 32 * i) := rfl
  generalize hsector : header.rootDirSectorPos = sector at hin hitem
  have hfirst : sector * 512 < 2147483648 := Nat.lt_of_le_of_lt (Nat.le_add_right _ _) hin
  have hpos : i32 ((sector : Int) * 512) = ((sector * 512 : Nat) : Int) := i32_natCast_of_lt hfirst
  have hbytes : (rootDirectoryOf d header address (kzalloc k (header.rootDirEntries.toNat * 32)).1
      total).bytes = slice (fun j => d.byte (sector * 512 + j)) 0
        (header.rootDirEntries.toNat * 32) := by
    unfold rootDirectoryOf
    dsimp only
    rw [hsector, hpos, Nat.mul_comm header.rootDirEntries.toNat, readAt_eq d hin]
    exact slice_congr fun j _ => by rw [Nat.zero_add]
  rw [itemAt_eq hbytes (by omega), hitem]
  exact directoryItemAt_congr fun j _ => congrArg d.byte (Nat.add_assoc _ _ _).symm

/-- **The subdirectory shows its content.** -/
theorem subdirectory_shows {k k' : Kernel} {fuel count imageSize : Nat} {item : DirectoryItem}
    (h : fat16LoadFatDirectory k d fs fuel item = some ⟨0, some dir, k'⟩)
    (hc : CountsTo d (fat16ClusterToSector fs (fat16GetFirstCluster item : Nat)) count)
    (hcount : 32 * count < 2147483648) (hcs : 0 < fs.sizeOfClusterBytes)
    (himage : imageSize < 2147483648)
    (hr : Readable d fs (fat16GetFirstCluster item) (32 * count) imageSize) :
    dir.Shows (subItem d fs item) count := by
  obtain ⟨total, htotal, e, hread⟩ := fat16LoadFatDirectory_ok h
  rw [hc.total htotal] at e hread
  refine ⟨e, fun mem i hi => ?_⟩
  have hsize : i32 ((count : Int) * 32) = ((count * 32 : Nat) : Int) :=
    i32_natCast_of_lt (n := count * 32) (by omega)
  have hfuel : count * 32 ≤ max fuel (count * 32) := Nat.le_max_right _ _
  have hfile := fat16ReadInternal_file himage hr hcount hcs (o := 0) (by omega) hfuel
    (by omega) fun _ _ => Or.inl (by
      rw [Nat.zero_mod, Nat.zero_add]
      exact Nat.min_le_right _ _)
  rw [hsize] at hread
  have hread := (fat16ReadInternal_mono fuel (Nat.le_max_left _ (count * 32)) hread).symm.trans
    hfile
  exact itemAt_eq (Prod.mk.inj (Option.some.inj hread)).2 (by omega) mem

/-- **A loaded directory shows its content.** -/
theorem LoadedDirectory.shows {entry : Nat → DirectoryItem} {count : Nat}
    (h : LoadedDirectory d fs entry n count dir) : dir.Shows entry count := by
  cases h with
  | root h hin hn hend hc => exact root_shows h hin hn hend hc
  | subdirectory h _ hc hcount hcs himage hr => exact subdirectory_shows h hc hcount hcs himage hr

end Loading

/-! ## 3. Searching -/

/-- The item is what `fat16_new_fat_item_for_directory_item` makes of an item of a directory. -/
def FatItem.MadeFrom (d : Disk) (fs : Fat16Private) (fuel : Nat) (fItem : FatItem)
    (item : DirectoryItem) : Prop :=
  ∃ k k', fat16NewFatItemForDirectoryItem k d fs fuel item = some (some fItem, k')

/-- **The answer to a search is right**: an item exactly where a live item before the end has the
    name, and made from such an item. -/
def Finds (d : Disk) (fs : Fat16Private) (fuel : Nat) (entry : Nat → DirectoryItem) (n : Nat)
    (name : List UInt8) (found : Option FatItem) : Prop :=
  ((∃ fItem, found = some fItem) ↔ ∃ i < n, (entry i).Live ∧ SpelledBy (entry i).name83 name) ∧
  ∀ fItem, found = some fItem → ∃ i < n, (entry i).Live ∧ SpelledBy (entry i).name83 name ∧
    fItem.MadeFrom d fs fuel (entry i)

/-- **The name is in sight**: of the items that were counted none but a live one before the end has
    it, and where such a one has it one of these does. -/
def InSight (entry : Nat → DirectoryItem) (n count : Nat) (name : List UInt8) : Prop :=
  (∀ i < count, SpelledBy (entry i).name83 name → i < n ∧ (entry i).Live) ∧
  ((∃ i < n, (entry i).Live ∧ SpelledBy (entry i).name83 name) →
    ∃ i < count, SpelledBy (entry i).name83 name)

/-- No deleted item stands before a live one. -/
def LiveFirst (entry : Nat → DirectoryItem) (n : Nat) : Prop :=
  ∀ j < n, (entry j).Live → ∀ i < j, (entry i).Live

/-- A name starts as its item does, with the mark of a deleted one or without. -/
theorem name83_head (item : DirectoryItem) : item.name83.headD 0 = 0xE5 ↔ ¬ item.Live := by
  unfold DirectoryItem.name83 DirectoryItem.Live
  dsimp only
  cases item.filename with
  | nil => simp [fieldText]
  | cons c cs =>
    rw [List.take_succ_cons, List.headD_cons, not_not]
    by_cases hc : c = 0x00 ∨ c = 0x20
    · have hne : c ≠ 0xE5 := by
        rintro rfl
        exact absurd hc (by decide)
      rw [fieldText_stop hc, List.nil_append]
      split <;> simp [hne]
    · simp [fieldText_cons hc]

theorem tolower_eq_deleted {c : UInt8} : tolower c = 0xE5 ↔ c = 0xE5 := by
  unfold tolower
  grind

/-- **A name is not that of a live item and of a deleted one.** -/
theorem live_iff_of_spelledBy {item item' : DirectoryItem} {name : List UInt8}
    (h : SpelledBy item.name83 name) (h' : SpelledBy item'.name83 name) :
    item.Live ↔ item'.Live := by
  have hhead : ∀ cs : List UInt8, cs.headD 0 = 0xE5 ↔ (cs.map tolower).headD 0 = 0xE5 := by
    intro cs
    cases cs with
    | nil => rfl
    | cons c cs => exact tolower_eq_deleted.symm
  rw [← not_iff_not, ← name83_head, ← name83_head, hhead item.name83, hhead item'.name83, h, h']

/-- An item has its own name. -/
theorem spelledBy_name83 (item : DirectoryItem) : SpelledBy item.name83 item.name83 := by
  unfold SpelledBy
  rw [List.takeWhile_eq_self_iff.mpr fun c hc => decide_eq_true (name83_ne_zero item c hc)]

/-- **All names are in sight** exactly where no deleted item stands before a live one, if the live
    items were counted. -/
theorem inSight_iff {entry : Nat → DirectoryItem} {n count : Nat}
    (hc : count = Nat.count (fun i => (entry i).Live) n) :
    (∀ name, InSight entry n count name) ↔ LiveFirst entry n := by
  refine Iff.trans ?_ (prefix_iff (p := fun i => (entry i).Live))
  rw [hc]
  constructor
  · exact fun h i hi => ((h (entry i).name83).1 i hi (spelledBy_name83 _)).2
  · refine fun h name => ⟨fun i hi _ => ⟨Nat.lt_of_lt_of_le hi (Nat.count_le _), h i hi⟩, ?_⟩
    rintro ⟨i, hi, hlive, hname⟩
    exact ⟨i, prefix_all h hi hlive, hname⟩

section Searching

variable {k k' : Kernel} {d : Disk} {fs : Fat16Private} {fuel n count : Nat} {dir : FatDirectory}
  {entry : Nat → DirectoryItem} {name : List UInt8} {found : Option FatItem} {item : DirectoryItem}

theorem fat16FreeDirectory_placed (hp : k.heap.Placed) (directory : Option FatDirectory) :
    (fat16FreeDirectory k directory).heap.Placed := by
  unfold fat16FreeDirectory
  cases directory with
  | none => exact hp
  | some directory =>
    dsimp only
    split
    · exact (hp.free _).free _
    · exact hp.free _

theorem fat16LoadFatDirectory_placed (hp : k.heap.Placed) {r : LoadResult}
    (h : fat16LoadFatDirectory k d fs fuel item = some r) : r.kernel.heap.Placed := by
  have hexit : ∀ {res : Int} {directory : Option FatDirectory} {k : Kernel}, k.heap.Placed →
      (LoadResult.exit res directory k).kernel.heap.Placed := by
    intro res directory k hp
    unfold LoadResult.exit
    dsimp only
    split
    · exact fat16FreeDirectory_placed hp directory
    · exact hp
  rcases fat16LoadFatDirectory_cases h with
    ⟨-, rfl⟩ | ⟨-, -, rfl⟩ | ⟨-, -, total, -, ⟨-, rfl⟩ | ⟨-, res, bytes, -, rfl⟩⟩
  · exact hp
  · exact kzalloc_placed hp _
  · exact hexit (kzalloc_placed (kzalloc_placed hp _) _)
  · exact hexit (kzalloc_placed (kzalloc_placed hp _) _)

/-- **What `fat16_new_fat_item_for_directory_item` does**: nothing without a block; a directory that
    it loads, or a copy of the item. -/
theorem fat16NewFatItem_cases
    (h : fat16NewFatItemForDirectoryItem k d fs fuel item = some (found, k')) :
    ((kzalloc k 8).1 = 0 ∧ found = none ∧ k' = (kzalloc k 8).2) ∨
    ((kzalloc k 8).1 ≠ 0 ∧ item.attr &&& 0x10 ≠ 0 ∧ ∃ r,
      fat16LoadFatDirectory (kzalloc k 8).2 d fs fuel item = some r ∧
      found = some ⟨(kzalloc k 8).1, .directory r.directory⟩ ∧ k' = r.kernel) ∨
    ((kzalloc k 8).1 ≠ 0 ∧ item.attr &&& 0x10 = 0 ∧
      found = some ⟨(kzalloc k 8).1, .file (fat16CloneDirectoryItem (kzalloc k 8).2 item 32).1⟩ ∧
      k' = (fat16CloneDirectoryItem (kzalloc k 8).2 item 32).2) := by
  unfold fat16NewFatItemForDirectoryItem at h
  dsimp only at h
  split at h
  · rename_i h0
    obtain ⟨rfl, rfl⟩ := Prod.mk.inj (Option.some.inj h)
    exact Or.inl ⟨h0, rfl, rfl⟩
  rename_i h0
  split at h
  · rename_i hattr
    obtain ⟨r, hr, e⟩ := Option.map_eq_some_iff.mp h
    obtain ⟨rfl, rfl⟩ := Prod.mk.inj e
    exact Or.inr (Or.inl ⟨h0, hattr, r, hr, rfl, rfl⟩)
  · rename_i hattr
    obtain ⟨rfl, rfl⟩ := Prod.mk.inj (Option.some.inj h)
    exact Or.inr (Or.inr ⟨h0, not_not.mp hattr, rfl, rfl⟩)

theorem fat16NewFatItem_placed (hp : k.heap.Placed)
    (h : fat16NewFatItemForDirectoryItem k d fs fuel item = some (found, k')) : k'.heap.Placed := by
  have hp₁ := kzalloc_placed hp 8
  rcases fat16NewFatItem_cases h with ⟨-, -, rfl⟩ | ⟨-, -, r, hr, -, rfl⟩ | ⟨-, -, -, rfl⟩
  · exact hp₁
  · exact fat16LoadFatDirectory_placed hp₁ hr
  · unfold fat16CloneDirectoryItem
    rw [if_neg (by decide)]
    dsimp only
    split
    · exact kzalloc_placed hp₁ 32
    · exact kzalloc_placed hp₁ 32

/-- An item is made while a block is left. -/
theorem fat16NewFatItem_some (hp : k.heap.Placed) (hfree : 0 < freeBlocks k'.heap)
    (h : fat16NewFatItemForDirectoryItem k d fs fuel item = some (found, k')) :
    ∃ fItem, found = some fItem := by
  rcases fat16NewFatItem_cases h with ⟨h0, -, rfl⟩ | ⟨-, -, r, -, rfl, -⟩ | ⟨-, -, rfl, -⟩
  · have hnone := (kzalloc_null_iff hp (by decide) (by decide)).mp h0
    rw [kzalloc_full hp hnone (by decide) (by decide)] at hfree
    exact absurd hfree (Nat.not_lt.mpr (Nat.le_of_eq hnone))
  · exact ⟨_, rfl⟩
  · exact ⟨_, rfl⟩

/-- **The search**: induction on the items that are left. Either none of them has the name, or the
    answer is what was made of one that has. -/
theorem findItemLoop_cases (left : Nat) : ∀ {i : Nat} {fItem : Option FatItem} {k : Kernel},
    k.heap.Placed → (∀ mem j, i ≤ j → j < i + left → dir.itemAt mem j = entry j) →
    findItemLoop d fs fuel dir name left i fItem k = some (found, k') →
    ((∀ j, i ≤ j → j < i + left → ¬ SpelledBy (entry j).name83 name) ∧ found = fItem ∧ k' = k) ∨
    ∃ j, i ≤ j ∧ j < i + left ∧ SpelledBy (entry j).name83 name ∧ ∃ k₁ : Kernel, k₁.heap.Placed ∧
      fat16NewFatItemForDirectoryItem k₁ d fs fuel (entry j) = some (found, k') := by
  induction left with
  | zero =>
    intro i fItem k _ _ h
    obtain ⟨rfl, rfl⟩ := Prod.mk.inj (Option.some.inj h)
    exact Or.inl ⟨fun j h1 h2 => absurd h2 (by omega), rfl, rfl⟩
  | succ left ih =>
    intro i fItem k hp hseen h
    have hrest : ∀ mem j, i + 1 ≤ j → j < i + 1 + left → dir.itemAt mem j = entry j :=
      fun mem j h1 h2 => hseen mem j (by omega) (by omega)
    rw [findItemLoop, hseen k.mem i (Nat.le_refl i) (by omega)] at h
    split at h
    · rename_i hnamed
      have hname := (istrncmp_name83_iff (entry i) name).mp (of_decide_eq_true hnamed)
      split at h
      · cases h
      rename_i fItem' k₁ hnew
      rcases ih (fat16NewFatItem_placed hp hnew) hrest h with ⟨-, rfl, rfl⟩ | ⟨j, h1, h2, hj⟩
      · -- no later item has the name, so the answer is this one
        exact Or.inr ⟨i, Nat.le_refl i, by omega, hname, k, hp, hnew⟩
      · exact Or.inr ⟨j, by omega, by omega, hj⟩
    · rename_i hnamed
      have hname : ¬ SpelledBy (entry i).name83 name := fun hs =>
        hnamed (decide_eq_true ((istrncmp_name83_iff (entry i) name).mpr hs))
      rcases ih hp hrest h with ⟨hnone, e⟩ | ⟨j, h1, h2, hj⟩
      · refine Or.inl ⟨fun j h1 h2 => ?_, e⟩
        rcases Nat.eq_or_lt_of_le h1 with rfl | hlt
        · exact hname
        · exact hnone j hlt (by omega)
      · exact Or.inr ⟨j, by omega, by omega, hj⟩

/-- **The search of a directory**: none of the items that were counted has the name, or the answer
    is what was made of one that has. -/
theorem find_cases (hs : dir.Shows entry count) (hp : k.heap.Placed)
    (h : fat16FindItemInDirectory k d fs fuel dir name = some (found, k')) :
    ((∀ j < count, ¬ SpelledBy (entry j).name83 name) ∧ found = none) ∨
    ∃ j < count, SpelledBy (entry j).name83 name ∧ ∃ k₁ : Kernel, k₁.heap.Placed ∧
      fat16NewFatItemForDirectoryItem k₁ d fs fuel (entry j) = some (found, k') := by
  unfold fat16FindItemInDirectory at h
  rw [hs.total, Int.toNat_natCast] at h
  rcases findItemLoop_cases _ hp (fun mem j _ hj => hs.item mem j (by omega)) h with
    ⟨hnone, e, -⟩ | ⟨j, -, hj, hname, hnew⟩
  · exact Or.inl ⟨fun j hj => hnone j (Nat.zero_le j) (by omega), e⟩
  · exact Or.inr ⟨j, by omega, hname, hnew⟩

/-- **A name in sight** is answered rightly. -/
theorem finds_of_inSight (hs : dir.Shows entry count) (hp : k.heap.Placed)
    (h : fat16FindItemInDirectory k d fs fuel dir name = some (found, k'))
    (hfree : 0 < freeBlocks k'.heap) (hsight : InSight entry n count name) :
    Finds d fs fuel entry n name found := by
  obtain ⟨hseen, hshown⟩ := hsight
  rcases find_cases hs hp h with ⟨hnone, rfl⟩ | ⟨j, hj, hname, k₁, hp₁, hnew⟩
  · have hno : ¬ ∃ i < n, (entry i).Live ∧ SpelledBy (entry i).name83 name := fun hex => by
      obtain ⟨i, hi, hname⟩ := hshown hex
      exact hnone i hi hname
    exact ⟨by simp [hno], fun fItem e => by cases e⟩
  · obtain ⟨hjn, hlive⟩ := hseen j hj hname
    obtain ⟨fItem, rfl⟩ := fat16NewFatItem_some hp₁ hfree hnew
    refine ⟨⟨fun _ => ⟨j, hjn, hlive, hname⟩, fun _ => ⟨fItem, rfl⟩⟩, fun fItem' e => ?_⟩
    cases e
    exact ⟨j, hjn, hlive, hname, k₁, k', hnew⟩

/-- **A right answer** is one to a name in sight, where the count does not go behind the end. -/
theorem inSight_of_finds (hs : dir.Shows entry count) (hp : k.heap.Placed)
    (h : fat16FindItemInDirectory k d fs fuel dir name = some (found, k'))
    (hfree : 0 < freeBlocks k'.heap) (hle : count ≤ n)
    (hfinds : Finds d fs fuel entry n name found) : InSight entry n count name := by
  obtain ⟨hiff, -⟩ := hfinds
  have hcases := find_cases hs hp h
  constructor
  · -- an item is returned, so a live one has the name, too
    intro i hi hname
    rcases hcases with ⟨hnone, -⟩ | ⟨j, -, -, k₁, hp₁, hnew⟩
    · exact absurd hname (hnone i hi)
    · obtain ⟨i', -, hlive, hname'⟩ := hiff.mp (fat16NewFatItem_some hp₁ hfree hnew)
      exact ⟨Nat.lt_of_lt_of_le hi hle, (live_iff_of_spelledBy hname hname').mpr hlive⟩
  · intro hex
    obtain ⟨fItem, hfound⟩ := hiff.mpr hex
    rcases hcases with ⟨-, hnone⟩ | ⟨j, hj, hname, -⟩
    · rw [hfound] at hnone
      cases hnone
    · exact ⟨j, hj, hname⟩

/-- **The answer is right exactly for the names in sight**: for them it is; and a right answer is
    one to them where the count does not go behind the end of the directory. Where the live items
    were counted, all names are in sight exactly if no deleted item stands before a live one. -/
theorem fat16FindItemInDirectory_iff (hl : LoadedDirectory d fs entry n count dir)
    (hp : k.heap.Placed) (h : fat16FindItemInDirectory k d fs fuel dir name = some (found, k'))
    (hfree : 0 < freeBlocks k'.heap) :
    (InSight entry n count name → Finds d fs fuel entry n name found) ∧
    (count ≤ n → Finds d fs fuel entry n name found → InSight entry n count name) ∧
    (count = Nat.count (fun i => (entry i).Live) n →
      ((∀ str, InSight entry n count str) ↔ LiveFirst entry n)) :=
  ⟨finds_of_inSight hl.shows hp h hfree, inSight_of_finds hl.shows hp h hfree, inSight_iff⟩

end Searching

/-! ## 4. Volumes -/

/-- The private data of a volume with the small header. -/
def rootFs : Fat16Private := ⟨⟨1, 1, 1, 16, 1, 0x29⟩, 3⟩

/-- The root directory of such a volume is loaded, and its live items are counted. -/
theorem rootFs_loaded {d : Disk} {n t : Nat}
    (ht : fat16GetTotalItemsForDirectory d 4 2 = some (t : Int)) (hn : n < 16)
    (hend : EndsAt (fun i => (rootItem d rootFs.header i).Ends) n) :
    ∃ dir, LoadedDirectory d rootFs (rootItem d rootFs.header) n t dir ∧
      t = Nat.count (fun i => (rootItem d rootFs.header i).Live) n := by
  have hfree : 0 < freeBlocks emptyKernel.heap := emptyKernel_room (n := 1) (by decide)
  obtain ⟨item, k', e, hne, -⟩ := kzalloc_one (k := emptyKernel) emptyKernel_placed hfree
    (rootFs.header.rootDirEntries.toNat * 32) (by decide) (by decide)
  have hroot : fat16GetRootDirectory emptyKernel d 4 rootFs.header 0 =
      some (.ok (rootDirectoryOf d rootFs.header 0 item t), k') := by
    refine fat16GetRootDirectory_ok_iff.mpr ⟨t, ht, ?_, ?_, ?_⟩
    · rw [e]
      exact hne
    · rw [e]
    · rw [e]
  have hcounts : CountsTo d rootFs.header.rootDirSectorPos t := by
    obtain ⟨m, -, hm, e'⟩ := totalItems_iff.mp ht
    exact ⟨m, hm, Int.ofNat_inj.mp e'⟩
  exact ⟨_, .root hroot (by decide) hn hend hcounts, root_counts (by decide) hn hend hcounts⟩

/-- The name `A`. -/
def nameA : List UInt8 := [0x41]

/-- **A deleted item, and the file `A` behind it.** -/
def hiddenVolume : Disk := diskOf ([(1024, 0xE5), (1056, 0x41)] ++ smallHeader)

/-- The files `B` and `A`, and a deleted item behind them. -/
def shownVolume : Disk := diskOf ([(1024, 0x42), (1056, 0x41), (1088, 0xE5)] ++ smallHeader)

/-- **The file behind the deleted item is not found.** -/
theorem fat16FindItemInDirectory_hidden : ¬ ∀ (d : Disk) (fs : Fat16Private)
    (entry : Nat → DirectoryItem) (n count : Nat) (dir : FatDirectory),
    LoadedDirectory d fs entry n count dir →
    ∀ (k k' : Kernel) (fuel : Nat) (name : List UInt8) (found : Option FatItem), k.heap.Placed →
      fat16FindItemInDirectory k d fs fuel dir name = some (found, k') → 0 < freeBlocks k'.heap →
      Finds d fs fuel entry n name found := by
  intro h
  obtain ⟨dir, hl, -⟩ := rootFs_loaded (d := hiddenVolume) (n := 2) (t := 1) (by decide +kernel)
    (by decide) ⟨by decide +kernel, by decide +kernel⟩
  have hs := hl.shows
  have hcall : fat16FindItemInDirectory emptyKernel hiddenVolume rootFs 0 dir nameA =
      some (none, emptyKernel) := by
    have hitem := hs.item emptyKernel.mem 0 (by decide)
    unfold fat16FindItemInDirectory
    rw [hs.total]
    show findItemLoop hiddenVolume rootFs 0 dir nameA 1 0 none emptyKernel = _
    rw [findItemLoop, hitem, if_neg (by decide +kernel)]
    rfl
  have hfree : 0 < freeBlocks emptyKernel.heap := emptyKernel_room (n := 1) (by decide)
  have hfinds := h _ _ _ _ _ _ hl emptyKernel emptyKernel 0 nameA none emptyKernel_placed hcall
    hfree
  obtain ⟨fItem, e⟩ := hfinds.1.mpr ⟨1, by decide, by decide +kernel, by decide +kernel⟩
  cases e

/-- The second of two files is found before a deleted item. -/
theorem fat16FindItemInDirectory_iff_shown : ∃ dir found k',
    LoadedDirectory shownVolume rootFs (rootItem shownVolume rootFs.header) 3 2 dir ∧
    fat16FindItemInDirectory emptyKernel shownVolume rootFs 0 dir nameA = some (found, k') ∧
    Finds shownVolume rootFs 0 (rootItem shownVolume rootFs.header) 3 nameA found := by
  obtain ⟨dir, hl, hcount⟩ := rootFs_loaded (d := shownVolume) (n := 3) (t := 2) (by decide +kernel)
    (by decide) ⟨by decide +kernel, by decide +kernel⟩
  have hs := hl.shows
  have hfree : freeBlocks emptyKernel.heap = 25600 := emptyKernel_free
  obtain ⟨fItem, k₁, e₁, hne₁, hp₁, hf₁⟩ := kzalloc_one (k := emptyKernel) emptyKernel_placed
    (by omega) 8 (by decide) (by decide)
  obtain ⟨copy, k₂, e₂, hne₂, -, hf₂⟩ := kzalloc_one hp₁ (by omega) 32 (by decide) (by decide)
  have hcall : fat16FindItemInDirectory emptyKernel shownVolume rootFs 0 dir nameA =
      some (some ⟨fItem, .file (some (copy, rootItem shownVolume rootFs.header 1))⟩, k₂) := by
    have hfirst := hs.item emptyKernel.mem 0 (by decide)
    have hsecond := hs.item emptyKernel.mem 1 (by decide)
    unfold fat16FindItemInDirectory
    rw [hs.total]
    show findItemLoop shownVolume rootFs 0 dir nameA 2 0 none emptyKernel = _
    rw [findItemLoop, hfirst, if_neg (by decide +kernel), findItemLoop, hsecond,
      if_pos (by decide +kernel)]
    unfold fat16NewFatItemForDirectoryItem fat16CloneDirectoryItem
    rw [e₁]
    dsimp only
    rw [if_neg hne₁, if_neg (by decide +kernel), if_neg (by decide), e₂]
    dsimp only
    rw [if_neg hne₂]
    rfl
  obtain ⟨hfinds, -, hall⟩ := fat16FindItemInDirectory_iff hl emptyKernel_placed hcall (by omega)
  have hfirst : LiveFirst (rootItem shownVolume rootFs.header) 3 := by
    unfold LiveFirst
    decide +kernel
  exact ⟨dir, _, _, hl, hcall, hfinds ((hall hcount).mpr hfirst nameA)⟩

end PeachKernel
