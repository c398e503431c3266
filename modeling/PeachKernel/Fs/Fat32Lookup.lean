/-
  File:      PeachKernel/Fs/Fat32Lookup.lean
  Subject:   The walk of the FAT32 driver along a path: what it finds, and when it comes back.

  A directory is a chain of clusters, and each cluster holds items of 32 bytes. The walk looks for
  one component in one directory after the other; nothing but the chain itself bounds a search.

  * `itemsOf`, `clusterItems`, `bufItems` -- the items of a cluster, as the disk holds it and as the
    driver's buffer does;
  * `scanCluster_scan`, `findInDirectory_some`, `findInDirectory_ends` -- one cluster, and one
    directory;
  * `Resolves`, `Unresolved`, `PathEnds` -- what a path leads to, and that the searches on it end;
  * `getPathDirectoryItem_resolves` -- the walk on an image whose directories are finite;
  * `fat32Open_returns_iff` -- when `fat32_open` comes back at all.
-/
import PeachKernel.Lib.Pages
import PeachKernel.Fs.Fat32File
import PeachKernel.Fs.ShortName

namespace PeachKernel

open CInt Mem

/-! ## 1. The items of a cluster -/

/-- The items of a buffer of `size` bytes. The last one may reach behind it. -/
def itemsOf (buf : Mem) (size : Nat) : List DirectoryItem :=
  (List.range ((size + 31) / 32)).map fun i => directoryItemAt buf (32 * i)

/-- The items in the bytes that the disk has for a cluster. -/
def clusterItems (d : Disk) (fs : Fat32Private) (clusterId : Nat) : List DirectoryItem :=
  itemsOf (bytesMem (seekRead d (getClusterDataDiskPos fs clusterId) fs.clusterSizeBytes))
    fs.clusterSizeBytes

/-- The items in the driver's buffer, with memory behind it. -/
def bufItems (mem : Mem) (d : Disk) (fs : Fat32Private) (clusterId : Nat) : List DirectoryItem :=
  itemsOf (clusterBuf mem d fs clusterId) fs.clusterSizeBytes

/-- An item that marks the end of a directory. -/
def DirectoryItem.IsLast (item : DirectoryItem) : Prop := item.filename.headD 0 = 0

/-- An item with the 11 bytes `name`. -/
def HasName (name : List UInt8) (item : DirectoryItem) : Prop := item.filename = name

section Items

variable {mem : Mem} {d : Disk} {fs : Fat32Private}

/-- Whole items of a buffer are its bytes. -/
theorem itemsOf_congr {m m' : Mem} {size : Nat} (h32 : 32 ∣ size) (h : ∀ i, i < size → m i = m' i) :
    itemsOf m size = itemsOf m' size := by
  obtain ⟨count, rfl⟩ := h32
  unfold itemsOf
  refine List.map_congr_left fun i hi => directoryItemAt_congr fun j hj => h _ ?_
  have hlt := List.mem_range.mp hi
  omega

theorem directoryItemAt_head (m : Mem) (o : Nat) : (directoryItemAt m o).filename.headD 0 = m o :=
  rfl

/-- **Memory behind the buffer does not matter** where a cluster has whole items. -/
theorem bufItems_eq (h32 : 32 ∣ fs.clusterSizeBytes) (hlt : fs.clusterSizeBytes < 2147483648) :
    bufItems mem d fs = clusterItems d fs := by
  funext clusterId
  have hlen := seekRead_length_of_lt d (getClusterDataDiskPos fs clusterId) hlt
  refine itemsOf_congr h32 fun i hi => ?_
  unfold clusterBuf bytesMem
  rw [List.getD_eq_getElem _ _ (by omega), List.getD_eq_getElem _ _ (by omega)]

/-- **A cluster inside an image below 2 GiB**: its items are those of its data. -/
theorem clusterItems_inside {clusterId : Nat} (h32 : 32 ∣ fs.clusterSizeBytes)
    (h0 : 0 ≤ fs.dataPos clusterId) (h : fs.dataPos clusterId + fs.clusterSizeBytes < 2147483648) :
    clusterItems d fs clusterId = itemsOf (clusterByte d fs clusterId) fs.clusterSizeBytes := by
  have hpos : getClusterDataDiskPos fs clusterId = (fs.dataPos clusterId).toNat := by
    unfold getClusterDataDiskPos u32
    omega
  refine itemsOf_congr h32 fun i hi => ?_
  rw [hpos, seekRead_eq d (by omega), bytesMem_slice _ hi]
  rfl

/-- The packed name has 11 bytes, none of them NUL. -/
theorem transformFilenameLoop_bytes (src : List UInt8) :
    ∀ {dest : List UInt8} {pos : Nat} {seen : Bool}, dest.length = 11 → 0 ∉ dest →
    (transformFilenameLoop src dest pos seen).length = 11 ∧
      0 ∉ transformFilenameLoop src dest pos seen := by
  induction src with
  | nil => exact fun hlen h0 => ⟨hlen, h0⟩
  | cons c src ih =>
    intro dest pos seen hlen h0
    rw [transformFilenameLoop]
    split
    · exact ⟨hlen, h0⟩
    split
    · exact ⟨hlen, h0⟩
    · next hc =>
      split
      · split
        · exact ih hlen h0
        · exact ih hlen h0
      · refine ih (by rw [List.length_set, hlen]) fun hmem => ?_
        rcases List.mem_or_eq_of_mem_set hmem with hmem | he
        · exact h0 hmem
        · have hupper : toupper c ≠ 0 := by
            unfold toupper
            grind
          exact hupper he.symm

theorem transformFilenameToFat_bytes (part : List UInt8) :
    (transformFilenameToFat part).length = 11 ∧ 0 ∉ transformFilenameToFat part :=
  transformFilenameLoop_bytes part (List.length_replicate ..) (by decide)

/-- The comparison of an item of a buffer with a packed name. -/
theorem strncmp_item {buf : Mem} {o : Nat} {name : List UInt8}
    (hname : name.length = 11 ∧ 0 ∉ name) : strncmp 11 (directoryItemAt buf o).filename name = 0 ↔
    HasName name (directoryItemAt buf o) := by
  have hlen : (directoryItemAt buf o).filename.length = name.length :=
    (slice_length _ _ _).trans hname.1.symm
  have hiff := strncmp_zero_iff name hlen hname.2
  rwa [hname.1] at hiff

end Items

/-! ## 2. One directory -/

section Search

variable {mem : Mem} {d : Disk} {fs : Fat32Private} {name : List UInt8}

/-- How a scan of items ends. -/
inductive ScanOf (name : List UInt8) (items : List DirectoryItem) : Scan → Prop where
  | found {item : DirectoryItem} (hfirst : FirstOf (HasName name) DirectoryItem.IsLast items item) :
    ScanOf name items (.found item)
  | noMore (hstop : ¬ Clear (HasName name) DirectoryItem.IsLast items)
    (hnone : ∀ item, ¬ FirstOf (HasName name) DirectoryItem.IsLast items item) :
    ScanOf name items .noMore
  | full (hclear : Clear (HasName name) DirectoryItem.IsLast items) : ScanOf name items .full

/-- An item in front that does not stop the scan. -/
theorem ScanOf.cons {item : DirectoryItem} {items : List DirectoryItem} {scan : Scan}
    (hpass : ¬ HasName name item ∧ ¬ item.IsLast) (h : ScanOf name items scan) :
    ScanOf name (item :: items) scan := by
  cases h with
  | found hfirst => exact .found ((firstOf_cons_pass hpass).mpr hfirst)
  | noMore hstop hnone =>
    refine .noMore (fun hclear => hstop (clear_cons.mp hclear).2) fun item' hfirst => ?_
    exact hnone item' ((firstOf_cons_pass hpass).mp hfirst)
  | full hclear => exact .full (clear_cons.mpr ⟨hpass, hclear⟩)

/-- **The loop over the items of a buffer**, from item `i` on with `count` items to go. Induction on
    its turns. -/
theorem scanItems_scan {buf : Mem} {size : Nat} (hname : name.length = 11 ∧ 0 ∉ name) (left : Nat) :
    ∀ {i count : Nat}, (size + 31) / 32 = i + count → count ≤ left →
      ScanOf name ((List.range' i count).map fun j => directoryItemAt buf (32 * j))
        (scanItems buf size name left (32 * i)) := by
  induction left with
  | zero =>
    intro i count _ hcount
    rw [Nat.le_zero.mp hcount]
    exact .full clear_nil
  | succ left ih =>
    intro i count hsize hcount
    rw [scanItems]
    cases count with
    | zero =>
      rw [if_pos (by omega)]
      exact .full clear_nil
    | succ count =>
      rw [List.range'_succ, List.map_cons, if_neg (by omega)]
      dsimp only
      by_cases hlast : (directoryItemAt buf (32 * i)).filename.headD 0 = 0
      · have hend : (directoryItemAt buf (32 * i)).IsLast := hlast
        rw [if_pos hlast]
        refine .noMore (fun hclear => (clear_cons.mp hclear).1.2 hend) fun item hfirst => ?_
        exact ((firstOf_cons_stop (Or.inr hend)).mp hfirst).2.2 hend
      rw [if_neg hlast]
      by_cases hhit : HasName name (directoryItemAt buf (32 * i))
      · rw [if_pos ((strncmp_item hname).mpr hhit)]
        exact .found ((firstOf_cons_stop (Or.inl hhit)).mpr ⟨rfl, hhit, hlast⟩)
      · rw [if_neg fun hz => hhit ((strncmp_item hname).mp hz),
          show 32 * i + 32 = 32 * (i + 1) by omega]
        exact (ih (by omega) (by omega)).cons ⟨hhit, hlast⟩

/-- **One cluster.** -/
theorem scanCluster_scan (mem : Mem) (d : Disk) (fs : Fat32Private)
    (hname : name.length = 11 ∧ 0 ∉ name) (c : Nat) :
    ScanOf name (bufItems mem d fs c) (scanCluster mem d fs name c) := by
  unfold scanCluster bufItems itemsOf
  rw [List.range_eq_range']
  exact scanItems_scan hname _ (Nat.zero_add _).symm (by omega)

/-- **What a search answers**: it has come to an end, and the item is the first of that name. -/
theorem findInDirectory_some (hname : name.length = 11 ∧ 0 ∉ name) (fuel : Nat) :
    ∀ {c : Nat} {res : Option DirectoryItem}, findInDirectory mem d fs name fuel c = some res →
      (∃ n, SearchEndsAt (visitNext d fs) (bufItems mem d fs)
          (HasName name) DirectoryItem.IsLast c n) ∧
      ∀ item, res = some item ↔
        FirstEntry (visitNext d fs) (bufItems mem d fs)
          (HasName name) DirectoryItem.IsLast c item := by
  induction fuel with
  | zero => exact fun h => nomatch h
  | succ fuel ih =>
    intro c res h
    rw [findInDirectory] at h
    have hof := scanCluster_scan mem d fs hname c
    generalize scanCluster mem d fs name c = scan at h hof
    cases hof with
    | found hfirst =>
      cases h
      refine ⟨⟨0, searchEndsAt_here hfirst.not_clear⟩, fun item' => ?_⟩
      rw [firstEntry_here hfirst.not_clear, Option.some_inj]
      constructor
      · rintro rfl
        exact hfirst
      · exact fun h' => hfirst.unique h'
    | noMore hstop hnone =>
      cases h
      refine ⟨⟨0, searchEndsAt_here hstop⟩, fun item => ?_⟩
      rw [firstEntry_here hstop]
      exact iff_of_false (Option.some_ne_none item).symm (hnone item)
    | full hclear =>
      dsimp only at h
      by_cases h0 : getNextClusterId d fs c = 0
      · have hend := visitNext_of_zero h0
        rw [if_pos h0] at h
        cases h
        exact ⟨⟨1, searchEndsAt_end hend⟩, fun item =>
          iff_of_false (Option.some_ne_none item).symm (not_firstEntry_end hclear hend)⟩
      · have hnext := visitNext_of_ne h0
        rw [if_neg h0] at h
        obtain ⟨⟨n, hn⟩, hitem⟩ := ih h
        refine ⟨⟨n + 1, (searchEndsAt_next hnext).mpr hn⟩, fun item => ?_⟩
        rw [firstEntry_next hclear hnext]
        exact hitem item

/-- **A search that comes to an end** does so within as many turns as there are clusters up to
    there. -/
theorem findInDirectory_ends (hname : name.length = 11 ∧ 0 ∉ name) (n : Nat) :
    ∀ {fuel c : Nat}, n < fuel → SearchEndsAt (visitNext d fs) (bufItems mem d fs)
      (HasName name) DirectoryItem.IsLast c n →
    ∃ res, findInDirectory mem d fs name fuel c = some res := by
  induction n with
  | zero =>
    intro fuel c hlt hends
    obtain ⟨fuel, rfl⟩ : ∃ more, fuel = more + 1 := ⟨fuel - 1, by omega⟩
    rw [findInDirectory]
    have hof := scanCluster_scan mem d fs hname c
    generalize scanCluster mem d fs name c = scan at hof ⊢
    cases hof with
    | found => exact ⟨_, rfl⟩
    | noMore => exact ⟨_, rfl⟩
    | full hclear => exact absurd hclear (hends c rfl)
  | succ n ih =>
    intro fuel c hlt hends
    obtain ⟨fuel, rfl⟩ : ∃ more, fuel = more + 1 := ⟨fuel - 1, by omega⟩
    rw [findInDirectory]
    cases scanCluster mem d fs name c with
    | found => exact ⟨_, rfl⟩
    | noMore => exact ⟨_, rfl⟩
    | full =>
      by_cases h0 : getNextClusterId d fs c = 0
      · exact ⟨none, if_pos h0⟩
      · obtain ⟨res, hres⟩ :=
          ih (Nat.lt_of_succ_lt_succ hlt) ((searchEndsAt_next (visitNext_of_ne h0)).mp hends)
        exact ⟨res, (if_neg h0).trans hres⟩

end Search

/-! ## 3. The path -/

/-- **The item of a component** in the directory at a cluster: the first of its name, in the order
    of the chain, before any that marks the end. -/
def Entry (d : Disk) (fs : Fat32Private) (items : Nat → List DirectoryItem) (part : List UInt8)
    (clusterId : Nat) (item : DirectoryItem) : Prop :=
  FirstEntry (visitNext d fs) items (HasName (transformFilenameToFat part)) DirectoryItem.IsLast
    clusterId item

/-- **The search for a component ends**: the chain does, or one of its clusters holds an item of
    that name, or one that marks the end. -/
def DirectoryEnds (d : Disk) (fs : Fat32Private) (items : Nat → List DirectoryItem)
    (part : List UInt8) (clusterId : Nat) : Prop :=
  ∃ n, SearchEndsAt (visitNext d fs) items (HasName (transformFilenameToFat part))
    DirectoryItem.IsLast clusterId n

/-- **What a path leads to** from the directory at a cluster. -/
inductive Resolves (d : Disk) (fs : Fat32Private) (items : Nat → List DirectoryItem) :
    Nat → List UInt8 → List (List UInt8) → DirectoryItem → Prop where
  | last {c : Nat} {part : List UInt8} {item : DirectoryItem}
    (hitem : Entry d fs items part c item) : Resolves d fs items c part [] item
  | enter {c : Nat} {part part' : List UInt8} {next : List (List UInt8)} {dir item : DirectoryItem}
    (hdir : Entry d fs items part c dir) (hattr : isDirectoryItemDirectory dir = true)
    (hrest : Resolves d fs items (getDirectoryItemTargetClusterId dir) part' next item) :
    Resolves d fs items c part (part' :: next) item

/-- **Where it leads nowhere**: a component has no item, or the item of one that is not the last is
    no directory. -/
inductive Unresolved (d : Disk) (fs : Fat32Private) (items : Nat → List DirectoryItem) :
    Nat → List UInt8 → List (List UInt8) → Prop where
  | missing {c : Nat} {part : List UInt8} {next : List (List UInt8)}
    (hnone : ∀ item, ¬ Entry d fs items part c item) : Unresolved d fs items c part next
  | noDirectory {c : Nat} {part part' : List UInt8} {next : List (List UInt8)}
    {item : DirectoryItem} (hitem : Entry d fs items part c item)
    (hattr : ¬ isDirectoryItemDirectory item = true) : Unresolved d fs items c part (part' :: next)
  | enter {c : Nat} {part part' : List UInt8} {next : List (List UInt8)} {dir : DirectoryItem}
    (hdir : Entry d fs items part c dir) (hattr : isDirectoryItemDirectory dir = true)
    (hrest : Unresolved d fs items (getDirectoryItemTargetClusterId dir) part' next) :
    Unresolved d fs items c part (part' :: next)

/-- **Every search on the way ends**: in the first directory, and in each that a component leads
    to. -/
def PathEnds (d : Disk) (fs : Fat32Private) (items : Nat → List DirectoryItem) :
    Nat → List UInt8 → List (List UInt8) → Prop
  | c, part, [] => DirectoryEnds d fs items part c
  | c, part, part' :: next => DirectoryEnds d fs items part c ∧
      ∀ item, Entry d fs items part c item → isDirectoryItemDirectory item = true →
        PathEnds d fs items (getDirectoryItemTargetClusterId item) part' next

section Path

variable {mem : Mem} {d : Disk} {fs : Fat32Private} {items : Nat → List DirectoryItem} {c : Nat}
  {part : List UInt8} {next : List (List UInt8)} {item item' : DirectoryItem}

theorem Entry.not_last (h : Entry d fs items part c item) : item.filename.headD 0 ≠ 0 := by
  obtain ⟨n, c', -, -, before, after, -, -, -, hlast⟩ := h
  exact hlast

/-- The last component's item is one of a directory. -/
theorem Resolves.not_last (h : Resolves d fs items c part next item) :
    item.filename.headD 0 ≠ 0 := by
  induction h with
  | last hitem => exact hitem.not_last
  | enter _ _ _ ih => exact ih

theorem Resolves.ne_zero (h : Resolves d fs items c part next item) :
    item ≠ DirectoryItem.zero := by
  rintro rfl
  exact h.not_last rfl

theorem Resolves.unique (h : Resolves d fs items c part next item) :
    ∀ {item' : DirectoryItem}, Resolves d fs items c part next item' → item' = item := by
  induction h with
  | last hitem =>
    intro item' h'
    cases h' with
    | last hitem' => exact hitem'.unique hitem
  | enter hdir _ _ ih =>
    intro item' h'
    cases h' with
    | enter hdir' _ hrest' =>
      cases FirstEntry.unique hdir hdir'
      exact ih hrest'

/-- A path does not both lead somewhere and not. -/
theorem Resolves.not_unresolved (h : Resolves d fs items c part next item) :
    ¬ Unresolved d fs items c part next := by
  induction h with
  | last hitem =>
    intro h'
    cases h' with
    | missing hnone => exact hnone _ hitem
  | enter hdir hattr _ ih =>
    intro h'
    cases h' with
    | missing hnone => exact hnone _ hdir
    | noDirectory hitem hattr' =>
      cases FirstEntry.unique hdir hitem
      exact hattr' hattr
    | enter hdir' _ hrest' =>
      cases FirstEntry.unique hdir hdir'
      exact ih hrest'

/-- **What the walk along a path answers**: every search on it has ended, and the item is what the
    path leads to, or zero. Induction on the path. -/
theorem pathLoop_some {fuel : Nat} (next : List (List UInt8)) : ∀ {c : Nat} {part : List UInt8}
    {item : DirectoryItem}, pathLoop mem d fs fuel c part next = some item →
      PathEnds d fs (bufItems mem d fs) c part next ∧
      (Resolves d fs (bufItems mem d fs) c part next item ∨
        (Unresolved d fs (bufItems mem d fs) c part next ∧ item = DirectoryItem.zero)) := by
  induction next with
  | nil =>
    intro c part item h
    rw [pathLoop] at h
    cases hfind : findInDirectory mem d fs (transformFilenameToFat part) fuel c with
    | none =>
      rw [hfind] at h
      cases h
    | some res =>
      obtain ⟨hends, hentry⟩ := findInDirectory_some (transformFilenameToFat_bytes part) fuel hfind
      rw [hfind] at h
      refine ⟨hends, ?_⟩
      cases res with
      | none =>
        cases h
        have hnone : ∀ item, ¬ Entry d fs (bufItems mem d fs) part c item :=
          fun item hitem => (Option.some_ne_none item).symm ((hentry item).mpr hitem)
        exact Or.inr ⟨.missing hnone, rfl⟩
      | some found =>
        cases h
        exact Or.inl (.last ((hentry _).mp rfl))
  | cons part' next ih =>
    intro c part item h
    rw [pathLoop] at h
    cases hfind : findInDirectory mem d fs (transformFilenameToFat part) fuel c with
    | none =>
      rw [hfind] at h
      cases h
    | some res =>
      obtain ⟨hends, hentry⟩ := findInDirectory_some (transformFilenameToFat_bytes part) fuel hfind
      rw [hfind] at h
      cases res with
      | none =>
        cases h
        have hnone : ∀ item, ¬ Entry d fs (bufItems mem d fs) part c item :=
          fun item hitem => (Option.some_ne_none item).symm ((hentry item).mpr hitem)
        exact ⟨⟨hends, fun item hitem _ => absurd hitem (hnone item)⟩, Or.inr ⟨.missing hnone, rfl⟩⟩
      | some dir =>
        have hdir : Entry d fs (bufItems mem d fs) part c dir := (hentry dir).mp rfl
        dsimp only at h
        by_cases hattr : isDirectoryItemDirectory dir = true
        · rw [if_pos hattr] at h
          obtain ⟨hrest, hitem⟩ := ih h
          refine ⟨⟨hends, fun dir' hdir' _ => ?_⟩, ?_⟩
          · rw [FirstEntry.unique hdir' hdir]
            exact hrest
          · exact hitem.imp (.enter hdir hattr) fun hun => ⟨.enter hdir hattr hun.1, hun.2⟩
        · rw [if_neg hattr] at h
          cases h
          refine ⟨⟨hends, fun dir' hdir' hattr' => ?_⟩, Or.inr ⟨.noDirectory hdir hattr, rfl⟩⟩
          rw [FirstEntry.unique hdir' hdir] at hattr'
          exact absurd hattr' hattr

/-- **The walk comes back** where every search on the path ends, after as many turns for each of
    them as the items say. -/
theorem pathLoop_returns (next : List (List UInt8)) : ∀ {c : Nat} {part : List UInt8},
    PathEnds d fs items c part next → ∃ turns, ∀ mem, bufItems mem d fs = items →
      ∀ fuel, turns ≤ fuel → ∃ item, pathLoop mem d fs fuel c part next = some item := by
  induction next with
  | nil =>
    rintro c part ⟨n, hn⟩
    refine ⟨n + 1, fun mem hmem fuel hfuel => ?_⟩
    subst hmem
    obtain ⟨res, hres⟩ := findInDirectory_ends (transformFilenameToFat_bytes part) n hfuel hn
    rw [pathLoop, hres]
    cases res with
    | none => exact ⟨_, rfl⟩
    | some item => exact ⟨_, rfl⟩
  | cons part' next ih =>
    rintro c part ⟨⟨n, hn⟩, hrest⟩
    -- the directory that the component leads to, if it does
    obtain ⟨turns, hturns⟩ : ∃ turns, ∀ mem, bufItems mem d fs = items → ∀ dir,
        Entry d fs items part c dir → isDirectoryItemDirectory dir = true → ∀ fuel, turns ≤ fuel →
          ∃ item, pathLoop mem d fs fuel (getDirectoryItemTargetClusterId dir) part' next =
            some item := by
      by_cases hex : ∃ dir, Entry d fs items part c dir ∧ isDirectoryItemDirectory dir = true
      · obtain ⟨dir, hdir, hattr⟩ := hex
        obtain ⟨turns, hturns⟩ := ih (hrest dir hdir hattr)
        refine ⟨turns, fun mem hmem dir' hdir' _ => ?_⟩
        rw [FirstEntry.unique hdir' hdir]
        exact hturns mem hmem
      · exact ⟨0, fun mem _ dir hdir hattr => absurd ⟨dir, hdir, hattr⟩ hex⟩
    refine ⟨max (n + 1) turns, fun mem hmem fuel hfuel => ?_⟩
    subst hmem
    obtain ⟨res, hres⟩ := findInDirectory_ends (transformFilenameToFat_bytes part) n
      (Nat.lt_of_lt_of_le (Nat.le_max_left _ _) hfuel) hn
    have hentry := (findInDirectory_some (transformFilenameToFat_bytes part) fuel hres).2
    rw [pathLoop, hres]
    cases res with
    | none => exact ⟨_, rfl⟩
    | some dir =>
      dsimp only
      by_cases hattr : isDirectoryItemDirectory dir = true
      · rw [if_pos hattr]
        exact hturns mem rfl dir ((hentry dir).mp rfl) hattr fuel
          (Nat.le_trans (Nat.le_max_right _ _) hfuel)
      · exact ⟨_, if_neg hattr⟩

/-! ## 4. An image whose directories are finite -/

/-- The directories that components can lead to, from the root. -/
inductive DirectoryAt (d : Disk) (fs : Fat32Private) : Nat → Prop
  | root : DirectoryAt d fs fs.header.bpbRootClus.toNat
  | entry {c : Nat} {part : List UInt8} {item : DirectoryItem} (hc : DirectoryAt d fs c)
    (hitem : Entry d fs (clusterItems d fs) part c item)
    (hattr : isDirectoryItemDirectory item = true) :
    DirectoryAt d fs (getDirectoryItemTargetClusterId item)

/-- Every search on a path ends there. -/
theorem pathEnds_of_finite
    (hfinite : ∀ c, DirectoryAt d fs c → ∃ n, follow (visitNext d fs) c n = none)
    (next : List (List UInt8)) : ∀ {c : Nat} {part : List UInt8}, DirectoryAt d fs c →
      PathEnds d fs (clusterItems d fs) c part next := by
  have hends : ∀ {c : Nat} (part : List UInt8), DirectoryAt d fs c →
      DirectoryEnds d fs (clusterItems d fs) part c := by
    intro c part hc
    obtain ⟨n, hn⟩ := hfinite c hc
    refine ⟨n, fun c' hc' => ?_⟩
    rw [hn] at hc'
    cases hc'
  induction next with
  | nil => exact fun hc => hends _ hc
  | cons part' next ih =>
    exact fun hc => ⟨hends _ hc, fun item hitem hattr => ih (.entry hc hitem hattr)⟩

/-- **What `get_path_directory_item` does with a path**, and `fat32_open` with that: the item is the
    one the path leads to; it is zero, and opening for reading fails, exactly where there is
    none. -/
structure WalkOk (k : Kernel) (d : Disk) (fs : Fat32Private) (fuel : Nat) (part : List UInt8)
    (next : List (List UInt8)) (item : DirectoryItem) : Prop where
  item_eq : getPathDirectoryItem k.mem d fs fuel part next = some item
  resolves_iff : ∀ item', Resolves d fs (clusterItems d fs) fs.header.bpbRootClus.toNat part next
    item' ↔ item ≠ DirectoryItem.zero ∧ item' = item
  zero_iff : item = DirectoryItem.zero ↔
    Unresolved d fs (clusterItems d fs) fs.header.bpbRootClus.toNat part next
  fails_iff : (kzalloc k 24).1 ≠ 0 → ∀ mode,
    (∃ e k', fat32Open k d fs fuel part next mode = some (.error e, k')) ↔
      mode ≠ .read ∨ Unresolved d fs (clusterItems d fs) fs.header.bpbRootClus.toNat part next

/-- What the walk answers is all that the two functions need. -/
theorem walkOk_of_item {k : Kernel} {fuel : Nat}
    (hitem : getPathDirectoryItem k.mem d fs fuel part next = some item)
    (hwalk : Resolves d fs (clusterItems d fs) fs.header.bpbRootClus.toNat part next item ∨
      (Unresolved d fs (clusterItems d fs) fs.header.bpbRootClus.toNat part next ∧
        item = DirectoryItem.zero)) : WalkOk k d fs fuel part next item where
  item_eq := hitem
  resolves_iff item' := by
    rcases hwalk with hres | ⟨hun, hzero⟩
    · constructor
      · exact fun h => ⟨hres.ne_zero, hres.unique h⟩
      · rintro ⟨-, rfl⟩
        exact hres
    · exact iff_of_false (fun h => h.not_unresolved hun) fun h => h.1 hzero
  zero_iff := by
    rcases hwalk with hres | ⟨hun, hzero⟩
    · exact iff_of_false hres.ne_zero hres.not_unresolved
    · exact iff_of_true hzero hun
  fails_iff halloc mode := by
    unfold fat32Open
    by_cases hmode : mode = .read
    · rw [if_neg (not_not.mpr hmode), hitem]
      dsimp only
      rcases hwalk with hres | ⟨hun, hzero⟩
      · rw [if_neg hres.not_last, if_neg halloc]
        refine iff_of_false ?_ (not_or.mpr ⟨not_not.mpr hmode, hres.not_unresolved⟩)
        rintro ⟨e, k', h⟩
        cases h
      · have hlast : item.filename.headD 0 = 0 := by
          rw [hzero]
          rfl
        rw [if_pos hlast]
        exact iff_of_true ⟨_, _, rfl⟩ (Or.inr hun)
    · rw [if_pos hmode]
      exact iff_of_true ⟨_, _, rfl⟩ (Or.inl hmode)

end Path

/-- **Every path is resolved component by component.** A cluster has whole items, and each directory
    that can be reached has a chain that ends; as many turns as the chains have clusters suffice.
    What a cluster inside the image holds is said by `clusterItems_inside`. -/
theorem getPathDirectoryItem_resolves {k₀ : Kernel} {d : Disk} {fs : Fat32Private}
    (hr : (fat32Resolve k₀ d).2.1 = some fs) (h32 : 32 ∣ fs.clusterSizeBytes)
    (hfinite : ∀ c, DirectoryAt d fs c → ∃ n, follow (visitNext d fs) c n = none)
    (part : List UInt8) (next : List (List UInt8)) :
    ∃ turns, ∀ fuel, turns ≤ fuel → ∀ k, ∃ item, WalkOk k d fs fuel part next item := by
  have hitems : ∀ mem, bufItems mem d fs = clusterItems d fs := fun mem =>
    bufItems_eq h32 (Nat.lt_trans (fat32Resolve_size_lt hr) (by decide))
  have hends : PathEnds d fs (clusterItems d fs) fs.header.bpbRootClus.toNat part next :=
    pathEnds_of_finite hfinite next .root
  obtain ⟨turns, hturns⟩ := pathLoop_returns next hends
  refine ⟨turns, fun fuel hfuel k => ?_⟩
  obtain ⟨item, hitem⟩ := hturns k.mem (hitems k.mem) fuel hfuel
  have hwalk := (pathLoop_some next hitem).2
  rw [hitems k.mem] at hwalk
  exact ⟨item, walkOk_of_item hitem hwalk⟩

/-- The first two items of a cluster of a small volume. -/
theorem clusterItems_two (d : Disk) (c pos : Nat)
    (hpos : getClusterDataDiskPos smallPrivate c = pos) (hlt : pos + 512 < 2147483648) :
    ∃ rest, clusterItems d smallPrivate c =
      directoryItemAt (fun i => d.byte (pos + i)) 0 :: directoryItemAt (fun i => d.byte (pos + i))
        32 :: rest := by
  have hitem : ∀ o, o + 32 ≤ 512 →
      directoryItemAt (bytesMem (seekRead d pos 512)) o =
        directoryItemAt (fun i => d.byte (pos + i)) o := fun o ho =>
    directoryItemAt_congr fun i hi => by
      rw [seekRead_eq d hlt, bytesMem_slice _ (by omega)]
  have hrange : List.range ((512 + 31) / 32) = 0 :: 1 :: List.range' 2 14 := by decide
  refine ⟨(List.range' 2 14).map fun i => directoryItemAt (bytesMem (seekRead d pos 512)) (32 * i),
    ?_⟩
  unfold clusterItems itemsOf
  rw [hpos, show smallPrivate.clusterSizeBytes = 512 from rfl, hrange, List.map_cons, List.map_cons,
    hitem (32 * 0) (by decide), hitem (32 * 1) (by decide)]

/-- Where the second item of a directory marks the end, nothing but the first one is found. -/
theorem Entry.eq_first {d : Disk} {fs : Fat32Private} {items : Nat → List DirectoryItem}
    {part : List UInt8} {c : Nat} {first last item : DirectoryItem} {rest : List DirectoryItem}
    (h : Entry d fs items part c item) (hitems : items c = first :: last :: rest)
    (hlast : last.IsLast) (hnot : ¬ first.IsLast) : item = first := by
  have hstop : ¬ Clear (HasName (transformFilenameToFat part)) DirectoryItem.IsLast (items c) := by
    rw [hitems]
    exact fun hclear => (clear_cons.mp (clear_cons.mp hclear).2).1.2 hlast
  have hfirst := (firstEntry_here hstop).mp h
  rw [hitems] at hfirst
  by_cases hname : HasName (transformFilenameToFat part) first
  · exact ((firstOf_cons_stop (Or.inl hname)).mp hfirst).1
  · have hsecond := (firstOf_cons_pass ⟨hname, hnot⟩).mp hfirst
    exact absurd hlast ((firstOf_cons_stop (Or.inr hlast)).mp hsecond).2.2

/-- The first item is found by its name. -/
theorem Entry.first {d : Disk} {fs : Fat32Private} {items : Nat → List DirectoryItem}
    {part : List UInt8} {c : Nat} {first : DirectoryItem} {rest : List DirectoryItem}
    (hitems : items c = first :: rest) (hname : HasName (transformFilenameToFat part) first)
    (hnot : ¬ first.IsLast) : Entry d fs items part c first :=
  ⟨0, c, rfl, fun j hj => absurd hj (Nat.not_lt_zero j), [], rest, hitems, clear_nil, hname, hnot⟩

/-- The root directory of the small volume has one item, and then the end. -/
theorem oneFileVolume_items : ∃ item rest, clusterItems oneFileVolume smallPrivate 2 =
    oneFileItem :: item :: rest ∧ item.IsLast := by
  obtain ⟨rest, hitems⟩ := clusterItems_two oneFileVolume 2 1024 (by decide +kernel)
    (by decide)
  rw [oneFileVolume_first] at hitems
  exact ⟨_, rest, hitems, oneFileVolume_last⟩

/-- The data area of a volume with the directory `D` in its root, and in it the file `A` of 5 bytes
    that starts in cluster 4. -/
def fileInDirectory (i : Nat) : UInt8 :=
  match i with
  | 0 => 0x44
  | 11 => 0x10
  | 26 => 3
  | 512 => 0x41
  | 538 => 4
  | 540 => 5
  | _ => if i ≤ 10 ∨ 512 ≤ i ∧ i ≤ 522 then 0x20 else 0

/-- The volume; each directory has one cluster. -/
def directoryVolume : Disk := smallVolume (fun _ => 0) fileInDirectory

def directoryItemD : DirectoryItem := ⟨0x44 :: List.replicate 10 0x20, 0x10, 0, 3, 0⟩

def fileItemA : DirectoryItem := ⟨0x41 :: List.replicate 10 0x20, 0, 0, 4, 5⟩

theorem directoryVolume_items :
    (∃ item rest, clusterItems directoryVolume smallPrivate 2 = directoryItemD :: item :: rest ∧
      item.IsLast) ∧
    ∃ item rest, clusterItems directoryVolume smallPrivate 3 = fileItemA :: item :: rest ∧
      item.IsLast := by
  have hroot : directoryItemAt (fun i => directoryVolume.byte (1024 + i)) 0 = directoryItemD := by
    decide +kernel
  have hfile : directoryItemAt (fun i => directoryVolume.byte (1536 + i)) 0 = fileItemA := by
    decide +kernel
  obtain ⟨rest, h2⟩ := clusterItems_two directoryVolume 2 1024 (by decide +kernel) (by decide)
  obtain ⟨rest', h3⟩ := clusterItems_two directoryVolume 3 1536 (by decide +kernel) (by decide)
  rw [hroot] at h2
  rw [hfile] at h3
  unfold DirectoryItem.IsLast
  exact ⟨⟨_, rest, h2, by decide +kernel⟩, _, rest', h3, by decide +kernel⟩

/-- The root and `D` are its directories. -/
theorem directoryVolume_dirs {c : Nat} (h : DirectoryAt directoryVolume smallPrivate c) :
    c = 2 ∨ c = 3 := by
  obtain ⟨⟨last, rest, h2, hlast⟩, last', rest', h3, hlast'⟩ := directoryVolume_items
  induction h with
  | root => exact Or.inl rfl
  | @entry c part item hc hitem hattr ih =>
    rcases ih with rfl | rfl
    · rw [hitem.eq_first h2 hlast (by unfold DirectoryItem.IsLast; decide)]
      exact Or.inr rfl
    · rw [hitem.eq_first h3 hlast' (by unfold DirectoryItem.IsLast; decide)] at hattr
      exact absurd hattr (by decide)

/-- The walk to the file `A` in the directory `D`. -/
theorem getPathDirectoryItem_resolves_small : ∃ turns, ∀ fuel, turns ≤ fuel → ∀ k,
    WalkOk k directoryVolume smallPrivate fuel [0x64] [[0x61]] fileItemA := by
  have hresolve :
      (fat32Resolve bootKernel directoryVolume).2.1 = some smallPrivate := by decide +kernel
  obtain ⟨turns, hturns⟩ := getPathDirectoryItem_resolves hresolve (by decide) (fun c hc => by
    rcases directoryVolume_dirs hc with rfl | rfl
    · exact ⟨1, by decide +kernel⟩
    · exact ⟨1, by decide +kernel⟩) [0x64] [[0x61]]
  obtain ⟨⟨last, rest, h2, -⟩, last', rest', h3, -⟩ := directoryVolume_items
  have hdir : Entry directoryVolume smallPrivate (clusterItems directoryVolume smallPrivate)
      [0x64] 2 directoryItemD :=
    .first h2 (by unfold HasName; decide) (by unfold DirectoryItem.IsLast; decide)
  have hfile : Entry directoryVolume smallPrivate (clusterItems directoryVolume smallPrivate)
      [0x61] 3 fileItemA :=
    .first h3 (by unfold HasName; decide) (by unfold DirectoryItem.IsLast; decide)
  have hpath : Resolves directoryVolume smallPrivate (clusterItems directoryVolume smallPrivate) 2
      [0x64] [[0x61]] fileItemA :=
    .enter hdir (by decide) (.last hfile)
  refine ⟨turns, fun fuel hfuel k => ?_⟩
  obtain ⟨item, hwalk⟩ := hturns fuel hfuel k
  rwa [((hwalk.resolves_iff fileItemA).mp hpath).2]

/-! ## 5. When `fat32_open` comes back -/

/-- With enough turns for its loops. -/
def OpenReturns (k : Kernel) (d : Disk) (fs : Fat32Private) (part : List UInt8)
    (next : List (List UInt8)) (mode : FileMode) : Prop :=
  ∃ fuel, (fat32Open k d fs fuel part next mode).isSome

/-- **`fat32_open` comes back exactly when** it is not asked to read, or every search on the path
    ends: the chain of the directory does, or one of its clusters holds an item of that name, or one
    that marks the end. -/
theorem fat32Open_returns_iff (k : Kernel) (d : Disk) (fs : Fat32Private) (part : List UInt8)
    (next : List (List UInt8)) (mode : FileMode) : OpenReturns k d fs part next mode ↔
      mode ≠ .read ∨ PathEnds d fs (bufItems k.mem d fs) fs.header.bpbRootClus.toNat part next := by
  have hopen : ∀ fuel, mode = .read → ((fat32Open k d fs fuel part next mode).isSome ↔
      ∃ item, getPathDirectoryItem k.mem d fs fuel part next = some item) := by
    intro fuel hmode
    unfold fat32Open
    rw [if_neg (not_not.mpr hmode)]
    cases getPathDirectoryItem k.mem d fs fuel part next with
    | none => simp
    | some item =>
      dsimp only
      split
      · simp
      · split
        · simp
        · simp
  by_cases hmode : mode = .read
  · constructor
    · rintro ⟨fuel, hfuel⟩
      obtain ⟨item, hitem⟩ := (hopen fuel hmode).mp hfuel
      exact Or.inr (pathLoop_some next hitem).1
    · intro h
      obtain ⟨turns, hturns⟩ := pathLoop_returns next (h.resolve_left (not_not.mpr hmode))
      exact ⟨turns, (hopen turns hmode).mpr (hturns k.mem rfl turns (Nat.le_refl _))⟩
  · refine iff_of_true ⟨0, ?_⟩ (Or.inl hmode)
    unfold fat32Open
    rw [if_pos hmode]
    rfl

/-- The root directory goes around in one cluster. -/
def loopFat : Nat → Nat
  | 2 => 2
  | _ => 0

/-- A volume whose data is full of the letter `A`. -/
def loopVolume : Disk := smallVolume loopFat fun _ => 0x41

theorem loopVolume_resolve : (fat32Resolve bootKernel loopVolume).2.1 = some smallPrivate := by
  decide +kernel

/-- No search for another name ends there. -/
theorem loopVolume_clear (mem : Mem) {name : List UInt8} (hname : name.headD 0 ≠ 0x41) :
    Clear (HasName name) DirectoryItem.IsLast (bufItems mem loopVolume smallPrivate 2) := by
  have hpos : getClusterDataDiskPos smallPrivate 2 = 1024 := by decide +kernel
  intro item hitem
  obtain ⟨i, hi, rfl⟩ := List.mem_map.mp hitem
  have hlt : i < 16 := List.mem_range.mp hi
  have hhead :
      (directoryItemAt (clusterBuf mem loopVolume smallPrivate 2) (32 * i)).filename.headD 0 =
        0x41 := by
    have hbyte : clusterBuf mem loopVolume smallPrivate 2 (32 * i) = 0x41 := by
      rw [clusterBuf_inside mem (by decide +kernel) (by show 32 * i < 512; omega), hpos]
      unfold loopVolume smallVolume
      dsimp only
      rw [if_neg (by omega), if_neg (by omega)]
    rw [directoryItemAt_head, hbyte]
  constructor
  · intro h
    exact hname (h ▸ hhead)
  · intro h
    exact absurd (hhead.symm.trans h) (by decide)

/-- **A root directory without an end**, whose chain goes around: opening any other file does not
    come back. -/
theorem fat32Open_loops : ¬ ∀ (k₀ k : Kernel) (d : Disk) (fs : Fat32Private),
    (fat32Resolve k₀ d).2.1 = some fs → ∀ (part : List UInt8) (next : List (List UInt8))
    (mode : FileMode),
      OpenReturns k d fs part next mode := by
  intro h
  obtain ⟨fuel, hfuel⟩ :=
    h bootKernel bootKernel loopVolume smallPrivate loopVolume_resolve [0x62] [] .read
  have hnext : visitNext loopVolume smallPrivate 2 = some 2 := by decide +kernel
  have hfollow : ∀ n, follow (visitNext loopVolume smallPrivate) 2 n = some 2 := by
    intro n
    induction n with
    | zero => rfl
    | succ n ih => rw [follow_next ih, hnext]
  unfold fat32Open at hfuel
  rw [if_neg (by decide)] at hfuel
  cases hitem : getPathDirectoryItem bootKernel.mem loopVolume smallPrivate fuel [0x62] [] with
  | none =>
    rw [hitem] at hfuel
    cases hfuel
  | some item =>
    obtain ⟨n, hn⟩ := (pathLoop_some [] hitem).1
    exact hn 2 (hfollow n) (loopVolume_clear _ (by decide))

end PeachKernel
