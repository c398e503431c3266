/-
  File:      PeachKernel/Fs/Fat16Entry.lean
  Subject:   The walk of `fat16_get_directory_entry` along a path.

  For every part behind the first one the loop looks the part up in the directory of the current
  item, releases the item, and goes on with what was found, without looking whether something was.
  The directory itself may be null or released where its load failed.

  * `Enters`, `ResolvesParts` -- the parts of a path, resolved one after the other;
  * `Steady` -- every directory on the way is there, and a part that is missing is the last one;
  * `directoryEntryLoop_cases` -- in a steady walk the loop resolves the parts, in another one it
    makes a bad use;
  * `fat16GetDirectoryEntry_right_iff` -- so the answer is right exactly for steady walks.
-/
import PeachKernel.Fs.Fat16Load

namespace PeachKernel

/-! ## 1. Resolving -/

/-- **One part**: it is looked up in the item's directory, and the item is released. -/
def Enters (d : Disk) (fs : Fat16Private) (fuel : Nat) (k : Kernel) (item : FatItem)
    (part : List UInt8) (found : Option FatItem) (k' : Kernel) : Prop :=
  ∃ dir k₁, item.body = .directory (some dir) ∧
    fat16FindItemInDirectory k d fs fuel dir part = some (found, k₁) ∧ k' = fat16FatItemFree k₁ item

/-- **The parts behind an item**, resolved one after the other: to the item that is reached, or to
    none where a part is not found, or is looked up in a file. -/
inductive ResolvesParts (d : Disk) (fs : Fat16Private) (fuel : Nat) :
    Kernel → FatItem → List (List UInt8) → Option FatItem → Prop where
  | here (k : Kernel) (item : FatItem) : ResolvesParts d fs fuel k item [] (some item)
  | inFile {k : Kernel} {item : FatItem} {part : List UInt8} {next : List (List UInt8)}
      {itemCopy : Option (Nat × DirectoryItem)} :
      item.body = .file itemCopy → ResolvesParts d fs fuel k item (part :: next) none
  | missing {k k' : Kernel} {item : FatItem} {part : List UInt8} {next : List (List UInt8)} :
      Enters d fs fuel k item part none k' → ResolvesParts d fs fuel k item (part :: next) none
  | behind {k k' : Kernel} {item tmpItem : FatItem} {part : List UInt8} {next : List (List UInt8)}
      {result : Option FatItem} :
      Enters d fs fuel k item part (some tmpItem) k' →
      ResolvesParts d fs fuel k' tmpItem next result →
      ResolvesParts d fs fuel k item (part :: next) result

/-- A whole path. -/
inductive ResolvesPath (d : Disk) (fs : Fat16Private) (fuel : Nat) (k : Kernel)
    (root : FatDirectory) (part : List UInt8) (next : List (List UInt8)) :
    Option FatItem → Prop where
  | missing {k' : Kernel} : fat16FindItemInDirectory k d fs fuel root part = some (none, k') →
      ResolvesPath d fs fuel k root part next none
  | found {k' : Kernel} {item : FatItem} {result : Option FatItem} :
      fat16FindItemInDirectory k d fs fuel root part = some (some item, k') →
      ResolvesParts d fs fuel k' item next result → ResolvesPath d fs fuel k root part next result

/-- **The answer is right**: what the path resolves to, and no bad use on the way. -/
def EntryRight (d : Disk) (fs : Fat16Private) (fuel : Nat) (k : Kernel) (root : FatDirectory)
    (part : List UInt8) (next : List (List UInt8)) (r : Except BadUse (Option FatItem)) : Prop :=
  (∀ result, r = .ok result ↔ ResolvesPath d fs fuel k root part next result) ∧
    ∀ use, r ≠ .error use

/-- **A steady walk**: a directory that is entered was loaded and is not released, and where a part
    is not found no other one follows. -/
def Steady (d : Disk) (fs : Fat16Private) (fuel : Nat) :
    (nextPart : List (List UInt8)) → (item : FatItem) → Kernel → Prop
  | [], _, _ => True
  | part :: next, item, k => ∀ directory, item.body = .directory directory →
      ∃ dir, directory = some dir ∧ ¬ PointsToFree k.heap dir.address ∧
      ∀ found k', Enters d fs fuel k item part found k' →
        (found = none → next = []) ∧ ∀ tmpItem, found = some tmpItem →
        Steady d fs fuel next tmpItem k'

section Walk

variable {d : Disk} {fs : Fat16Private} {fuel : Nat} {k k' : Kernel} {item : FatItem}
  {part : List UInt8} {next : List (List UInt8)} {result result' : Option FatItem}

theorem Enters.unique {found found' : Option FatItem} {k₁ k₂ : Kernel}
    (h : Enters d fs fuel k item part found k₁) (h' : Enters d fs fuel k item part found' k₂) :
    found = found' ∧ k₁ = k₂ := by
  obtain ⟨dir, k₃, hbody, hfind, rfl⟩ := h
  obtain ⟨dir', k₄, hbody', hfind', rfl⟩ := h'
  cases FatItemBody.directory.inj (hbody.symm.trans hbody')
  obtain ⟨rfl, rfl⟩ := Prod.mk.inj (Option.some.inj (hfind.symm.trans hfind'))
  exact ⟨rfl, rfl⟩

/-- A file is not entered. -/
theorem Enters.not_file {found : Option FatItem} {itemCopy : Option (Nat × DirectoryItem)}
    (h : Enters d fs fuel k item part found k') : item.body ≠ .file itemCopy := by
  obtain ⟨dir, k₁, hbody, -⟩ := h
  rw [hbody]
  exact FatItemBody.noConfusion

/-- **Parts resolve in one way.** -/
theorem ResolvesParts.unique (h : ResolvesParts d fs fuel k item next result) :
    ∀ {result'}, ResolvesParts d fs fuel k item next result' → result = result' := by
  induction h with
  | here k item =>
    intro result' h'
    cases h' with
    | here => rfl
  | inFile hbody =>
    intro result' h'
    cases h' with
    | inFile => rfl
    | missing => rfl
    | behind henters => exact absurd hbody henters.not_file
  | missing henters =>
    intro result' h'
    cases h' with
    | inFile => rfl
    | missing => rfl
    | behind henters' => cases (henters.unique henters').1
  | behind henters _ ih =>
    intro result' h'
    cases h' with
    | inFile hbody => exact absurd hbody henters.not_file
    | missing henters' => cases (henters.unique henters').1
    | behind henters' hrest =>
      obtain ⟨e, rfl⟩ := henters.unique henters'
      cases e
      exact ih hrest

theorem ResolvesPath.unique {root : FatDirectory}
    (h : ResolvesPath d fs fuel k root part next result)
    (h' : ResolvesPath d fs fuel k root part next result') : result = result' := by
  cases h with
  | missing hfind =>
    cases h' with
    | missing => rfl
    | found hfind' => cases (Prod.mk.inj (Option.some.inj (hfind.symm.trans hfind'))).1
  | found hfind hrest =>
    cases h' with
    | missing hfind' => cases (Prod.mk.inj (Option.some.inj (hfind.symm.trans hfind'))).1
    | found hfind' hrest' =>
      obtain ⟨e, rfl⟩ := Prod.mk.inj (Option.some.inj (hfind.symm.trans hfind'))
      cases e
      exact hrest.unique hrest'

/-! ## 2. The loop -/

/-- **The loop**: induction on the parts. A steady walk resolves them, another one ends in a bad
    use. -/
theorem directoryEntryLoop_cases (next : List (List UInt8)) : ∀ {item : FatItem} {k k' : Kernel}
    {r : Except BadUse (Option FatItem)},
    directoryEntryLoop d fs fuel next (some item) k = some (r, k') →
    (Steady d fs fuel next item k ∧ ∃ result, r = .ok result ∧
        ResolvesParts d fs fuel k item next result) ∨
    (¬ Steady d fs fuel next item k ∧ ∃ use, r = .error use) := by
  induction next with
  | nil =>
    intro item k k' r h
    obtain ⟨rfl, rfl⟩ := Prod.mk.inj (Option.some.inj h)
    exact Or.inl ⟨trivial, some item, rfl, .here _ item⟩
  | cons part next ih =>
    intro item k k' r h
    rw [directoryEntryLoop] at h
    cases hbody : item.body with
    | file itemCopy =>
      rw [hbody] at h
      obtain ⟨rfl, rfl⟩ := Prod.mk.inj (Option.some.inj h)
      refine Or.inl ⟨fun directory e => ?_, none, rfl, .inFile hbody⟩
      cases hbody.symm.trans e
    | directory directory =>
      cases directory with
      | none =>
        rw [hbody] at h
        obtain ⟨rfl, rfl⟩ := Prod.mk.inj (Option.some.inj h)
        refine Or.inr ⟨fun hsteady => ?_, _, rfl⟩
        obtain ⟨dir, e, -⟩ := hsteady none hbody
        cases e
      | some dir =>
        rw [hbody] at h
        dsimp only at h
        split at h
        · rename_i hfree
          obtain ⟨rfl, rfl⟩ := Prod.mk.inj (Option.some.inj h)
          refine Or.inr ⟨fun hsteady => ?_, _, rfl⟩
          obtain ⟨dir', e, hno, -⟩ := hsteady (some dir) hbody
          cases e
          exact hno hfree
        rename_i hfree
        split at h
        · cases h
        rename_i tmpItem k₁ hfind
        have henters : Enters d fs fuel k item part tmpItem (fat16FatItemFree k₁ item) :=
          ⟨dir, k₁, hbody, hfind, rfl⟩
        -- the walk is steady where it is so behind the part
        have hsteady_iff : Steady d fs fuel (part :: next) item k ↔ (tmpItem = none → next = []) ∧
            ∀ tmp, tmpItem = some tmp → Steady d fs fuel next tmp (fat16FatItemFree k₁ item) := by
          constructor
          · intro hsteady
            obtain ⟨dir', e, -, hbehind⟩ := hsteady (some dir) hbody
            exact hbehind _ _ henters
          · intro hbehind directory e
            cases hbody.symm.trans e
            refine ⟨dir, rfl, hfree, fun found k₂ henters' => ?_⟩
            obtain ⟨rfl, rfl⟩ := henters.unique henters'
            exact hbehind
        rw [hsteady_iff]
        cases tmpItem with
        | none =>
          cases next with
          | nil =>
            obtain ⟨rfl, rfl⟩ := Prod.mk.inj (Option.some.inj h)
            exact Or.inl ⟨⟨fun _ => rfl, fun _ e => by cases e⟩, none, rfl, .missing henters⟩
          | cons part' next =>
            obtain ⟨rfl, rfl⟩ := Prod.mk.inj (Option.some.inj h)
            exact Or.inr ⟨fun hall => List.cons_ne_nil _ _ (hall.1 rfl), _, rfl⟩
        | some tmp =>
          rcases ih h with ⟨hsteady, result, rfl, hresolves⟩ | ⟨hno, use, rfl⟩
          · refine Or.inl ⟨⟨fun e => (by cases e), fun _ e => ?_⟩, result, rfl,
              .behind henters hresolves⟩
            cases e
            exact hsteady
          · exact Or.inr ⟨fun hall => hno (hall.2 tmp rfl), use, rfl⟩

/-- **The answer is right exactly for a steady walk** behind the first part. -/
theorem fat16GetDirectoryEntry_right_iff {root : FatDirectory} {r : Except BadUse (Option FatItem)}
    (h : fat16GetDirectoryEntry k d fs fuel root part next = some (r, k')) :
    EntryRight d fs fuel k root part next r ↔
      ∀ item k₁, fat16FindItemInDirectory k d fs fuel root part = some (some item, k₁) →
        Steady d fs fuel next item k₁ := by
  have hok : ∀ {result}, ResolvesPath d fs fuel k root part next result →
      EntryRight d fs fuel k root part next (.ok result) := by
    intro result hres
    refine ⟨fun result' => ⟨fun e => ?_, fun h' => ?_⟩, fun use e => by cases e⟩
    · cases e
      exact hres
    · rw [hres.unique h']
  unfold fat16GetDirectoryEntry at h
  cases hfind : fat16FindItemInDirectory k d fs fuel root part with
  | none =>
    rw [hfind] at h
    cases h
  | some found =>
    obtain ⟨rootItem, k₁⟩ := found
    rw [hfind] at h
    cases rootItem with
    | none =>
      obtain ⟨rfl, rfl⟩ := Prod.mk.inj (Option.some.inj h)
      refine iff_of_true (hok (.missing hfind)) fun item k₂ e => ?_
      cases (Prod.mk.inj (Option.some.inj e)).1
    | some item =>
      have hsteady_iff : (∀ item' k₂, some (some item, k₁) = some (some item', k₂) →
          Steady d fs fuel next item' k₂) ↔ Steady d fs fuel next item k₁ := by
        constructor
        · exact fun hall => hall item k₁ rfl
        · intro hsteady item' k₂ e
          obtain ⟨e, rfl⟩ := Prod.mk.inj (Option.some.inj e)
          cases e
          exact hsteady
      rw [hsteady_iff]
      rcases directoryEntryLoop_cases next h with ⟨hsteady, result, rfl, hres⟩ | ⟨hno, use, rfl⟩
      · exact iff_of_true (hok (.found hfind hres)) hsteady
      · exact iff_of_false (fun hright => hright.2 use rfl) hno

end Walk

/-! ## 3. A tree -/

/-- A volume with the directory `A`, which has the file `X`. -/
def treeVolume : Disk :=
  diskOf ([(1024, 0x41), (1035, 0x10), (1050, 2), (1536, 0x58)] ++ smallHeader)

/-- The names `B` and `X`. -/
def nameB : List UInt8 := [0x42]
def nameX : List UInt8 := [0x58]

/-- A directory of one item. -/
theorem find_one {k : Kernel} {d : Disk} {fs : Fat16Private} {fuel : Nat} {dir : FatDirectory}
    {name : List UInt8} (ht : dir.total = 1) : fat16FindItemInDirectory k d fs fuel dir name =
      if (dir.itemAt k.mem 0).named name then
        fat16NewFatItemForDirectoryItem k d fs fuel (dir.itemAt k.mem 0)
      else some (none, k) := by
  unfold fat16FindItemInDirectory
  rw [ht]
  show findItemLoop d fs fuel dir name 1 0 none k = _
  rw [findItemLoop]
  split
  · cases fat16NewFatItemForDirectoryItem k d fs fuel (dir.itemAt k.mem 0) <;> rfl
  · rfl

/-- **The directory `A` is found**, with its item `X`. -/
theorem treeVolume_dirA : ∃ root ptr dir k',
    LoadedDirectory treeVolume rootFs (rootItem treeVolume rootFs.header) 1 1 root ∧
    fat16FindItemInDirectory emptyKernel treeVolume rootFs 2 root nameA =
      some (some ⟨ptr, .directory (some dir)⟩, k') ∧
    dir.total = 1 ∧ dir.bytes = slice treeVolume.byte 1536 32 ∧ ¬ PointsToFree k'.heap dir.address ∧
    k'.heap.Placed ∧ 2 ≤ freeBlocks k'.heap := by
  obtain ⟨root, hl, -⟩ := rootFs_loaded (d := treeVolume) (n := 1) (t := 1) (by decide +kernel)
    (by decide) ⟨by decide +kernel, by decide +kernel⟩
  have hs := hl.shows
  have hitem : root.itemAt emptyKernel.mem 0 = ⟨0x41 :: List.replicate 10 0, 0x10, 0, 2, 0⟩ := by
    rw [hs.item emptyKernel.mem 0 (by decide)]
    decide +kernel
  have hfree : freeBlocks emptyKernel.heap = 25600 := emptyKernel_free
  obtain ⟨ptr, k₁, e₁, hne₁, hp₁, hf₁⟩ := kzalloc_one (k := emptyKernel) emptyKernel_placed
    (by omega) 8 (by decide) (by decide)
  have hread : fat16ReadInternal treeVolume rootFs 2 (2 : Nat) 0 32 =
      some (0, slice treeVolume.byte 1536 32) := by decide +kernel
  obtain ⟨-, hload, hp₂, hf₂⟩ := load_granted ⟨0x41 :: List.replicate 10 0, 0x10, 0, 2, 0⟩ 1 32
    hp₁ (by omega) (by decide) (by decide +kernel) (by decide) (by decide)
    (by decide) hread
  have hnew : fat16NewFatItemForDirectoryItem emptyKernel treeVolume rootFs 2
      ⟨0x41 :: List.replicate 10 0, 0x10, 0, 2, 0⟩ = some (some ⟨ptr, .directory
        (some ⟨(kzalloc k₁ 16).1, (kzalloc (kzalloc k₁ 16).2 32).1, slice treeVolume.byte 1536 32,
          1, 0, 0⟩)⟩,
        (kzalloc (kzalloc k₁ 16).2 32).2) := by
    unfold fat16NewFatItemForDirectoryItem
    rw [e₁]
    dsimp only
    rw [if_neg hne₁, if_pos (by decide), hload]
    rfl
  refine ⟨root, ptr,
    ⟨(kzalloc k₁ 16).1, (kzalloc (kzalloc k₁ 16).2 32).1, slice treeVolume.byte 1536 32, 1, 0, 0⟩,
    _, hl, ?_, rfl, rfl, fun hfreed => ?_, hp₂, by omega⟩
  · rw [find_one hs.total, hitem, if_pos (by decide)]
    exact hnew
  · -- the load did not fail
    have hlate := (refersToFree_iff (kernelHeap_placed _) hnew).mp ⟨((kzalloc k₁ 16).1, 16),
      List.mem_cons_of_mem _ List.mem_cons_self, 0, Nat.succ_pos 15, hfreed⟩
    rw [e₁] at hlate
    exact not_lateFailure hload rfl hlate

/-- The item of the directory `A`. -/
theorem treeVolume_itemX {dir : FatDirectory} (hb : dir.bytes = slice treeVolume.byte 1536 32)
    (mem : Mem) : dir.itemAt mem 0 = ⟨0x58 :: List.replicate 10 0, 0, 0, 0, 0⟩ := by
  have hslice : slice treeVolume.byte 1536 32 = slice (fun j => treeVolume.byte (1536 + j)) 0 32 :=
    slice_congr fun j _ => by rw [Nat.zero_add]
  rw [itemAt_eq (hb.trans hslice) (by decide)]
  decide +kernel

/-- **The path `A/B/X`**: `B` is missing, and the walk goes on from a null pointer. -/
theorem fat16GetDirectoryEntry_null :
    ¬ ∀ (k k' : Kernel) (d : Disk) (fs : Fat16Private) (fuel : Nat) (root : FatDirectory)
      (part : List UInt8) (next : List (List UInt8))
    (r : Except BadUse (Option FatItem)),
    fat16GetDirectoryEntry k d fs fuel root part next = some (r, k') →
      EntryRight d fs fuel k root part next r := by
  intro h
  obtain ⟨root, ptr, dir, k₁, -, hfind, htotal, hbytes, hfree, -⟩ := treeVolume_dirA
  have hcall : ∃ k', fat16GetDirectoryEntry emptyKernel treeVolume rootFs 2 root nameA
      [nameB, nameX] = some (.error .nullPointer, k') := by
    unfold fat16GetDirectoryEntry
    rw [hfind]
    dsimp only
    rw [directoryEntryLoop]
    dsimp only
    rw [if_neg hfree, find_one htotal, treeVolume_itemX hbytes, if_neg (by decide)]
    exact ⟨_, rfl⟩
  obtain ⟨k', hcall⟩ := hcall
  exact (h _ _ _ _ _ _ _ _ _ hcall).2 _ rfl

/-- The path `A/X`. -/
theorem fat16GetDirectoryEntry_right_iff_found : ∃ root r k',
    fat16GetDirectoryEntry emptyKernel treeVolume rootFs 2 root nameA [nameX] = some (r, k') ∧
    EntryRight treeVolume rootFs 2 emptyKernel root nameA [nameX] r := by
  obtain ⟨root, ptr, dir, k₁, -, hfind, htotal, hbytes, hfree, hp, hf⟩ := treeVolume_dirA
  obtain ⟨copyItem, k₂, e₂, hne₂, hp₂, hf₂⟩ := kzalloc_one hp (by omega) 8 (by decide) (by decide)
  have hnew : ∃ found k₃, fat16FindItemInDirectory k₁ treeVolume rootFs 2 dir nameX =
      some (some found, k₃) := by
    rw [find_one htotal, treeVolume_itemX hbytes, if_pos (by decide)]
    unfold fat16NewFatItemForDirectoryItem
    rw [e₂]
    dsimp only
    rw [if_neg hne₂, if_neg (by decide)]
    exact ⟨_, _, rfl⟩
  obtain ⟨found, k₃, hnew⟩ := hnew
  have hcall : ∃ k', fat16GetDirectoryEntry emptyKernel treeVolume rootFs 2 root nameA [nameX] =
      some (.ok (some found), k') := by
    unfold fat16GetDirectoryEntry
    rw [hfind]
    dsimp only
    rw [directoryEntryLoop]
    dsimp only
    rw [if_neg hfree, hnew]
    exact ⟨_, rfl⟩
  obtain ⟨k', hcall⟩ := hcall
  refine ⟨root, _, k', hcall, (fat16GetDirectoryEntry_right_iff hcall).mpr fun item k₄ hfind' => ?_⟩
  obtain ⟨hitem, rfl⟩ := Prod.mk.inj (Option.some.inj (hfind.symm.trans hfind'))
  cases hitem
  intro directory hbody
  cases hbody
  refine ⟨dir, rfl, hfree, fun found' k₅ henters => ⟨fun _ => ?_, fun _ _ => trivial⟩⟩
  rfl

end PeachKernel
