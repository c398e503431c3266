/-
  File:      PeachKernel/Fs/Fat16File.lean
  Subject:   The FAT16 driver as a table of functions.

  `fat16_open` does not look whether the copy of the directory item was granted; `fat16_stat`,
  `fat16_read` and `fat16_seek` follow its pointer. The table's calls have no outcome where the code
  would use a null pointer or a released directory, and no file whose copy is missing comes out of
  them.

  * `fat16Stat`, `fat16Close` -- the source functions that are left;
  * `UsableDescriptor` -- a descriptor whose item can be used;
  * `fat16Fs` -- the driver;
  * `fat16Open_placed` -- it leaves the heap where it is.
-/
import PeachKernel.Fs.Fat16Seek
import PeachKernel.Fs.File

namespace PeachKernel

open CInt

/-! ## 1. The source functions -/

/-- `FAT_FILE_READ_ONLY`. -/
def FAT_FILE_READ_ONLY : UInt8 := 0x01

/-- A descriptor of a directory, or of a file whose item was copied. -/
structure UsableDescriptor where
  desc : FatFileDescriptor
  usable : desc.item.body ≠ .file none

/-- `none` where the item's copy is a null pointer. -/
def FatFileDescriptor.toUsable (desc : FatFileDescriptor) : Option UsableDescriptor :=
  if h : desc.item.body = .file none then none else some ⟨desc, h⟩

theorem FatFileDescriptor.toUsable_some {desc : FatFileDescriptor} {h : UsableDescriptor}
    (e : desc.toUsable = some h) : h.desc = desc := by
  unfold FatFileDescriptor.toUsable at e
  split at e
  · cases e
  · rw [← Option.some.inj e]

/-- `fat16_stat`; a directory's status is all that it answers. -/
def fat16Stat (h : UsableDescriptor) : Int × FileStat :=
  match hbody : h.desc.item.body with
  | .directory _ => (-EINVARG, ⟨0, 0⟩)
  | .file none => absurd hbody h.usable
  | .file (some (_, ritem)) =>
    (0, ⟨if ritem.attr &&& FAT_FILE_READ_ONLY ≠ 0 then FILE_STAT_READ_ONLY else 0, ritem.filesize⟩)

/-- `fat16_close`, of the descriptor at an address. -/
def fat16Close (k : Kernel) (descriptor : Nat) (desc : FatFileDescriptor) : Int × Kernel :=
  (0, kfree (fat16FatItemFree k desc.item) descriptor)

/-- `fat16_open`, without the outcomes that lead through a pointer that must not be used. -/
def fat16OpenUsable (k : Kernel) (d : Disk) (fs : Fat16Private) (fuel : Nat)
    (rootDirectory : FatDirectory) (part : List UInt8) (nextPart : List (List UInt8))
    (mode : FileMode) : Option (Except Int (Nat × UsableDescriptor) × Kernel) :=
  match fat16Open k d fs fuel rootDirectory part nextPart mode with
  | some (.ok (.ok (descriptor, desc)), k) => desc.toUsable.map fun h => (.ok (descriptor, h), k)
  | some (.ok (.error e), k) => some (.error e, k)
  | _ => none

/-! ## 2. Where the heap lies -/

section Placed

variable {k k' : Kernel} {d : Disk} {fs : Fat16Private} {fuel : Nat} {root : FatDirectory}
  {part : List UInt8} {nextPart : List (List UInt8)}

theorem fat16FatItemFree_placed (hp : k.heap.Placed) (fItem : FatItem) :
    (fat16FatItemFree k fItem).heap.Placed := by
  unfold fat16FatItemFree
  cases fItem.body with
  | directory directory => exact (fat16FreeDirectory_placed hp directory).free _
  | file itemCopy => exact (hp.free _).free _

/-- The search. Induction on the items that are left. -/
theorem findItemLoop_placed {directory : FatDirectory} {name : List UInt8} {found : Option FatItem}
    (left : Nat) : ∀ {i : Nat} {fItem : Option FatItem} {k : Kernel}, k.heap.Placed →
      findItemLoop d fs fuel directory name left i fItem k = some (found, k') → k'.heap.Placed := by
  induction left with
  | zero =>
    intro i fItem k hp h
    obtain ⟨-, rfl⟩ := Prod.mk.inj (Option.some.inj h)
    exact hp
  | succ left ih =>
    intro i fItem k hp h
    unfold findItemLoop at h
    dsimp only at h
    split at h
    · split at h
      · cases h
      · rename_i k₁ hnew
        exact ih (fat16NewFatItem_placed hp hnew) h
    · exact ih hp h

/-- The walk. Induction on the parts that are left. -/
theorem directoryEntryLoop_placed {r : Except BadUse (Option FatItem)}
    (nextPart : List (List UInt8)) : ∀ {currentItem : Option FatItem} {k : Kernel}, k.heap.Placed →
      directoryEntryLoop d fs fuel nextPart currentItem k = some (r, k') → k'.heap.Placed := by
  induction nextPart with
  | nil =>
    intro currentItem k hp h
    unfold directoryEntryLoop at h
    obtain ⟨-, rfl⟩ := Prod.mk.inj (Option.some.inj h)
    exact hp
  | cons part nextPart ih =>
    intro currentItem k hp h
    cases currentItem with
    | none =>
      obtain ⟨-, rfl⟩ := Prod.mk.inj (Option.some.inj h)
      exact hp
    | some item =>
      unfold directoryEntryLoop at h
      split at h
      · obtain ⟨-, rfl⟩ := Prod.mk.inj (Option.some.inj h)
        exact hp
      · obtain ⟨-, rfl⟩ := Prod.mk.inj (Option.some.inj h)
        exact hp
      split at h
      · obtain ⟨-, rfl⟩ := Prod.mk.inj (Option.some.inj h)
        exact hp
      split at h
      · cases h
      · rename_i k₁ hfind
        exact ih (fat16FatItemFree_placed (findItemLoop_placed _ hp hfind) item) h

theorem fat16GetDirectoryEntry_placed {r : Except BadUse (Option FatItem)} (hp : k.heap.Placed)
    (h : fat16GetDirectoryEntry k d fs fuel root part nextPart = some (r, k')) :
    k'.heap.Placed := by
  unfold fat16GetDirectoryEntry at h
  split at h
  · cases h
  · rename_i k₁ hfind
    obtain ⟨-, rfl⟩ := Prod.mk.inj (Option.some.inj h)
    exact findItemLoop_placed _ hp hfind
  · rename_i item k₁ hfind
    exact directoryEntryLoop_placed _ (findItemLoop_placed _ hp hfind) h

/-- **An open leaves the heap where it is**, and an error is a negative code. -/
theorem fat16Open_placed {mode : FileMode}
    {r : Except BadUse (Except Int (Nat × FatFileDescriptor))} (hp : k.heap.Placed)
    (h : fat16Open k d fs fuel root part nextPart mode = some (r, k')) : k'.heap.Placed := by
  have hp₁ := kzalloc_placed hp 8
  unfold fat16Open at h
  dsimp only at h
  split at h
  · obtain ⟨-, rfl⟩ := Prod.mk.inj (Option.some.inj h)
    exact hp
  split at h
  · obtain ⟨-, rfl⟩ := Prod.mk.inj (Option.some.inj h)
    exact hp₁
  split at h
  · cases h
  · rename_i use k₁ hentry
    obtain ⟨-, rfl⟩ := Prod.mk.inj (Option.some.inj h)
    exact fat16GetDirectoryEntry_placed hp₁ hentry
  · rename_i k₁ hentry
    obtain ⟨-, rfl⟩ := Prod.mk.inj (Option.some.inj h)
    exact (fat16GetDirectoryEntry_placed hp₁ hentry).free _
  · rename_i fItem k₁ hentry
    obtain ⟨-, rfl⟩ := Prod.mk.inj (Option.some.inj h)
    exact fat16GetDirectoryEntry_placed hp₁ hentry

theorem fat16Open_error {mode : FileMode} {e : Int}
    (h : fat16Open k d fs fuel root part nextPart mode = some (.ok (.error e), k')) : e < 0 := by
  unfold fat16Open at h
  dsimp only at h
  split at h
  · cases h
    decide
  split at h
  · cases h
    decide
  split at h
  · cases h
  · cases h
  · cases h
    decide
  · cases h

end Placed

/-! ## 3. The driver -/

/-- **What the table's `open` answers** is an answer of `fat16_open`. -/
theorem fat16OpenUsable_some {k k' : Kernel} {d : Disk} {fs : Fat16Private} {fuel : Nat}
    {root : FatDirectory} {part : List UInt8} {nextPart : List (List UInt8)} {mode : FileMode}
    {r : Except Int (Nat × UsableDescriptor)}
    (h : fat16OpenUsable k d fs fuel root part nextPart mode = some (r, k')) :
    fat16Open k d fs fuel root part nextPart mode =
      some (.ok (r.map fun x => (x.1, x.2.desc)), k') := by
  unfold fat16OpenUsable at h
  split at h
  · rename_i descriptor desc k₁ hopen
    obtain ⟨hd, hused, e⟩ := Option.map_eq_some_iff.mp h
    obtain ⟨rfl, rfl⟩ := Prod.mk.inj e
    rw [hopen, ← FatFileDescriptor.toUsable_some hused]
    rfl
  · rename_i e k₁ hopen
    obtain ⟨rfl, rfl⟩ := Prod.mk.inj (Option.some.inj h)
    exact hopen
  · cases h

/-- `fat16_fs`, for one disk. -/
def fat16Fs (d : Disk) (fs : Fat16Private) (fuel : Nat) (rootDirectory : FatDirectory) :
    Filesystem UsableDescriptor where
  openFn k part next mode :=
    fat16OpenUsable k d fs fuel rootDirectory part.text (next.map PathPart.text) mode
  readFn h size nmemb := (fat16Read d fs fuel h.desc size nmemb).bind fun r =>
    r.descriptor.toUsable.map fun h => (r.status, r.out, h)
  seekFn h offset seekMode := (fat16Seek h.desc offset seekMode).bind fun r =>
    r.2.toUsable.map fun h => (r.1, h)
  statFn := fat16Stat
  closeFn k priv := fat16Close k priv.1 priv.2.desc
  openFn_error h := fat16Open_error (fat16OpenUsable_some h)
  openFn_placed hp h := fat16Open_placed hp (fat16OpenUsable_some h)
  statFn_error h := by
    unfold fat16Stat
    split
    · decide
    · rename_i hbody
      exact absurd hbody h.usable
    · exact Int.le_refl 0
  closeFn_ok _ _ := rfl
  closeFn_placed _ hp := (fat16FatItemFree_placed hp _).free _

section Driver

variable {d : Disk} {fs : Fat16Private} {fuel : Nat} {root : FatDirectory} {h h' : UsableDescriptor}

/-- What a read of the table answers is what `fat16_read` answers. -/
theorem fat16Fs_read {size nmemb : Nat} {res : Int} {out : List UInt8}
    (hr : (fat16Fs d fs fuel root).readFn h size nmemb = some (res, out, h')) :
    ∃ r, fat16Read d fs fuel h.desc size nmemb = some r ∧ res = r.status ∧ out = r.out := by
  obtain ⟨r, hread, hused⟩ := Option.bind_eq_some_iff.mp hr
  obtain ⟨h'', -, e⟩ := Option.map_eq_some_iff.mp hused
  obtain ⟨hres, e⟩ := Prod.mk.inj e
  exact ⟨r, hread, hres.symm, (Prod.mk.inj e).1.symm⟩

/-- A read of a file finds its item. -/
theorem fat16Read_item {size nmemb : Nat} {desc : FatFileDescriptor} {r : Fat16ReadResult}
    (hr : fat16Read d fs fuel desc size nmemb = some r) : ∃ itemCopy item rs,
      desc.item.body = .file (some (itemCopy, item)) ∧
      fat16ReadItems d fs fuel (fat16GetFirstCluster item) size nmemb (i32 desc.pos) = some rs ∧
      r = ⟨if rs.1 < 0 then rs.1 else i32 nmemb, rs.2, desc⟩ := by
  unfold fat16Read at hr
  split at hr
  · rename_i itemCopy item hbody
    obtain ⟨rs, hitems, rfl⟩ := Option.map_eq_some_iff.mp hr
    exact ⟨itemCopy, item, rs, hbody, hitems, rfl⟩
  · cases hr

end Driver

end PeachKernel
