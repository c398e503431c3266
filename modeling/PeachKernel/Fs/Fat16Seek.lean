/-
  File:      PeachKernel/Fs/Fat16Seek.lean
  Subject:   Seeking in a FAT16 file: sequences of `fat16_seek` calls.

  The offset is compared with the size of the file before the mode is looked at, so `SEEK_CUR` adds
  an offset inside the file to a position inside the file, and may end behind it.

  * `fat16Open`, `fat16Seek` -- the source functions;
  * `SeeksRight` -- a sequence of calls keeps the position in the file, errors change nothing, and
    two steps forward are one step from the beginning;
  * `SeekFits` -- a step forward ends inside the file;
  * `seeksRight_iff` -- a sequence is right exactly where all its steps fit.
-/
import PeachKernel.Fs.Fat16Entry

namespace PeachKernel

open CInt

/-! ## 1. The source functions -/

/-- `fat16_open`: a code, or the address of the descriptor with the descriptor. -/
def fat16Open (k : Kernel) (d : Disk) (fs : Fat16Private) (fuel : Nat)
    (rootDirectory : FatDirectory) (part : List UInt8) (nextPart : List (List UInt8))
    (mode : FileMode) : Option (Except BadUse (Except Int (Nat × FatFileDescriptor)) × Kernel) :=
  if mode ≠ .read then some (.ok (.error (-ERDONLY)), k)
  else
    match kzalloc k 8 with
    | (descriptor, k) =>
      if descriptor = 0 then some (.ok (.error (-ENOMEM)), k)
      else
        match fat16GetDirectoryEntry k d fs fuel rootDirectory part nextPart with
        | none => none
        | some (.error use, k) => some (.error use, k)
        | some (.ok none, k) => some (.ok (.error (- EIO)), kfree k descriptor)
        | some (.ok (some item), k) => some (.ok (.ok (descriptor, ⟨item, 0⟩)), k)

/-- `fat16_seek`: the status and the descriptor; `none` where the copy of the item is a null
    pointer. -/
def fat16Seek (desc : FatFileDescriptor) (offset seekMode : Nat) :
    Option (Int × FatFileDescriptor) :=
  match desc.item.body with
  | .directory _ => some (-EINVARG, desc)
  | .file none => none
  | .file (some (_, ritem)) =>
    if ritem.filesize ≤ offset then some (- EIO, desc)
    else if seekMode = SEEK_SET then some (0, { desc with pos := offset })
    else if seekMode = SEEK_END then some (-EUNIMP, desc)
    else if seekMode = SEEK_CUR then some (0, { desc with pos := u32 ((desc.pos : Int) + offset) })
    else some (-EINVARG, desc)

/-! ## 2. Sequences of calls -/

/-- The position lies inside the file, or at its beginning. -/
def FatFileDescriptor.InFile (desc : FatFileDescriptor) : Prop :=
  desc.pos = 0 ∨ ∃ ptr ritem, desc.item.body = .file (some (ptr, ritem)) ∧ desc.pos < ritem.filesize

/-- **Two steps forward** that succeed lead where one step from the beginning leads. -/
def StepsAgree (desc : FatFileDescriptor) (a b : Nat) : Prop :=
  ∀ desc₁ desc₂, fat16Seek desc a SEEK_CUR = some (0, desc₁) →
    fat16Seek desc₁ b SEEK_CUR = some (0, desc₂) →
    fat16Seek desc desc₂.pos SEEK_SET = some (0, desc₂)

/-- **A sequence of calls is right**: the position stays in the file, a call that fails changes
    nothing, and two steps forward agree with one from the beginning. -/
def SeeksRight : FatFileDescriptor → (calls : List (Nat × Nat)) → Prop
  | desc, [] => desc.InFile
  | desc, (offset, mode) :: calls => desc.InFile ∧
    (∀ b, mode = SEEK_CUR → calls.head? = some (b, SEEK_CUR) → StepsAgree desc offset b) ∧
    ∀ res desc', fat16Seek desc offset mode = some (res, desc') →
      (res < 0 → desc' = desc) ∧ SeeksRight desc' calls

/-- **A call fits**: if it is a step forward by less than the size, the step ends inside the
    file. -/
def SeekFits (desc : FatFileDescriptor) (offset mode : Nat) : Prop :=
  ∀ ptr ritem, desc.item.body = .file (some (ptr, ritem)) → mode = SEEK_CUR →
    offset < ritem.filesize → u32 ((desc.pos : Int) + offset) < ritem.filesize

/-- All calls of a sequence fit, each where it is made. -/
def SeeksFit : FatFileDescriptor → (calls : List (Nat × Nat)) → Prop
  | _, [] => True
  | desc, (offset, mode) :: calls => SeekFits desc offset mode ∧
    ∀ res desc', fat16Seek desc offset mode = some (res, desc') → SeeksFit desc' calls

section Seeking

variable {desc desc' : FatFileDescriptor} {offset mode : Nat} {res : Int}

/-- **The ways of a call**: it fails and changes nothing; it goes to the offset; it goes forward by
    it. -/
theorem fat16Seek_cases (h : fat16Seek desc offset mode = some (res, desc')) :
    (res < 0 ∧ desc' = desc) ∨
    (res = 0 ∧ ∃ ptr ritem, desc.item.body = .file (some (ptr, ritem)) ∧ offset < ritem.filesize ∧
      ((mode = SEEK_SET ∧ desc' = { desc with pos := offset }) ∨
        (mode = SEEK_CUR ∧ desc' = { desc with pos := u32 ((desc.pos : Int) + offset) }))) := by
  have hcodes : -EINVARG < 0 ∧ - EIO < 0 ∧ -EUNIMP < 0 := by decide
  unfold fat16Seek at h
  split at h
  · cases h
    exact Or.inl ⟨hcodes.1, rfl⟩
  · cases h
  rename_i ptr ritem hbody
  split at h
  · cases h
    exact Or.inl ⟨hcodes.2.1, rfl⟩
  rename_i hlt
  split at h
  · rename_i hmode
    cases h
    exact Or.inr ⟨rfl, ptr, ritem, hbody, Nat.not_le.mp hlt, Or.inl ⟨hmode, rfl⟩⟩
  split at h
  · cases h
    exact Or.inl ⟨hcodes.2.2, rfl⟩
  split at h
  · rename_i hmode
    cases h
    exact Or.inr ⟨rfl, ptr, ritem, hbody, Nat.not_le.mp hlt, Or.inr ⟨hmode, rfl⟩⟩
  · cases h
    exact Or.inl ⟨hcodes.1, rfl⟩

/-- Going to a place inside the file. -/
theorem fat16Seek_set {ptr : Nat} {ritem : DirectoryItem}
    (hbody : desc.item.body = .file (some (ptr, ritem))) (h : offset < ritem.filesize) :
    fat16Seek desc offset SEEK_SET = some (0, { desc with pos := offset }) := by
  unfold fat16Seek
  rw [hbody]
  dsimp only
  rw [if_neg (Nat.not_le.mpr h), if_pos rfl]

/-- A step forward by an offset inside the file. -/
theorem fat16Seek_cur {ptr : Nat} {ritem : DirectoryItem}
    (hbody : desc.item.body = .file (some (ptr, ritem)))
    (h : offset < ritem.filesize) : fat16Seek desc offset SEEK_CUR =
      some (0, { desc with pos := u32 ((desc.pos : Int) + offset) }) := by
  unfold fat16Seek
  rw [hbody]
  dsimp only
  rw [if_neg (Nat.not_le.mpr h), if_neg (by decide), if_neg (by decide), if_pos rfl]

/-- **One step**: from a place in the file a call leads to a place in the file exactly where it
    fits. -/
theorem inFile_iff (hin : desc.InFile) (h : fat16Seek desc offset mode = some (res, desc')) :
    desc'.InFile ↔ SeekFits desc offset mode := by
  rcases fat16Seek_cases h with ⟨hres, rfl⟩ | ⟨-, ptr, ritem, hbody, hlt, ⟨rfl, rfl⟩ | ⟨rfl, rfl⟩⟩
  · refine iff_of_true hin fun ptr ritem hbody hmode hlt => ?_
    subst hmode
    rw [fat16Seek_cur hbody hlt] at h
    rw [← (Prod.mk.inj (Option.some.inj h)).1] at hres
    exact absurd hres (lt_irrefl 0)
  · exact iff_of_true (Or.inr ⟨ptr, ritem, hbody, hlt⟩) fun _ _ _ hmode => absurd hmode (by decide)
  · constructor
    · intro hin' ptr' ritem' hbody' _ _
      cases FatItemBody.file.inj (hbody.symm.trans hbody')
      rcases hin' with h0 | ⟨ptr', ritem', hbody', hpos⟩
      · rw [show u32 ((desc.pos : Int) + offset) = 0 from h0]
        omega
      · cases FatItemBody.file.inj (hbody.symm.trans hbody')
        exact hpos
    · exact fun hfits => Or.inr ⟨ptr, ritem, hbody, hfits ptr ritem hbody rfl hlt⟩

/-- Two steps forward agree where both fit. -/
theorem stepsAgree_of_fits {a b : Nat}
    (h : ∀ desc₁, fat16Seek desc a SEEK_CUR = some (0, desc₁) → SeekFits desc₁ b SEEK_CUR) :
    StepsAgree desc a b := by
  intro desc₁ desc₂ h₁ h₂
  have hfits := h desc₁ h₁
  rcases fat16Seek_cases h₁ with ⟨hneg, -⟩ | ⟨-, ptr, ritem, hbody, -, ⟨hmode, -⟩ | ⟨-, rfl⟩⟩
  · exact absurd hneg (lt_irrefl 0)
  · exact absurd hmode (by decide)
  rcases fat16Seek_cases h₂ with ⟨hneg, -⟩ | ⟨-, ptr', ritem', hbody', hlt', ⟨hmode, -⟩ | ⟨-, rfl⟩⟩
  · exact absurd hneg (lt_irrefl 0)
  · exact absurd hmode (by decide)
  cases FatItemBody.file.inj (hbody.symm.trans hbody')
  exact fat16Seek_set hbody (hfits ptr ritem hbody rfl hlt')

theorem SeeksRight.inFile {calls : List (Nat × Nat)} (h : SeeksRight desc calls) : desc.InFile := by
  cases calls with
  | nil => exact h
  | cons call calls => exact h.1

/-- **From a place in the file**: induction on the calls. -/
theorem seeksRight_iff_fit (calls : List (Nat × Nat)) : ∀ {desc : FatFileDescriptor}, desc.InFile →
    (SeeksRight desc calls ↔ SeeksFit desc calls) := by
  induction calls with
  | nil =>
    intro desc hin
    exact iff_of_true hin trivial
  | cons call calls ih =>
    obtain ⟨offset, mode⟩ := call
    intro desc hin
    constructor
    · rintro ⟨-, -, hrest⟩
      refine ⟨?_, fun res desc' h => ?_⟩
      · cases hseek : fat16Seek desc offset mode with
        | none =>
          intro ptr ritem hbody hmode hlt
          rw [hmode, fat16Seek_cur hbody hlt] at hseek
          cases hseek
        | some r =>
          exact (inFile_iff hin hseek).mp (hrest r.1 r.2 hseek).2.inFile
      · have hright := (hrest res desc' h).2
        exact (ih hright.inFile).mp hright
    · rintro ⟨hfits, hrest⟩
      refine ⟨hin, fun b hmode hhead => stepsAgree_of_fits fun desc₁ h₁ => ?_,
        fun res desc' h => ⟨?_, ?_⟩⟩
      · subst hmode
        cases calls with
        | nil => cases hhead
        | cons call' calls =>
          cases Option.some.inj hhead
          exact (hrest 0 desc₁ h₁).1
      · intro hneg
        rcases fat16Seek_cases h with ⟨-, e⟩ | ⟨h0, -⟩
        · exact e
        · omega
      · exact (ih ((inFile_iff hin h).mpr hfits)).mpr (hrest res desc' h)

end Seeking

/-- **For every file that is opened**: a sequence of calls is right exactly where every step forward
    ends inside the file. -/
theorem seeksRight_iff (item : FatItem) (calls : List (Nat × Nat)) :
    SeeksRight ⟨item, 0⟩ calls ↔ SeeksFit ⟨item, 0⟩ calls :=
  seeksRight_iff_fit calls (Or.inl rfl)

/-- A file of 10 bytes. -/
def tenBytes : FatItem := ⟨4096, .file (some (8192, ⟨0x41 :: List.replicate 10 0x20, 0, 0, 2, 10⟩))⟩

/-- **A step past the end**: to 5, and 9 forward. -/
theorem seeks_past_end :
    ¬ ∀ (item : FatItem) (calls : List (Nat × Nat)), SeeksRight ⟨item, 0⟩ calls := by
  intro h
  have hright := h tenBytes [(5, SEEK_SET), (9, SEEK_CUR)]
  have hsecond := (hright.2.2 0 ⟨tenBytes, 5⟩ (by decide)).2
  have hin := (hsecond.2.2 0 ⟨tenBytes, 14⟩ (by decide)).2
  rcases hin with h0 | ⟨ptr, ritem, hbody, hlt⟩
  · exact absurd h0 (by decide)
  · cases hbody
    exact absurd hlt (by decide)

end PeachKernel
