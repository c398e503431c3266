/-
  File:      PeachKernel/Fs/Fat32Seek.lean
  Subject:   Seeking in a FAT32 file, against reading.

  `fat32_seek` walks the chain with a copy of the loop of `fat32_read_internal`. The copy leaves
  `file_pos` where it was, and the check in front of it compares the other way round.

  * `FileHandle.skipped`, `seekLoop_cases` -- what the loop does: it moves two of three places;
  * `OpenFile` -- the handles that any calls can lead to, `openFile_cursor` their invariant;
  * `SeekCurAgrees`, `SeekSetAgrees` -- seeking does what reading and discarding does, and an offset
    past the end is rejected;
  * `fat32Seek_agrees_iff` -- when they hold.
-/
import PeachKernel.Fs.Fat32Read

namespace PeachKernel

open CInt Mem

/-! ## 1. The loop -/

/-- The handle moved by `n` bytes, but for `file_pos`. -/
def FileHandle.skipped (d : Disk) (fs : Fat32Private) (h : FileHandle) (n : Nat) : FileHandle :=
  { h.moved d fs n with filePos := h.filePos }

section Loop

variable {d : Disk} {fs : Fat32Private} {h : FileHandle}

@[simp] theorem skipped_filePos (n : Nat) : (h.skipped d fs n).filePos = h.filePos := rfl

theorem skipped_zero (hc : Cursor fs h) : h.skipped d fs 0 = h := by
  unfold FileHandle.skipped
  rw [moved_zero hc]

theorem skipped_skipped (m n : Nat) :
    (h.skipped d fs m).skipped d fs n = h.skipped d fs (m + n) := by
  have e : (h.skipped d fs m).skipped d fs n =
      { (h.moved d fs m).moved d fs n with filePos := h.filePos } := rfl
  rw [e, moved_moved]
  rfl

theorem Cursor.skipped (hc : Cursor fs h) (n : Nat) : Cursor fs (h.skipped d fs n) where
  size_lt := hc.size_lt
  inCluster := Nat.mod_lt _ hc.size_pos
  pos_le := hc.pos_le
  fileSize_lt := hc.fileSize_lt

/-- **One turn of the loop of `fat32_seek`.** -/
theorem seekLoop_step (hc : Cursor fs h) (fuel offset : Nat) :
    seekLoop d fs (fuel + 1) offset h =
      if 0 < offset then
        seekLoop d fs fuel (offset - min offset (fs.clusterSizeBytes - h.positionInCluster))
          (h.skipped d fs (min offset (fs.clusterSizeBytes - h.positionInCluster)))
      else some h := by
  have h1 := hc.inCluster
  have hs := hc.size_lt_word
  have e1 : u32 ((fs.clusterSizeBytes : Int) - h.positionInCluster) =
      fs.clusterSizeBytes - h.positionInCluster := u32_sub_of_le (by omega) hs
  rw [seekLoop]
  dsimp only
  rw [e1]
  obtain ⟨n, hn⟩ : ∃ n, n = min offset (fs.clusterSizeBytes - h.positionInCluster) := ⟨_, rfl⟩
  rw [← hn]
  have hle : h.positionInCluster + n ≤ fs.clusterSizeBytes := by omega
  have e2 : u32 ((h.positionInCluster : Int) + n) = h.positionInCluster + n :=
    u32_add_of_lt (lt_of_le_of_lt hle hs)
  rw [e2]
  unfold FileHandle.skipped FileHandle.moved
  by_cases he : h.positionInCluster + n = fs.clusterSizeBytes
  · rw [if_pos he, he, Nat.mod_self, Nat.div_self hc.size_pos, Function.iterate_one]
  · rw [if_neg he, Nat.mod_eq_of_lt (by omega), Nat.div_eq_of_lt (by omega),
      Function.iterate_zero, id_eq]

/-- **The loop of `fat32_seek`** moves the place in the chain, and needs at most one turn for each
    byte and one to end. -/
theorem seekLoop_cases (hc : Cursor fs h) (fuel offset : Nat) :
    seekLoop d fs fuel offset h = some (h.skipped d fs offset) ∨
    (seekLoop d fs fuel offset h = none ∧ fuel ≤ offset) := by
  induction fuel generalizing offset h with
  | zero => exact Or.inr ⟨rfl, Nat.zero_le _⟩
  | succ fuel ih =>
    have h1 := hc.inCluster
    rw [seekLoop_step hc]
    by_cases h0 : 0 < offset
    · obtain ⟨n, hn⟩ : ∃ n, n = min offset (fs.clusterSizeBytes - h.positionInCluster) := ⟨_, rfl⟩
      have e : n + (offset - n) = offset := by omega
      rw [if_pos h0, ← hn]
      rcases ih (hc.skipped n) (offset - n) with hs | ⟨hs, hle⟩
      · rw [skipped_skipped, e] at hs
        exact Or.inl hs
      · exact Or.inr ⟨hs, by omega⟩
    · have e : offset = 0 := by omega
      rw [if_neg h0, e, skipped_zero hc]
      exact Or.inl rfl

theorem seekLoop_skipped {fuel offset : Nat} (hc : Cursor fs h) (hf : offset < fuel) :
    seekLoop d fs fuel offset h = some (h.skipped d fs offset) :=
  (seekLoop_cases hc fuel offset).resolve_right fun hn => absurd hn.2 (not_le.mpr hf)

theorem seekLoop_some {fuel offset : Nat} {h' : FileHandle} (hc : Cursor fs h)
    (hs : seekLoop d fs fuel offset h = some h') : h' = h.skipped d fs offset := by
  rcases seekLoop_cases hc fuel offset with he | ⟨he, -⟩
  · exact Option.some.inj (hs.symm.trans he)
  · rw [hs] at he
    cases he

/-! ## 2. The two modes -/

/-- The handle at the beginning of its file. -/
def FileHandle.rewound (h : FileHandle) : FileHandle :=
  { h with currentCluster := h.startingCluster, positionInCluster := 0, filePos := 0 }

theorem Cursor.rewound (hc : Cursor fs h) : Cursor fs h.rewound where
  size_lt := hc.size_lt
  inCluster := hc.size_pos
  pos_le := Nat.zero_le _
  fileSize_lt := hc.fileSize_lt

/-- What `SEEK_CUR` can do: reject, or skip. -/
theorem fat32SeekCur_cases (hc : Cursor fs h) {fuel offset : Nat} {status : Int} {h' : FileHandle}
    (hs : fat32SeekCur d fs fuel h offset = some (status, h')) :
    (u32 ((h.filePos : Int) + offset) < h.fileSize ∧ status = -EINVARG ∧ h' = h) ∨
    (h.fileSize ≤ u32 ((h.filePos : Int) + offset) ∧ status = 0 ∧ h' = h.skipped d fs offset) := by
  unfold fat32SeekCur at hs
  split at hs
  · next hlt =>
    cases hs
    exact Or.inl ⟨hlt, rfl, rfl⟩
  · next hle =>
    obtain ⟨h'', hl, he⟩ := Option.map_eq_some_iff.mp hs
    cases he
    exact Or.inr ⟨not_lt.mp hle, rfl, seekLoop_some hc hl⟩

/-- What `fat32_seek` can do: reject and change nothing, or skip from the handle's place or from the
    beginning. -/
theorem fat32Seek_cases (hc : Cursor fs h) {fuel offset mode : Nat} {status : Int} {h' : FileHandle}
    (hs : fat32Seek d fs fuel h offset mode = some (status, h')) :
    h' = h ∨ h' = h.rewound ∨ h' = h.skipped d fs offset ∨ h' = h.rewound.skipped d fs offset := by
  unfold fat32Seek at hs
  split at hs
  · split at hs
    · cases hs
      exact Or.inl rfl
    · rcases fat32SeekCur_cases hc.rewound hs with ⟨-, -, e⟩ | ⟨-, -, e⟩
      · exact Or.inr (Or.inl e)
      · exact Or.inr (Or.inr (Or.inr e))
  · split at hs
    · cases hs
      exact Or.inl rfl
    · split at hs
      · rcases fat32SeekCur_cases hc hs with ⟨-, -, e⟩ | ⟨-, -, e⟩
        · exact Or.inl e
        · exact Or.inr (Or.inr (Or.inl e))
      · cases hs
        exact Or.inl rfl

end Loop

/-! ## 3. Open files -/

/-- The handles of open files: opened, and then read from and seeked in, in any order. -/
inductive OpenFile (d : Disk) (fs : Fat32Private) : FileHandle → Prop
  | opened {k k' : Kernel} {turns ptr : Nat} {part : List UInt8} {next : List (List UInt8)}
      {mode : FileMode} {h : FileHandle}
      (ho : fat32Open k d fs turns part next mode = some (.ok (ptr, h), k')) : OpenFile d fs h
  | read {h : FileHandle} {fuel size nmemb : Nat} {r : ReadResult} (hh : OpenFile d fs h)
      (hr : fat32Read d fs fuel h size nmemb = some r) : OpenFile d fs r.handle
  | seek {h h' : FileHandle} {fuel offset mode : Nat} {status : Int} (hh : OpenFile d fs h)
      (hs : fat32Seek d fs fuel h offset mode = some (status, h')) : OpenFile d fs h'

/-- **Every open file is a cursor.** -/
theorem openFile_cursor {k : Kernel} {d : Disk} {fs : Fat32Private} {h : FileHandle}
    (hr : (fat32Resolve k d).2.1 = some fs) (hh : OpenFile d fs h) : Cursor fs h := by
  induction hh with
  | opened ho => exact cursor_of_open hr ho
  | read _ hread ih =>
    obtain ⟨n, hn, e, -⟩ := readItems_moved ih hread
    rw [e]
    exact ih.moved hn
  | seek _ hseek ih =>
    rcases fat32Seek_cases ih hseek with rfl | rfl | rfl | rfl
    · exact ih
    · exact ih.rewound
    · exact ih.skipped _
    · exact ih.rewound.skipped _

/-! ## 4. Seeking and reading -/

/-- Reading and discarding `n` bytes leads from `h` to `h'`. -/
def ReadsTo (d : Disk) (fs : Fat32Private) (h : FileHandle) (n : Nat) (h' : FileHandle) : Prop :=
  ∃ fuel r, fat32Read d fs fuel h 1 n = some r ∧ r.handle = h'

/-- An offset is rejected, and the handle stays as it is. -/
def SeekRejected (d : Disk) (fs : Fat32Private) (h : FileHandle) (n mode : Nat) : Prop :=
  ∃ fuel status, fat32Seek d fs fuel h n mode = some (status, h) ∧ status < 0

/-- Seeking by `n` from the handle's place is reading `n` bytes; past the end it is rejected. -/
def SeekCurAgrees (d : Disk) (fs : Fat32Private) (h : FileHandle) (n : Nat) : Prop :=
  (h.filePos + n ≤ h.fileSize →
    ∃ fuel h', fat32Seek d fs fuel h n SEEK_CUR = some (0, h') ∧ ReadsTo d fs h n h') ∧
  (h.fileSize < h.filePos + n → SeekRejected d fs h n SEEK_CUR)

/-- Seeking to `n` is reading `n` bytes from the beginning; past the end it is rejected. -/
def SeekSetAgrees (d : Disk) (fs : Fat32Private) (h : FileHandle) (n : Nat) : Prop :=
  (n ≤ h.fileSize →
    ∃ fuel h', fat32Seek d fs fuel h n SEEK_SET = some (0, h') ∧ ReadsTo d fs h.rewound n h') ∧
  (h.fileSize < n → SeekRejected d fs h n SEEK_SET)

section Agree

variable {d : Disk} {fs : Fat32Private} {h : FileHandle}

theorem readsTo_zero : ReadsTo d fs h 0 h := ⟨0, _, rfl, rfl⟩

/-- Reading moves `file_pos`, and skipping does not. -/
theorem not_readsTo_skipped (hc : Cursor fs h) {n m : Nat} (hn : 0 < n)
    (hf : h.filePos < h.fileSize) : ¬ ReadsTo d fs h n (h.skipped d fs m) := by
  rintro ⟨fuel, r, hr, he⟩
  obtain ⟨k, -, e, hpos⟩ := readItems_moved hc hr
  have hk : 0 < k := hpos hn Nat.one_pos hf
  have efp := congrArg FileHandle.filePos (e.symm.trans he)
  rw [moved_filePos, skipped_filePos] at efp
  omega

theorem fat32Seek_cur (fuel n : Nat) :
    fat32Seek d fs fuel h n SEEK_CUR = fat32SeekCur d fs fuel h n := rfl

theorem fat32Seek_set (fuel n : Nat) :
    fat32Seek d fs fuel h n SEEK_SET =
      if n < h.fileSize then some (-EINVARG, h) else fat32SeekCur d fs fuel h.rewound n := rfl

theorem seekCurAgrees_iff (hc : Cursor fs h) {n : Nat} (hn : n < 4294967296) :
    SeekCurAgrees d fs h n ↔
      (n = 0 ∧ h.filePos = h.fileSize) ∨ 4294967296 ≤ h.filePos + n := by
  have h1 := hc.pos_le
  have h2 := hc.fileSize_lt
  constructor
  · rintro ⟨hin, hout⟩
    by_contra hcon
    have hlt : h.filePos + n < 4294967296 := by omega
    have eu : u32 ((h.filePos : Int) + n) = h.filePos + n := u32_add_of_lt hlt
    by_cases hle : h.filePos + n ≤ h.fileSize
    · obtain ⟨fuel, h', hs, hread⟩ := hin hle
      rw [fat32Seek_cur] at hs
      rcases fat32SeekCur_cases hc hs with ⟨-, e, -⟩ | ⟨hge, -, rfl⟩
      · cases e
      · rw [eu] at hge
        exact not_readsTo_skipped hc (by omega) (by omega) hread
    · obtain ⟨fuel, status, hs, hneg⟩ := hout (by omega)
      rw [fat32Seek_cur] at hs
      rcases fat32SeekCur_cases hc hs with ⟨hlt', -, -⟩ | ⟨-, e, -⟩
      · rw [eu] at hlt'
        omega
      · omega
  · rintro (⟨rfl, he⟩ | hge)
    · refine ⟨fun _ => ⟨1, h, ?_, readsTo_zero⟩, fun hlt => by omega⟩
      have eu : u32 ((h.filePos : Int) + (0 : Nat)) = h.filePos := u32_add_of_lt (by omega)
      rw [fat32Seek_cur, fat32SeekCur, eu, if_neg (by omega), seekLoop_skipped hc Nat.one_pos,
        skipped_zero hc]
      rfl
    · refine ⟨fun hle => by omega, fun _ => ⟨0, -EINVARG, ?_, by decide⟩⟩
      have eu : u32 ((h.filePos : Int) + n) = h.filePos + n - 4294967296 := by
        unfold u32
        omega
      rw [fat32Seek_cur, fat32SeekCur, eu, if_pos (by omega)]

theorem seekSetAgrees_iff (hc : Cursor fs h) {n : Nat} (hn : n < 4294967296) :
    SeekSetAgrees d fs h n ↔ h.fileSize = 0 ∧ n = 0 := by
  have h2 := hc.fileSize_lt
  have eu : u32 ((h.rewound.filePos : Int) + n) = 0 + n :=
    u32_add_of_lt (a := 0) (by omega)
  constructor
  · rintro ⟨hin, hout⟩
    by_contra hcon
    rcases Nat.lt_trichotomy n h.fileSize with hlt | he | hgt
    · obtain ⟨fuel, h', hs, -⟩ := hin (by omega)
      rw [fat32Seek_set, if_pos hlt] at hs
      cases hs
    · obtain ⟨fuel, h', hs, hread⟩ := hin (by omega)
      rw [fat32Seek_set, if_neg (by omega)] at hs
      rcases fat32SeekCur_cases hc.rewound hs with ⟨-, e, -⟩ | ⟨-, -, rfl⟩
      · cases e
      · refine not_readsTo_skipped hc.rewound (by omega) ?_ hread
        show 0 < h.fileSize
        omega
    · obtain ⟨fuel, status, hs, hneg⟩ := hout hgt
      rw [fat32Seek_set, if_neg (by omega)] at hs
      rcases fat32SeekCur_cases hc.rewound hs with ⟨hlt', -, -⟩ | ⟨-, e, -⟩
      · rw [eu] at hlt'
        have : h.rewound.fileSize = h.fileSize := rfl
        omega
      · omega
  · rintro ⟨he, rfl⟩
    refine ⟨fun _ => ⟨1, h.rewound, ?_, readsTo_zero⟩, fun hlt => by omega⟩
    have e0 : h.rewound.fileSize = h.fileSize := rfl
    rw [fat32Seek_set, if_neg (by omega), fat32SeekCur, eu, if_neg (by omega),
      seekLoop_skipped hc.rewound Nat.one_pos, skipped_zero hc.rewound]
    rfl

end Agree

/-- **When seeking agrees with reading**: `SEEK_CUR` only for an offset of 0 at the end of the file,
    or where the sum of place and offset leaves 32 bits; `SEEK_SET` only to 0 in an empty file. -/
theorem fat32Seek_agrees_iff {k : Kernel} {d : Disk} {fs : Fat32Private} {h : FileHandle}
    (hr : (fat32Resolve k d).2.1 = some fs) (hh : OpenFile d fs h) {n : Nat}
    (hn : n < 4294967296) :
    (SeekCurAgrees d fs h n ↔
      (n = 0 ∧ h.filePos = h.fileSize) ∨ 4294967296 ≤ h.filePos + n) ∧
    (SeekSetAgrees d fs h n ↔ h.fileSize = 0 ∧ n = 0) :=
  ⟨seekCurAgrees_iff (openFile_cursor hr hh) hn, seekSetAgrees_iff (openFile_cursor hr hh) hn⟩

/-- At the end of the file, after reading it, seeking by 0 does nothing, as it should; seeking to
    its beginning is rejected. -/
theorem fat32Seek_agrees_iff_small :
    OpenFile oneFileVolume smallPrivate ⟨3, 700, 700, 5, 188⟩ ∧
    SeekCurAgrees oneFileVolume smallPrivate ⟨3, 700, 700, 5, 188⟩ 0 ∧
    ¬ SeekSetAgrees oneFileVolume smallPrivate ⟨3, 700, 700, 5, 188⟩ 0 := by
  obtain ⟨k, hopen⟩ := oneFileVolume_open
  have hread : (fat32Read oneFileVolume smallPrivate 700 oneFileHandle 700 1).map
      ReadResult.handle = some ⟨3, 700, 700, 5, 188⟩ := by
    decide +kernel
  obtain ⟨r, hr, he⟩ := Option.map_eq_some_iff.mp hread
  have hh : OpenFile oneFileVolume smallPrivate ⟨3, 700, 700, 5, 188⟩ := by
    rw [← he]
    exact .read (.opened hopen) hr
  have hiff := fat32Seek_agrees_iff oneFileVolume_resolve hh (n := 0) (by decide)
  refine ⟨hh, hiff.1.mpr (Or.inl ⟨rfl, rfl⟩), fun hs => ?_⟩
  cases (hiff.2.mp hs).1

/-- **Seeking 100 bytes into a file of 700 that was just opened** is rejected. -/
theorem fat32Seek_rejects_inside :
    OpenFile oneFileVolume smallPrivate oneFileHandle ∧
    oneFileHandle.filePos + 100 ≤ oneFileHandle.fileSize ∧
    (∀ fuel, fat32Seek oneFileVolume smallPrivate fuel oneFileHandle 100 SEEK_CUR =
      some (-EINVARG, oneFileHandle)) ∧
    ¬ SeekCurAgrees oneFileVolume smallPrivate oneFileHandle 100 := by
  obtain ⟨k, hopen⟩ := oneFileVolume_open
  have hall : ∀ fuel, fat32Seek oneFileVolume smallPrivate fuel oneFileHandle 100 SEEK_CUR =
      some (-EINVARG, oneFileHandle) := fun fuel => rfl
  refine ⟨.opened hopen, by decide, hall, fun hs => ?_⟩
  obtain ⟨fuel, h', hs, -⟩ := hs.1 (by decide)
  rw [hall fuel] at hs
  cases hs

end PeachKernel
