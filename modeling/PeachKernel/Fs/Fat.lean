/-
  File:      PeachKernel/Fs/Fat.lean
  Subject:   What the two FAT drivers share: directory items as they lie on the disk, and the modes
             and requests of `fs/file.h`.
-/
import PeachKernel.Disk.Streamer
import PeachKernel.Lib.ByteMem

namespace PeachKernel

open CInt Mem

/-! ## 1. Directory items -/

/-- A buffer that holds `bs`, with zeros behind. -/
def bytesMem (bs : List UInt8) : Mem := fun i => bs.getD i 0

theorem bytesMem_slice (f : Nat → UInt8) {a n i : Nat} (h : i < n) :
    bytesMem (slice f a n) i = f (a + i) := by
  simp [bytesMem, slice, h]

/-- `struct fat_directory_item`: the 11 bytes of `filename` and `ext`, and what the drivers read of
    the rest. -/
structure DirectoryItem where
  filename : List UInt8
  attr : UInt8
  high16BitsFirstCluster : Nat
  low16BitsFirstCluster : Nat
  filesize : Nat
  deriving DecidableEq

/-- The item at an offset of a buffer. -/
def directoryItemAt (m : Mem) (itemOffset : Nat) : DirectoryItem where
  filename := slice m itemOffset 11
  attr := m (itemOffset + 11)
  high16BitsFirstCluster := load16 m (itemOffset + 20)
  low16BitsFirstCluster := load16 m (itemOffset + 26)
  filesize := load32 m (itemOffset + 28)

/-- An item is its 32 bytes. -/
theorem directoryItemAt_congr {m m' : Mem} {o o' : Nat}
    (h : ∀ i, i < 32 → m (o + i) = m' (o' + i)) : directoryItemAt m o = directoryItemAt m' o' := by
  have hname : slice m o 11 = slice m' o' 11 := slice_congr fun i hi => h i (by omega)
  have h16 : ∀ {j}, j + 2 ≤ 32 → load16 m (o + j) = load16 m' (o' + j) := by
    intro j hj
    unfold load16
    rw [h j (by omega), Nat.add_assoc, h (j + 1) (by omega), ← Nat.add_assoc]
  have h32 : load32 m (o + 28) = load32 m' (o' + 28) := by
    have h1 : m (o + 28 + 1) = m' (o' + 28 + 1) := h 29 (by decide)
    have h2 : m (o + 28 + 2) = m' (o' + 28 + 2) := h 30 (by decide)
    have h3 : m (o + 28 + 3) = m' (o' + 28 + 3) := h 31 (by decide)
    unfold load32
    rw [h 28 (by decide), h1, h2, h3]
  unfold directoryItemAt
  rw [hname, h 11 (by decide), h16 (by decide), h16 (by decide), h32]

/-! ## 2. Modes -/

/-- `FILE_MODE`. -/
inductive FileMode where
  | read
  | write
  | append
  | invalid
  deriving DecidableEq

/-- `FILE_SEEK_MODE`, an `unsigned int` that callers hand through. -/
def SEEK_SET : Nat := 0
def SEEK_CUR : Nat := 1
def SEEK_END : Nat := 2

/-- `struct file_stat`. -/
structure FileStat where
  flags : Nat
  filesize : Nat
  deriving DecidableEq

/-- `FILE_STAT_READ_ONLY`. -/
def FILE_STAT_READ_ONLY : Nat := 1

/-! ## 3. Requests -/

/-- The bytes that a list of requests asks for, each a `size` and an `nmemb`. -/
def requestedBytes (requests : List (Nat × Nat)) : Nat := (requests.map fun q => q.1 * q.2).sum

@[simp] theorem requestedBytes_nil : requestedBytes [] = 0 := rfl

@[simp] theorem requestedBytes_cons (q : Nat × Nat) (requests : List (Nat × Nat)) :
    requestedBytes (q :: requests) = q.1 * q.2 + requestedBytes requests := by
  simp [requestedBytes]

end PeachKernel
