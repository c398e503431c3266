/-
  File:      PeachKernel/Loader/Bounds.lean
  Subject:   Whether the headers that `elf_load` reads lie in the bytes of the file.

  The checks look at the signature, two bytes of identification and `e_phoff`, and never at the size
  of the file; the pass over the program headers answers 0 for every table. So a file is accepted
  exactly when the checks pass, wherever its table is.

  * `InBuffer` -- bytes lie among those that were loaded, in a 32-bit address space;
  * `HeadersInBuffer` -- so do the ELF header and every program header that is read;
  * `fileImage` -- the file's bytes, and behind them what the block held; `TableFits` -- what header
    and table must be like;
  * `elfLoad_guarded_iff` -- exactly the files that are rejected or fit are treated as they should
    be.
-/
import PeachKernel.Loader.Ranges

namespace PeachKernel

open CInt Mem

/-! ## 1. Bytes of the file -/

/-- `size` bytes from `a` on lie among the `len` bytes from `buffer` on. -/
def InBuffer (buffer len a size : Nat) : Prop := u32 ((a : Int) - buffer) + size ≤ len

/-- **The headers that are read lie in the file**: the ELF header of 52 bytes, and `e_phnum` program
    headers of 32 bytes. -/
def HeadersInBuffer (m : Mem) (buffer len : Nat) : Prop :=
  InBuffer buffer len buffer 52 ∧
    ∀ i, i < ePhnum m buffer → InBuffer buffer len (elfProgramHeader m buffer i) 32

/-- A file that is opened, and read in full; `fread` refuses a size of 0, so an empty file is not
    read. -/
def wholeFile (content : List UInt8) : FileOutcome :=
  ⟨1, 0, content.length, if content.length = 0 then -EINVARG else 1, content⟩

/-- Where `elf_load` puts the file. -/
def elfBuffer (k : Kernel) (content : List UInt8) : Nat :=
  (kzalloc (kzalloc k 132).2 content.length).1

/-- **A file is treated as it should be**: it is accepted only with its headers inside, and rejected
    with a negative status otherwise. -/
def Guarded (k : Kernel) (content : List UInt8) : Prop :=
  ((elfLoad k (wholeFile content)).1 = 0 → HeadersInBuffer (elfLoad k (wholeFile content)).2.2.mem
    (elfBuffer k content) content.length) ∧
  (¬ HeadersInBuffer (elfLoad k (wholeFile content)).2.2.mem (elfBuffer k content) content.length →
    (elfLoad k (wholeFile content)).1 < 0)

/-- The file's bytes from 0 on, and behind them what its block held. -/
def fileImage (k : Kernel) (content : List UInt8) : Mem := fun i =>
  content.getD i ((kzalloc (kzalloc k 132).2 content.length).2.mem (elfBuffer k content + i))

/-- **Header and table fit**: `e_phoff` counts from the start of the file, modulo `2^32`. -/
def TableFits (image : Mem) (len : Nat) : Prop :=
  52 ≤ len ∧ (ePhnum image 0 = 0 ∨ load32 image 28 + 32 * ePhnum image 0 ≤ len)

/-! ## 2. The table in the buffer -/

section Table

variable {m : Mem} {buffer len : Nat}

/-- How far a program header lies behind the start of the file. -/
theorem elfProgramHeader_offset (m : Mem) (buffer i : Nat) (h0 : ePhoff m buffer ≠ 0) :
    u32 ((elfProgramHeader m buffer i : Int) - buffer) =
      u32 ((load32 m (buffer + 28) + 32 * i : Nat) : Int) := by
  have hoff := load32_lt m (buffer + 28)
  unfold elfProgramHeader elfPheader
  rw [if_neg h0]
  unfold ePhoff i32 u32
  split
  · omega
  · omega

/-- Consecutive headers lie inside when the last one ends inside: induction on their number. -/
theorem offsets_inside_iff {off : Nat} (hoff : off < 4294967296) (hlen : len < 4294967296)
    (n : Nat) : (∀ i, i < n → u32 ((off + 32 * i : Nat) : Int) + 32 ≤ len) ↔
    n = 0 ∨ off + 32 * n ≤ len := by
  induction n with
  | zero => exact ⟨fun _ => Or.inl rfl, fun _ i hi => absurd hi (Nat.not_lt_zero i)⟩
  | succ n ih =>
    constructor
    · intro h
      have hlast := h n (Nat.lt_succ_self n)
      have hbefore := ih.mp fun i hi => h i (Nat.lt_succ_of_lt hi)
      have hlt : off + 32 * n < 4294967296 := by omega
      rw [u32_natCast_of_lt hlt] at hlast
      exact Or.inr (by omega)
    · intro h i hi
      rw [u32_natCast_of_lt (by omega)]
      omega

/-- **The headers of a file with a table.** -/
theorem headersInBuffer_iff (h0 : ePhoff m buffer ≠ 0) (hlen : len < 4294967296) :
    HeadersInBuffer m buffer len ↔ 52 ≤ len ∧
      (ePhnum m buffer = 0 ∨ load32 m (buffer + 28) + 32 * ePhnum m buffer ≤ len) := by
  rw [← offsets_inside_iff (load32_lt ..) hlen]
  unfold HeadersInBuffer InBuffer
  rw [Int.sub_self, show u32 0 = 0 from rfl, Nat.zero_add]
  refine and_congr_right fun _ => forall₂_congr fun i _ => ?_
  rw [elfProgramHeader_offset m buffer i h0]

end Table

/-! ## 3. The file in memory -/

section Load

variable {k : Kernel} {content : List UInt8}

theorem wholeFile_ok (content : List UInt8) :
    ¬ (wholeFile content).fopen ≤ 0 ∧ ¬ (wholeFile content).fstat < 0 :=
  ⟨(by decide : ¬ (1 : Int) ≤ 0), (by decide : ¬ (0 : Int) < 0)⟩

theorem wholeFile_fread (h : content.length ≠ 0) : ¬ (wholeFile content).fread < 0 := by
  unfold wholeFile
  dsimp only
  rw [if_neg h]
  decide

/-- **An empty file is rejected.** -/
theorem wholeFile_empty (k : Kernel) (h : content.length = 0) :
    (elfLoad k (wholeFile content)).1 = -EINVARG ∧ (elfLoad k (wholeFile content)).2.1 = none := by
  obtain ⟨hopen, hstat⟩ := wholeFile_ok content
  have hread : (wholeFile content).fread = -EINVARG := if_pos h
  unfold elfLoad
  dsimp only
  rw [if_neg hopen, if_neg hstat, hread, if_pos (by decide)]
  exact ⟨rfl, rfl⟩

theorem wholeFile_mem (k : Kernel) (content : List UInt8) :
    (elfLoad k (wholeFile content)).2.2.mem =
      copyIn (kzalloc (kzalloc k 132).2 content.length).2.mem (elfBuffer k content) content :=
  elfLoad_mem k (wholeFile_ok content).1 (wholeFile_ok content).2

/-- The bytes from the buffer on. -/
theorem wholeFile_image (k : Kernel) (content : List UInt8) {i : Nat} (hi : i < 4294967296) :
    (elfLoad k (wholeFile content)).2.2.mem (elfBuffer k content + i) = fileImage k content i := by
  have hoff : u32 (((elfBuffer k content + i : Nat) : Int) - elfBuffer k content) = i := by
    rw [u32_of_range (by omega) (by omega)]
    omega
  rw [wholeFile_mem]
  unfold copyIn fileImage
  rw [hoff]

theorem wholeFile_load32 (k : Kernel) (content : List UInt8) {d : Nat} (hd : d + 4 ≤ 52) :
    load32 (elfLoad k (wholeFile content)).2.2.mem (elfBuffer k content + d) =
      load32 (fileImage k content) d := by
  have hbyte : ∀ j, j < 4 → (elfLoad k (wholeFile content)).2.2.mem (elfBuffer k content + d + j) =
      fileImage k content (d + j) := by
    intro j hj
    rw [Nat.add_assoc]
    exact wholeFile_image k content (by omega)
  have h0 := hbyte 0 (by decide)
  rw [Nat.add_zero, Nat.add_zero] at h0
  unfold load32
  rw [h0, hbyte 1 (by decide), hbyte 2 (by decide), hbyte 3 (by decide)]

theorem wholeFile_ePhnum (k : Kernel) (content : List UInt8) :
    ePhnum (elfLoad k (wholeFile content)).2.2.mem (elfBuffer k content) =
      ePhnum (fileImage k content) 0 := by
  unfold ePhnum load16
  rw [Nat.add_assoc, wholeFile_image k content (by decide), wholeFile_image k content (by decide)]

theorem wholeFile_ePhoff (k : Kernel) (content : List UInt8) :
    ePhoff (elfLoad k (wholeFile content)).2.2.mem (elfBuffer k content) =
      ePhoff (fileImage k content) 0 := by
  unfold ePhoff
  rw [wholeFile_load32 k content (by decide)]

theorem wholeFile_validate (k : Kernel) (content : List UInt8) :
    elfValidateLoaded (elfLoad k (wholeFile content)).2.2.mem (elfBuffer k content) =
      elfValidateLoaded (fileImage k content) 0 := by
  have hbyte : ∀ d, d < 52 → (elfLoad k (wholeFile content)).2.2.mem (elfBuffer k content + d) =
      fileImage k content d := fun d hd => wholeFile_image k content (by omega)
  unfold elfValidateLoaded elfValidSignature elfValidClass elfValidEncoding elfHasProgramHeader
  rw [wholeFile_ePhoff, hbyte 1 (by decide), hbyte 2 (by decide), hbyte 3 (by decide),
    hbyte 4 (by decide), hbyte 5 (by decide)]
  have h0 := hbyte 0 (by decide)
  rw [Nat.add_zero] at h0
  rw [h0]

/-- **The checks decide**: the pass over the headers accepts every table. -/
theorem elfProcessLoaded_status (m : Mem) (file : ElfFile) :
    (elfProcessLoaded m file).1 = elfValidateLoaded m (elfHeader file) := by
  unfold elfProcessLoaded
  rw [elfProcessPheaders_eq]
  dsimp only
  unfold elfValidateLoaded
  split
  · rw [if_neg (by decide)]
  · rw [if_pos (by decide)]

theorem wholeFile_status (k : Kernel) (h : content.length ≠ 0) :
    (elfLoad k (wholeFile content)).1 = elfValidateLoaded (fileImage k content) 0 := by
  obtain ⟨hopen, hstat⟩ := wholeFile_ok content
  have hstatus := elfProcessLoaded_status (elfLoad k (wholeFile content)).2.2.mem
    ⟨(kzalloc k 132).1, elfBuffer k content, 0, 0, 0, 0⟩
  rw [show elfHeader ⟨(kzalloc k 132).1, elfBuffer k content, 0, 0, 0, 0⟩ = elfBuffer k content from
    rfl,
    wholeFile_validate, wholeFile_mem] at hstatus
  rw [← hstatus]
  rw [elfLoad_read k hopen hstat (wholeFile_fread h)]
  dsimp only
  split
  · rfl
  · rfl

/-- **A file is treated as it should be exactly when** it is empty, or the checks reject it, or its
    headers lie inside it. -/
theorem elfLoad_guarded_iff (k : Kernel) (content : List UInt8)
    (hlen : content.length < 4294967296) :
    Guarded k content ↔ content.length = 0 ∨ elfValidateLoaded (fileImage k content) 0 < 0 ∨
      TableFits (fileImage k content) content.length := by
  by_cases hempty : content.length = 0
  · have hneg : (elfLoad k (wholeFile content)).1 < 0 := by
      rw [(wholeFile_empty k hempty).1]
      decide
    exact ⟨fun _ => Or.inl hempty,
      fun _ => ⟨fun h0 => absurd hneg (by rw [h0]; decide), fun _ => hneg⟩⟩
  rw [or_iff_right hempty]
  have hstatus := wholeFile_status k hempty
  have hcases : elfValidateLoaded (fileImage k content) 0 = 0 ∧ ePhoff (fileImage k content) 0 ≠ 0 ∨
      elfValidateLoaded (fileImage k content) 0 < 0 := by
    unfold elfValidateLoaded
    split
    · rename_i hchecks
      simp only [elfHasProgramHeader, Bool.and_eq_true, bne_iff_ne, ne_eq] at hchecks
      exact Or.inl ⟨rfl, hchecks.2⟩
    · exact Or.inr (by decide)
  unfold Guarded
  rw [hstatus]
  rcases hcases with ⟨h0, hoff⟩ | hneg
  · have hiff : HeadersInBuffer (elfLoad k (wholeFile content)).2.2.mem (elfBuffer k content)
        content.length ↔ TableFits (fileImage k content) content.length := by
      rw [headersInBuffer_iff (by rw [wholeFile_ePhoff]; exact hoff) hlen, wholeFile_ePhnum,
        wholeFile_load32 k content (by decide)]
      rfl
    rw [hiff, h0]
    constructor
    · exact fun h => Or.inr (h.1 rfl)
    · intro h
      have hfits := h.resolve_left (Int.lt_irrefl 0)
      exact ⟨fun _ => hfits, fun hno => absurd hfits hno⟩
  · exact ⟨fun _ => Or.inl hneg,
      fun _ => ⟨fun h0 => absurd hneg (by rw [h0]; decide), fun _ => hneg⟩⟩

end Load

/-! ## 4. A file that ends with its header -/

/-- An ELF header of 52 bytes, with one program header behind it. -/
def headerOnly : List UInt8 :=
  [0x7f, 0x45, 0x4c, 0x46] ++ List.replicate 24 0 ++ [52, 0, 0, 0] ++ List.replicate 12 0 ++
    [1, 0] ++ List.replicate 6 0

/-- The kernel with its fresh heap, in memory that is clear. -/
def clearKernel : Kernel := ⟨kernelHeap fun _ => 0, fun _ => 0⟩

/-- The header, and the program header it announces. -/
theorem elfLoad_guarded_iff_clear : Guarded clearKernel (headerOnly ++ List.replicate 32 0) ↔
    (headerOnly ++ List.replicate 32 0).length = 0 ∨
    elfValidateLoaded (fileImage clearKernel (headerOnly ++ List.replicate 32 0)) 0 < 0 ∨
      TableFits (fileImage clearKernel (headerOnly ++ List.replicate 32 0))
        (headerOnly ++ List.replicate 32 0).length :=
  elfLoad_guarded_iff clearKernel _ (by decide)

/-- **A file that ends with its header is accepted**, and its program header is read behind the
    file. -/
theorem elfLoad_reads_behind : ¬ ∀ (k : Kernel) (content : List UInt8),
    content.length < 4294967296 → Guarded k content := by
  intro h
  have hguard := h clearKernel headerOnly (by decide)
  have hstatus : (elfLoad clearKernel (wholeFile headerOnly)).1 = 0 := by decide +kernel
  have hnum : ePhnum (elfLoad clearKernel (wholeFile headerOnly)).2.2.mem
      (elfBuffer clearKernel headerOnly) = 1 := by decide +kernel
  have hin := (hguard.1 hstatus).2 0 (by rw [hnum]; decide)
  have hout : ¬ InBuffer (elfBuffer clearKernel headerOnly) headerOnly.length
      (elfProgramHeader (elfLoad clearKernel (wholeFile headerOnly)).2.2.mem
        (elfBuffer clearKernel headerOnly) 0) 32 := by
    unfold InBuffer
    decide +kernel
  exact hout hin

end PeachKernel
