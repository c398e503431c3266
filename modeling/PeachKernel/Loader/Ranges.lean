/-
  File:      PeachKernel/Loader/Ranges.lean
  Subject:   The ranges that `elf_process_pheaders` keeps: the least start and the greatest end of
             the loadable headers.

  The loop keeps the least `p_vaddr` so far, and takes 0 for the mark that there is none yet. A
  header that starts at address 0 sets the mark again: the next loadable header's start replaces it,
  whatever it is. So the start is the least one as long as no loadable header starts at 0, or the
  last one does. The end is kept with the same mark, which does no harm there, because no end is
  below 0.

  * `programHeaders`, `loadHeaders` -- the headers of a file, and those of type `PT_LOAD`;
  * `RangesOf` -- the ranges are those of the headers; `MarkerUnused` -- the mark is not met;
  * `elfProcessPheaders_ranges_iff` -- exactly then.
-/
import PeachKernel.Loader.Elf
import Mathlib.Data.List.Induction

namespace PeachKernel

open CInt Mem

/-! ## 1. The headers as a list -/

/-- The program headers, as they stand in memory. -/
def programHeaders (m : Mem) (header : Nat) : List Phdr :=
  (List.range (ePhnum m header)).map fun i => phdrAt m (elfProgramHeader m header i)

/-- Those of type `PT_LOAD`. -/
def loadHeaders (phdrs : List Phdr) : List Phdr := phdrs.filter fun phdr => phdr.pType = ptLoad

/-- The ranges behind loadable headers. -/
def loadRanges (file : ElfFile) (phdrs : List Phdr) : ElfFile :=
  phdrs.foldl (fun file phdr => (elfProcessPhdrPtLoad file phdr).2) file

theorem loadRanges_snoc (file : ElfFile) (phdrs : List Phdr) (phdr : Phdr) :
    loadRanges file (phdrs ++ [phdr]) = (elfProcessPhdrPtLoad (loadRanges file phdrs) phdr).2 :=
  List.foldl_append

/-- Only loadable headers count. -/
theorem elfProcessPheader_foldl (phdrs : List Phdr) : ∀ file : ElfFile,
    phdrs.foldl (fun file phdr => (elfProcessPheader file phdr).2) file =
      loadRanges file (loadHeaders phdrs) := by
  induction phdrs with
  | nil => exact fun _ => rfl
  | cons phdr phdrs ih =>
    intro file
    rw [List.foldl_cons, ih]
    unfold loadHeaders elfProcessPheader
    by_cases hl : phdr.pType = ptLoad
    · rw [List.filter_cons_of_pos (by simpa using hl), if_pos hl]
      rfl
    · rw [List.filter_cons_of_neg (by simpa using hl), if_neg hl]

theorem elfProcessPheadersLoop_eq (m : Mem) (header left : Nat) : ∀ (i : Nat) (file : ElfFile),
    elfProcessPheadersLoop m header left i 0 file =
      (0, ((List.range' i left).map fun i => phdrAt m (elfProgramHeader m header i)).foldl
        (fun file phdr => (elfProcessPheader file phdr).2) file) := by
  induction left with
  | zero => exact fun _ _ => rfl
  | succ left ih =>
    intro i file
    have hres : (elfProcessPheader file (phdrAt m (elfProgramHeader m header i))).1 = 0 := by
      unfold elfProcessPheader
      split
      · rfl
      · rfl
    rw [List.range'_succ, List.map_cons, List.foldl_cons, elfProcessPheadersLoop]
    generalize elfProcessPheader file _ = r at hres ⊢
    obtain ⟨res, file'⟩ := r
    obtain rfl : res = 0 := hres
    exact ih (i + 1) file'

/-- **The loop is a pass over the loadable headers.** -/
theorem elfProcessPheaders_eq (m : Mem) (file : ElfFile) : elfProcessPheaders m file =
    (0, loadRanges file (loadHeaders (programHeaders m (elfHeader file)))) := by
  unfold elfProcessPheaders programHeaders
  rw [elfProcessPheadersLoop_eq, List.range_eq_range', elfProcessPheader_foldl]

/-! ## 2. Least start and greatest end -/

/-- The start is that of a header that none starts before. -/
def StartOf (file : ElfFile) (phdrs : List Phdr) : Prop :=
  ∃ phdr ∈ phdrs, file.virtualBaseAddress = phdr.pVaddr ∧
    file.physicalBaseAddress = elfPhdrPhysAddress file phdr ∧
    ∀ other ∈ phdrs, phdr.pVaddr ≤ other.pVaddr

/-- The end is that of a header that none ends behind. -/
def EndOf (file : ElfFile) (phdrs : List Phdr) : Prop :=
  ∃ phdr ∈ phdrs, file.virtualEndAddress = phdr.pVaddr + phdr.pFilesz ∧
    file.physicalEndAddress = u32 (file.elfMemory + phdr.pOffset + phdr.pFilesz) ∧
    ∀ other ∈ phdrs, other.pVaddr + other.pFilesz ≤ phdr.pVaddr + phdr.pFilesz

/-- The end of a header does not wrap. -/
def EndFits (phdr : Phdr) : Prop := phdr.pVaddr + phdr.pFilesz < 4294967296

/-- **The ranges are those of the headers**, the end where no header's end wraps. -/
def RangesOf (file : ElfFile) (phdrs : List Phdr) : Prop :=
  StartOf file phdrs ∧ ((∀ phdr ∈ phdrs, EndFits phdr) → EndOf file phdrs)

/-- **The mark is not met**: no header starts at address 0, or the last one does. -/
def MarkerUnused (phdrs : List Phdr) : Prop :=
  (∀ phdr ∈ phdrs, phdr.pVaddr ≠ 0) ∨ ∃ phdr, phdrs.getLast? = some phdr ∧ phdr.pVaddr = 0

section Ranges

variable {file : ElfFile} {phdrs : List Phdr} {phdr : Phdr}

/-- One header, at the start: it is taken, or the start before is not the mark and lies below. -/
theorem elfProcessPhdrPtLoad_start (file : ElfFile) (phdr : Phdr) :
    ((elfProcessPhdrPtLoad file phdr).2.virtualBaseAddress = phdr.pVaddr ∧
      (elfProcessPhdrPtLoad file phdr).2.physicalBaseAddress = elfPhdrPhysAddress file phdr ∧
      (file.virtualBaseAddress ≠ 0 → phdr.pVaddr ≤ file.virtualBaseAddress)) ∨
    ((elfProcessPhdrPtLoad file phdr).2.virtualBaseAddress = file.virtualBaseAddress ∧
      (elfProcessPhdrPtLoad file phdr).2.physicalBaseAddress = file.physicalBaseAddress ∧
      file.virtualBaseAddress ≠ 0 ∧ file.virtualBaseAddress < phdr.pVaddr) := by
  unfold elfProcessPhdrPtLoad
  by_cases h : file.virtualBaseAddress ≥ phdr.pVaddr ∨ file.virtualBaseAddress = 0x00
  · refine Or.inl ?_
    rw [if_pos h]
    dsimp only
    refine ⟨?_, ?_, fun hne => h.resolve_right hne⟩
    · split
      · rfl
      · rfl
    · split
      · rfl
      · rfl
  · refine Or.inr ?_
    rw [if_neg h]
    dsimp only
    refine ⟨?_, ?_, fun h0 => h (Or.inr h0), Nat.lt_of_not_le fun hle => h (Or.inl hle)⟩
    · split
      · rfl
      · rfl
    · split
      · rfl
      · rfl

/-- ... and at the end: it is taken, or the end before lies behind. -/
theorem elfProcessPhdrPtLoad_end (file : ElfFile) (phdr : Phdr) (hw : EndFits phdr) :
    ((elfProcessPhdrPtLoad file phdr).2.virtualEndAddress = phdr.pVaddr + phdr.pFilesz ∧
      (elfProcessPhdrPtLoad file phdr).2.physicalEndAddress =
        u32 (file.elfMemory + phdr.pOffset + phdr.pFilesz) ∧
      file.virtualEndAddress ≤ phdr.pVaddr + phdr.pFilesz) ∨
    ((elfProcessPhdrPtLoad file phdr).2.virtualEndAddress = file.virtualEndAddress ∧
      (elfProcessPhdrPtLoad file phdr).2.physicalEndAddress = file.physicalEndAddress ∧
      phdr.pVaddr + phdr.pFilesz < file.virtualEndAddress) := by
  have hend : u32 ((phdr.pVaddr + phdr.pFilesz : Nat) : Int) = phdr.pVaddr + phdr.pFilesz :=
    u32_natCast_of_lt hw
  unfold elfProcessPhdrPtLoad
  dsimp only
  rw [hend]
  by_cases h : file.virtualEndAddress ≤ phdr.pVaddr + phdr.pFilesz ∨ file.virtualEndAddress = 0x00
  · have hle : file.virtualEndAddress ≤ phdr.pVaddr + phdr.pFilesz :=
      h.elim id fun h0 => h0 ▸ Nat.zero_le _
    refine Or.inl ?_
    by_cases hb : file.virtualBaseAddress ≥ phdr.pVaddr ∨ file.virtualBaseAddress = 0x00
    · rw [if_pos hb, if_pos h]
      exact ⟨rfl, rfl, hle⟩
    · rw [if_neg hb, if_pos h]
      exact ⟨rfl, rfl, hle⟩
  · have hlt : phdr.pVaddr + phdr.pFilesz < file.virtualEndAddress :=
      Nat.lt_of_not_le fun hle => h (Or.inl hle)
    refine Or.inr ?_
    by_cases hb : file.virtualBaseAddress ≥ phdr.pVaddr ∨ file.virtualBaseAddress = 0x00
    · rw [if_pos hb, if_neg h]
      exact ⟨rfl, rfl, hlt⟩
    · rw [if_neg hb, if_neg h]
      exact ⟨rfl, rfl, hlt⟩

theorem elfProcessPhdrPtLoad_memory (file : ElfFile) (phdr : Phdr) :
    (elfProcessPhdrPtLoad file phdr).2.elfMemory = file.elfMemory := by
  unfold elfProcessPhdrPtLoad
  dsimp only
  split
  · split
    · rfl
    · rfl
  · split
    · rfl
    · rfl

theorem loadRanges_memory (file : ElfFile) (phdrs : List Phdr) :
    (loadRanges file phdrs).elfMemory = file.elfMemory := by
  induction phdrs using List.reverseRecOn with
  | nil => rfl
  | append_singleton phdrs phdr ih => rw [loadRanges_snoc, elfProcessPhdrPtLoad_memory, ih]

/-- One header more: the start. -/
theorem StartOf.snoc (h : StartOf file phdrs) (h0 : file.virtualBaseAddress ≠ 0) :
    StartOf (elfProcessPhdrPtLoad file phdr).2 (phdrs ++ [phdr]) := by
  obtain ⟨least, hmem, hv, hp, hle⟩ := h
  have hall : ∀ {start : Nat}, start ≤ least.pVaddr → start ≤ phdr.pVaddr →
      ∀ other ∈ phdrs ++ [phdr], start ≤ other.pVaddr := by
    intro start h1 h2 other ho
    rcases List.mem_append.mp ho with ho | ho
    · exact h1.trans (hle other ho)
    · rwa [List.mem_singleton.mp ho]
  have hmemory := elfProcessPhdrPtLoad_memory file phdr
  rcases elfProcessPhdrPtLoad_start file phdr with ⟨ev, ep, hge⟩ | ⟨ev, ep, -, hlt⟩
  · refine ⟨phdr, List.mem_append_right _ List.mem_cons_self, ev, ?_, hall (hv ▸ hge h0)
      (Nat.le_refl _)⟩
    rw [ep]
    unfold elfPhdrPhysAddress
    rw [hmemory]
  · refine ⟨least, List.mem_append_left _ hmem, ev.trans hv, ?_,
      hall (Nat.le_refl _) (Nat.le_of_lt (hv ▸ hlt))⟩
    rw [ep, hp]
    unfold elfPhdrPhysAddress
    rw [hmemory]

/-- A header that starts no later than all others, and is taken. -/
theorem startOf_taken (hv : ∀ other ∈ phdrs, phdr.pVaddr ≤ other.pVaddr)
    (ht : file.virtualBaseAddress = 0 ∨ phdr.pVaddr ≤ file.virtualBaseAddress) :
    StartOf (elfProcessPhdrPtLoad file phdr).2 (phdrs ++ [phdr]) := by
  have hmemory := elfProcessPhdrPtLoad_memory file phdr
  rcases elfProcessPhdrPtLoad_start file phdr with ⟨ev, ep, -⟩ | ⟨-, -, hne, hlt⟩
  · refine ⟨phdr, List.mem_append_right _ List.mem_cons_self, ev, ?_, fun other ho => ?_⟩
    · rw [ep]
      unfold elfPhdrPhysAddress
      rw [hmemory]
    · rcases List.mem_append.mp ho with ho | ho
      · exact hv other ho
      · rw [List.mem_singleton.mp ho]
  · exact absurd hlt (Nat.not_lt.mpr (ht.resolve_left hne))

/-- **Headers none of which starts at 0**: induction on how many were read. -/
theorem loadRanges_start (hfile : file.virtualBaseAddress = 0) (hne : phdrs ≠ [])
    (h0 : ∀ phdr ∈ phdrs, phdr.pVaddr ≠ 0) : StartOf (loadRanges file phdrs) phdrs := by
  induction phdrs using List.reverseRecOn with
  | nil => exact absurd rfl hne
  | append_singleton phdrs phdr ih =>
    rw [loadRanges_snoc]
    rcases List.eq_nil_or_concat phdrs with rfl | ⟨before, last, rfl⟩
    · exact startOf_taken (fun _ h => absurd h List.not_mem_nil) (Or.inl hfile)
    · obtain ⟨least, hmem, hv, hleast⟩ := ih (by simp) fun phdr h =>
        h0 phdr (List.mem_append_left _ h)
      exact StartOf.snoc ⟨least, hmem, hv, hleast⟩ (hv ▸ h0 least (List.mem_append_left _ hmem))

/-- **The end**: its mark is never above an end. -/
theorem loadRanges_end (hfile : file.virtualEndAddress = 0) (hne : phdrs ≠ [])
    (hw : ∀ phdr ∈ phdrs, EndFits phdr) : EndOf (loadRanges file phdrs) phdrs := by
  induction phdrs using List.reverseRecOn with
  | nil => exact absurd rfl hne
  | append_singleton phdrs phdr ih =>
    have hlast := hw phdr (List.mem_append_right _ List.mem_cons_self)
    have hmemory := elfProcessPhdrPtLoad_memory (loadRanges file phdrs) phdr
    rw [loadRanges_snoc]
    rcases List.eq_nil_or_concat phdrs with rfl | ⟨before, last, rfl⟩
    · rcases elfProcessPhdrPtLoad_end (loadRanges file []) phdr hlast with ⟨ev, ep, -⟩ | ⟨-, -, hlt⟩
      · refine ⟨phdr, List.mem_cons_self, ev, ?_, fun other ho => ?_⟩
        · rw [ep, hmemory]
        · rw [List.mem_singleton.mp ho]
      · have hmark : (loadRanges file []).virtualEndAddress = 0 := hfile
        omega
    · obtain ⟨greatest, hmem, hv, hp, hge⟩ := ih (by simp)
        fun phdr h => hw phdr (List.mem_append_left _ h)
      rcases elfProcessPhdrPtLoad_end (loadRanges file (before.concat last)) phdr hlast with
        ⟨ev, ep, hle⟩ | ⟨ev, ep, hlt⟩
      · refine ⟨phdr, List.mem_append_right _ List.mem_cons_self, ev, ?_, fun other ho => ?_⟩
        · rw [ep, hmemory]
        · rcases List.mem_append.mp ho with ho | ho
          · exact (hge other ho).trans (hv ▸ hle)
          · rw [List.mem_singleton.mp ho]
      · refine ⟨greatest, List.mem_append_left _ hmem, ev.trans hv, ?_, fun other ho => ?_⟩
        · rw [ep, hp, hmemory]
        · rcases List.mem_append.mp ho with ho | ho
          · exact hge other ho
          · rw [List.mem_singleton.mp ho]
            exact Nat.le_of_lt (hv ▸ hlt)

/-- Where the last header starts at 0, the start is 0, and no other one is less. -/
theorem loadRanges_start_zero (h0 : phdr.pVaddr = 0) :
    StartOf (loadRanges file (phdrs ++ [phdr])) (phdrs ++ [phdr]) := by
  rw [loadRanges_snoc]
  exact startOf_taken (fun other _ => h0 ▸ Nat.zero_le _) (Or.inr (h0 ▸ Nat.zero_le _))

/-- Where it does not, the start is not 0. -/
theorem loadRanges_start_ne_zero (h0 : phdr.pVaddr ≠ 0) :
    (loadRanges file (phdrs ++ [phdr])).virtualBaseAddress ≠ 0 := by
  rw [loadRanges_snoc]
  rcases elfProcessPhdrPtLoad_start (loadRanges file phdrs) phdr with ⟨ev, -⟩ | ⟨ev, -, hne, -⟩
  · rwa [ev]
  · rwa [ev]

/-- **A pass over headers**, from ranges that are not set. -/
theorem loadRanges_iff (hb : file.virtualBaseAddress = 0) (he : file.virtualEndAddress = 0)
    (hne : phdrs ≠ []) : RangesOf (loadRanges file phdrs) phdrs ↔ MarkerUnused phdrs := by
  constructor
  · intro h
    by_cases hzero : ∀ phdr ∈ phdrs, phdr.pVaddr ≠ 0
    · exact Or.inl hzero
    · rcases List.eq_nil_or_concat phdrs with rfl | ⟨before, last, rfl⟩
      · exact absurd rfl hne
      rw [List.concat_eq_append] at h hzero ⊢
      refine Or.inr ⟨last, List.getLast?_concat, ?_⟩
      -- a start of 0 is the least one, and it is not the one that was kept
      by_contra hlast
      obtain ⟨phdr, hmem, h0⟩ := not_forall₂.mp hzero
      obtain ⟨least, -, hv, -, hle⟩ := h.1
      have hleast := hle phdr hmem
      rw [not_not.mp h0, ← hv] at hleast
      exact loadRanges_start_ne_zero hlast (Nat.le_zero.mp hleast)
  · intro h
    refine ⟨?_, loadRanges_end he hne⟩
    rcases h with h | ⟨last, hlast, h0⟩
    · exact loadRanges_start hb hne h
    · obtain ⟨before, rfl⟩ := List.getLast?_eq_some_iff.mp hlast
      exact loadRanges_start_zero h0

end Ranges

/-- **The ranges of a file are those of its loadable headers exactly where the mark is not met.** -/
theorem elfProcessPheaders_ranges_iff (m : Mem) (address elfMemory : Nat)
    (hne : loadHeaders (programHeaders m elfMemory) ≠ []) :
    RangesOf (elfProcessPheaders m ⟨address, elfMemory, 0, 0, 0, 0⟩).2
        (loadHeaders (programHeaders m elfMemory)) ↔
      MarkerUnused (loadHeaders (programHeaders m elfMemory)) := by
  rw [elfProcessPheaders_eq]
  exact loadRanges_iff rfl rfl hne

/-! ## 3. Two headers -/

/-- A file at `0x1000` with two loadable headers of 16 bytes. -/
def twoHeaders (vaddr vaddr' : Nat) : Mem := ofWords fun a =>
  if a = 0x1000 + 28 then 52
  else if a = 0x1000 + 44 then 2
  else if a = 0x1000 + 52 ∨ a = 0x1000 + 84 then ptLoad
  else if a = 0x1000 + 60 then vaddr
  else if a = 0x1000 + 92 then vaddr'
  else if a = 0x1000 + 68 ∨ a = 0x1000 + 100 then 16
  else 0

theorem twoHeaders_load : loadHeaders (programHeaders (twoHeaders 0x400000 0x500000) 0x1000) =
    [⟨1, 0, 0x400000, 16, 0, 0⟩, ⟨1, 0, 0x500000, 16, 0, 0⟩] := by decide +kernel

theorem zeroHeader_load : loadHeaders (programHeaders (twoHeaders 0 0x400000) 0x1000) =
    [⟨1, 0, 0, 16, 0, 0⟩, ⟨1, 0, 0x400000, 16, 0, 0⟩] := by decide +kernel

/-- Two headers, neither of which starts at address 0. -/
theorem elfProcessPheaders_ranges_two :
    RangesOf (elfProcessPheaders (twoHeaders 0x400000 0x500000) ⟨0, 0x1000, 0, 0, 0, 0⟩).2
        (loadHeaders (programHeaders (twoHeaders 0x400000 0x500000) 0x1000)) ↔
      MarkerUnused (loadHeaders (programHeaders (twoHeaders 0x400000 0x500000) 0x1000)) := by
  refine elfProcessPheaders_ranges_iff _ 0 0x1000 ?_
  rw [twoHeaders_load]
  exact List.cons_ne_nil _ _

/-- **A header at address 0 is forgotten**: the next one, at `0x400000`, becomes the start. -/
theorem elfProcessPheaders_forgets_zero : ¬ ∀ (m : Mem) (address elfMemory : Nat),
    loadHeaders (programHeaders m elfMemory) ≠ [] →
    RangesOf (elfProcessPheaders m ⟨address, elfMemory, 0, 0, 0, 0⟩).2
      (loadHeaders (programHeaders m elfMemory)) := by
  intro h
  have hstart := (h (twoHeaders 0 0x400000) 0 0x1000 (by
    rw [zeroHeader_load]
    exact List.cons_ne_nil _ _)).1
  rw [elfProcessPheaders_eq, show elfHeader ⟨0, 0x1000, 0, 0, 0, 0⟩ = 0x1000 from rfl,
    zeroHeader_load] at hstart
  obtain ⟨least, -, hv, -, hle⟩ := hstart
  have hzero := hle ⟨1, 0, 0, 16, 0, 0⟩ List.mem_cons_self
  rw [← hv] at hzero
  exact absurd hzero (by decide)

end PeachKernel
