/-
  File:      PeachKernel/Process/ProgramFile.lean
  Subject:   The program's bytes: what `process_load_data` of `task/process.c` leaves in memory, on
             FAT32.

  `elf_load` reads the file first, and what is no ELF file is opened and read a second time. A file
  layer that stands for open byte strings does so behind each of these steps, so the second read
  delivers the bytes that are stored on the disk.

  * `FilesOf.elfLoadFrom` -- a load of an ELF file, whatever it answers;
  * `FilesOf.processLoadBinary` -- the bytes of a binary;
  * `processLoadBinary_held` -- its memory is held behind the load.
-/
import PeachKernel.Fs.Volume
import PeachKernel.Process.LoadFrame

namespace PeachKernel

open CInt Mem

/-! ## 1. The file layer behind a load -/

theorem LowHeap.kzalloc {k : Kernel} (h : LowHeap k) (size : Nat) :
    LowHeap (PeachKernel.kzalloc k size).2 := by
  refine ⟨kzalloc_placed h.placed size, ?_⟩
  rw [kzalloc_heap, heapMalloc_saddr, heapMalloc_total]
  exact h.low

section Files

variable {d : Disk} {fs : Fat32Private} {fuel imageSize : Nat} {s s' : Files FileHandle}
  {t : OpenTable} {filename : List UInt8} {fd : Int}

/-- `fclose` writes no memory: the driver's handle is given back, and the descriptor. -/
theorem FilesOf.fclose_mem (hs : FilesOf d fs fuel imageSize s t) (fd : Int) :
    (fclose s fd).2.kernel.mem = s.kernel.mem := by
  cases hd : fileGetDescriptor s fd with
  | none =>
    unfold fclose
    rw [hd]
  | some desc =>
    obtain ⟨_, -, -, -, hdriver⟩ := hs.handle hd
    rw [fclose_eq hd, hdriver]
    rfl

/-- A read, and its bytes stored. -/
theorem FilesOf.readStored (hv : SoundVolume d fs imageSize) (hs : FilesOf d fs fuel imageSize s t)
    {size ptr n : Nat} {res : Int} {out : List UInt8}
    (hr : fread { s with kernel := (kzalloc s.kernel n).2 } size 1 fd = some (res, out, s')) :
    ∃ t', FilesOf d fs fuel imageSize (s'.store ptr out) t' := by
  obtain ⟨t', -, hs'⟩ := (hs.kernel (hs.heap.kzalloc n)).reads hv hr
  exact ⟨t', hs'.kernel ⟨hs'.heap.placed, hs'.heap.low⟩⟩

/-- **`elf_load`**, whatever it answers. -/
theorem FilesOf.elfLoadFrom (hv : SoundVolume d fs imageSize) (hs : FilesOf d fs fuel imageSize s t)
    (hroom : FopenRoom (elfStart s) filename) {r : Except Int ElfFile}
    (h : elfLoadFrom s filename = some (r, s')) : ∃ t', FilesOf d fs fuel imageSize s' t' := by
  have hstart : FilesOf d fs fuel imageSize (elfStart s) t := hs.kernel (hs.heap.kzalloc 132)
  have hclosed : ∀ {s₁ : Files FileHandle} {t₁ : OpenTable} (fd : Int),
      FilesOf d fs fuel imageSize s₁ t₁ →
      ∃ t', FilesOf d fs fuel imageSize (fclose s₁ fd).2 t' := by
    intro s₁ t₁ fd hs₁
    obtain ⟨t', -, hs'⟩ := hs₁.closes rfl
    exact ⟨t', hs'⟩
  cases elfLoadFrom_way h with
  | unopened ho _ =>
    obtain ⟨t₁, -, hs₁⟩ := hstart.opens hv hroom ho
    exact hclosed 0 hs₁
  | @stat fd s₁ ho _ _ =>
    obtain ⟨t₁, -, hs₁⟩ := hstart.opens hv hroom ho
    exact hclosed fd hs₁
  | @read fd res s₁ s₂ out ho _ _ hr _ _ =>
    obtain ⟨t₁, -, hs₁⟩ := hstart.opens hv hroom ho
    obtain ⟨t₂, hs₂⟩ := hs₁.readStored hv hr
    exact hclosed fd hs₂

/-- What is opened is a file of the volume, from its first byte on. -/
theorem VolumeStep.opened {V : Volume} {t' : OpenTable} {modeStr : List UInt8}
    (h : VolumeStep V t (.opens filename modeStr fd) t') (hfd : fd ≠ 0) :
    ∃ bytes, V filename bytes ∧ t' fd = some ⟨bytes, 0, true⟩ := by
  cases h with
  | opens _ hv _ => exact ⟨_, hv, Function.update_self ..⟩
  | refused _ => exact absurd rfl hfd

/-- One item of the whole size, from the first byte on. -/
theorem VolumeStep.readWhole {V : Volume} {t' : OpenTable} {bytes out : List UInt8}
    (h : VolumeStep V t (.reads bytes.length 1 fd 1 out) t') (hf : t fd = some ⟨bytes, 0, true⟩) :
    bytes.length ≠ 0 ∧ out = bytes := by
  generalize hn : bytes.length = n at h
  generalize hres : (1 : Int) = res at h
  cases h with
  | reads hfd hs _ _ =>
    obtain rfl := Option.some.inj (hfd.symm.trans hf)
    refine ⟨hs, ?_⟩
    unfold OpenBytes.count
    dsimp only
    rw [List.drop_zero, Nat.mul_one, Nat.sub_zero, hn, Nat.min_self, ← hn, List.take_length]
  | strays hfd _ _ hp _ =>
    obtain rfl := Option.some.inj (hfd.symm.trans hf)
    cases hp
  | badRead _ => cases hres

/-- **The bytes of a binary**: memory holds the file that the path leads to. -/
theorem FilesOf.processLoadBinary (hv : SoundVolume d fs imageSize)
    (hs : FilesOf d fs fuel imageSize s t) (hroom : FopenRoom s filename) {ptr size : Nat}
    (h : processLoadBinary s filename = some (.ok (.binary ptr size), s'))
    (hin : ptr + size ≤ 4294967296) :
    ∃ item, LeadsTo d fs filename item ∧ size = item.filesize ∧ 1 ≤ size ∧
      slice s'.kernel.mem ptr size = storedBytes d fs item := by
  cases processLoadBinary_way h with
  | @read fd s₁ s₂ out ho hopen h0 hr =>
    obtain ⟨t₁, hopens, hs₁⟩ := hs.opens hv hroom ho
    obtain ⟨bytes, ⟨item, hitem, rfl⟩, ht₁⟩ := hopens.opened hopen.1
    obtain ⟨desc, hdesc, hh, hdriver⟩ := hs₁.descriptor ht₁
    have hsize : statSize (fstat s₁ fd).2 = (storedBytes d fs item).length := by
      unfold fstat
      rw [hdesc]
      dsimp only
      rw [hdriver]
      exact hh.length.symm
    rw [hsize] at hr hin ⊢
    have hkernel : FilesOf d fs fuel imageSize
        { s₁ with kernel := (kzalloc s₁.kernel (storedBytes d fs item).length).2 } t₁ :=
      hs₁.kernel (hs₁.heap.kzalloc _)
    obtain ⟨t₂, hreads, hs₂⟩ := hkernel.reads hv hr
    obtain ⟨hpos, rfl⟩ := hreads.readWhole ht₁
    have hlen : (storedBytes d fs item).length = item.filesize := slice_length ..
    refine ⟨item, hitem, hlen, Nat.one_le_iff_ne_zero.mpr hpos, ?_⟩
    generalize hptr : (kzalloc s₁.kernel (storedBytes d fs item).length).1 = ptr at hin ⊢
    have hstored : FilesOf d fs fuel imageSize (s₂.store ptr (storedBytes d fs item)) t₂ :=
      hs₂.kernel ⟨hs₂.heap.placed, hs₂.heap.low⟩
    rw [hstored.fclose_mem fd]
    refine List.ext_getElem (slice_length ..) fun i hi _ => ?_
    rw [slice_length] at hi
    have hbyte : (s₂.store ptr (storedBytes d fs item)).kernel.mem (ptr + i) =
        (storedBytes d fs item).getD i 0 := copyIn_inside hi hin
    have hi' : i < (slice (s₂.store ptr (storedBytes d fs item)).kernel.mem ptr
        (storedBytes d fs item).length).length := by
      rw [slice_length]
      exact hi
    rw [← List.getD_eq_getElem _ 0 hi', slice_getD _ _ hi, hbyte, List.getD_eq_getElem _ _ hi]

end Files

/-! ## 2. The memory of a binary -/

section Held

variable {π : Type} {k₀ : Kernel} {own : List Allocation} {s s' : Files π} {filename : List UInt8}
  {fd : Int}

/-- The file's memory is asked for between `fopen` and `fclose`. -/
theorem Closable.alloc (h : Closable k₀ own fd s) {size : Nat} (hs : k₀.heap.Reaches size)
    (h1 : 1 ≤ size) (h0 : (kzalloc s.kernel size).1 ≠ 0)
    (hin : (kzalloc s.kernel size).1 + size ≤ k₀.heap.saddr + k₀.heap.table.total * 4096) :
    Closable k₀ (⟨(kzalloc s.kernel size).1, size⟩ :: own) fd
      { s with kernel := (kzalloc s.kernel size).2 } := by
  refine ⟨h.1.request hs h1 h0 hin, fun d hd => ?_⟩
  obtain ⟨priv, hheld, hclose⟩ := h.2 d hd
  refine ⟨priv, (hheld.request hs h1 h0 hin).perm ?_, hclose⟩
  have hmove : (⟨d.address, 16⟩ :: (priv ++ ⟨(kzalloc s.kernel size).1, size⟩ :: own)).Perm
      (⟨d.address, 16⟩ :: ⟨(kzalloc s.kernel size).1, size⟩ :: (priv ++ own)) :=
    List.Perm.cons _ List.perm_middle
  exact hmove.trans (List.Perm.swap ..)

/-- **The memory of a binary is held** behind the load. -/
theorem processLoadBinary_held (hf : ∀ f, s.disk = some f → f.KeepsOwn)
    (hsize : ∀ {s₂ : Files π} {fd : Int}, fopen s filename readMode = some (fd, s₂) →
      k₀.heap.Reaches (statSize (fstat s₂ fd).2)) (h : Since k₀ s.kernel own) {ptr size : Nat}
    (h1 : 1 ≤ size) (hin : ptr + size ≤ k₀.heap.saddr + k₀.heap.table.total * 4096)
    (hl : processLoadBinary s filename = some (.ok (.binary ptr size), s')) :
    Since k₀ s'.kernel (⟨ptr, size⟩ :: own) := by
  cases processLoadBinary_way hl with
  | @read fd s₁ s₂ out ho hopen h0 hr =>
    have hopened := fopen_closable hf h ho
    have hlen := fread_length hf ho hr
    have hheld := (hopened.alloc (hsize ho) h1 h0 hin).read hr
    have hkernel := fread_kernel hr
    refine (hheld.kernel (k := ⟨s₂.kernel.heap, copyIn s₂.kernel.mem
      (kzalloc s₁.kernel (statSize (fstat s₁ fd).2)).1 out⟩) fun h' => ?_).close
    refine h'.store fun x hx => ?_
    have hoff := hopened.1.copyIn_off (hsize ho) hlen h0 s₂.kernel.mem hx
    exact hoff

end Held

end PeachKernel
