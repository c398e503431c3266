/-
  File:      PeachKernel/Process/ReadWhole.lean
  Subject:   What the two loaders make of the answer of `fread`.

  Both loaders ask for one item of the file's size. FAT16 answers 1, or a negative code; FAT32
  answers the number of items that it read, so 0 where a chain ends early. `process_load_binary`
  takes nothing but 1; `elf_load` takes all that is not negative. And where `elf_load` gets no
  memory for the file, it reads to address 0.

  * `LoaderRead`, `elfRead`, `binaryRead` -- the read that a loader comes to, and what memory is
    behind it;
  * `FileOutcome.answer`, `elfLoadFrom_elfLoad` -- `elf_load` over the file layer, and by the
    outcome of its calls;
  * `Filesystem.Reports` -- what the drivers' answers mean; `fat32Fs_reports`, `fat16Fs_reports`;
  * `SaysWhole` -- a loader succeeds only with the whole file, and fails with a negative code;
  * `loaders_whole_iff` -- exactly when both do.
-/
import PeachKernel.Loader.Bounds
import PeachKernel.Process.LoadFrame
import PeachKernel.Fs.Fat16File

namespace PeachKernel

open CInt Mem

variable {π : Type}

/-! ## 1. The read of a loader -/

/-- A read of one item of `size` bytes to `buffer`: the answer, the bytes that were stored, and
    memory behind it. -/
structure LoaderRead where
  buffer : Nat
  size : Nat
  status : Int
  out : List UInt8
  mem : Mem

/-- **The whole file was read** into memory that was granted. -/
def LoaderRead.Whole (read : LoaderRead) : Prop :=
  read.buffer ≠ 0 ∧ read.out.length = read.size

/-- The file's size is asked for, memory for it, and the file. -/
def readInto (s : Files π) (fd : Int) : Option LoaderRead :=
  let size := statSize (fstat s fd).2
  match kzalloc s.kernel size with
  | (buffer, k) =>
    (fread { s with kernel := k } size 1 fd).map fun r =>
      ⟨buffer, size, r.1, r.2.1, copyIn r.2.2.kernel.mem buffer r.2.1⟩

/-- The read of `elf_load`. -/
def elfRead (s : Files π) (filename : List UInt8) : Option LoaderRead :=
  (fopen { s with kernel := (kzalloc s.kernel 132).2 } filename readMode).bind fun r =>
    if r.1 ≤ 0 ∨ (fstat r.2 r.1).1 < 0 then none else readInto r.2 r.1

/-- The read of `process_load_binary`. -/
def binaryRead (s : Files π) (filename : List UInt8) : Option LoaderRead :=
  (fopen s filename readMode).bind fun r =>
    if r.1 = 0 ∨ (fstat r.2 r.1).1 ≠ 0 ∨
        (kzalloc r.2.kernel (statSize (fstat r.2 r.1).2)).1 = 0 then none
    else readInto r.2 r.1

/-- The file's driver comes back, with whatever answer, from opening the file and from its read. -/
def Answers (s : Files π) (filename : List UInt8) : Prop :=
  ∃ fd s', fopen s filename readMode = some (fd, s') ∧ (readInto s' fd).isSome

/-- **A loader succeeds only with the whole file**, and returns a negative code otherwise. -/
structure SaysWhole {α : Type} (loaded : Option (Except Int α × Files π))
    (read : Option LoaderRead) : Prop where
  returns : loaded.isSome
  whole : ∀ x s', loaded = some (.ok x, s') → ∃ r, read = some r ∧ r.Whole
  code : ∀ e s', loaded = some (.error e, s') → e < 0

section Loaders

variable {s : Files π} {filename : List UInt8}

theorem fstat_code (s : Files π) (fd : Int) : (fstat s fd).1 ≤ 0 := by
  unfold fstat
  cases fileGetDescriptor s fd with
  | none =>
    show - EIO ≤ 0
    decide
  | some desc => exact desc.filesystem.statFn_error desc.priv.2

/-- The checks answer 0 or a negative code. -/
theorem elfValidateLoaded_code (m : Mem) (header : Nat) :
    elfValidateLoaded m header = 0 ∨ elfValidateLoaded m header < 0 := by
  unfold elfValidateLoaded
  split
  · exact Or.inl rfl
  · exact Or.inr (by decide)

/-- The read of a file that is open. -/
theorem readInto_of_fread {s₁ s₂ : Files π} {fd res : Int} {out : List UInt8}
    (hr : fread { s₁ with kernel := (kzalloc s₁.kernel (statSize (fstat s₁ fd).2)).2 }
      (statSize (fstat s₁ fd).2) 1 fd = some (res, out, s₂)) :
    readInto s₁ fd = some ⟨(kzalloc s₁.kernel (statSize (fstat s₁ fd).2)).1,
      statSize (fstat s₁ fd).2, res, out,
        (s₂.store (kzalloc s₁.kernel (statSize (fstat s₁ fd).2)).1 out).kernel.mem⟩ := by
  unfold readInto
  dsimp only
  rw [hr]
  rfl

/-- **`elf_load` succeeds** when its read does not answer a negative code and the checks take what
    is in memory; otherwise it fails with a negative code. -/
theorem elfLoadFrom_cases {r : Except Int ElfFile} {s' : Files π}
    (h : elfLoadFrom s filename = some (r, s')) :
    (∃ e, e < 0 ∧ r = .error e ∧ ∀ read, elfRead s filename = some read →
      read.status < 0 ∨ elfValidateLoaded read.mem read.buffer < 0) ∨
    ∃ file read, r = .ok file ∧ elfRead s filename = some read ∧ 0 ≤ read.status ∧
      elfValidateLoaded read.mem read.buffer = 0 := by
  have hread : ∀ {fd : Int} {s₁ : Files π}, fopen (elfStart s) filename readMode = some (fd, s₁) →
      elfRead s filename = if fd ≤ 0 ∨ (fstat s₁ fd).1 < 0 then none else readInto s₁ fd := by
    intro fd s₁ ho
    unfold elfStart at ho
    unfold elfRead
    rw [ho]
    rfl
  cases elfLoadFrom_way h with
  | unopened ho hfd =>
    refine Or.inl ⟨_, by decide, rfl, fun read e => ?_⟩
    rw [hread ho, if_pos (Or.inl hfd)] at e
    cases e
  | stat ho _ hneg =>
    refine Or.inl ⟨_, hneg, rfl, fun read e => ?_⟩
    rw [hread ho, if_pos (Or.inr hneg)] at e
    cases e
  | @read fd res s₁ s₂ out ho hfd hstat hr processed hp =>
    have hinto := hread ho
    rw [if_neg (not_or.mpr ⟨Int.not_le.mpr hfd, hstat⟩), readInto_of_fread hr] at hinto
    have hstatus := (congrArg Prod.fst hp).trans (elfProcessLoaded_status ..)
    have hcode := elfValidateLoaded_code
      (s₂.store (kzalloc s₁.kernel (statSize (fstat s₁ fd).2)).1 out).kernel.mem
      (kzalloc s₁.kernel (statSize (fstat s₁ fd).2)).1
    unfold elfAnswer
    by_cases hres : res < 0
    · rw [if_pos hres]
      refine Or.inl ⟨_, hres, rfl, fun read e => ?_⟩
      obtain rfl := Option.some.inj (hinto.symm.trans e)
      exact Or.inl hres
    rw [if_neg hres]
    rcases hcode with h0 | hneg
    · have hpos : ¬ processed.1 < 0 := by
        rw [hstatus]
        exact Int.not_lt.mpr (Int.le_of_eq h0.symm)
      rw [if_neg hpos]
      exact Or.inr ⟨_, _, rfl, hinto, Int.not_lt.mp hres, h0⟩
    · rw [if_pos (hstatus.trans_lt hneg)]
      refine Or.inl ⟨_, hstatus.trans_lt hneg, rfl, fun read e => ?_⟩
      obtain rfl := Option.some.inj (hinto.symm.trans e)
      exact Or.inr hneg

/-- `elf_load` comes back when the driver does. -/
theorem elfLoadFrom_returns (h : Answers { s with kernel := (kzalloc s.kernel 132).2 } filename) :
    ∃ r s', elfLoadFrom s filename = some (r, s') := by
  obtain ⟨fd, s₁, ho, hread⟩ := h
  unfold elfLoadFrom
  generalize kzalloc s.kernel 132 = allocated at ho ⊢
  obtain ⟨address, k⟩ := allocated
  dsimp only at ho ⊢
  rw [ho]
  dsimp only
  split
  · exact ⟨_, _, rfl⟩
  split
  · exact ⟨_, _, rfl⟩
  unfold readInto at hread
  dsimp only at hread
  generalize kzalloc s₁.kernel (statSize (fstat s₁ fd).2) = granted at hread ⊢
  rw [Option.isSome_map] at hread
  obtain ⟨r, hr⟩ := Option.isSome_iff_exists.mp hread
  rw [hr]
  dsimp only
  split
  · exact ⟨_, _, rfl⟩
  generalize elfProcessLoaded _ _ = processed
  obtain ⟨code, file⟩ := processed
  dsimp only
  split
  · exact ⟨_, _, rfl⟩
  · exact ⟨_, _, rfl⟩

theorem processLoadBinary_returns (h : Answers s filename) :
    ∃ r s', processLoadBinary s filename = some (r, s') := by
  obtain ⟨fd, s₁, ho, hread⟩ := h
  unfold processLoadBinary
  rw [ho]
  dsimp only
  split
  · exact ⟨_, _, rfl⟩
  split
  · exact ⟨_, _, rfl⟩
  unfold readInto at hread
  dsimp only at hread
  generalize kzalloc s₁.kernel (statSize (fstat s₁ fd).2) = granted at hread ⊢
  rw [Option.isSome_map] at hread
  obtain ⟨r, hr⟩ := Option.isSome_iff_exists.mp hread
  split
  · exact ⟨_, _, rfl⟩
  rw [hr]
  dsimp only
  split
  · exact ⟨_, _, rfl⟩
  · exact ⟨_, _, rfl⟩

/-- **`process_load_binary` succeeds** when its read answers 1. -/
theorem processLoadBinary_cases {r : Except Int ProgramData} {s' : Files π}
    (h : processLoadBinary s filename = some (r, s')) :
    (∃ e, e < 0 ∧ r = .error e ∧ ∀ read, binaryRead s filename = some read → read.status ≠ 1) ∨
    ∃ program read, r = .ok program ∧ binaryRead s filename = some read ∧ read.buffer ≠ 0 ∧
      read.status = 1 := by
  have hread : ∀ {fd : Int} {s₁ : Files π}, fopen s filename readMode = some (fd, s₁) →
      binaryRead s filename =
        if fd = 0 ∨ (fstat s₁ fd).1 ≠ 0 ∨ (kzalloc s₁.kernel (statSize (fstat s₁ fd).2)).1 = 0 then
          none
        else readInto s₁ fd := by
    intro fd s₁ ho
    unfold binaryRead
    rw [ho]
    rfl
  cases processLoadBinary_way h with
  | unopened ho =>
    refine Or.inl ⟨_, by decide, rfl, fun read e => ?_⟩
    rw [hread ho, if_pos (Or.inl rfl)] at e
    cases e
  | @stat fd s₁ ho hne =>
    refine Or.inl ⟨_, lt_of_le_of_ne (fstat_code s₁ fd) hne, rfl, fun read e => ?_⟩
    rw [hread ho, if_pos (Or.inr (Or.inl hne))] at e
    cases e
  | memory ho h0 =>
    refine Or.inl ⟨_, by decide, rfl, fun read e => ?_⟩
    rw [hread ho, if_pos (Or.inr (Or.inr h0))] at e
    cases e
  | unread ho hopen h0 hr h1 =>
    refine Or.inl ⟨_, by decide, rfl, fun read e => ?_⟩
    rw [hread ho, if_neg (not_or.mpr ⟨hopen.1, not_or.mpr ⟨not_not.mpr hopen.2, h0⟩⟩),
      readInto_of_fread hr] at e
    obtain rfl := Option.some.inj e
    exact h1
  | read ho hopen h0 hr =>
    have hinto := hread ho
    rw [if_neg (not_or.mpr ⟨hopen.1, not_or.mpr ⟨not_not.mpr hopen.2, h0⟩⟩),
      readInto_of_fread hr] at hinto
    exact Or.inr ⟨_, _, rfl, hinto, h0, rfl⟩

end Loaders

/-! ## 2. The two models of `elf_load` -/

/-- What `elf_load` answers for an outcome of its calls, by the memory behind them. -/
def FileOutcome.answer (f : FileOutcome) (address elfMemory : Nat) (m : Mem) : Except Int ElfFile :=
  if f.fopen ≤ 0 then .error (- EIO)
  else if f.fstat < 0 then .error f.fstat
  else elfAnswer f.fread (elfProcessLoaded m ⟨address, elfMemory, 0, 0, 0, 0⟩)

/-- **The outcome of the calls** of `elf_load` over the file layer, with the address that the file
    is read to, and memory behind the read. -/
inductive ElfOutcome (s : Files π) (filename : List UInt8) : FileOutcome → Nat → Mem → Prop where
  | unopened {fd : Int} {s₁ : Files π} (ho : fopen (elfStart s) filename readMode = some (fd, s₁))
      (hfd : fd ≤ 0) : ElfOutcome s filename ⟨fd, 0, 0, 0, []⟩ 0 s₁.kernel.mem
  | stat {fd : Int} {s₁ : Files π} (ho : fopen (elfStart s) filename readMode = some (fd, s₁))
      (hfd : 0 < fd) (hneg : (fstat s₁ fd).1 < 0) :
      ElfOutcome s filename ⟨fd, (fstat s₁ fd).1, 0, 0, []⟩ 0 s₁.kernel.mem
  | read {fd res : Int} {s₁ s₂ : Files π} {out : List UInt8}
      (ho : fopen (elfStart s) filename readMode = some (fd, s₁)) (hfd : 0 < fd)
      (hstat : ¬ (fstat s₁ fd).1 < 0)
      (hr : fread { s₁ with kernel := (kzalloc s₁.kernel (statSize (fstat s₁ fd).2)).2 }
        (statSize (fstat s₁ fd).2) 1 fd = some (res, out, s₂)) :
      ElfOutcome s filename ⟨fd, (fstat s₁ fd).1, statSize (fstat s₁ fd).2, res, out⟩
        (kzalloc s₁.kernel (statSize (fstat s₁ fd).2)).1
        (s₂.store (kzalloc s₁.kernel (statSize (fstat s₁ fd).2)).1 out).kernel.mem

/-- `elf_load` over the file layer answers by the outcome of its calls. -/
theorem elfLoadFrom_answer {s s' : Files π} {filename : List UInt8} {r : Except Int ElfFile}
    (h : elfLoadFrom s filename = some (r, s')) : ∃ f elfMemory m,
      ElfOutcome s filename f elfMemory m ∧ r = f.answer (kzalloc s.kernel 132).1 elfMemory m := by
  unfold FileOutcome.answer
  cases elfLoadFrom_way h with
  | unopened ho hfd =>
    refine ⟨_, _, _, .unopened ho hfd, ?_⟩
    rw [if_pos hfd]
  | stat ho hfd hneg =>
    refine ⟨_, _, _, .stat ho hfd hneg, ?_⟩
    rw [if_neg (Int.not_le.mpr hfd), if_pos hneg]
  | read ho hfd hstat hr processed hp =>
    refine ⟨_, _, _, .read ho hfd hstat hr, ?_⟩
    rw [if_neg (Int.not_le.mpr hfd), if_neg hstat, hp]

/-- The answer of a load: its file, or its status. -/
def loadAnswer : Int × Option ElfFile × Kernel → Except Int ElfFile
  | (_, some file, _) => .ok file
  | (res, none, _) => .error res

/-- ... and so does the model that takes the outcome. -/
theorem elfLoad_answer (k : Kernel) (f : FileOutcome) : loadAnswer (elfLoad k f) =
    f.answer (kzalloc k 132).1 (kzalloc (kzalloc k 132).2 f.filesize).1 (elfLoad k f).2.2.mem := by
  unfold FileOutcome.answer
  by_cases hopen : f.fopen ≤ 0
  · unfold elfLoad
    dsimp only
    rw [if_pos hopen, if_pos hopen]
    rfl
  by_cases hstat : f.fstat < 0
  · unfold elfLoad
    dsimp only
    rw [if_neg hopen, if_neg hopen, if_pos hstat, if_pos hstat]
    rfl
  have hmem := elfLoad_mem k hopen hstat
  rw [if_neg hopen, if_neg hstat, hmem]
  unfold elfAnswer
  by_cases hread : f.fread < 0
  · unfold elfLoad
    dsimp only
    rw [if_neg hopen, if_neg hstat, if_pos hread, if_pos hread]
    rfl
  · rw [elfLoad_read k hopen hstat hread, if_neg hread]
    dsimp only
    split
    · rfl
    · rfl

/-- **Both models are one function** of the outcome, the addresses of the two blocks and memory
    behind the read. -/
theorem elfLoadFrom_elfLoad {s s' : Files π} {filename : List UInt8} {r : Except Int ElfFile}
    (h : elfLoadFrom s filename = some (r, s')) : ∃ f elfMemory m,
      ElfOutcome s filename f elfMemory m ∧ ∀ k, (kzalloc k 132).1 = (kzalloc s.kernel 132).1 →
        (kzalloc (kzalloc k 132).2 f.filesize).1 = elfMemory → (elfLoad k f).2.2.mem = m →
        loadAnswer (elfLoad k f) = r := by
  obtain ⟨f, elfMemory, m, hf, rfl⟩ := elfLoadFrom_answer h
  refine ⟨f, elfMemory, m, hf, fun k h1 h2 h3 => ?_⟩
  rw [elfLoad_answer, h1, h2, h3]

/-! ## 3. The drivers -/

/-- **What a driver's answers mean** for one item of a file that was just opened: 1 for the whole
    item, as long as its size fits the driver, 0 for less than that, or a negative code. -/
def Filesystem.Reports (filesystem : Filesystem π) (fits : Nat → Prop) : Prop :=
  ∀ {k k' : Kernel} {part : PathPart} {next : List PathPart} {mode : FileMode} {priv : Nat × π}
    {size : Nat} {r : Int × List UInt8 × π},
    filesystem.openFn k part next mode = some (.ok priv, k') → size ≠ 0 →
    filesystem.readFn priv.2 size 1 = some r →
    (r.1 = 1 ∧ (r.2.1.length = size ↔ fits size)) ∨ (r.1 = 0 ∧ r.2.1.length ≠ size) ∨ r.1 < 0

section Fat32

variable {d : Disk} {fs : Fat32Private}

/-- A cursor that moves stays in its cluster, or goes to the start of the next one. -/
theorem advance_inCluster {h : FileHandle} {n : Nat} (hs : fs.clusterSizeBytes < 2147483648)
    (hn : h.positionInCluster + n ≤ fs.clusterSizeBytes) (hpos : 0 < fs.clusterSizeBytes) :
    (h.advance d fs n).positionInCluster < fs.clusterSizeBytes := by
  have hmoved : u32 ((h.positionInCluster : Int) + n) = h.positionInCluster + n := by
    rw [u32_of_range (by omega) (by omega)]
    omega
  unfold FileHandle.advance
  rw [hmoved]
  dsimp only
  split
  · exact hpos
  · rename_i hne
    exact lt_of_le_of_ne hn hne

/-- **An item of FAT32**: the whole item and 1, or less and 0. Induction on the turns of the
    loop. -/
theorem fat32ReadInternal_out (hs : fs.clusterSizeBytes < 2147483648) (fuel : Nat) :
    ∀ {n : Nat} {h : FileHandle} {r : ReadResult}, h.positionInCluster < fs.clusterSizeBytes →
      fat32ReadInternal d fs fuel n h = some r →
      (r.status = 1 ∧ r.out.length = n) ∨ (r.status = 0 ∧ r.out.length < n) := by
  induction fuel with
  | zero =>
    intro n h r _ hr
    cases hr
  | succ fuel ih =>
    intro n h r hpos hr
    unfold fat32ReadInternal at hr
    dsimp only at hr
    have hturn : howManyToRead fs h n ≤ n := Nat.min_le_right ..
    have hcluster : howManyToRead fs h n ≤ fs.clusterSizeBytes - h.positionInCluster := by
      refine (Nat.min_le_left ..).trans ((Nat.min_le_left ..).trans ?_)
      rw [u32_of_range (by omega) (by omega)]
      omega
    have hout := seekRead_length_of_lt d (u32 ((getClusterDataDiskPos fs h.currentCluster : Int) +
      h.positionInCluster)) (show howManyToRead fs h n < 2147483648 by omega)
    have hnext := @advance_inCluster d fs h (howManyToRead fs h n) hs (by omega) (by omega)
    generalize howManyToRead fs h n = turn at hr hturn hcluster hout hnext
    generalize seekRead d _ turn = out at hr hout
    split at hr
    · obtain rfl := Option.some.inj hr
      exact Or.inl ⟨rfl, by dsimp only; omega⟩
    split at hr
    · obtain rfl := Option.some.inj hr
      exact Or.inr ⟨rfl, by dsimp only; omega⟩
    split at hr
    · obtain rfl := Option.some.inj hr
      exact Or.inr ⟨rfl, by dsimp only; omega⟩
    · obtain ⟨r', hr', rfl⟩ := Option.map_eq_some_iff.mp hr
      have hrest := ih hnext hr'
      dsimp only
      rw [List.length_append]
      omega

/-- **FAT32 reports what it read.** -/
theorem fat32Fs_reports (hs : fs.clusterSizeBytes < 2147483648) (fuel : Nat) :
    (fat32Fs d fs fuel).Reports fun _ => True := by
  intro k k' part next mode priv size r ho _ hr
  rw [fat32Fs_open] at ho
  obtain ⟨ptr, h⟩ := priv
  obtain ⟨hpos, -, hstart, -, -⟩ := fat32Open_ok ho
  obtain ⟨r', hr', rfl⟩ := Option.map_eq_some_iff.mp hr
  unfold fat32Read readItems at hr'
  cases hblock : fat32ReadInternal d fs fuel size h with
  | none =>
    rw [hblock] at hr'
    cases hr'
  | some block =>
    have hout := fat32ReadInternal_out hs fuel (by rw [hstart]; exact hpos) hblock
    rw [hblock] at hr'
    dsimp only at hr'
    rcases hout with ⟨h1, hlen⟩ | ⟨h0, hlen⟩
    · rw [if_neg (by rw [h1]; decide), h1, readItems] at hr'
      obtain rfl := Option.some.inj hr'
      refine Or.inl ⟨(by decide : i32 (0 + 1) = 1), ?_⟩
      simpa using hlen
    · rw [if_pos h0] at hr'
      obtain rfl := Option.some.inj hr'
      refine Or.inr (Or.inl ⟨?_, Nat.ne_of_lt hlen⟩)
      show i32 (0 + block.status) = 0
      rw [h0]
      decide

end Fat32

section Fat16

variable {d : Disk} {fs : Fat16Private}

/-- **FAT16 reports what it read**, where the size is an `int`; a size that is not reads nothing,
    and is reported as read. -/
theorem fat16Fs_reports (fuel : Nat) (root : FatDirectory) :
    (fat16Fs d fs fuel root).Reports fun size => i32 size = size := by
  intro k k' part next mode priv size r _ h0 hr
  obtain ⟨res₀, out₀, h'⟩ := r
  obtain ⟨r', hread, rfl, rfl⟩ := fat16Fs_read hr
  obtain ⟨-, item, ⟨res, out⟩, -, hitems, rfl⟩ := fat16Read_item hread
  unfold fat16ReadItems at hitems
  cases hblock : fat16ReadInternal d fs fuel (fat16GetFirstCluster item) (i32 priv.2.desc.pos)
      (i32 size) with
  | none =>
    rw [hblock] at hitems
    cases hitems
  | some block =>
    obtain ⟨res', out'⟩ := block
    rw [hblock] at hitems
    dsimp only at hitems
    rcases fat16ReadInternal_out fuel hblock with ⟨hres, hlen⟩ | hneg
    · rw [show res' = 0 from hres, if_neg (by decide), fat16ReadItems] at hitems
      obtain ⟨rfl, rfl⟩ := Prod.mk.inj (Option.some.inj hitems)
      refine Or.inl ⟨(by decide : (if (0 : Int) < 0 then (0 : Int) else i32 ((1 : Nat) : Int)) = 1),
        ?_⟩
      dsimp only at hlen ⊢
      rw [List.append_nil, hlen]
      unfold i32
      omega
    · rw [if_pos hneg] at hitems
      obtain ⟨rfl, rfl⟩ := Prod.mk.inj (Option.some.inj hitems)
      refine Or.inr (Or.inr ?_)
      dsimp only at hneg ⊢
      rwa [if_pos hneg]

end Fat16

/-! ## 4. Both loaders -/

section Whole

variable {s s' : Files π} {filename modeStr : List UInt8} {fd : Int} {filesystem : Filesystem π}
  {fits : Nat → Prop}

/-- The descriptor behind `fopen` is the driver's, of the file that it opened. -/
theorem fopen_opened {desc : FileDescriptor π} (h : fopen s filename modeStr = some (fd, s'))
    (hfd : 0 < fd) (hd : fileGetDescriptor s' fd = some desc) :
    s.disk = some desc.filesystem ∧ ∃ k part next mode k',
      desc.filesystem.openFn k part next mode = some (.ok desc.priv, k') := by
  rcases fopen_cases h with ⟨rfl, -⟩ | ⟨driver, priv, k, i, hp, hfree, rfl, hcase⟩
  · exact absurd hfd (Int.lt_irrefl 0)
  obtain ⟨-, hinone, -⟩ := freeSlot_some hfree
  have hslot : ((i : Int) + 1 - 1).toNat = i := by omega
  obtain ⟨-, -, hget⟩ := fileGetDescriptor_some hd
  rw [hslot] at hget
  rcases hcase with ⟨-, rfl⟩ | ⟨-, rfl⟩
  · have hnone : s.fileDescriptors i = some desc := hget
    rw [hinone] at hnone
    cases hnone
  · rw [Files.set_self] at hget
    obtain rfl := Option.some.inj hget
    rcases fopenPrivate_cases hp with
      ⟨e, -, hr, -⟩ | ⟨root, part, next, driver', r', -, -, -, hdisk, ho, hr⟩
    · cases hr
    · rcases hr with ⟨e, -, hr⟩ | ⟨p, rfl, hr⟩
      · cases hr
      · obtain ⟨rfl, rfl⟩ := Prod.mk.inj (Except.ok.inj hr)
        exact ⟨hdisk, _, _, _, _, _, ho⟩

/-- **The answer of a loader's read.** -/
theorem readInto_reports (hdisk : s.disk = some filesystem) (hr : filesystem.Reports fits)
    (h : fopen s filename modeStr = some (fd, s')) {read : LoaderRead}
    (hread : readInto s' fd = some read) :
    (read.status = 1 ∧ (read.out.length = read.size ↔ fits read.size)) ∨
      (read.status = 0 ∧ read.out.length ≠ read.size) ∨ read.status < 0 := by
  unfold readInto at hread
  dsimp only at hread
  obtain ⟨⟨status, out, s''⟩, hr', rfl⟩ := Option.map_eq_some_iff.mp hread
  dsimp only
  rcases fread_cases hr' with ⟨rfl, -, -⟩ | ⟨desc, r, h0, hd, hdriver, rfl, rfl, -⟩
  · exact Or.inr (Or.inr (by decide))
  · have hget : fileGetDescriptor s' fd = some desc := hd
    obtain ⟨hdisk', k, part, next, mode, k', ho⟩ :=
      fopen_opened h (fileGetDescriptor_some hd).1 hget
    obtain rfl := Option.some.inj (hdisk.symm.trans hdisk')
    exact hr ho h0 hdriver

theorem elfRead_reports (hdisk : s.disk = some filesystem) (hr : filesystem.Reports fits)
    {read : LoaderRead} (hread : elfRead s filename = some read) :
    (read.status = 1 ∧ (read.out.length = read.size ↔ fits read.size)) ∨
      (read.status = 0 ∧ read.out.length ≠ read.size) ∨ read.status < 0 := by
  obtain ⟨⟨fd, s'⟩, ho, hread⟩ := Option.bind_eq_some_iff.mp hread
  split at hread
  · cases hread
  · have hdisk' : Files.disk { s with kernel := (kzalloc s.kernel 132).2 } = some filesystem :=
      hdisk
    exact readInto_reports hdisk' hr ho hread

theorem binaryRead_reports (hdisk : s.disk = some filesystem) (hr : filesystem.Reports fits)
    {read : LoaderRead} (hread : binaryRead s filename = some read) :
    (read.status = 1 ∧ (read.out.length = read.size ↔ fits read.size)) ∨
      (read.status = 0 ∧ read.out.length ≠ read.size) ∨ read.status < 0 := by
  obtain ⟨⟨fd, s'⟩, ho, hread⟩ := Option.bind_eq_some_iff.mp hread
  split at hread
  · cases hread
  · exact readInto_reports hdisk hr ho hread

/-- **`elf_load` does its part** when a read that is not whole is answered with a negative code, or
    the checks reject what it left. -/
def ElfGuards (fits : Nat → Prop) (read : LoaderRead) : Prop :=
  read.status < 0 ∨ elfValidateLoaded read.mem read.buffer < 0 ∨
    (read.status ≠ 0 ∧ fits read.size ∧ read.buffer ≠ 0)

theorem elfLoadFrom_saysWhole_iff (hdisk : s.disk = some filesystem) (hr : filesystem.Reports fits)
    (ha : Answers { s with kernel := (kzalloc s.kernel 132).2 } filename) :
    SaysWhole (elfLoadFrom s filename) (elfRead s filename) ↔
      ∀ read, elfRead s filename = some read → ElfGuards fits read := by
  obtain ⟨r, s', h⟩ := elfLoadFrom_returns ha
  unfold ElfGuards
  rw [h]
  rcases elfLoadFrom_cases h with ⟨e, he, rfl, hno⟩ | ⟨file, read, rfl, hread, hstatus, hvalid⟩
  · constructor
    · intro _ read hread
      rcases hno read hread with hneg | hneg
      · exact Or.inl hneg
      · exact Or.inr (Or.inl hneg)
    · refine fun _ => ⟨rfl, fun x s'' e' => ?_, fun e' s'' e'' => ?_⟩
      · cases e'
      · cases e''
        exact he
  · rw [hread]
    have hreports := elfRead_reports hdisk hr hread
    constructor
    · rintro ⟨-, hok, -⟩ read' e
      obtain rfl := Option.some.inj e
      obtain ⟨read', e', hbuffer, hlen⟩ := hok _ _ rfl
      obtain rfl := Option.some.inj e'
      rcases hreports with ⟨h1, hfits⟩ | ⟨-, hne⟩ | hneg
      · exact Or.inr (Or.inr ⟨by omega, hfits.mp hlen, hbuffer⟩)
      · exact absurd hlen hne
      · omega
    · intro hguards
      refine ⟨rfl, fun x s'' _ => ⟨read, rfl, ?_⟩, fun e' s'' e'' => ?_⟩
      · rcases hguards read rfl with hneg | hneg | ⟨hne, hfits, hbuffer⟩
        · omega
        · omega
        · rcases hreports with ⟨-, hiff⟩ | ⟨h0, -⟩ | hneg
          · exact ⟨hbuffer, hiff.mpr hfits⟩
          · exact absurd h0 hne
          · omega
      · cases e''

theorem processLoadBinary_saysWhole_iff (hdisk : s.disk = some filesystem)
    (hr : filesystem.Reports fits) (ha : Answers s filename) :
    SaysWhole (processLoadBinary s filename) (binaryRead s filename) ↔
      ∀ read, binaryRead s filename = some read → read.status = 1 → fits read.size := by
  obtain ⟨r, s', h⟩ := processLoadBinary_returns ha
  rw [h]
  rcases processLoadBinary_cases h with ⟨e, he, rfl, hno⟩ | ⟨program, read, rfl, hread, hbuffer, h1⟩
  · constructor
    · exact fun _ read hread h1 => absurd h1 (hno read hread)
    · refine fun _ => ⟨rfl, fun x s'' e' => ?_, fun e' s'' e'' => ?_⟩
      · cases e'
      · cases e''
        exact he
  · rw [hread]
    have hreports := binaryRead_reports hdisk hr hread
    have hiff : read.out.length = read.size ↔ fits read.size := by
      rcases hreports with ⟨-, hiff⟩ | ⟨h0, -⟩ | hneg
      · exact hiff
      · omega
      · omega
    constructor
    · rintro ⟨-, hok, -⟩ read' e -
      obtain rfl := Option.some.inj e
      obtain ⟨read', e', -, hlen⟩ := hok _ _ rfl
      obtain rfl := Option.some.inj e'
      exact hiff.mp hlen
    · intro hfits
      refine ⟨rfl, fun x s'' _ => ⟨read, rfl, hbuffer, hiff.mpr (hfits read rfl h1)⟩,
        fun e' s'' e'' => ?_⟩
      cases e''

/-- **Both loaders succeed only with the whole file, and fail with a negative code, exactly when**
    `elf_load`'s read is whole, or answered with a negative code, or its bytes are no ELF file; and
    `process_load_binary`'s read is not of a size that the driver takes for a negative one. -/
theorem loaders_whole_iff (hdisk : s.disk = some filesystem) (hr : filesystem.Reports fits)
    (he : Answers { s with kernel := (kzalloc s.kernel 132).2 } filename)
    (hb : Answers s filename) : (SaysWhole (elfLoadFrom s filename) (elfRead s filename) ∧
      SaysWhole (processLoadBinary s filename) (binaryRead s filename)) ↔
    (∀ read, elfRead s filename = some read → ElfGuards fits read) ∧
      ∀ read, binaryRead s filename = some read → read.status = 1 → fits read.size :=
  and_congr (elfLoadFrom_saysWhole_iff hdisk hr he) (processLoadBinary_saysWhole_iff hdisk hr hb)

end Whole

/-! ## 5. A whole file, and a chain that ends early -/

/-- The file layer with the small volume. -/
def wholeFiles : Files FileHandle :=
  fsInit smallKernel (some (fat32Fs oneFileVolume smallPrivate 8))

/-- `fopen`, and the read of the file, of the path `0:/a`. -/
def answersA (s : Files FileHandle) : Bool :=
  ((fopen s pathA readMode).bind fun r => readInto r.2 r.1).isSome

theorem answersA_answers {s : Files FileHandle} (h : answersA s = true) : Answers s pathA := by
  unfold answersA at h
  cases ho : fopen s pathA readMode with
  | none =>
    rw [ho] at h
    cases h
  | some r =>
    rw [ho] at h
    exact ⟨r.1, r.2, ho, h⟩

theorem wholeFiles_answers : Answers wholeFiles pathA :=
  answersA_answers (by decide +kernel)

/-- A file of 700 bytes in the clusters 3 and 5. -/
theorem loaders_whole_iff_small :
    (SaysWhole (elfLoadFrom wholeFiles pathA) (elfRead wholeFiles pathA) ∧
      SaysWhole (processLoadBinary wholeFiles pathA) (binaryRead wholeFiles pathA)) ↔
    (∀ read, elfRead wholeFiles pathA = some read → ElfGuards (fun _ => True) read) ∧
      ∀ read, binaryRead wholeFiles pathA = some read → read.status = 1 → True :=
  loaders_whole_iff rfl (fat32Fs_reports (by decide) 8) (answersA_answers (by decide +kernel))
    wholeFiles_answers

/-- Cluster 3 is the last one. -/
def brokenChain : Nat → Nat
  | 3 => 0x0FFFFFF8
  | _ => 0

/-- The directory with the file of 700 bytes, and an ELF header in cluster 3. -/
def brokenData (i : Nat) : UInt8 := if i < 512 then oneFile i else headerOnly.getD (i - 512) 0

def brokenFiles : Files FileHandle :=
  fsInit smallKernel (some (fat32Fs (smallVolume brokenChain brokenData) smallPrivate 8))

/-- **A chain that ends behind the first of two clusters**: `elf_load` succeeds with 512 of 700
    bytes. -/
theorem elfLoad_takes_part : ¬ ∀ (s : Files FileHandle) (filename : List UInt8) (d : Disk)
    (fs : Fat32Private) (fuel : Nat), s.disk = some (fat32Fs d fs fuel) →
    fs.clusterSizeBytes < 2147483648 →
    Answers { s with kernel := (kzalloc s.kernel 132).2 } filename → Answers s filename →
    SaysWhole (elfLoadFrom s filename) (elfRead s filename) ∧
      SaysWhole (processLoadBinary s filename) (binaryRead s filename) := by
  intro h
  have helf := (h brokenFiles pathA (smallVolume brokenChain brokenData) smallPrivate 8 rfl
    (by decide) (answersA_answers (by decide +kernel)) (answersA_answers (by decide +kernel))).1
  have hok : ((elfLoadFrom brokenFiles pathA).map fun r => r.1.toOption.isSome) = some true := by
    decide +kernel
  have hlen : ((elfRead brokenFiles pathA).map fun r => (r.out.length, r.size)) =
      some (512, 700) := by
    decide +kernel
  obtain ⟨⟨r, s'⟩, hr, hsome⟩ := Option.map_eq_some_iff.mp hok
  dsimp only at hsome
  cases r with
  | error e => cases hsome
  | ok file =>
    obtain ⟨read, hread, -, hwhole⟩ := helf.whole file s' hr
    rw [hread, Option.map_some] at hlen
    obtain ⟨h1, h2⟩ := Prod.mk.inj (Option.some.inj hlen)
    rw [h1, h2] at hwhole
    exact absurd hwhole (by decide)

end PeachKernel
