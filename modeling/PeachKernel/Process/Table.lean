/-
  File:      PeachKernel/Process/Table.lean
  Subject:   The table `processes` and `current_process`, over any loads and terminations.

  A load takes the first empty slot of the table, and `process_load_switch` makes the new process
  the current one. The end of a process empties the slot its `id` names; where it was the current
  process, the one in the first slot in use takes its place, and without one the kernel panics. A
  load that fails, wherever it fails, has not touched the table.

  * `processLoadSwitch` -- the source function;
  * `processLoadForSlot_cases`, `processLoadSwitch_cases` -- the ways through a load, as the table
    sees them; `processTerminate_cases` -- the end of a process;
  * `ProcessTable`, `TableStep`, `TableRun` -- the calls one after the other, with the process that
    each slot points to beside the state;
  * `TableInv`, `tableInv_run` -- what every state keeps; `processTable_run` -- what follows;
  * `heldRun_pointers` -- the pointers in two slots differ, as long as no structure is given back.
-/
import PeachKernel.Heap.Since
import PeachKernel.Process.Terminate
import PeachKernel.Fs.Fat16File
import PeachKernel.Loader.Bounds
import Mathlib.Logic.Relation

namespace PeachKernel

open CInt Mem

variable {π : Type}

/-! ## 1. The source function -/

/-- `process_load_switch`. A load that answered 0 without a process would leave the caller's
    pointer, which is null. -/
def processLoadSwitch (s : LoadState π) (filename : List UInt8) :
    Option (Except Int LoadedProcess × LoadState π) :=
  match processLoad s filename with
  | none => none
  | some (.error res, s) => some (.error res, if res = 0 then { s with currentProcess := 0 } else s)
  | some (.ok process, s) => some (.ok process, { s with currentProcess := process.address })

/-! ## 2. The answers of the file layer -/

/-- The driver does not answer that a slot is taken. -/
structure Filesystem.NeverTaken (filesystem : Filesystem π) : Prop where
  stat : ∀ p, (filesystem.statFn p).1 ≠ -EISTKN
  read : ∀ {p : π} {size : Nat} {r : Int × List UInt8 × π},
    filesystem.readFn p size 1 = some r → r.1 ≠ -EISTKN

/-- One item is read, or none. -/
theorem fat32ReadInternal_status {d : Disk} {fs : Fat32Private} (fuel : Nat) :
    ∀ {n : Nat} {h : FileHandle} {r : ReadResult}, fat32ReadInternal d fs fuel n h = some r →
      r.status = 0 ∨ r.status = 1 := by
  induction fuel with
  | zero =>
    intro n h r hr
    cases hr
  | succ fuel ih =>
    intro n h r hr
    unfold fat32ReadInternal at hr
    dsimp only at hr
    split at hr
    · obtain rfl := Option.some.inj hr
      exact Or.inr rfl
    split at hr
    · obtain rfl := Option.some.inj hr
      exact Or.inl rfl
    split at hr
    · obtain rfl := Option.some.inj hr
      exact Or.inl rfl
    · obtain ⟨r', hr', rfl⟩ := Option.map_eq_some_iff.mp hr
      have hstatus : r'.status = 0 ∨ r'.status = 1 := ih hr'
      exact hstatus

theorem fat32Fs_neverTaken (d : Disk) (fs : Fat32Private) (fuel : Nat) :
    (fat32Fs d fs fuel).NeverTaken where
  stat p := by
    show (0 : Int) ≠ -8
    decide
  read {p size r} h := by
    obtain ⟨r', hr', rfl⟩ := Option.map_eq_some_iff.mp h
    unfold fat32Read readItems at hr'
    cases hblock : fat32ReadInternal d fs fuel size p with
    | none =>
      rw [hblock] at hr'
      cases hr'
    | some block =>
      rw [hblock] at hr'
      dsimp only at hr'
      rcases fat32ReadInternal_status fuel hblock with h0 | h1
      · rw [if_pos h0] at hr'
        obtain rfl := Option.some.inj hr'
        show i32 (0 + block.status) ≠ -8
        rw [h0]
        decide
      · rw [if_neg (by rw [h1]; decide), h1, readItems] at hr'
        obtain rfl := Option.some.inj hr'
        show i32 (0 + 1) ≠ -8
        decide

/-- The walk along a FAT16 chain ends at a cluster, or with `-EIO`. -/
theorem clusterLoop_code {d : Disk} {fs : Fat16Private} (n : Nat) :
    ∀ {cluster : Int}, 0 ≤ cluster → 0 ≤ clusterLoop d fs n cluster ∨
    clusterLoop d fs n cluster = - EIO := by
  induction n with
  | zero => exact fun h => Or.inl h
  | succ n ih =>
    intro cluster _
    unfold clusterLoop
    dsimp only
    split
    · exact Or.inr rfl
    · exact ih (Int.natCast_nonneg _)

theorem fat16ReadInternal_code {d : Disk} {fs : Fat16Private} (fuel : Nat) :
    ∀ {cluster offset total : Int} {r : Int × List UInt8}, 0 ≤ cluster →
      fat16ReadInternal d fs fuel cluster offset total = some r → r.1 = 0 ∨ r.1 = - EIO := by
  induction fuel with
  | zero =>
    intro cluster offset total r _ hr
    cases hr
  | succ fuel ih =>
    intro cluster offset total r hc hr
    unfold fat16ReadInternal at hr
    dsimp only at hr
    split at hr
    · rename_i hneg
      obtain rfl := Option.some.inj hr
      rcases clusterLoop_code (offset.tdiv fs.sizeOfClusterBytes).toNat hc with h | h
      · exact absurd hneg (Int.not_lt.mpr h)
      · exact Or.inr h
    generalize
      (if (fs.sizeOfClusterBytes : Int) < total then (fs.sizeOfClusterBytes : Int) else total)
      = totalToRead at hr
    split at hr
    · obtain ⟨r', hr', rfl⟩ := Option.map_eq_some_iff.mp hr
      have hcode : r'.1 = 0 ∨ r'.1 = - EIO := ih hc hr'
      exact hcode
    · obtain rfl := Option.some.inj hr
      exact Or.inl rfl

/-- The read function of the FAT16 driver does not answer it either. -/
theorem fat16Read_neverTaken {d : Disk} {fs : Fat16Private} {fuel size : Nat}
    {desc : FatFileDescriptor} {r : Fat16ReadResult}
    (h : fat16Read d fs fuel desc size 1 = some r) : r.status ≠ -EISTKN := by
  obtain ⟨-, item, ⟨res, out⟩, -, hitems, rfl⟩ := fat16Read_item h
  have hres : res = 0 ∨ res = - EIO := by
    unfold fat16ReadItems at hitems
    cases hread : fat16ReadInternal d fs fuel (fat16GetFirstCluster item) (i32 desc.pos)
        (i32 size) with
    | none =>
      rw [hread] at hitems
      cases hitems
    | some r' =>
      have hcode := fat16ReadInternal_code fuel (Int.natCast_nonneg _) hread
      obtain ⟨res', out'⟩ := r'
      rw [hread] at hitems
      dsimp only at hitems
      split at hitems
      · obtain ⟨rfl, -⟩ := Prod.mk.inj (Option.some.inj hitems)
        exact hcode
      · obtain ⟨r'', hr'', e⟩ := Option.map_eq_some_iff.mp hitems
        unfold fat16ReadItems at hr''
        obtain rfl := Option.some.inj hr''
        exact Or.inl (congrArg Prod.fst e).symm
  dsimp only
  rcases hres with rfl | rfl
  · rw [if_neg (by decide)]
    decide
  · rw [if_pos (by decide)]
    decide

theorem fat16Fs_neverTaken (d : Disk) (fs : Fat16Private) (fuel : Nat) (root : FatDirectory) :
    (fat16Fs d fs fuel root).NeverTaken where
  stat h := by
    show (fat16Stat h).1 ≠ -EISTKN
    unfold fat16Stat
    split
    · decide
    · rename_i hbody
      exact absurd hbody h.usable
    · show (0 : Int) ≠ -EISTKN
      decide
  read {p size r} h := by
    obtain ⟨res, out, p'⟩ := r
    obtain ⟨r', hread, rfl, -⟩ := fat16Fs_read h
    exact fat16Read_neverTaken hread

/-- The checks of an ELF file answer 0 or `-EINFORMAT`. -/
theorem elfProcessLoaded_code (m : Mem) (file : ElfFile) :
    (elfProcessLoaded m file).1 ≠ -EISTKN := by
  rw [elfProcessLoaded_status]
  unfold elfValidateLoaded
  split
  · decide
  · decide

section Codes

variable {s s' : Files π} {filename : List UInt8} {fd : Int}

theorem fopen_disk {modeStr : List UInt8} (h : fopen s filename modeStr = some (fd, s')) :
    s'.disk = s.disk := by
  rcases fopen_cases h with ⟨-, _, _, -, rfl⟩ | ⟨_, _, _, _, -, -, -, ⟨-, rfl⟩ | ⟨-, rfl⟩⟩
  · rfl
  · rfl
  · rfl

theorem fclose_disk (s : Files π) (fd : Int) : (fclose s fd).2.disk = s.disk := by
  cases hg : fileGetDescriptor s fd with
  | none =>
    unfold fclose
    rw [hg]
  | some d =>
    rw [fclose_eq hg]
    rfl

/-- **A file that has just been opened** belongs to the driver of the disk. -/
theorem fopen_driver {modeStr : List UInt8} (h : fopen s filename modeStr = some (fd, s'))
    {d : FileDescriptor π} (hd : fileGetDescriptor s' fd = some d) :
    s.disk = some d.filesystem := by
  obtain ⟨h1, -, hslot⟩ := fileGetDescriptor_some hd
  rcases fopen_cases h with ⟨rfl, -⟩ | ⟨filesystem, priv, k, i, hpriv, hfree, rfl, hcase⟩
  · exact absurd h1 (by decide)
  · have hi : ((i : Int) + 1 - 1).toNat = i := by omega
    rw [hi] at hslot
    rcases hcase with ⟨-, rfl⟩ | ⟨-, rfl⟩
    · obtain ⟨-, hnone, -⟩ := freeSlot_some hfree
      exact absurd (hnone.symm.trans hslot) (Option.some_ne_none d).symm
    · rw [Files.set_self] at hslot
      obtain rfl := Option.some.inj hslot
      rcases fopenPrivate_cases hpriv with ⟨_, -, e, -⟩ |
        ⟨_, _, _, filesystem', _, -, -, -, hdisk, -, ⟨_, -, e⟩ | ⟨_, -, e⟩⟩
      · cases e
      · cases e
      · obtain ⟨rfl, -⟩ := Prod.mk.inj (Except.ok.inj e)
        exact hdisk

/-- `fstat` of a file that has just been opened. -/
theorem fstat_neverTaken {modeStr : List UInt8} (hf : ∀ f, s.disk = some f → f.NeverTaken)
    (h : fopen s filename modeStr = some (fd, s')) : (fstat s' fd).1 ≠ -EISTKN := by
  unfold fstat
  cases hd : fileGetDescriptor s' fd with
  | none => exact (by decide : (-1 : Int) ≠ -8)
  | some d => exact (hf _ (fopen_driver h hd)).stat _

/-- ... and `fread`, with a request for memory in between. -/
theorem fread_neverTaken {modeStr out : List UInt8} {size : Nat} {res : Int} {k : Kernel}
    {s'' : Files π} (hf : ∀ f, s.disk = some f → f.NeverTaken)
    (h : fopen s filename modeStr = some (fd, s'))
    (hr : fread { s' with kernel := k } size 1 fd = some (res, out, s'')) :
    res ≠ -EISTKN ∧ s''.disk = s'.disk := by
  have hdisk := fread_disk hr
  rcases fread_cases hr with ⟨rfl, -, -⟩ | ⟨_, _, -, hd, hread, rfl, -, -⟩
  · exact ⟨by decide, hdisk⟩
  · have hget : fileGetDescriptor s' fd = some _ := hd
    exact ⟨(hf _ (fopen_driver h hget)).read hread, hdisk⟩

/-- `elf_load` does not change the disk. -/
theorem elfLoadFrom_disk {r : Except Int ElfFile} (h : elfLoadFrom s filename = some (r, s')) :
    s'.disk = s.disk := by
  have hstart : (elfStart s).disk = s.disk := rfl
  cases elfLoadFrom_way h with
  | unopened ho _ =>
    have hopen := fopen_disk ho
    rw [fclose_disk, hopen, hstart]
  | stat ho _ _ =>
    have hopen := fopen_disk ho
    rw [fclose_disk, hopen, hstart]
  | read ho _ _ hr _ _ =>
    have hopen := fopen_disk ho
    have hread := fread_disk hr
    rw [fclose_disk]
    exact hread.trans (hopen.trans hstart)

/-- `elf_load`: an error is some other code (and not 0). -/
theorem elfLoadFrom_codes {r : Except Int ElfFile} (hf : ∀ f, s.disk = some f → f.NeverTaken)
    (h : elfLoadFrom s filename = some (r, s')) : ∀ e, r = .error e → e ≠ -EISTKN ∧ e ≠ 0 := by
  intro e he
  cases elfLoadFrom_way h with
  | unopened _ _ =>
    obtain rfl := Except.error.inj he
    decide
  | stat ho _ hneg =>
    obtain rfl := Except.error.inj he
    exact ⟨@fstat_neverTaken _ (elfStart s) _ _ _ _ hf ho, Int.ne_of_lt hneg⟩
  | @read _ res _ _ _ ho _ _ hr processed hp =>
    unfold elfAnswer at he
    split at he
    · rename_i hneg
      obtain rfl := Except.error.inj he
      exact ⟨(@fread_neverTaken _ (elfStart s) _ _ _ _ _ _ _ _ _ hf ho hr).1, Int.ne_of_lt hneg⟩
    split at he
    · rename_i hneg
      obtain rfl := Except.error.inj he
      exact ⟨hp ▸ elfProcessLoaded_code _ _, Int.ne_of_lt hneg⟩
    · cases he

theorem processLoadBinary_codes {r : Except Int ProgramData}
    (hf : ∀ f, s.disk = some f → f.NeverTaken)
    (h : processLoadBinary s filename = some (r, s')) :
    s'.disk = s.disk ∧ ∀ e, r = .error e → e ≠ -EISTKN ∧ e ≠ 0 := by
  cases processLoadBinary_way h with
  | unopened ho =>
    have hopen := fopen_disk ho
    refine ⟨(fclose_disk ..).trans hopen, fun e he => ?_⟩
    obtain rfl := Except.error.inj he
    decide
  | stat ho hne =>
    have hopen := fopen_disk ho
    refine ⟨(fclose_disk ..).trans hopen, fun e he => ?_⟩
    obtain rfl := Except.error.inj he
    exact ⟨fstat_neverTaken hf ho, hne⟩
  | memory ho _ =>
    have hopen := fopen_disk ho
    refine ⟨(fclose_disk ..).trans hopen, fun e he => ?_⟩
    obtain rfl := Except.error.inj he
    decide
  | unread ho _ _ hr _ =>
    have hopen := fopen_disk ho
    have hread := fread_disk hr
    refine ⟨(fclose_disk ..).trans (hread.trans hopen), fun e he => ?_⟩
    obtain rfl := Except.error.inj he
    decide
  | read ho _ _ hr =>
    have hopen := fopen_disk ho
    have hread := fread_disk hr
    refine ⟨(fclose_disk ..).trans (hread.trans hopen), fun e he => ?_⟩
    cases he

theorem processLoadData_codes {r : Except Int ProgramData}
    (hf : ∀ f, s.disk = some f → f.NeverTaken)
    (h : processLoadData s filename = some (r, s')) :
    s'.disk = s.disk ∧ ∀ e, r = .error e → e ≠ -EISTKN ∧ e ≠ 0 := by
  rcases processLoadData_way h with ⟨_, rfl, helf⟩ | ⟨_, rfl, helf⟩ | ⟨s₁, helf, hbinary⟩
  · exact ⟨elfLoadFrom_disk helf, fun e he => by cases he⟩
  · refine ⟨elfLoadFrom_disk helf, fun e he => ?_⟩
    obtain rfl := Except.error.inj he
    exact elfLoadFrom_codes hf helf _ rfl
  · have hd₁ := elfLoadFrom_disk helf
    obtain ⟨hd₂, hcode⟩ := processLoadBinary_codes (fun f hs => hf f (hd₁ ▸ hs)) hbinary
    exact ⟨hd₂.trans hd₁, hcode⟩

end Codes

/-- Mapping answers 0 or `-EINVARG`. -/
theorem mapPhdr_code (m : Mem) (chunk : Nat) (file : ElfFile) (phdr : Phdr) :
    (mapPhdr m chunk file phdr).1 = 0 ∨ (mapPhdr m chunk file phdr).1 = -EINVARG := by
  by_cases hr : MapRefused (phdrVirt phdr) (phdrPhys file phdr) (phdrPhysEnd file phdr)
  · exact Or.inr (congrArg Prod.fst (pagingMapTo_refused m chunk _ hr))
  · exact Or.inl (pagingMapTo_status m chunk _ hr)

theorem processMapElfLoop_code (chunk : Nat) (file : ElfFile) (phdrs fuel : Nat) :
    ∀ (i : Nat) {res : Int} (m : Mem), res = 0 ∨ res = -EINVARG →
      (processMapElfLoop chunk file phdrs fuel i res m).1 = 0 ∨
        (processMapElfLoop chunk file phdrs fuel i res m).1 = -EINVARG := by
  induction fuel with
  | zero => exact fun _ _ _ h => h
  | succ fuel ih =>
    intro i res m h
    unfold processMapElfLoop
    split
    · have hcode := mapPhdr_code m chunk file (phdrAt m (u32 ((phdrs + 32 * i : Nat) : Int)))
      generalize mapPhdr m chunk file _ = r at hcode ⊢
      obtain ⟨res', m'⟩ := r
      dsimp only at hcode ⊢
      split
      · exact hcode
      · exact ih (i + 1) m' hcode
    · exact h

theorem processMapMemory_code (m : Mem) (chunk : Nat) (program : ProgramData) (stack : Nat) :
    (processMapMemory m chunk program stack).1 = 0 ∨
      (processMapMemory m chunk program stack).1 = -EINVARG := by
  cases program with
  | elf file =>
    have hcode : (processMapElf m chunk file).1 = 0 ∨ (processMapElf m chunk file).1 = -EINVARG :=
      processMapElfLoop_code chunk file _ 65536 0 m (Or.inl rfl)
    unfold processMapMemory
    dsimp only
    split
    · exact hcode
    · exact hcode
  | binary ptr size => exact Or.inl rfl

/-! ## 3. A load and a termination, as the table sees them -/

theorem processGetFreeSlot_some {s : LoadState π} {slot : Nat}
    (h : processGetFreeSlot s = some slot) :
    slot < 12 ∧ s.processes slot = 0 ∧ ∀ j, j < slot → s.processes j ≠ 0 := by
  obtain ⟨h0, hlt, hj⟩ := List.find?_range_eq_some.mp h
  refine ⟨List.mem_range.mp hlt, of_decide_eq_true h0, fun j hlt e => ?_⟩
  have hno := hj j hlt
  rw [e] at hno
  exact absurd hno (by decide)

theorem processGetFreeSlot_none_iff {s : LoadState π} :
    processGetFreeSlot s = none ↔ ∀ i, i < 12 → s.processes i ≠ 0 := by
  unfold processGetFreeSlot
  rw [List.find?_eq_none]
  constructor
  · intro h i hi e
    exact h i (List.mem_range.mpr hi) (by rw [e]; rfl)
  · intro h i hi e
    exact h i (List.mem_range.mp hi) (of_decide_eq_true e)

/-- **A load, as the table sees it**, for an empty slot: an error, which is another code than that
    of a taken slot and leaves the table, or a process that knows its slot. -/
theorem processLoadForSlot_cases {s s' : LoadState π} {filename : List UInt8} {slot : Nat}
    {r : Except Int LoadedProcess} (hf : ∀ f, s.files.disk = some f → f.NeverTaken)
    (hslot : slot < 12) (h0 : s.processes slot = 0)
    (h : processLoadForSlot s filename slot = some (r, s')) :
    s'.files.disk = s.files.disk ∧ s'.currentProcess = s.currentProcess ∧
    ((∃ e, r = .error e ∧ e ≠ -EISTKN ∧ e ≠ 0 ∧ s'.processes = s.processes) ∨
      ∃ process, r = .ok process ∧ process.id = slot ∧ process.address ≠ 0 ∧
        process.address = (kzalloc s.files.kernel 9364).1 ∧
        s'.processes = s.tableSet slot process.address) := by
  have hget : processGet s slot = 0 := by
    unfold processGet
    rw [if_neg (by omega)]
    exact h0
  have hf₁ : ∀ f, (loadStart s).disk = some f → f.NeverTaken := hf
  cases processLoadForSlot_way hget h with
  | process _ hp => exact ⟨rfl, rfl, Or.inl ⟨_, rfl, by decide, by decide, rfl⟩⟩
  | data _ he =>
    obtain ⟨hdisk, hcode⟩ := processLoadData_codes hf₁ he
    exact ⟨hdisk, rfl, Or.inl ⟨_, rfl, (hcode _ rfl).1, (hcode _ rfl).2, rfl⟩⟩
  | stack _ hdata _ =>
    exact ⟨(processLoadData_codes hf₁ hdata).1, rfl, Or.inl ⟨_, rfl, by decide, by decide, rfl⟩⟩
  | @freed program files hat hneg =>
    refine ⟨(processLoadData_codes hf₁ hat.data).1, rfl,
      Or.inl ⟨_, rfl, ?_, Int.ne_of_lt hneg, rfl⟩⟩
    have hcode : (loadMapping s program files).1 = 0 ∨ (loadMapping s program files).1 = -EINVARG :=
      processMapMemory_code _ _ _ _
    rcases hcode with e | e
    · exact absurd (hneg.trans_eq e.symm) (Int.lt_irrefl _)
    · exact e.trans_ne (by decide)
  | mapped hat _ =>
    exact ⟨(processLoadData_codes hf₁ hat.data).1, rfl,
      Or.inr ⟨_, rfl, rfl, hat.process, rfl, rfl⟩⟩

/-- **The ways through `process_load_switch`.** -/
theorem processLoadSwitch_cases {s s' : LoadState π} {filename : List UInt8}
    {r : Except Int LoadedProcess} (hf : ∀ f, s.files.disk = some f → f.NeverTaken)
    (h : processLoadSwitch s filename = some (r, s')) :
    s'.files.disk = s.files.disk ∧
    ((processGetFreeSlot s = none ∧ r = .error (-EISTKN) ∧ s' = s) ∨
      ∃ slot, processGetFreeSlot s = some slot ∧
        ((∃ e, r = .error e ∧ e ≠ -EISTKN ∧ s'.processes = s.processes ∧
            s'.currentProcess = s.currentProcess) ∨
          ∃ process, r = .ok process ∧ process.id = slot ∧ process.address ≠ 0 ∧
            process.address = (kzalloc s.files.kernel 9364).1 ∧
            s'.processes = s.tableSet slot process.address ∧
            s'.currentProcess = process.address)) := by
  unfold processLoadSwitch processLoad at h
  cases hslot : processGetFreeSlot s with
  | none =>
    rw [hslot] at h
    obtain ⟨rfl, rfl⟩ := Prod.mk.inj (Option.some.inj h)
    exact ⟨rfl, Or.inl ⟨rfl, rfl, if_neg (by decide)⟩⟩
  | some slot =>
    obtain ⟨hlt, h0, -⟩ := processGetFreeSlot_some hslot
    rw [hslot] at h
    dsimp only at h
    rcases hload : processLoadForSlot s filename slot with _ | ⟨r', s₁⟩
    · rw [hload] at h
      cases h
    · obtain ⟨hdisk, hcurrent, hcase⟩ := processLoadForSlot_cases hf hlt h0 hload
      rw [hload] at h
      rcases hcase with ⟨e, rfl, hne, hne0, htable⟩ | ⟨process, rfl, hid, hpos, haddr, htable⟩
      · dsimp only at h
        rw [if_neg hne0] at h
        obtain ⟨rfl, rfl⟩ := Prod.mk.inj (Option.some.inj h)
        exact ⟨hdisk, Or.inr ⟨slot, rfl, Or.inl ⟨e, rfl, hne, htable, hcurrent⟩⟩⟩
      · obtain ⟨rfl, rfl⟩ := Prod.mk.inj (Option.some.inj h)
        exact ⟨hdisk, Or.inr ⟨slot, rfl, Or.inr ⟨process, rfl, hid, hpos, haddr, htable, rfl⟩⟩⟩

/-- The process in the first slot in use, where there is one. -/
theorem processSwitchToAny_cases (s : LoadState π) :
    (processSwitchToAny s = none ∧ ∀ i, i < 12 → s.processes i = 0) ∨
      ∃ i, i < 12 ∧ s.processes i ≠ 0 ∧
        processSwitchToAny s = some { s with currentProcess := s.processes i } := by
  unfold processSwitchToAny
  cases hfind : (List.range 12).find? fun i => s.processes i != 0 with
  | none =>
    refine Or.inl ⟨rfl, fun i hi => ?_⟩
    have hno := List.find?_eq_none.mp hfind i (List.mem_range.mpr hi)
    by_contra hne
    exact hno (bne_iff_ne.mpr hne)
  | some i =>
    have hi := List.mem_range.mp (List.mem_of_find?_eq_some hfind)
    have hne := List.find?_some (p := fun i => s.processes i != 0) hfind
    exact Or.inr ⟨i, hi, bne_iff_ne.mp hne, rfl⟩

/-- **The ways through `process_terminate`**: the slot is emptied; the current process stays, or is
    the process of a slot in use, or the kernel panics because no slot is in use. -/
theorem processTerminate_cases (s : LoadState π) (process : LoadedProcess) :
    (processTerminate s process = none ∧ s.currentProcess = process.address ∧
      ∀ i, i < 12 → s.tableSet process.id 0 i = 0) ∨
    ∃ s', processTerminate s process = some (0, s') ∧ s'.files.disk = s.files.disk ∧
      s'.processes = s.tableSet process.id 0 ∧
      ((s.currentProcess ≠ process.address ∧ s'.currentProcess = s.currentProcess) ∨
        ∃ i, i < 12 ∧ s'.processes i ≠ 0 ∧ s'.currentProcess = s'.processes i) := by
  unfold processTerminate
  dsimp only
  generalize processFreeProgramData _ process.program = k
  generalize taskFree _ s.tasks process.task = freed
  obtain ⟨k', tasks⟩ := freed
  dsimp only
  unfold processUnlink
  dsimp only
  by_cases hc : s.currentProcess = process.address
  · rw [if_pos (show (s.withKernel k').currentProcess = process.address from hc)]
    rcases processSwitchToAny_cases { s.withKernel k' with
        tasks := tasks, processes := s.tableSet process.id 0 } with ⟨e, hall⟩ | ⟨i, hi, hne, e⟩
    · exact Or.inl ⟨congrArg _ e, hc, hall⟩
    · exact Or.inr ⟨_, congrArg _ e, rfl, rfl, Or.inr ⟨i, hi, hne, rfl⟩⟩
  · rw [if_neg (show (s.withKernel k').currentProcess ≠ process.address from hc)]
    exact Or.inr ⟨_, rfl, rfl, rfl, Or.inl ⟨hc, rfl⟩⟩

/-! ## 4. Runs -/

/-- The state, the process that each slot of `processes` points to, and the loads that succeeded so
    far. -/
structure ProcessTable (π : Type) where
  state : LoadState π
  slots : Nat → Option LoadedProcess
  loads : Nat

/-- A load stores the new process in the slot it was given, a termination empties the slot that the
    process names. What the process has allocated in the meantime is arbitrary. -/
inductive TableStep : ProcessTable π → ProcessTable π → Prop where
  | load {t : ProcessTable π} {filename : List UInt8} {slot : Nat} {process : LoadedProcess}
      {s' : LoadState π} (h : processLoadSwitch t.state filename = some (.ok process, s'))
      (hslot : processGetFreeSlot t.state = some slot) :
      TableStep t ⟨s', Function.update t.slots slot (some process), t.loads + 1⟩
  | refused {t : ProcessTable π} {filename : List UInt8} {res : Int} {s' : LoadState π}
      (h : processLoadSwitch t.state filename = some (.error res, s')) :
      TableStep t { t with state := s' }
  | terminate {t : ProcessTable π} {i : Nat} {process : LoadedProcess} {res : Int}
      {s' : LoadState π} (hp : t.slots i = some process) (p : Process)
      (h : processTerminate t.state { process with process := p } = some (res, s')) :
      TableStep t { t with state := s', slots := Function.update t.slots process.id none }

def TableRun : ProcessTable π → ProcessTable π → Prop := Relation.ReflTransGen TableStep

/-- No process yet. -/
structure ProcessTable.Start (t : ProcessTable π) : Prop where
  processes : ∀ i, i < 12 → t.state.processes i = 0
  slots : ∀ i, t.slots i = none
  loads : t.loads = 0

/-- **What every state keeps.** -/
structure TableInv (t : ProcessTable π) : Prop where
  pointer : ∀ i, i < 12 → t.state.processes i = ((t.slots i).map LoadedProcess.address).getD 0
  process : ∀ {i p}, t.slots i = some p → i < 12 ∧ p.id = i ∧ p.address ≠ 0
  current : 0 < t.loads → ∃ i p, t.slots i = some p ∧ t.state.currentProcess = p.address

section Runs

variable {t t' : ProcessTable π}

theorem TableInv.start (h : t.Start) : TableInv t where
  pointer i hi := by
    rw [h.processes i hi, h.slots i]
    rfl
  process {i p} hp := by
    rw [h.slots i] at hp
    cases hp
  current hl := by
    rw [h.loads] at hl
    exact absurd hl (Nat.lt_irrefl 0)

/-- The address in a slot in use. -/
theorem TableInv.address (h : TableInv t) {i : Nat} {p : LoadedProcess} (hp : t.slots i = some p) :
    t.state.processes i = p.address := by
  rw [h.pointer i (h.process hp).1, hp]
  rfl

/-- A slot whose address is not null is in use. -/
theorem TableInv.used (h : TableInv t) {i : Nat} (hi : i < 12) (hne : t.state.processes i ≠ 0) :
    ∃ p, t.slots i = some p := by
  rw [h.pointer i hi] at hne
  cases hs : t.slots i with
  | none =>
    rw [hs] at hne
    exact absurd rfl hne
  | some p => exact ⟨p, rfl⟩

/-- One slot of the table and of its processes written: the pointers are those of the processes. -/
theorem TableInv.pointer_set (h : TableInv t) {j : Nat} {s' : LoadState π}
    {v : Option LoadedProcess}
    (htable : s'.processes = t.state.tableSet j ((v.map LoadedProcess.address).getD 0)) (i : Nat)
    (hi : i < 12) : s'.processes i =
      ((Function.update t.slots j v i).map LoadedProcess.address).getD 0 := by
  rw [htable]
  unfold LoadState.tableSet
  by_cases e : i = j
  · rw [if_pos e, e, Function.update_self]
  · rw [if_neg e, Function.update_of_ne e]
    exact h.pointer i hi

/-- **Every step keeps it.** -/
theorem tableInv_step (hf : ∀ f, t.state.files.disk = some f → f.NeverTaken) (h : TableInv t)
    (hs : TableStep t t') : TableInv t' ∧ t'.state.files.disk = t.state.files.disk := by
  cases hs with
  | @load filename slot process s' hload hslot =>
    obtain ⟨hdisk, ⟨hnone, -⟩ | ⟨slot', hslot', ⟨e, he, -⟩ |
      ⟨process', hr, hid, hne, -, htable, hcurrent⟩⟩⟩ := processLoadSwitch_cases hf hload
    · rw [hnone] at hslot
      cases hslot
    · cases he
    · obtain rfl := Except.ok.inj hr
      obtain rfl := Option.some.inj (hslot.symm.trans hslot')
      refine ⟨⟨h.pointer_set htable, fun {i p} hp => ?_, fun _ => ?_⟩, hdisk⟩
      · by_cases e : i = slot
        · subst e
          dsimp only at hp
          rw [Function.update_self] at hp
          obtain rfl := Option.some.inj hp
          exact ⟨(processGetFreeSlot_some hslot).1, hid, hne⟩
        · dsimp only at hp
          rw [Function.update_of_ne e] at hp
          exact h.process hp
      · exact ⟨slot, process, Function.update_self .., hcurrent⟩
  | @refused filename res s' hload =>
    obtain ⟨hdisk, ⟨-, -, rfl⟩ | ⟨slot', -, ⟨e, -, -, htable, hcurrent⟩ | ⟨process, hr, -⟩⟩⟩ :=
      processLoadSwitch_cases hf hload
    · exact ⟨h, rfl⟩
    · refine ⟨⟨fun i hi => ?_, h.process, fun hl => ?_⟩, hdisk⟩
      · exact (congrFun htable i).trans (h.pointer i hi)
      · obtain ⟨i, p, hp, hc⟩ := h.current hl
        exact ⟨i, p, hp, hcurrent.trans hc⟩
    · cases hr
  | @terminate i process res s' hp p hterm =>
    obtain ⟨hi, hid, hne⟩ := h.process hp
    rcases processTerminate_cases t.state { process with process := p } with
      ⟨e, -⟩ | ⟨s₁, e, hdisk, htable, hcurrent⟩
    · rw [e] at hterm
      cases hterm
    · obtain ⟨rfl, rfl⟩ := Prod.mk.inj (Option.some.inj (e.symm.trans hterm))
      have hpointer := h.pointer_set (v := none) htable
      refine ⟨⟨hpointer, fun {j q} hq => ?_, fun hl => ?_⟩, hdisk⟩
      · by_cases e : j = process.id
        · dsimp only at hq
          rw [e, Function.update_self] at hq
          cases hq
        · dsimp only at hq
          rw [Function.update_of_ne e] at hq
          exact h.process hq
      · rcases hcurrent with ⟨hother, hkeep⟩ | ⟨j, hj, hused, hnow⟩
        · -- the current process stands in another slot
          obtain ⟨j, q, hq, hc⟩ := h.current hl
          have hji : j ≠ process.id := by
            rintro rfl
            rw [hid] at hq
            obtain rfl := Option.some.inj (hp.symm.trans hq)
            exact hother hc
          exact ⟨j, q, (Function.update_of_ne hji ..).trans hq, hkeep.trans hc⟩
        · have hslot := hpointer j hj
          cases hq : Function.update t.slots process.id none j with
          | none =>
            rw [hq] at hslot
            exact absurd hslot hused
          | some q =>
            rw [hq] at hslot
            exact ⟨j, q, hq, hnow.trans hslot⟩

theorem tableInv_run {t₀ : ProcessTable π} (hf : ∀ f, t₀.state.files.disk = some f → f.NeverTaken)
    (h0 : t₀.Start) (hr : TableRun t₀ t) :
    TableInv t ∧ t.state.files.disk = t₀.state.files.disk := by
  induction hr with
  | refl => exact ⟨.start h0, rfl⟩
  | tail _ hs ih =>
    obtain ⟨h, hd⟩ := ih
    obtain ⟨h', hd'⟩ := tableInv_step (fun f e => hf f (hd ▸ e)) h hs
    exact ⟨h', hd'.trans hd⟩

end Runs

/-- **The process table in every state of every run** of loads, whether they succeed or fail, and of
    terminations. Each slot in use points to the process that was loaded into it, which has the
    slot's number for its id, and no process stands in two slots (for the pointers, see
    `heldRun_pointers`). A load answers `-EISTKN` exactly where every slot is in use, and a new
    process takes the first empty one. Once a process has been loaded, the current process is one of
    the table; a termination panics exactly where it is that of the last process. -/
theorem processTable_run {t₀ t : ProcessTable π}
    (hf : ∀ f, t₀.state.files.disk = some f → f.NeverTaken) (h0 : t₀.Start) (hr : TableRun t₀ t) :
    (∀ i, i < 12 → t.state.processes i ≠ 0 →
      ∃ p, t.slots i = some p ∧ t.state.processes i = p.address ∧ p.id = i) ∧
    (∀ i j p, t.slots i = some p → t.slots j = some p → i = j) ∧
    (∀ filename r s', processLoadSwitch t.state filename = some (r, s') →
      (r = .error (-EISTKN) ↔ ∀ i, i < 12 → t.state.processes i ≠ 0) ∧
      ∀ p, r = .ok p → p.id < 12 ∧ t.state.processes p.id = 0 ∧
        (∀ j, j < p.id → t.state.processes j ≠ 0) ∧ s'.processes p.id = p.address) ∧
    (0 < t.loads → ∃ i, i < 12 ∧ t.state.processes i ≠ 0 ∧
      t.state.currentProcess = t.state.processes i) ∧
    (∀ i p q, t.slots i = some p → 0 < t.loads →
      (processTerminate t.state { p with process := q } = none ↔
        ∀ j, j < 12 → j ≠ i → t.state.processes j = 0)) := by
  obtain ⟨h, hdisk⟩ := tableInv_run hf h0 hr
  refine ⟨fun i hi hne => ?_, fun i j p hi hj => ?_, fun filename r s' hload => ?_, fun hl => ?_,
    fun i p q hp hl => ?_⟩
  · obtain ⟨p, hp⟩ := h.used hi hne
    exact ⟨p, hp, h.address hp, (h.process hp).2.1⟩
  · exact (h.process hi).2.1.symm.trans (h.process hj).2.1
  · obtain ⟨-, ⟨hnone, rfl, -⟩ | ⟨slot, hslot, hcase⟩⟩ :=
      processLoadSwitch_cases (fun f e => hf f (hdisk ▸ e)) hload
    · refine ⟨⟨fun _ => processGetFreeSlot_none_iff.mp hnone, fun _ => rfl⟩, fun p hp => ?_⟩
      cases hp
    · obtain ⟨hlt, hempty, hbefore⟩ := processGetFreeSlot_some hslot
      refine ⟨⟨fun e => ?_, fun hall => absurd hempty (hall slot hlt)⟩, fun p hp => ?_⟩
      · rcases hcase with ⟨e', rfl, hne, -⟩ | ⟨p, rfl, -⟩
        · exact absurd (Except.error.inj e) hne
        · cases e
      · rcases hcase with ⟨e', rfl, -⟩ | ⟨p', rfl, rfl, -, -, htable, -⟩
        · cases hp
        · obtain rfl := Except.ok.inj hp
          exact ⟨hlt, hempty, hbefore, (congrFun htable _).trans (if_pos rfl)⟩
  · obtain ⟨i, p, hp, hc⟩ := h.current hl
    obtain ⟨hi, -, hne⟩ := h.process hp
    exact ⟨i, hi, (h.address hp).trans_ne hne, hc.trans (h.address hp).symm⟩
  · obtain ⟨-, hid, -⟩ := h.process hp
    rcases processTerminate_cases t.state { p with process := q } with
      ⟨e, -, hall⟩ | ⟨s', e, -, htable, hcurrent⟩
    · refine ⟨fun _ j hj hne => ?_, fun _ => e⟩
      exact (if_neg (hid ▸ hne)).symm.trans (hall j hj)
    · refine ⟨fun hnone => ?_, fun hall => ?_⟩
      · rw [e] at hnone
        cases hnone
      · -- no other slot is in use, so the process is the current one and no slot is left
        obtain ⟨j, p', hp', hc⟩ := h.current hl
        obtain ⟨hj, -, hne'⟩ := h.process hp'
        have hji : j = i := by
          by_contra hji
          exact hne' ((h.address hp').symm.trans (hall j hj hji))
        subst hji
        obtain rfl := Option.some.inj (hp.symm.trans hp')
        rcases hcurrent with ⟨hother, -⟩ | ⟨i', hi', hused, -⟩
        · exact absurd hc hother
        · refine absurd ?_ hused
          rw [htable]
          unfold LoadState.tableSet
          split
          · rfl
          · rename_i hne
            exact hall i' hi' (hid ▸ hne)

section Pointers

/-- The structures of the processes lie in memory in use. No function of the kernel gives one
    back. -/
structure ProcessTable.Held (t : ProcessTable π) : Prop where
  placed : t.state.files.kernel.heap.Placed
  inUse : ∀ i p, t.slots i = some p → t.state.files.kernel.heap.InUse p.address

/-- A run in which they do before every step. -/
def HeldRun : ProcessTable π → ProcessTable π → Prop :=
  Relation.ReflTransGen fun t t' => t.Held ∧ TableStep t t'

theorem HeldRun.tableRun {t₀ t : ProcessTable π} (h : HeldRun t₀ t) : TableRun t₀ t :=
  Relation.ReflTransGen.mono (fun _ _ hs => hs.2) _ _ h

/-- Two slots do not hold one structure. -/
def ProcessTable.Apart (t : ProcessTable π) : Prop :=
  ∀ i j p q, t.slots i = some p → t.slots j = some q → p.address = q.address → i = j

variable {t t' : ProcessTable π}

/-- A slot is emptied. -/
theorem ProcessTable.Apart.without (h : t.Apart) (s' : LoadState π) (i : Nat) (loads : Nat) :
    (ProcessTable.mk s' (Function.update t.slots i none) loads).Apart := by
  have hold : ∀ {j p}, Function.update t.slots i none j = some p → t.slots j = some p := by
    intro j p hp
    by_cases e : j = i
    · rw [e, Function.update_self] at hp
      cases hp
    · rwa [Function.update_of_ne e] at hp
  exact fun j j' p q hp hq e => h j j' p q (hold hp) (hold hq) e

/-- A structure at an address that none has is entered. -/
theorem ProcessTable.Apart.enter (h : t.Apart) (s' : LoadState π) (i : Nat) (loads : Nat)
    {process : LoadedProcess} (hnew : ∀ j p, t.slots j = some p → p.address ≠ process.address) :
    (ProcessTable.mk s' (Function.update t.slots i (some process)) loads).Apart := by
  intro j j' p q hp hq e
  dsimp only at hp hq
  by_cases hj : j = i
  · by_cases hj' : j' = i
    · rw [hj, hj']
    · rw [hj, Function.update_self] at hp
      rw [Function.update_of_ne hj'] at hq
      obtain rfl := Option.some.inj hp
      exact absurd e.symm (hnew j' q hq)
  · rw [Function.update_of_ne hj] at hp
    by_cases hj' : j' = i
    · rw [hj', Function.update_self] at hq
      obtain rfl := Option.some.inj hq
      exact absurd e (hnew j p hp)
    · rw [Function.update_of_ne hj'] at hq
      exact h j j' p q hp hq e

/-- **A step**: a load gets its structure in a free block. -/
theorem apart_step (hf : ∀ f, t.state.files.disk = some f → f.NeverTaken) (hheld : t.Held)
    (h : t.Apart) (hs : TableStep t t') : t'.Apart := by
  cases hs with
  | @load filename slot process s' hload hslot =>
    obtain ⟨-, ⟨hnone, -⟩ | ⟨slot', -, ⟨e, he, -⟩ | ⟨process', hr, -, hne, haddr, -⟩⟩⟩ :=
      processLoadSwitch_cases hf hload
    · rw [hnone] at hslot
      cases hslot
    · cases he
    · obtain rfl := Except.ok.inj hr
      refine h.enter _ _ _ fun j p hp e => ?_
      rw [haddr, kzalloc_ptr] at hne
      obtain ⟨b, hb, hfree, hptr⟩ := heapMalloc_start hheld.placed (by decide) hne
      have hoff := (hheld.inUse j p hp).2 b hb hfree
      rw [e, haddr, kzalloc_ptr, hptr] at hoff
      unfold OffBlock at hoff
      omega
  | refused => exact h
  | terminate => exact h.without _ _ _

/-- **The pointers in two slots differ**, in every state of a run that keeps the structures of the
    processes allocated. -/
theorem heldRun_pointers {t₀ : ProcessTable π}
    (hf : ∀ f, t₀.state.files.disk = some f → f.NeverTaken) (h0 : t₀.Start) (hr : HeldRun t₀ t)
    {i j : Nat} (hi : i < 12) (hj : j < 12) (hused : t.state.processes i ≠ 0)
    (heq : t.state.processes i = t.state.processes j) : i = j := by
  have hapart : t.Apart := by
    clear hused heq
    induction hr with
    | refl =>
      intro i j p q hp
      rw [h0.slots i] at hp
      cases hp
    | @tail t t' hrun hs ih =>
      obtain ⟨-, hdisk⟩ := tableInv_run hf h0 (HeldRun.tableRun hrun)
      exact apart_step (fun f e => hf f (hdisk ▸ e)) hs.1 ih hs.2
  obtain ⟨h, -⟩ := tableInv_run hf h0 hr.tableRun
  obtain ⟨p, hp⟩ := h.used hi hused
  obtain ⟨q, hq⟩ := h.used hj (heq ▸ hused)
  exact hapart i j p q hp hq (by rw [← h.address hp, ← h.address hq, heq])

end Pointers

/-- The first load. -/
theorem tableRun_first {s s₁ : LoadState π} {filename : List UInt8} {process : LoadedProcess}
    (h0 : s.processes 0 = 0) (h : processLoad s filename = some (.ok process, s₁)) :
    ∃ t, TableRun ⟨s, fun _ => none, 0⟩ t ∧ t.loads = 1 := by
  have hswitch : processLoadSwitch s filename =
      some (.ok process, { s₁ with currentProcess := process.address }) := by
    unfold processLoadSwitch
    rw [h]
  have hslot : processGetFreeSlot s = some 0 := by
    unfold processGetFreeSlot
    exact List.find?_range_eq_some.mpr ⟨decide_eq_true h0, List.mem_range.mpr (by decide),
      fun j hj => absurd hj (Nat.not_lt_zero j)⟩
  exact ⟨_, Relation.ReflTransGen.single (TableStep.load hswitch hslot), rfl⟩

/-- The state behind the boot, with its table. -/
def smallTable : ProcessTable FileHandle := ⟨smallState, fun _ => none, 0⟩

theorem smallTable_start : smallTable.Start := ⟨fun _ _ => rfl, fun _ => rfl, rfl⟩

theorem smallTable_neverTaken : ∀ f, smallTable.state.files.disk = some f → f.NeverTaken := by
  intro f e
  have hdisk : smallTable.state.files.disk = some (fat32Fs oneFileVolume smallPrivate 8) := rfl
  rw [hdisk] at e
  rw [← Option.some.inj e]
  exact fat32Fs_neverTaken ..

/-- One program is loaded: it stands in the first slot, and it is the current process. -/
theorem processTable_run_small : ∃ t, TableRun smallTable t ∧ t.loads = 1 ∧
    ∃ i, i < 12 ∧ t.state.processes i ≠ 0 ∧ t.state.currentProcess = t.state.processes i := by
  obtain ⟨process, s₁, hload, -⟩ := smallState_loads
  obtain ⟨t, hrun, hloads⟩ := tableRun_first (smallTable_start.processes 0 (by decide)) hload
  exact ⟨t, hrun, hloads, (processTable_run smallTable_neverTaken smallTable_start hrun).2.2.2.1
    (by rw [hloads]; decide)⟩

end PeachKernel
