/-
  File:      PeachKernel/Process/LoadFrame.lean
  Subject:   What a load leaves alone: memory in use, and the blocks of others.

  A load opens the program's file (twice for a binary), reads it, and builds the stack and the task.
  All of this goes into blocks that were free before, and into the tables of the new directory; the
  one word in use that it writes is the `next` of the task that was the last of the list.

  * `Filesystem.KeepsOwn` -- what is asked of a driver; `fat32Fs_keepsOwn`;
  * `Closable` -- between `fopen` and `fclose`; `fopen_closable`, `Closable.close`;
  * `FileFits` -- the file's memory is granted: `elf_load` does not look at the answer, and reads
    the file to address 0 otherwise;
  * `processLoadData_since`, `taskNew_since`, `processMapMemory_frame` -- the parts of a load;
  * `processLoadSwitch_leaves` -- a load.
-/
import PeachKernel.Heap.Since
import PeachKernel.Lib.CString
import PeachKernel.Process.MapPages
import PeachKernel.Process.Table

namespace PeachKernel

open CInt Mem

variable {π : Type}

/-! ## 1. Files -/

theorem parserKeeps_since (k₀ : Kernel) (own : List Allocation) :
    ParserKeeps fun k => Since k₀ k own where
  alloc _ h1 h2 h := h.ask h1 h2
  giveBack {k} h := by
    by_cases h0 : (kzalloc k 108).1 = 0
    · rw [kzalloc_null h.inv.placed (by decide) (by decide) h0]
      exact h.free_null
    · exact (h.grant (by decide) (by decide) h0).free_own

/-- **A driver that keeps to its own blocks**: an open file has allocations that its `close`
    releases, and a read stores no more than was asked for. -/
structure Filesystem.KeepsOwn (filesystem : Filesystem π) : Prop where
  opens : ∀ {k₀ k k' : Kernel} {own : List Allocation} {part : PathPart} {next : List PathPart}
    {mode : FileMode} {r : Except Int (Nat × π)}, Since k₀ k own →
    filesystem.openFn k part next mode = some (r, k') → Since k₀ k' own ∧
    ∀ ptr p, r = .ok (ptr, p) → ∃ priv, Since k₀ k' (priv ++ own) ∧
      ∀ {k₁ : Kernel} {own₁ : List Allocation} (q : π), Since k₀ k₁ (priv ++ own₁) →
        Since k₀ (filesystem.closeFn k₁ (ptr, q)).2 own₁
  reads : ∀ {p : π} {size : Nat} {r : Int × List UInt8 × π},
    filesystem.readFn p size 1 = some r → r.2.1.length ≤ size

/-- **Between `fopen` and `fclose`**: the descriptor, where the lookup finds one, and the driver's
    allocations are held. -/
def Closable (k₀ : Kernel) (own : List Allocation) (fd : Int) (s : Files π) : Prop :=
  Since k₀ s.kernel own ∧ ∀ d, fileGetDescriptor s fd = some d → ∃ priv,
    Since k₀ s.kernel (⟨d.address, 16⟩ :: (priv ++ own)) ∧
      ∀ {k₁ : Kernel} {own₁ : List Allocation} (q : π), Since k₀ k₁ (priv ++ own₁) →
        Since k₀ (d.filesystem.closeFn k₁ (d.priv.1, q)).2 own₁

section Files

variable {k₀ : Kernel} {own : List Allocation} {s s' : Files π} {filename : List UInt8} {fd : Int}

theorem fopen_closable {modeStr : List UInt8} (hf : ∀ f, s.disk = some f → f.KeepsOwn)
    (h : Since k₀ s.kernel own) (ho : fopen s filename modeStr = some (fd, s')) :
    Closable k₀ own fd s' := by
  have hparse : Since k₀ (pathparserParse s.kernel filename).2 own :=
    pathparserParse_keeps (parserKeeps_since k₀ own) h filename
  have hpriv : ∀ {r k}, fopenPrivate s filename modeStr = some (r, k) → Since k₀ k own ∧
      ∀ f ptr p, r = .ok (f, ptr, p) → ∃ priv, Since k₀ k (priv ++ own) ∧
        ∀ {k₁ : Kernel} {own₁ : List Allocation} (q : π), Since k₀ k₁ (priv ++ own₁) →
          Since k₀ (f.closeFn k₁ (ptr, q)).2 own₁ := by
    intro r k hr
    rcases fopenPrivate_cases hr with
      ⟨e, -, rfl, rfl⟩ | ⟨root, part, next, f, r', -, -, -, hdisk, hopen, hcase⟩
    · refine ⟨hparse, fun _ _ _ e => ?_⟩
      cases e
    · obtain ⟨hk, hopened⟩ := (hf f hdisk).opens hparse hopen
      refine ⟨hk, fun f' ptr p e => ?_⟩
      rcases hcase with ⟨_, -, rfl⟩ | ⟨q, rfl, rfl⟩
      · cases e
      · obtain ⟨rfl, rfl⟩ := Prod.mk.inj (Except.ok.inj e)
        exact hopened ptr p rfl
  rcases fopen_cases ho with
    ⟨rfl, r, k, hp, rfl⟩ | ⟨f, ⟨ptr, p⟩, k, i, hp, hfree, rfl, hcase⟩
  · refine ⟨(hpriv hp).1, fun d hd => ?_⟩
    exact absurd (fileGetDescriptor_some hd).1 (by decide)
  · obtain ⟨hk, hopened⟩ := hpriv hp
    obtain ⟨priv, hheld, hclose⟩ := hopened f ptr p rfl
    have hslot : ((i : Int) + 1 - 1).toNat = i := by omega
    rcases hcase with ⟨h0, rfl⟩ | ⟨h0, rfl⟩
    · refine ⟨hk.ask (by decide) (by decide), fun d hd => ?_⟩
      -- the slot is empty, so the lookup finds no descriptor
      obtain ⟨-, -, hd⟩ := fileGetDescriptor_some hd
      rw [hslot] at hd
      obtain ⟨-, hnone, -⟩ := freeSlot_some hfree
      exact absurd (hnone.symm.trans hd) (Option.some_ne_none d).symm
    · refine ⟨hk.ask (by decide) (by decide), fun d hd => ?_⟩
      obtain ⟨-, -, hd⟩ := fileGetDescriptor_some hd
      rw [hslot, Files.set_self] at hd
      obtain rfl := Option.some.inj hd
      exact ⟨priv, hheld.grant (by decide) (by decide) h0, hclose⟩

/-- **`fclose`** gives back what `fopen` took. -/
theorem Closable.close (h : Closable k₀ own fd s) : Since k₀ (fclose s fd).2.kernel own := by
  cases hd : fileGetDescriptor s fd with
  | none =>
    unfold fclose
    rw [hd]
    exact h.1
  | some d =>
    obtain ⟨priv, hheld, hclose⟩ := h.2 d hd
    rw [fclose_eq hd]
    have hpriv : Since k₀ s.kernel (priv ++ (⟨d.address, 16⟩ :: own)) :=
      hheld.perm List.perm_middle
    exact (hclose d.priv.2 hpriv).free_own

/-- A change of the kernel that keeps what is owned. -/
theorem Closable.kernel (h : Closable k₀ own fd s) {k : Kernel}
    (hk : ∀ {own' : List Allocation}, Since k₀ s.kernel own' → Since k₀ k own') :
    Closable k₀ own fd { s with kernel := k } := by
  refine ⟨hk h.1, fun d hd => ?_⟩
  obtain ⟨priv, hheld, hclose⟩ := h.2 d hd
  exact ⟨priv, hk hheld, hclose⟩

/-- `fread` of a file. -/
theorem Closable.read (h : Closable k₀ own fd s) {size : Nat} {res : Int} {out : List UInt8}
    (hr : fread s size 1 fd = some (res, out, s')) : Closable k₀ own fd s' := by
  rcases fread_cases hr with ⟨-, -, rfl⟩ | ⟨d, _, -, hd, -, -, -, rfl⟩
  · exact h
  · refine ⟨h.1, fun d' hd' => ?_⟩
    obtain ⟨priv, hheld, hclose⟩ := h.2 d hd
    obtain ⟨-, -, hd'⟩ := fileGetDescriptor_some hd'
    unfold Files.setPrivate at hd'
    rw [Files.set_self] at hd'
    obtain rfl := Option.some.inj hd'
    exact ⟨priv, hheld, hclose⟩

end Files

/-! ## 2. FAT32 -/

theorem fat32ReadInternal_length {d : Disk} {fs : Fat32Private} (fuel : Nat) :
    ∀ {n : Nat} {h : FileHandle} {r : ReadResult}, fat32ReadInternal d fs fuel n h = some r →
      r.out.length ≤ n := by
  induction fuel with
  | zero =>
    intro n h r hr
    cases hr
  | succ fuel ih =>
    intro n h r hr
    unfold fat32ReadInternal at hr
    dsimp only at hr
    have hturn : howManyToRead fs h n ≤ n := Nat.min_le_right ..
    have hout := seekRead_length d (u32 ((getClusterDataDiskPos fs h.currentCluster : Int) +
      h.positionInCluster)) (howManyToRead fs h n)
    generalize seekRead d _ (howManyToRead fs h n) = out at hr hout
    have hle := hout.trans hturn
    split at hr
    · obtain rfl := Option.some.inj hr
      exact hle
    split at hr
    · obtain rfl := Option.some.inj hr
      exact hle
    split at hr
    · obtain rfl := Option.some.inj hr
      exact hle
    · obtain ⟨r', hr', rfl⟩ := Option.map_eq_some_iff.mp hr
      have hrest : r'.out.length ≤ n - howManyToRead fs h n := ih hr'
      dsimp only
      rw [List.length_append]
      omega

theorem fat32Fs_keepsOwn (d : Disk) (fs : Fat32Private) (fuel : Nat) :
    (fat32Fs d fs fuel).KeepsOwn where
  opens {k₀ k k' own part next mode r} h ho := by
    rw [fat32Fs_open] at ho
    rcases fat32Open_cases ho with ⟨e, -, rfl, rfl⟩ | ⟨rfl, ⟨h0, rfl⟩ | ⟨hne, handle, rfl⟩⟩
    · refine ⟨h, fun _ _ e' => ?_⟩
      cases e'
    · refine ⟨h.ask (by decide) (by decide), fun _ _ e' => ?_⟩
      cases e'
    · refine ⟨h.ask (by decide) (by decide), fun ptr p e' => ?_⟩
      obtain ⟨rfl, rfl⟩ := Prod.mk.inj (Except.ok.inj e')
      exact ⟨[⟨(kzalloc k 24).1, 24⟩], h.grant (by decide) (by decide) hne,
        fun _ hheld => hheld.free_own⟩
  reads {p size r} h := by
    obtain ⟨r', hr', rfl⟩ := Option.map_eq_some_iff.mp h
    unfold fat32Read readItems at hr'
    cases hblock : fat32ReadInternal d fs fuel size p with
    | none =>
      rw [hblock] at hr'
      cases hr'
    | some block =>
      have hlen := fat32ReadInternal_length fuel hblock
      rw [hblock] at hr'
      dsimp only at hr'
      split at hr'
      · obtain rfl := Option.some.inj hr'
        exact hlen
      · rw [readItems] at hr'
        obtain rfl := Option.some.inj hr'
        simpa using hlen

/-! ## 3. The program's file -/

/-- **The file's memory**: its size does not lead out of the address space, and the memory that
    `elf_load` asks for, without a look at the answer, is granted. -/
structure FileFits (s : Files π) (filename : List UInt8) : Prop where
  size : ∀ (s₁ : Files π) {s₂ : Files π} {fd : Int}, s₁.disk = s.disk →
    fopen s₁ filename readMode = some (fd, s₂) → s.kernel.heap.Reaches (statSize (fstat s₂ fd).2)
  granted : ∀ {s₂ : Files π} {fd : Int},
    fopen { s with kernel := (kzalloc s.kernel 132).2 } filename readMode = some (fd, s₂) → 0 < fd →
    (kzalloc s₂.kernel (statSize (fstat s₂ fd).2)).1 ≠ 0

section Data

variable {k₀ : Kernel} {own : List Allocation} {s s' : Files π} {filename : List UInt8} {fd : Int}

/-- What a read of an open file stores. -/
theorem fread_length {modeStr out : List UInt8} {size : Nat} {res : Int} {k : Kernel}
    {s'' : Files π} (hf : ∀ f, s.disk = some f → f.KeepsOwn)
    (h : fopen s filename modeStr = some (fd, s'))
    (hr : fread { s' with kernel := k } size 1 fd = some (res, out, s'')) : out.length ≤ size := by
  rcases fread_cases hr with ⟨-, rfl, -⟩ | ⟨_, _, -, hd, hread, -, rfl, -⟩
  · exact Nat.zero_le _
  · have hget : fileGetDescriptor s' fd = some _ := hd
    exact (hf _ (fopen_driver h hget)).reads hread

theorem Heap.Reaches.congr {heap heap' : Heap} {size : Nat} (h : heap.Reaches size)
    (hs : heap'.saddr = heap.saddr) (ht : heap'.table.total = heap.table.total) :
    heap'.Reaches size := by
  unfold Heap.Reaches at h ⊢
  rwa [hs, ht]

/-- Bytes that go to the memory asked for are not stored over memory in use. -/
theorem Since.copyIn_off {k : Kernel} {size : Nat} {out : List UInt8} (h : Since k₀ k own)
    (hs : k₀.heap.Reaches size) (ho : out.length ≤ size) (h0 : (PeachKernel.kzalloc k size).1 ≠ 0)
    (m : Mem) {x : Nat} (hx : k₀.heap.InUse x) :
    copyIn m (PeachKernel.kzalloc k size).1 out x = m x := by
  have hoff := h.kzalloc_off hs h0 hx
  have hbound := hx.1
  have hptr := h.kzalloc_lt hs h0
  unfold Heap.Reaches at hs
  exact copyIn_other (by omega) (by omega) (by omega)

/-- `fread` does not look at the kernel. -/
theorem fread_withKernel {size : Nat} {res : Int} {out : List UInt8} {k : Kernel}
    (hr : fread { s with kernel := k } size 1 fd = some (res, out, s')) (k' : Kernel) :
    fread { s with kernel := k' } size 1 fd = some (res, out, { s' with kernel := k' }) := by
  have hget : ∀ k, fileGetDescriptor { s with kernel := k } fd = fileGetDescriptor s fd :=
    fun _ => rfl
  unfold fread at hr ⊢
  rw [hget] at hr ⊢
  split at hr
  · rename_i hbad
    rw [if_pos hbad]
    obtain ⟨rfl, rfl, rfl⟩ := Option.some.inj hr
    rfl
  · rename_i hok
    rw [if_neg hok]
    cases hd : fileGetDescriptor s fd with
    | none =>
      rw [hd] at hr
      obtain ⟨rfl, rfl, rfl⟩ := Option.some.inj hr
      rfl
    | some d =>
      rw [hd] at hr
      obtain ⟨r, hread, e⟩ := Option.map_eq_some_iff.mp hr
      obtain ⟨rfl, rfl, rfl⟩ := e
      dsimp only
      rw [hread]
      rfl

/-- A file is read, and the kernel changed in a way that keeps what is owned. -/
theorem Closable.readWith {size : Nat} {res : Int} {out : List UInt8} {k k' : Kernel}
    (h : Closable k₀ own fd s)
    (hr : fread { s with kernel := k } size 1 fd = some (res, out, s'))
    (hk : ∀ {own' : List Allocation}, Since k₀ s.kernel own' → Since k₀ k' own') :
    Closable k₀ own fd { s' with kernel := k' } :=
  (h.kernel hk).read (fread_withKernel hr k')

/-- The file is read into its memory. -/
theorem Closable.stored {size : Nat} {res : Int} {out : List UInt8}
    (h : Closable k₀ own fd s) (hs : k₀.heap.Reaches size) (ho : out.length ≤ size)
    (h0 : (kzalloc s.kernel size).1 ≠ 0)
    (hr : fread { s with kernel := (kzalloc s.kernel size).2 } size 1 fd = some (res, out, s')) :
    Closable k₀ own fd (s'.store (kzalloc s.kernel size).1 out) := by
  have hkeep : Closable k₀ own fd { s' with kernel := ⟨(kzalloc s.kernel size).2.heap,
      copyIn (kzalloc s.kernel size).2.mem (kzalloc s.kernel size).1 out⟩ } :=
    h.readWith hr fun h' => (h'.kzalloc hs).store fun x hx => h.1.copyIn_off hs ho h0 _ hx
  have hkernel := fread_kernel hr
  dsimp only at hkernel
  unfold Files.store
  rwa [hkernel]

/-- ... and its memory is given back. -/
theorem Closable.released {size : Nat} {res : Int} {out : List UInt8}
    (h : Closable k₀ own fd s) (hs : k₀.heap.Reaches size) (ho : out.length ≤ size)
    (h0 : (kzalloc s.kernel size).1 ≠ 0)
    (hr : fread { s with kernel := (kzalloc s.kernel size).2 } size 1 fd = some (res, out, s')) :
    Closable k₀ own fd { s'.store (kzalloc s.kernel size).1 out with
      kernel := kfree (s'.store (kzalloc s.kernel size).1 out).kernel
        (kzalloc s.kernel size).1 } := by
  have hkernel : (s'.store (kzalloc s.kernel size).1 out).kernel = ⟨(kzalloc s.kernel size).2.heap,
      copyIn (kzalloc s.kernel size).2.mem (kzalloc s.kernel size).1 out⟩ := by
    unfold Files.store
    dsimp only
    rw [fread_kernel hr]
  have hkeep := h.readWith hr fun h' => h'.giveBack hs h0
    ((h'.kzalloc hs).store fun x hx => h.1.copyIn_off hs ho h0 (kzalloc s.kernel size).2.mem hx)
  rw [hkernel]
  exact hkeep

/-- `elf_load`. -/
theorem elfLoadFrom_since {r : Except Int ElfFile} (hf : ∀ f, s.disk = some f → f.KeepsOwn)
    (hfit : FileFits s filename) (h : Since k₀ s.kernel own)
    (hl : elfLoadFrom s filename = some (r, s')) : Since k₀ s'.kernel own := by
  have hask : Since k₀ (elfStart s).kernel own := h.ask (by decide) (by decide)
  have hf₁ : ∀ f, (elfStart s).disk = some f → f.KeepsOwn := hf
  cases elfLoadFrom_way hl with
  | @unopened fd s₁ ho _ =>
    -- no descriptor has the number 0
    have hnone : fileGetDescriptor s₁ 0 = none := if_pos (Or.inl (Int.le_refl 0))
    unfold fclose
    rw [hnone]
    exact (fopen_closable hf₁ hask ho).1
  | stat ho _ _ => exact (fopen_closable hf₁ hask ho).close
  | read ho hfd _ hr _ _ =>
    have hsize := (hfit.size (elfStart s) rfl ho).congr h.saddr.symm h.total.symm
    have hstored := (fopen_closable hf₁ hask ho).stored hsize (fread_length hf₁ ho hr)
      (hfit.granted ho hfd) hr
    exact hstored.close

/-- `process_load_binary`. -/
theorem processLoadBinary_since {r : Except Int ProgramData}
    (hf : ∀ f, s.disk = some f → f.KeepsOwn)
    (hsize : ∀ {s₂ : Files π} {fd : Int}, fopen s filename readMode = some (fd, s₂) →
      k₀.heap.Reaches (statSize (fstat s₂ fd).2)) (h : Since k₀ s.kernel own)
    (hl : processLoadBinary s filename = some (r, s')) : Since k₀ s'.kernel own := by
  cases processLoadBinary_way hl with
  | unopened ho => exact (fopen_closable hf h ho).close
  | stat ho _ => exact (fopen_closable hf h ho).close
  | memory ho _ => exact ((fopen_closable hf h ho).kernel fun h' => h'.kzalloc (hsize ho)).close
  | unread ho _ h0 hr _ =>
    exact ((fopen_closable hf h ho).released (hsize ho) (fread_length hf ho hr) h0 hr).close
  | read ho _ h0 hr =>
    exact ((fopen_closable hf h ho).stored (hsize ho) (fread_length hf ho hr) h0 hr).close

/-- **The program's data**: a file that is no ELF file is opened a second time. -/
theorem processLoadData_since {r : Except Int ProgramData}
    (hf : ∀ f, s.disk = some f → f.KeepsOwn) (hfit : FileFits s filename)
    (h : Since k₀ s.kernel own) (hl : processLoadData s filename = some (r, s')) :
    Since k₀ s'.kernel own := by
  rcases processLoadData_way hl with ⟨_, -, helf⟩ | ⟨_, -, helf⟩ | ⟨s₁, helf, hbinary⟩
  · exact elfLoadFrom_since hf hfit h helf
  · exact elfLoadFrom_since hf hfit h helf
  · have hd₁ := elfLoadFrom_disk helf
    refine processLoadBinary_since (fun f hs => hf f (hd₁ ▸ hs)) (fun ho => ?_)
      (elfLoadFrom_since hf hfit h helf) hbinary
    exact (hfit.size s₁ hd₁ ho).congr h.saddr.symm h.total.symm

end Data

/-! ## 4. The task -/

/-- The kernel with the new task behind the last one of the list. -/
def Kernel.linked (k : Kernel) (g : TaskGlobals) (task : Nat) : Kernel :=
  if g.head = 0 then k else ⟨k.heap, store32 k.mem (g.tail + 56) task⟩

theorem Kernel.linked_heap (k : Kernel) (g : TaskGlobals) (task : Nat) :
    (k.linked g task).heap = k.heap := by
  unfold Kernel.linked
  split
  · rfl
  · rfl

/-- The `next` of the last task is in use. -/
def TailInUse (k : Kernel) (g : TaskGlobals) : Prop :=
  g.head ≠ 0 → ∀ a, g.tail + 56 ≤ a → a < g.tail + 60 → k.heap.InUse a

section Tasks

variable {k₀ k k' : Kernel} {own : List Allocation} {g : TaskGlobals} {d : Directory}

/-- **Tables only** are written: memory in use stays. -/
theorem Since.tablesOnly (h : Since k₀ k own) (hsub : ∀ x ∈ d.allocations, x ∈ own) {m : Mem}
    (hm : TablesOnly d k.mem m) : Since k₀ ⟨k.heap, m⟩ own :=
  h.store fun _ hx => hm _ fun _ ht =>
    h.off_own hx (hsub _ (List.mem_append_left _ (List.mem_map_of_mem ht)))

/-- Words of other blocks may change: a directory that maps every page to itself stays one. -/
theorem identity_congr {m m' : Mem} {flags : Nat} (hd : HasDirectory m d)
    (hid : TablesIdentity m flags d.tables)
    (hm : ∀ x ∈ d.allocations, ∀ a, x.ptr ≤ a → a < x.ptr + 4096 → m' a = m a) :
    HasDirectory m' d ∧ TablesIdentity m' flags d.tables := by
  have hchunk : (⟨d.chunk, 4⟩ : Allocation) ∈ d.allocations :=
    List.mem_append_right _ (List.mem_cons_of_mem _ List.mem_cons_self)
  have hdir : tableAlloc d.directory ∈ d.allocations :=
    List.mem_append_right _ List.mem_cons_self
  refine ⟨hd.congr (fun a h1 h2 => hm _ hchunk a h1 ?_) fun a h1 h2 => hm _ hdir a h1 h2,
    hid.congr fun t ht a h1 h2 => hm _ (List.mem_append_left _ (List.mem_map_of_mem ht)) a h1 h2⟩
  show a < d.chunk + 4096
  omega

/-- **A new task**, its directory, which maps every page to itself, and the link to it. -/
theorem taskNew_since (process : TaskProcess) (h : Since k₀ k own) (hg : TailInUse k₀ g)
    (task : Nat) (ht : (taskNew k g process).1 = .ok task) :
    ∃ d, Since (k₀.linked g task)
      (taskNew k g process).2.1 (d.allocations ++ taskAlloc task :: own) ∧
      HasDirectory (taskNew k g process).2.1.mem d ∧
      pageDirectoryOf (taskNew k g process).2.1.mem task = d.chunk ∧
      TablesIdentity (taskNew k g process).2.1.mem (pagingIsPresent ||| pagingAccessFromAll)
        d.tables := by
  obtain ⟨k₂, d, hmade, e⟩ := taskNew_created h.inv ht
  have hnew : Since k₀ k₂ (d.allocations ++ taskAlloc task :: own) := by
    have happend := h.grows hmade.grows
    rwa [List.append_assoc] at happend
  have htask : taskAlloc task ∈ d.allocations ++ taskAlloc task :: own :=
    List.mem_append_right _ List.mem_cons_self
  rw [e]
  unfold Kernel.linked
  by_cases hh : g.head = 0
  · rw [if_pos hh, if_pos hh]
    exact ⟨d, hnew, hmade.directory, hmade.chunk, hmade.identity⟩
  · rw [if_neg hh, if_neg hh]
    dsimp only
    -- the word of the task before lies off everything new, the word of the new one in its own page
    have hlink : ∀ y ∈ d.allocations ++ taskAlloc task :: own, ∀ a, y.ptr ≤ a → a < y.ptr + 4096 →
        a < g.tail + 56 ∨ g.tail + 60 ≤ a := by
      intro y hy a h1 h2
      by_contra hin
      have hoff := hnew.off_own (hg hh a (by omega) (by omega)) hy
      unfold OffBlock at hoff
      omega
    have hother : ∀ x ∈ d.allocations, ∀ a, x.ptr ≤ a → a < x.ptr + 4096 →
        store32 (store32 k₂.mem (g.tail + 56) task) (task + 60) g.tail a = k₂.mem a := by
      intro x hx a h1 h2
      have hx' : x ∈ d.allocations ++ taskAlloc task :: own := List.mem_append_left _ hx
      have hne : x ≠ taskAlloc task := fun e =>
        List.disjoint_of_nodup_append hnew.inv.nodup hx (e ▸ List.mem_cons_self)
      have hsmall : blocksFor x.size = 1 := hmade.grows.small x (List.mem_append_left _ hx)
      have hoff : a < task ∨ task + 4096 ≤ a :=
        hnew.inv.off_of_ne hx' htask hne hsmall (taskAlloc_blocks task) h1 h2
      have hw := hlink x hx' a h1 h2
      rw [store32_other (by omega), store32_other (by omega)]
    obtain ⟨hdir, hid⟩ := identity_congr hmade.directory hmade.identity hother
    refine ⟨d, hnew.rebase fun x hx => ?_, hdir, ?_, hid⟩
    · have hoff : OffBlock x task := hnew.off_own hx htask
      unfold OffBlock at hoff
      rw [store32_other (by omega)]
      unfold store32
      rw [hnew.mem x hx]
    · rw [← hmade.chunk]
      refine load32_congr fun a h1 h2 => ?_
      have hw := hlink _ htask a h1 (show a < task + 4096 by omega)
      rw [store32_other (by omega), store32_other (by omega)]

/-- **Mapping the program and the stack** writes the tables only. -/
theorem processMapMemory_frame {heap : Heap} {live : List Allocation} {m : Mem}
    (h : HeapInv heap (d.allocations ++ live)) (hd : HasDirectory m d) (program : ProgramData)
    (stack : Nat) : TablesOnly d m (processMapMemory m d.chunk program stack).2 := by
  have hs : d.Separate :=
    h.separate (fun x hx => List.mem_append_left _ hx) (List.nodup_append.mp h.nodup).1
  have hstack : ∀ {r : Int × Mem}, TablesOnly d m r.2 →
      TablesOnly d m (if r.1 < 0 then r else
        (r.1, (pagingMapTo r.2 d.chunk (0x3FF000 - 1024 * 16) stack
        (pagingAlignAddress (u32 ((stack + 1024 * 16 : Nat) : Int))) programFlags).2)).2 := by
    intro r hr
    split
    · exact hr
    · have hv : 0x3FF000 - 1024 * 16 < 4294967296 := by decide
      exact hr.trans (pagingMapTo_frame (hd.tablesOnly hs hr) hs hv _ _ _)
  cases program with
  | elf file =>
    have hchunk : ChunkOk m d.chunk d.directory := ⟨hd.chunk, fun a h1 h2 i hi => by
      rw [hd.tableOf hi]
      exact hs.chunk _ (hd.mem_tables hi) a h1 h2⟩
    have hfile : TablesOnly d m (processMapElf m d.chunk file).2 := by
      refine fun a ha => (processMapElf_mapsTo (h.dirOk hd) hchunk).frame a fun i hi => ?_
      rw [hd.tableOf hi]
      exact ha _ (hd.mem_tables hi)
    exact hstack hfile
  | binary ptr size =>
    have hprogram : 0x400000 < 4294967296 := by decide
    have hvideo : 0xB8000 < 4294967296 := by decide
    have h1 := pagingMapTo_frame hd hs hprogram ptr
      (pagingAlignAddress (u32 ((ptr + size : Nat) : Int))) programFlags
    have h2 := h1.trans (pagingMapTo_frame (hd.tablesOnly hs h1) hs hvideo 0xB8000
      (pagingAlignAddress (0xB8000 + 20 * 80 * 2)) programFlags)
    exact hstack h2

theorem taskNew_error (k : Kernel) (g : TaskGlobals) (process : TaskProcess) (e : Int)
    (h : (taskNew k g process).1 = .error e) : e = -ENOMEM ∨ e = - EIO := by
  unfold taskNew at h
  dsimp only at h
  split at h
  · exact Or.inl (Except.error.inj h).symm
  split at h
  · obtain rfl := Except.error.inj h
    rename_i hneg
    unfold taskInit at hneg ⊢
    dsimp only at hneg ⊢
    split
    · exact Or.inr rfl
    · rename_i hne
      rw [if_neg hne] at hneg
      exact absurd hneg (Int.lt_irrefl 0)
  split at h
  · cases h
  split at h
  · cases h
  · cases h

/-- **A task was created**: the pointer to it is no error code. -/
def TaskCreated (process : LoadedProcess) : Prop :=
  process.task ≠ u32 (-ENOMEM) ∧ process.task ≠ u32 (- EIO)

end Tasks

/-! ## 5. A load -/

section Load

variable {s s' : LoadState π} {filename : List UInt8} {process : LoadedProcess}

theorem processLoadForSlot_leaves {slot : Nat} (hp : s.files.kernel.heap.Placed)
    (hn : s.files.kernel.heap.NullStops) (hr : s.files.kernel.heap.Reaches (1024 * 16))
    (hf : ∀ f, s.files.disk = some f → f.KeepsOwn)
    (hfit : FileFits (s.withKernel (kzalloc s.files.kernel 9364).2).files filename)
    (hg : TailInUse s.files.kernel s.tasks) (ht : TaskCreated process)
    (h : processLoadForSlot s filename slot = some (.ok process, s')) :
    ∃ d, process.process = freshProcess d.chunk ∧ HasDirectory s'.files.kernel.mem d ∧
      Since (s.files.kernel.linked s.tasks process.task) s'.files.kernel
        (d.allocations ++ [taskAlloc process.task]) := by
  have hr' : s.files.kernel.heap.Reaches 9364 := by
    unfold Heap.Reaches at hr ⊢
    omega
  have h₀ : Since s.files.kernel (loadStart s).kernel [] := (Since.refl hp hn).kzalloc hr'
  have hf₁ : ∀ f, (loadStart s).disk = some f → f.KeepsOwn := hf
  obtain ⟨program, files, hat, rfl, rfl⟩ := processLoadForSlot_ok h
  have h₂ := (processLoadData_since hf₁ hfit h₀ hat.data).kzalloc hr
  have herror := taskNew_error (kzalloc files.kernel (1024 * 16)).2 s.tasks
    ⟨(kzalloc s.files.kernel 9364).1, program.entry (kzalloc files.kernel (1024 * 16)).2.mem⟩
  have hnew := taskNew_since
    ⟨(kzalloc s.files.kernel 9364).1, program.entry (kzalloc files.kernel (1024 * 16)).2.mem⟩ h₂ hg
  unfold TaskCreated loadedProcess at ht
  unfold loadedProcess loadMapped loadMapping
  dsimp only at ht ⊢
  unfold loadTask at ht ⊢
  generalize taskNew _ _ _ = created at ht hnew herror ⊢
  obtain ⟨task, k, tasks⟩ := created
  dsimp only at ht hnew herror ⊢
  cases task with
  | error e =>
    -- the pointer is an error code
    rcases herror e rfl with rfl | rfl
    · exact absurd rfl ht.1
    · exact absurd rfl ht.2
  | ok task =>
    obtain ⟨d, hsince, hdir, hchunk, -⟩ := hnew task rfl
    have htask : taskPointer (.ok task) = task := rfl
    rw [htask, hchunk]
    have hsub : ∀ x ∈ d.allocations, x ∈ d.allocations ++ [taskAlloc task] :=
      fun x hx => List.mem_append_left _ hx
    have hs : d.Separate :=
      hsince.inv.separate hsub (List.nodup_append.mp hsince.inv.nodup).1
    have hframe := processMapMemory_frame hsince.inv hdir program
      (kzalloc files.kernel (1024 * 16)).1
    exact ⟨d, rfl, hdir.tablesOnly hs hframe, hsince.tablesOnly hsub hframe⟩

/-- **A load that created a task** built a directory for it and leaves memory in use as it was, the
    `next` of the task before it apart. -/
theorem processLoadSwitch_leaves (hp : s.files.kernel.heap.Placed)
    (hn : s.files.kernel.heap.NullStops) (hr : s.files.kernel.heap.Reaches (1024 * 16))
    (hf : ∀ f, s.files.disk = some f → f.KeepsOwn)
    (hfit : FileFits (s.withKernel (kzalloc s.files.kernel 9364).2).files filename)
    (hg : TailInUse s.files.kernel s.tasks) (ht : TaskCreated process)
    (h : processLoadSwitch s filename = some (.ok process, s')) :
    ∃ d, process.process = freshProcess d.chunk ∧ HasDirectory s'.files.kernel.mem d ∧
      Since (s.files.kernel.linked s.tasks process.task) s'.files.kernel
        (d.allocations ++ [taskAlloc process.task]) := by
  unfold processLoadSwitch processLoad at h
  cases hslot : processGetFreeSlot s with
  | none =>
    rw [hslot] at h
    cases h
  | some slot =>
    rw [hslot] at h
    dsimp only at h
    rcases hload : processLoadForSlot s filename slot with _ | ⟨e | process', s₁⟩
    · rw [hload] at h
      cases h
    · rw [hload] at h
      cases h
    · rw [hload] at h
      obtain ⟨hprocess, rfl⟩ := Prod.mk.inj (Option.some.inj h)
      obtain rfl := Except.ok.inj hprocess
      have hleaves := processLoadForSlot_leaves hp hn hr hf hfit hg ht hload
      exact hleaves

end Load

end PeachKernel
