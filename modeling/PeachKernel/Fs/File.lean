/-
  File:      PeachKernel/Fs/File.lean
  Subject:   The file layer `fs/file.c`: the table of file descriptors between the callers and the
             filesystem drivers.

  A driver is its table of functions (`Filesystem`), over the type `π` of what it keeps for an open
  file. A descriptor is a value that knows the address of its block, and so is the driver's part of
  it; the heap is state, as the path, the driver's part and the descriptor are allocations. There is
  one disk, the one of drive 0.

  * `fopen`, `fclose`, `fread`, `fseek`, `fstat` -- the source functions;
  * `FileRun` -- any sequence of calls, with the files that are open beside the state;
  * `FilesInv`, `fileRun_inv` -- every open file has a slot of its own;
  * `fileRun_descriptors` -- what holds of them. The table has 512 slots, and slot `i` is file
    descriptor `i + 1`, but the lookup refuses 512.
-/
import PeachKernel.Fs.Fat
import PeachKernel.Fs.PathParser

namespace PeachKernel

open CInt Mem

/-! ## 1. Drivers and descriptors -/

/-- `struct filesystem`, for one disk. `none` is a call that does not come back. The last fields are
    what the drivers have in common: an error of `open` or `stat` is a negated code, `close` answers
    0, and the heap is used through `kzalloc` and `kfree` only, so it stays where it is. -/
structure Filesystem (π : Type) where
  openFn : Kernel → (part : PathPart) → (next : List PathPart) → FileMode →
    Option (Except Int (Nat × π) × Kernel)
  readFn : π → (size nmemb : Nat) → Option (Int × List UInt8 × π)
  seekFn : π → (offset seekMode : Nat) → Option (Int × π)
  statFn : π → Int × FileStat
  closeFn : Kernel → Nat × π → Int × Kernel
  openFn_error : ∀ {k k' : Kernel} {part : PathPart} {next : List PathPart} {mode : FileMode}
    {e : Int}, openFn k part next mode = some (.error e, k') → e < 0
  openFn_placed : ∀ {k k' : Kernel} {part : PathPart} {next : List PathPart} {mode : FileMode}
    {r : Except Int (Nat × π)}, k.heap.Placed → openFn k part next mode = some (r, k') →
    k'.heap.Placed
  statFn_error : ∀ p : π, (statFn p).1 ≤ 0
  closeFn_ok : ∀ (k : Kernel) (priv : Nat × π), (closeFn k priv).1 = 0
  closeFn_placed : ∀ {k : Kernel} (priv : Nat × π), k.heap.Placed → (closeFn k priv).2.heap.Placed

variable {π : Type}

/-- `struct file_descriptor`: its address, and its fields (`private` is the address of the driver's
    data with the data). -/
structure FileDescriptor (π : Type) where
  address : Nat
  index : Int
  filesystem : Filesystem π
  priv : Nat × π

/-- The file layer: the kernel, `disk.filesystem` (`none`: 0), and `file_descriptors`, of which the
    512 slots from 0 on are the array. -/
@[ext] structure Files (π : Type) where
  kernel : Kernel
  disk : Option (Filesystem π)
  fileDescriptors : Nat → Option (FileDescriptor π)

/-- `fs_init`: the table is cleared. -/
def fsInit (k : Kernel) (disk : Option (Filesystem π)) : Files π := ⟨k, disk, fun _ => none⟩

/-- Writes a slot. -/
def Files.set (s : Files π) (i : Nat) (d : Option (FileDescriptor π)) : Files π :=
  { s with fileDescriptors := fun j => if j = i then d else s.fileDescriptors j }

/-! ## 2. The source functions -/

def fileFreeDescriptor (s : Files π) (desc : FileDescriptor π) : Files π :=
  let s := s.set (desc.index - 1).toNat none
  { s with kernel := kfree s.kernel desc.address }

/-- The first empty slot. -/
def freeSlot (s : Files π) : Option Nat :=
  (List.range 512).find? fun i => (s.fileDescriptors i).isNone

/-- `file_new_descriptor`, with the fields that `fopen` fills in right behind it, and the index that
    it then answers. A block that is not granted is the null pointer of an empty slot; the fields go
    to address 0, and the index is read back from there. -/
def fileNewDescriptor (s : Files π) (filesystem : Filesystem π) (priv : Nat × π) : Int × Files π :=
  match freeSlot s with
  | none => (-ENOMEM, s)
  | some i =>
    match kzalloc s.kernel 16 with
    | (desc, k) =>
      let s := { s with kernel := k }
      if desc = 0 then (i + 1, s) else (i + 1, s.set i (some ⟨desc, i + 1, filesystem, priv⟩))

def fileGetDescriptor (s : Files π) (fd : Int) : Option (FileDescriptor π) :=
  if fd ≤ 0 ∨ 512 ≤ fd then none
  else
    let index := fd - 1
    s.fileDescriptors index.toNat

def fileGetModeByString (str : List UInt8) : FileMode :=
  if strncmp 1 str [0x72] = 0 then .read
  else if strncmp 1 str [0x77] = 0 then .write
  else if strncmp 1 str [0x61] = 0 then .append
  else .invalid

/-- `disk_get`: the filesystem of the disk, where there is a disk. -/
def diskGet (s : Files π) (index : Int) : Option (Option (Filesystem π)) :=
  if index ≠ 0 then none else some s.disk

/-- `fopen` up to the call of `file_new_descriptor`: the driver and its part of the file. -/
def fopenPrivate (s : Files π) (filename modeStr : List UInt8) :
    Option (Except Int (Filesystem π × Nat × π) × Kernel) :=
  match pathparserParse s.kernel filename with
  | (none, k) => some (.error (-EINVARG), k)
  | (some rootPath, k) =>
    match rootPath.first with
    | [] => some (.error (-EINVARG), k)
    | part :: next =>
      match diskGet s rootPath.driveNo with
      | none => some (.error (- EIO), k)
      | some none => some (.error (- EIO), k)
      | some (some filesystem) =>
        let mode := fileGetModeByString modeStr
        if mode = .invalid then some (.error (-EINVARG), k)
        else
          match filesystem.openFn k part next mode with
          | none => none
          | some (.error e, k) => some (.error e, k)
          | some (.ok (ptr, p), k) =>
            -- `ISERR` looks at the address only
            if i32 ptr < 0 then some (.error (i32 ptr), k) else some (.ok (filesystem, ptr, p), k)

/-- `fopen`: the file descriptor, or 0. -/
def fopen (s : Files π) (filename modeStr : List UInt8) : Option (Int × Files π) :=
  match fopenPrivate s filename modeStr with
  | none => none
  | some (.error res, k) => some (if res < 0 then 0 else res, { s with kernel := k })
  | some (.ok (filesystem, priv), k) =>
    match fileNewDescriptor { s with kernel := k } filesystem priv with
    | (res, s) => some (if res < 0 then 0 else res, s)

def fstat (s : Files π) (fd : Int) : Int × Option FileStat :=
  match fileGetDescriptor s fd with
  | none => (- EIO, none)
  | some desc =>
    match desc.filesystem.statFn desc.priv.2 with
    | (res, stat) => (res, some stat)

def fclose (s : Files π) (fd : Int) : Int × Files π :=
  match fileGetDescriptor s fd with
  | none => (- EIO, s)
  | some desc =>
    match desc.filesystem.closeFn s.kernel desc.priv with
    | (res, k) =>
      let s := { s with kernel := k }
      if res = 0 then (res, fileFreeDescriptor s desc) else (res, s)

/-- The driver's part of a file, changed by a call of the driver. -/
def Files.setPrivate (s : Files π) (fd : Int) (desc : FileDescriptor π) (p : π) : Files π :=
  s.set (fd - 1).toNat (some { desc with priv := (desc.priv.1, p) })

/-- `fseek`; the driver takes the offset as a `uint32_t`. -/
def fseek (s : Files π) (fd offset : Int) (whence : Nat) : Option (Int × Files π) :=
  match fileGetDescriptor s fd with
  | none => some (- EIO, s)
  | some desc =>
    (desc.filesystem.seekFn desc.priv.2 (u32 offset) whence).map fun r =>
      (r.1, s.setPrivate fd desc r.2)

/-- `fread`: the answer, the bytes written, and the state. -/
def fread (s : Files π) (size nmemb : Nat) (fd : Int) : Option (Int × List UInt8 × Files π) :=
  if size = 0 ∨ nmemb = 0 ∨ fd < 1 then some (-EINVARG, [], s)
  else
    match fileGetDescriptor s fd with
    | none => some (-EINVARG, [], s)
    | some desc =>
      (desc.filesystem.readFn desc.priv.2 size nmemb).map fun r =>
        (r.1, r.2.1, s.setPrivate fd desc r.2.2)

/-! ## 3. Slots -/

section Slots

variable {s s' : Files π} {filename modeStr : List UInt8} {fd : Int}

@[simp] theorem Files.set_self (i : Nat) (d : Option (FileDescriptor π)) :
    (s.set i d).fileDescriptors i = d :=
  if_pos rfl

theorem Files.set_other {i j : Nat} (h : j ≠ i) (d : Option (FileDescriptor π)) :
    (s.set i d).fileDescriptors j = s.fileDescriptors j :=
  if_neg h

/-- The slot of a file descriptor that the lookup takes. -/
theorem fileGetDescriptor_inside (h1 : 1 ≤ fd) (h2 : fd < 512) :
    fileGetDescriptor s fd = s.fileDescriptors (fd - 1).toNat :=
  if_neg (by omega)

theorem fileGetDescriptor_some {d : FileDescriptor π} (h : fileGetDescriptor s fd = some d) :
    1 ≤ fd ∧ fd < 512 ∧ s.fileDescriptors (fd - 1).toNat = some d := by
  unfold fileGetDescriptor at h
  split at h
  · exact absurd h (Option.some_ne_none d).symm
  · exact ⟨by omega, by omega, h⟩

/-- The slot that the search finds is empty, and every slot before it is taken. -/
theorem freeSlot_some {i : Nat} (h : freeSlot s = some i) :
    i < 512 ∧ s.fileDescriptors i = none ∧ ∀ j, j < i → s.fileDescriptors j ≠ none := by
  obtain ⟨hi, hmem, hall⟩ := List.find?_range_eq_some.mp h
  refine ⟨List.mem_range.mp hmem, Option.isNone_iff_eq_none.mp hi, fun j hj hnone => ?_⟩
  have hj := hall j hj
  rw [hnone] at hj
  exact Bool.false_ne_true hj

theorem fileNewDescriptor_cases (s : Files π) (filesystem : Filesystem π) (priv : Nat × π) :
    (freeSlot s = none ∧ fileNewDescriptor s filesystem priv = (-ENOMEM, s)) ∨
    ∃ i, freeSlot s = some i ∧
      (((kzalloc s.kernel 16).1 = 0 ∧ fileNewDescriptor s filesystem priv =
          ((i : Int) + 1, { s with kernel := (kzalloc s.kernel 16).2 })) ∨
        ((kzalloc s.kernel 16).1 ≠ 0 ∧ fileNewDescriptor s filesystem priv = ((i : Int) + 1,
          { s with kernel := (kzalloc s.kernel 16).2 }.set i
            (some ⟨(kzalloc s.kernel 16).1, i + 1, filesystem, priv⟩)))) := by
  unfold fileNewDescriptor
  cases hfree : freeSlot s with
  | none => exact Or.inl ⟨rfl, rfl⟩
  | some i =>
    refine Or.inr ⟨i, rfl, ?_⟩
    by_cases h0 : (kzalloc s.kernel 16).1 = 0
    · exact Or.inl ⟨h0, if_pos h0⟩
    · exact Or.inr ⟨h0, if_neg h0⟩

/-- **The ways through `fopen` up to the descriptor**: an error before the driver is asked, or the
    driver's answer. An address with the upper bit set counts as an error. -/
theorem fopenPrivate_cases {r : Except Int (Filesystem π × Nat × π)} {k : Kernel}
    (h : fopenPrivate s filename modeStr = some (r, k)) :
    (∃ e, e < 0 ∧ r = .error e ∧ k = (pathparserParse s.kernel filename).2) ∨
    ∃ rootPath part next filesystem r', (pathparserParse s.kernel filename).1 = some rootPath ∧
      rootPath.first = part :: next ∧ rootPath.driveNo = 0 ∧ s.disk = some filesystem ∧
      filesystem.openFn (pathparserParse s.kernel filename).2 part next
        (fileGetModeByString modeStr) = some (r', k) ∧
      ((∃ e, e < 0 ∧ r = .error e) ∨ ∃ p, r' = .ok p ∧ r = .ok (filesystem, p)) := by
  unfold fopenPrivate at h
  generalize pathparserParse s.kernel filename = parsed at h ⊢
  obtain ⟨root, k₁⟩ := parsed
  -- the exits in front of the driver have the kernel of the parser
  have early : ∀ {e : Int}, e < 0 → some (Except.error e, k₁) = some (r, k) →
      ∃ e, e < 0 ∧ r = .error e ∧ k = k₁ := by
    intro e he h
    obtain ⟨rfl, rfl⟩ := Prod.mk.inj (Option.some.inj h)
    exact ⟨e, he, rfl, rfl⟩
  cases root with
  | none => exact Or.inl (early (by decide) h)
  | some rootPath =>
    dsimp only at h
    rcases hfirst : rootPath.first with _ | ⟨part, next⟩
    · rw [hfirst] at h
      exact Or.inl (early (by decide) h)
    rw [hfirst] at h
    unfold diskGet at h
    by_cases hdrive : rootPath.driveNo ≠ 0
    · rw [if_pos hdrive] at h
      exact Or.inl (early (by decide) h)
    rw [if_neg hdrive] at h
    cases hdisk : s.disk with
    | none =>
      rw [hdisk] at h
      exact Or.inl (early (by decide) h)
    | some filesystem =>
      rw [hdisk] at h
      dsimp only at h
      by_cases hmode : fileGetModeByString modeStr = .invalid
      · rw [if_pos hmode] at h
        exact Or.inl (early (by decide) h)
      rw [if_neg hmode] at h
      refine Or.inr ⟨rootPath, part, next, filesystem, ?_⟩
      generalize hopen : filesystem.openFn k₁ part next (fileGetModeByString modeStr) = o at h
      rcases o with _ | ⟨e | ⟨ptr, p⟩, k₂⟩
      · exact absurd h (Option.some_ne_none _).symm
      · obtain ⟨rfl, rfl⟩ := Prod.mk.inj (Option.some.inj h)
        exact ⟨_, rfl, hfirst, not_not.mp hdrive, rfl, rfl,
          Or.inl ⟨e, filesystem.openFn_error hopen, rfl⟩⟩
      · dsimp only at h
        by_cases herr : i32 ptr < 0
        · rw [if_pos herr] at h
          obtain ⟨rfl, rfl⟩ := Prod.mk.inj (Option.some.inj h)
          exact ⟨_, rfl, hfirst, not_not.mp hdrive, rfl, rfl, Or.inl ⟨_, herr, rfl⟩⟩
        · rw [if_neg herr] at h
          obtain ⟨rfl, rfl⟩ := Prod.mk.inj (Option.some.inj h)
          exact ⟨_, rfl, hfirst, not_not.mp hdrive, rfl, rfl, Or.inr ⟨_, rfl, rfl⟩⟩

theorem fopenPrivate_error {e : Int} {k : Kernel}
    (h : fopenPrivate s filename modeStr = some (.error e, k)) : e < 0 := by
  rcases fopenPrivate_cases h with ⟨e', he, e, -⟩ | ⟨_, _, _, _, _, -, -, -, -, -, hr⟩
  · rwa [Except.error.inj e]
  · rcases hr with ⟨e', he, e⟩ | ⟨p, -, e⟩
    · rwa [Except.error.inj e]
    · cases e

theorem fopenPrivate_placed {r : Except Int (Filesystem π × Nat × π)} {k : Kernel}
    (hp : s.kernel.heap.Placed) (h : fopenPrivate s filename modeStr = some (r, k)) :
    k.heap.Placed := by
  have hparse := pathparserParse_keeps parserKeeps_placed hp filename
  rcases fopenPrivate_cases h with ⟨_, -, -, rfl⟩ | ⟨_, _, _, filesystem, _, -, -, -, -, ho, -⟩
  · exact hparse
  · exact filesystem.openFn_placed hparse ho

/-- **The ways through `fopen`**: no file descriptor, and no slot changed; or the first empty slot,
    which stays empty where the block of the descriptor is not granted. -/
theorem fopen_cases (h : fopen s filename modeStr = some (fd, s')) :
    (fd = 0 ∧ ∃ r k, fopenPrivate s filename modeStr = some (r, k) ∧ s' = { s with kernel := k }) ∨
    ∃ filesystem priv k i, fopenPrivate s filename modeStr = some (.ok (filesystem, priv), k) ∧
      freeSlot s = some i ∧ fd = i + 1 ∧
      (((kzalloc k 16).1 = 0 ∧ s' = { s with kernel := (kzalloc k 16).2 }) ∨
        ((kzalloc k 16).1 ≠ 0 ∧ s' = { s with kernel := (kzalloc k 16).2 }.set i
          (some ⟨(kzalloc k 16).1, i + 1, filesystem, priv⟩))) := by
  unfold fopen at h
  generalize hp : fopenPrivate s filename modeStr = r at h
  rcases r with _ | ⟨e | ⟨filesystem, priv⟩, k⟩
  · exact absurd h (Option.some_ne_none _).symm
  · have he : e < 0 := fopenPrivate_error hp
    obtain ⟨rfl, rfl⟩ := Prod.mk.inj (Option.some.inj h)
    exact Or.inl ⟨if_pos he, _, _, rfl, rfl⟩
  · have hslot : freeSlot { s with kernel := k } = freeSlot s := by
      unfold freeSlot
      dsimp only
    dsimp only at h
    rcases fileNewDescriptor_cases { s with kernel := k } filesystem priv with
      ⟨-, e⟩ | ⟨i, hi, hcase⟩
    · rw [e] at h
      obtain ⟨rfl, rfl⟩ := Prod.mk.inj (Option.some.inj h)
      exact Or.inl ⟨rfl, _, _, rfl, rfl⟩
    · have hpos : ¬ ((i : Int) + 1 < 0) := by omega
      refine Or.inr ⟨filesystem, priv, k, i, rfl, hslot ▸ hi, ?_⟩
      rcases hcase with ⟨h0, e⟩ | ⟨h0, e⟩
      · rw [e] at h
        dsimp only at h
        rw [if_neg hpos] at h
        obtain ⟨rfl, rfl⟩ := Prod.mk.inj (Option.some.inj h)
        exact ⟨rfl, Or.inl ⟨h0, rfl⟩⟩
      · rw [e] at h
        dsimp only at h
        rw [if_neg hpos] at h
        obtain ⟨rfl, rfl⟩ := Prod.mk.inj (Option.some.inj h)
        exact ⟨rfl, Or.inr ⟨h0, rfl⟩⟩

/-- A file that the driver opened, with a slot and a block for it. -/
theorem fopen_granted {filesystem : Filesystem π} {priv : Nat × π} {k : Kernel} {i : Nat}
    (hp : fopenPrivate s filename modeStr = some (.ok (filesystem, priv), k))
    (hi : freeSlot s = some i) (h0 : (kzalloc k 16).1 ≠ 0) :
    fopen s filename modeStr = some ((i : Int) + 1, { s with kernel := (kzalloc k 16).2 }.set i
      (some ⟨(kzalloc k 16).1, i + 1, filesystem, priv⟩)) := by
  have hslot : freeSlot { s with kernel := k } = some i := by
    rw [← hi]
    unfold freeSlot
    dsimp only
  have hpos : ¬ ((i : Int) + 1 < 0) := by omega
  unfold fopen
  rw [hp]
  dsimp only
  rcases fileNewDescriptor_cases { s with kernel := k } filesystem priv with
    ⟨hnone, -⟩ | ⟨j, hj, ⟨h0', -⟩ | ⟨-, e⟩⟩
  · exact absurd (hslot.symm.trans hnone) (Option.some_ne_none i)
  · exact absurd h0' h0
  · obtain rfl := Option.some.inj (hslot.symm.trans hj)
    rw [e]
    dsimp only
    rw [if_neg hpos]

theorem fopen_placed (hp : s.kernel.heap.Placed) (h : fopen s filename modeStr = some (fd, s')) :
    s'.kernel.heap.Placed := by
  rcases fopen_cases h with ⟨-, r, k, hr, rfl⟩ | ⟨_, _, k, i, hr, -, -, ⟨-, rfl⟩ | ⟨-, rfl⟩⟩
  · exact fopenPrivate_placed hp hr
  · exact parserKeeps_placed.alloc 16 (by decide) (by decide) (fopenPrivate_placed hp hr)
  · exact parserKeeps_placed.alloc 16 (by decide) (by decide) (fopenPrivate_placed hp hr)

/-- **Closing**: the driver is asked, the slot is cleared, the block of the descriptor is
    released. -/
theorem fclose_eq {d : FileDescriptor π} (h : fileGetDescriptor s fd = some d) :
    fclose s fd = (0, fileFreeDescriptor
      { s with kernel := (d.filesystem.closeFn s.kernel d.priv).2 } d) := by
  have hok := d.filesystem.closeFn_ok s.kernel d.priv
  unfold fclose
  rw [h]
  dsimp only
  rw [if_pos hok, hok]

theorem fclose_placed (hp : s.kernel.heap.Placed) (fd : Int) :
    (fclose s fd).2.kernel.heap.Placed := by
  cases hg : fileGetDescriptor s fd with
  | none =>
    unfold fclose
    rw [hg]
    exact hp
  | some d =>
    rw [fclose_eq hg]
    exact (d.filesystem.closeFn_placed d.priv hp).free _

/-- **The ways through `fread`**: a request that is refused, or the answer of the driver. -/
theorem fread_cases {size nmemb : Nat} {res : Int} {out : List UInt8}
    (h : fread s size nmemb fd = some (res, out, s')) :
    (res = -EINVARG ∧ out = [] ∧ s' = s) ∨
    ∃ desc r, size ≠ 0 ∧ fileGetDescriptor s fd = some desc ∧
      desc.filesystem.readFn desc.priv.2 size nmemb = some r ∧ res = r.1 ∧ out = r.2.1 ∧
      s' = s.setPrivate fd desc r.2.2 := by
  unfold fread at h
  split at h
  · obtain ⟨rfl, rfl, rfl⟩ := Option.some.inj h
    exact Or.inl ⟨rfl, rfl, rfl⟩
  · rename_i hargs
    cases hd : fileGetDescriptor s fd with
    | none =>
      rw [hd] at h
      obtain ⟨rfl, rfl, rfl⟩ := Option.some.inj h
      exact Or.inl ⟨rfl, rfl, rfl⟩
    | some desc =>
      rw [hd] at h
      obtain ⟨r, hread, e⟩ := Option.map_eq_some_iff.mp h
      obtain ⟨rfl, rfl, rfl⟩ := e
      exact Or.inr ⟨desc, r, fun h0 => hargs (Or.inl h0), rfl, hread, rfl, rfl, rfl⟩

/-- Reading leaves the heap alone. -/
theorem fread_kernel {size nmemb : Nat} {res : Int} {out : List UInt8}
    (h : fread s size nmemb fd = some (res, out, s')) : s'.kernel = s.kernel := by
  rcases fread_cases h with ⟨-, -, rfl⟩ | ⟨_, _, -, -, -, -, -, rfl⟩
  · rfl
  · rfl

theorem fread_disk {size nmemb : Nat} {res : Int} {out : List UInt8}
    (h : fread s size nmemb fd = some (res, out, s')) : s'.disk = s.disk := by
  rcases fread_cases h with ⟨-, -, rfl⟩ | ⟨_, _, -, -, -, -, -, rfl⟩
  · rfl
  · rfl

end Slots

/-! ## 4. Runs -/

/-- `d` is the descriptor `c`, whatever the driver did to its part since. -/
structure FileDescriptor.Same (d c : FileDescriptor π) : Prop where
  address : d.address = c.address
  index : d.index = c.index
  filesystem : d.filesystem = c.filesystem
  priv : d.priv.1 = c.priv.1

/-- The descriptor that an `fopen` creates: in a block of its own, with what the driver answered. -/
def Creates (s : Files π) (filename modeStr : List UInt8) (fd : Int) (d : FileDescriptor π) :
    Prop :=
  ∃ filesystem priv k, fopenPrivate s filename modeStr = some (.ok (filesystem, priv), k) ∧
    d = ⟨(kzalloc k 16).1, fd, filesystem, priv⟩

/-- Any calls from `s₀` on, where each `fopen` that answers a file descriptor meets `cond`. Beside
    the state are the open files: the file descriptor that `fopen` answered and what it created. -/
inductive FileRun (cond : Files π → List UInt8 → List UInt8 → Prop) (s₀ : Files π) :
    Files π → List (Int × FileDescriptor π) → Prop where
  | start : FileRun cond s₀ s₀ []
  | opens {s s' : Files π} {opened : List (Int × FileDescriptor π)} {filename modeStr : List UInt8}
      {fd : Int} {d : FileDescriptor π} (h : FileRun cond s₀ s opened)
      (hc : cond s filename modeStr) (hr : fopen s filename modeStr = some (fd, s')) (hfd : 0 < fd)
      (hd : Creates s filename modeStr fd d) : FileRun cond s₀ s' ((fd, d) :: opened)
  | refused {s s' : Files π} {opened : List (Int × FileDescriptor π)}
      {filename modeStr : List UInt8} {fd : Int} (h : FileRun cond s₀ s opened)
      (hr : fopen s filename modeStr = some (fd, s')) (hfd : fd ≤ 0) : FileRun cond s₀ s' opened
  | closes {s s' : Files π} {opened : List (Int × FileDescriptor π)} {fd res : Int}
      (h : FileRun cond s₀ s opened) (hr : fclose s fd = (res, s')) :
      FileRun cond s₀ s' (if res = 0 then opened.filter (fun o => o.1 ≠ fd) else opened)
  | reads {s s' : Files π} {opened : List (Int × FileDescriptor π)} {fd res : Int}
      {size nmemb : Nat} {out : List UInt8} (h : FileRun cond s₀ s opened)
      (hr : fread s size nmemb fd = some (res, out, s')) : FileRun cond s₀ s' opened
  | seeks {s s' : Files π} {opened : List (Int × FileDescriptor π)} {fd offset res : Int}
      {whence : Nat} (h : FileRun cond s₀ s opened)
      (hr : fseek s fd offset whence = some (res, s')) : FileRun cond s₀ s' opened

/-- One of the slots that the lookup reaches is empty, and a block is free when the descriptor is
    allocated. -/
def FopenFits (s : Files π) (filename modeStr : List UInt8) : Prop :=
  (∃ i, i < 511 ∧ s.fileDescriptors i = none) ∧
  ∀ r k, fopenPrivate s filename modeStr = some (.ok r, k) → 0 < freeBlocks k.heap

/-- **Every open file has a slot of its own**, below the last one. -/
structure FilesInv (s : Files π) (opened : List (Int × FileDescriptor π)) : Prop where
  placed : s.kernel.heap.Placed
  index : ∀ {i : Nat} {d : FileDescriptor π}, s.fileDescriptors i = some d → d.index = i + 1
  nodup : (opened.map Prod.fst).Nodup
  slot : ∀ {fd : Int} {c : FileDescriptor π}, (fd, c) ∈ opened →
    ∃ d, fileGetDescriptor s fd = some d ∧ d.Same c

section Runs

variable {s s' : Files π} {opened : List (Int × FileDescriptor π)} {filename modeStr : List UInt8}
  {fd : Int}

/-- Where a block is free the descriptor gets one. -/
theorem descriptor_granted {k : Kernel} (hp : k.heap.Placed) (hf : 0 < freeBlocks k.heap) :
    (kzalloc k 16).1 ≠ 0 :=
  fun h0 => Nat.ne_of_gt hf ((kzalloc_null_iff hp (by decide) (by decide)).mp h0)

theorem FilesInv.opens (hi : FilesInv s opened) {d : FileDescriptor π}
    (hc : FopenFits s filename modeStr) (hr : fopen s filename modeStr = some (fd, s'))
    (hfd : 0 < fd) (hd : Creates s filename modeStr fd d) : FilesInv s' ((fd, d) :: opened) := by
  obtain ⟨⟨j, hj, hjnone⟩, hblock⟩ := hc
  obtain ⟨filesystem, priv, k, hp, rfl⟩ := hd
  rcases fopen_cases hr with ⟨rfl, -⟩ | ⟨_, _, _, i, hp', hfree, rfl, hcase⟩
  · exact absurd hfd (Int.lt_irrefl 0)
  obtain ⟨⟨rfl, rfl⟩, rfl⟩ : (_ ∧ _) ∧ _ := by
    have e := Option.some.inj (hp.symm.trans hp')
    exact ⟨Prod.mk.inj (Except.ok.inj (Prod.mk.inj e).1), (Prod.mk.inj e).2⟩
  have hpk := fopenPrivate_placed hi.placed hp
  rcases hcase with ⟨h0, -⟩ | ⟨h0, rfl⟩
  · exact absurd h0 (descriptor_granted hpk (hblock _ _ hp))
  obtain ⟨hi512, hinone, hbefore⟩ := freeSlot_some hfree
  -- the first empty slot is not behind `j`
  have hij : i ≤ j := Nat.not_lt.mp fun h => hbefore j h hjnone
  have hslot : ((i : Int) + 1 - 1).toNat = i := by omega
  refine ⟨parserKeeps_placed.alloc 16 (by decide) (by decide) hpk, ?_, ?_, ?_⟩
  · intro n d hn
    by_cases hni : n = i
    · subst hni
      rw [Files.set_self] at hn
      rw [← Option.some.inj hn]
    · rw [Files.set_other hni] at hn
      exact hi.index hn
  · rw [List.map_cons, List.nodup_cons]
    refine ⟨fun hmem => ?_, hi.nodup⟩
    obtain ⟨⟨fd', c⟩, ho, rfl⟩ := List.mem_map.mp hmem
    obtain ⟨d, hd, -⟩ := hi.slot ho
    obtain ⟨-, -, hd⟩ := fileGetDescriptor_some hd
    rw [hslot, hinone] at hd
    exact Option.some_ne_none d hd.symm
  · intro fd' c hmem
    rcases List.mem_cons.mp hmem with e | hmem
    · obtain ⟨rfl, rfl⟩ := Prod.mk.inj e
      refine ⟨_, ?_, rfl, rfl, rfl, rfl⟩
      rw [fileGetDescriptor_inside (by omega) (by omega), hslot, Files.set_self]
    · obtain ⟨d, hd, hsame⟩ := hi.slot hmem
      obtain ⟨h1, h2, hd⟩ := fileGetDescriptor_some hd
      have hne : (fd' - 1).toNat ≠ i := by
        intro e
        rw [e, hinone] at hd
        exact Option.some_ne_none d hd.symm
      refine ⟨d, ?_, hsame⟩
      rw [fileGetDescriptor_inside h1 h2, Files.set_other hne]
      exact hd

theorem FilesInv.refused (hi : FilesInv s opened)
    (hr : fopen s filename modeStr = some (fd, s')) (hfd : fd ≤ 0) : FilesInv s' opened := by
  have hp := fopen_placed hi.placed hr
  rcases fopen_cases hr with ⟨-, r, k, -, rfl⟩ | ⟨_, _, _, i, -, -, rfl, -⟩
  · exact ⟨hp, hi.index, hi.nodup, hi.slot⟩
  · omega

/-- The slot of an open file, by the index that the descriptor has. -/
theorem FilesInv.index_eq (hi : FilesInv s opened) {d : FileDescriptor π}
    (h : fileGetDescriptor s fd = some d) : (d.index - 1).toNat = (fd - 1).toNat := by
  obtain ⟨h1, -, hd⟩ := fileGetDescriptor_some h
  rw [hi.index hd]
  omega

/-- Closing leaves every other file descriptor with its descriptor. -/
theorem fclose_other (hi : FilesInv s opened) {d : FileDescriptor π}
    (h : fileGetDescriptor s fd = some d) {fd' : Int} (hne : fd' ≠ fd) :
    fileGetDescriptor (fclose s fd).2 fd' = fileGetDescriptor s fd' := by
  obtain ⟨h1, -, -⟩ := fileGetDescriptor_some h
  rw [fclose_eq h]
  unfold fileGetDescriptor
  by_cases hin : fd' ≤ 0 ∨ 512 ≤ fd'
  · rw [if_pos hin, if_pos hin]
  · rw [if_neg hin, if_neg hin]
    exact Files.set_other (by rw [hi.index_eq h]; omega) none

theorem fclose_slot (hi : FilesInv s opened) {d : FileDescriptor π}
    (h : fileGetDescriptor s fd = some d) :
    (fclose s fd).2.fileDescriptors (fd - 1).toNat = none := by
  rw [fclose_eq h, ← hi.index_eq h]
  exact Files.set_self _ _

theorem FilesInv.closes (hi : FilesInv s opened) {res : Int} (hr : fclose s fd = (res, s')) :
    FilesInv s' (if res = 0 then opened.filter (fun o => o.1 ≠ fd) else opened) := by
  cases hg : fileGetDescriptor s fd with
  | none =>
    unfold fclose at hr
    rw [hg] at hr
    obtain ⟨rfl, rfl⟩ := Prod.mk.inj hr
    exact hi
  | some d =>
    obtain ⟨h1, -, hd⟩ := fileGetDescriptor_some hg
    have hother : ∀ {fd' : Int}, fd' ≠ fd → fileGetDescriptor s' fd' = fileGetDescriptor s fd' := by
      intro fd' hne
      have h := fclose_other hi hg hne
      rwa [hr] at h
    rw [fclose_eq hg] at hr
    obtain ⟨rfl, rfl⟩ := Prod.mk.inj hr
    rw [if_pos rfl]
    refine ⟨?_, ?_, ?_, ?_⟩
    · exact (d.filesystem.closeFn_placed d.priv hi.placed).free _
    · intro i d' hd'
      by_cases hidx : i = (d.index - 1).toNat
      · subst hidx
        exact absurd ((Files.set_self _ _).symm.trans hd') (Option.some_ne_none d').symm
      · exact hi.index ((Files.set_other hidx none).symm.trans hd')
    · exact hi.nodup.sublist (List.filter_sublist.map _)
    · intro fd' c hmem
      obtain ⟨hmem, hne⟩ := List.mem_filter.mp hmem
      obtain ⟨d', hd', hsame⟩ := hi.slot hmem
      exact ⟨d', (hother (of_decide_eq_true hne)).trans hd', hsame⟩

/-- The driver changes its part of one file. -/
theorem FilesInv.setPrivate (hi : FilesInv s opened) {d : FileDescriptor π}
    (h : fileGetDescriptor s fd = some d) (p : π) : FilesInv (s.setPrivate fd d p) opened := by
  obtain ⟨h1, h2, hd⟩ := fileGetDescriptor_some h
  refine ⟨hi.placed, ?_, hi.nodup, ?_⟩
  · intro i d' hd'
    by_cases hidx : i = (fd - 1).toNat
    · subst hidx
      have e := Option.some.inj ((Files.set_self _ _).symm.trans hd')
      rw [← e]
      exact @hi.index _ d hd
    · exact hi.index ((Files.set_other hidx _).symm.trans hd')
  · intro fd' c hmem
    obtain ⟨d', hd', hsame⟩ := hi.slot hmem
    obtain ⟨h1', h2', hslot⟩ := fileGetDescriptor_some hd'
    rw [fileGetDescriptor_inside h1' h2']
    by_cases hidx : (fd' - 1).toNat = (fd - 1).toNat
    · rw [hidx] at hslot ⊢
      obtain rfl := Option.some.inj (hd.symm.trans hslot)
      exact ⟨_, Files.set_self _ _, hsame.1, hsame.2, hsame.3, hsame.4⟩
    · exact ⟨d', (Files.set_other hidx _).trans hslot, hsame⟩

theorem FilesInv.reads (hi : FilesInv s opened) {size nmemb : Nat} {res : Int} {out : List UInt8}
    (hr : fread s size nmemb fd = some (res, out, s')) : FilesInv s' opened := by
  rcases fread_cases hr with ⟨-, -, rfl⟩ | ⟨_, _, -, hd, -, -, -, rfl⟩
  · exact hi
  · exact hi.setPrivate hd _

theorem FilesInv.seeks (hi : FilesInv s opened) {offset res : Int} {whence : Nat}
    (hr : fseek s fd offset whence = some (res, s')) : FilesInv s' opened := by
  unfold fseek at hr
  cases hg : fileGetDescriptor s fd with
  | none =>
    rw [hg] at hr
    obtain ⟨-, rfl⟩ := Option.some.inj hr
    exact hi
  | some d =>
    rw [hg] at hr
    obtain ⟨r, -, e⟩ := Option.map_eq_some_iff.mp hr
    obtain ⟨-, rfl⟩ := e
    exact hi.setPrivate hg _

/-- **The invariant along a run.** -/
theorem fileRun_inv {k : Kernel} {disk : Option (Filesystem π)} (hk : k.heap.Placed)
    (h : FileRun FopenFits (fsInit k disk) s opened) : FilesInv s opened := by
  induction h with
  | start =>
    refine ⟨hk, fun h => ?_, List.nodup_nil, fun h => absurd h List.not_mem_nil⟩
    exact absurd h (Option.some_ne_none _).symm
  | opens _ hc hr hfd hd ih => exact ih.opens hc hr hfd hd
  | refused _ hr hfd ih => exact ih.refused hr hfd
  | closes _ hr ih => exact ih.closes hr
  | reads _ hr ih => exact ih.reads hr
  | seeks _ hr ih => exact ih.seeks hr

end Runs

/-! ## 5. What holds of open files -/

/-- A file descriptor is accepted by every call, and designates `d`: each call hands the driver
    `d`'s part. `fclose` clears the slot, and touches no other file descriptor. -/
structure Accepts (s : Files π) (fd : Int) (d : FileDescriptor π) : Prop where
  fread : ∀ size nmemb, size ≠ 0 → nmemb ≠ 0 → fread s size nmemb fd =
    (d.filesystem.readFn d.priv.2 size nmemb).map fun r => (r.1, r.2.1, s.setPrivate fd d r.2.2)
  fstat : fstat s fd = ((d.filesystem.statFn d.priv.2).1, some (d.filesystem.statFn d.priv.2).2)
  fseek : ∀ offset whence, fseek s fd offset whence =
    (d.filesystem.seekFn d.priv.2 (u32 offset) whence).map fun r => (r.1, s.setPrivate fd d r.2)
  fclose : (fclose s fd).1 = 0 ∧
    (fclose s fd).2.kernel = kfree (d.filesystem.closeFn s.kernel d.priv).2 d.address
  slot : (PeachKernel.fclose s fd).2.fileDescriptors (fd - 1).toNat = none
  others : ∀ fd', fd' ≠ fd →
    fileGetDescriptor (PeachKernel.fclose s fd).2 fd' = fileGetDescriptor s fd'

theorem accepts_of_inv {s : Files π} {opened : List (Int × FileDescriptor π)} {fd : Int}
    (hi : FilesInv s opened) {d : FileDescriptor π} (h : fileGetDescriptor s fd = some d) :
    Accepts s fd d where
  fread size nmemb hs hn := by
    obtain ⟨h1, -, -⟩ := fileGetDescriptor_some h
    unfold fread
    rw [if_neg (by omega), h]
  fstat := by
    unfold fstat
    rw [h]
  fseek offset whence := by
    unfold fseek
    rw [h]
  fclose := by
    rw [fclose_eq h]
    exact ⟨rfl, rfl⟩
  slot := fclose_slot hi h
  others _ hne := fclose_other hi h hne

/-- An `fopen` that answers a file descriptor answers one that the lookup takes only where it
    fits. -/
theorem fopen_accepted_iff {s s' : Files π} {opened : List (Int × FileDescriptor π)}
    {filename modeStr : List UInt8} {fd : Int} (hi : FilesInv s opened)
    (hr : fopen s filename modeStr = some (fd, s')) (hfd : 0 < fd) :
    fileGetDescriptor s' fd ≠ none ↔ FopenFits s filename modeStr := by
  constructor
  · intro hne
    rcases fopen_cases hr with ⟨rfl, -⟩ | ⟨filesystem, priv, k, i, hp, hfree, rfl, hcase⟩
    · exact absurd hfd (Int.lt_irrefl 0)
    obtain ⟨-, hinone, -⟩ := freeSlot_some hfree
    have hslot : ((i : Int) + 1 - 1).toNat = i := by omega
    have hlt : i < 511 := by
      by_contra hge
      exact hne (if_pos (by omega))
    refine ⟨⟨i, hlt, hinone⟩, fun r k' hp' => ?_⟩
    obtain ⟨-, rfl⟩ := Prod.mk.inj (Option.some.inj (hp.symm.trans hp'))
    rcases hcase with ⟨-, rfl⟩ | ⟨h0, -⟩
    · rw [fileGetDescriptor_inside (by omega) (by omega), hslot] at hne
      exact absurd hinone hne
    · exact freeBlocks_pos (fopenPrivate_placed hi.placed hp) (by decide) (by decide) h0
  · intro hfits
    rcases fopen_cases hr with ⟨rfl, -⟩ | ⟨filesystem, priv, k, i, hp, -⟩
    · exact absurd hfd (Int.lt_irrefl 0)
    obtain ⟨d, hd, -⟩ := (hi.opens hfits hr hfd ⟨filesystem, priv, k, hp, rfl⟩).slot
      List.mem_cons_self
    rw [hd]
    exact Option.some_ne_none d

/-- **File descriptors, over any calls.** In every run whose `fopen`s fit, open files have different
    file descriptors, each accepted by every call and designating what its `fopen` created, and a
    closed one frees its slot and nothing else. And what `fopen` answers next is accepted exactly if
    that `fopen` fits. -/
theorem fileRun_descriptors {k : Kernel} {disk : Option (Filesystem π)} (hk : k.heap.Placed)
    {s : Files π} {opened : List (Int × FileDescriptor π)}
    (h : FileRun FopenFits (fsInit k disk) s opened) :
    (opened.map Prod.fst).Nodup ∧
    (∀ fd c, (fd, c) ∈ opened → ∃ d, d.Same c ∧ Accepts s fd d) ∧
    (∀ filename modeStr fd s', fopen s filename modeStr = some (fd, s') → 0 < fd →
      (fileGetDescriptor s' fd ≠ none ↔ FopenFits s filename modeStr)) := by
  have hi := fileRun_inv hk h
  refine ⟨hi.nodup, fun fd c hmem => ?_, fun _ _ _ _ hr hfd => fopen_accepted_iff hi hr hfd⟩
  obtain ⟨d, hd, hsame⟩ := hi.slot hmem
  exact ⟨d, hsame, accepts_of_inv hi hd⟩

end PeachKernel
