/-
  File:      PeachKernel/Task/List.lean
  Subject:   The list of tasks of `task/task.c`, in memory: `task_new`, `task_free`, `task_switch`.

  A task is a structure of 64 bytes in a heap block; the list is held together by its `next` and
  `prev` words and by the three globals. Creating a task also builds its page directory, releasing
  it releases the directory first.

  * `taskInit`, `taskNew`, `taskListRemove`, `taskFree`, `taskGetNext` -- the source functions;
  * `Linked` -- memory holds a doubly linked list; `linked_snoc`, `linked_init` -- adding and
    removing its last element;
  * `TaskMade`, `taskNew_grows` -- what a creation does to heap and memory.
-/
import PeachKernel.Paging.Directory

namespace PeachKernel

open CInt Mem

/-! ## 1. The source functions -/

/-- `task->page_directory`. -/
def pageDirectoryOf (m : Mem) (task : Nat) : Nat := load32 m task

/-- `task->next`. -/
def nextOf (m : Mem) (task : Nat) : Nat := load32 m (task + 56)

/-- `task->prev`. -/
def prevOf (m : Mem) (task : Nat) : Nat := load32 m (task + 60)

/-- `task_head`, `task_tail` and `current_task`. -/
@[ext] structure TaskGlobals where
  head : Nat
  tail : Nat
  current : Nat

/-- What `task_init` reads of a process: its address, and the entry of its file where that is an ELF
    file. -/
structure TaskProcess where
  address : Nat
  elfEntry : Option Nat

/-- The registers of a new task: `ip`, `ss`, `cs`, `esp`, `flags`, and `task->process`. -/
def taskInitRegisters (m : Mem) (task : Nat) (process : TaskProcess) : Mem :=
  let m := store32 m (task + 32) 0x400000
  let m := match process.elfEntry with
    | some entry => store32 m (task + 32) entry
    | none => m
  let m := store32 m (task + 48) (4 * 8 + 3)
  let m := store32 m (task + 36) (3 * 8 + 3)
  let m := store32 m (task + 44) 0x3FF000
  let m := store32 m (task + 40) 0x202
  store32 m (task + 52) process.address

def taskInit (k : Kernel) (task : Nat) (process : TaskProcess) : Int × Kernel :=
  let r := pagingNew4gb ⟨k.heap, fill k.mem task 0 64⟩ (pagingIsPresent ||| pagingAccessFromAll)
  let m := store32 r.2.mem task r.1
  if r.1 = 0 then (- EIO, ⟨r.2.heap, m⟩)
  else (0, ⟨r.2.heap, taskInitRegisters m task process⟩)

def taskGetNext (m : Mem) (g : TaskGlobals) : Nat :=
  if nextOf m g.current = 0 then g.head else nextOf m g.current

/-- `task_list_remove`. -/
def taskListRemove (m : Mem) (g : TaskGlobals) (task : Nat) : Mem × TaskGlobals :=
  let m := if prevOf m task ≠ 0 then store32 m (prevOf m task + 56) (nextOf m task) else m
  let g := if task = g.head then { g with head := nextOf m task } else g
  let g := if task = g.tail then { g with tail := prevOf m task } else g
  let g := if task = g.current then { g with current := taskGetNext m g } else g
  (m, g)

def taskFree (k : Kernel) (g : TaskGlobals) (task : Nat) : Kernel × TaskGlobals :=
  let k := pagingFree4gb k (pageDirectoryOf k.mem task)
  let r := taskListRemove k.mem g task
  (kfree ⟨k.heap, r.1⟩ task, r.2)

/-- `task_new`: the task, or the error its caller gets as a pointer. -/
def taskNew (k : Kernel) (g : TaskGlobals) (process : TaskProcess) :
    Except Int Nat × Kernel × TaskGlobals :=
  let r := kzalloc k 64
  let task := r.1
  if task = 0 then (.error (-ENOMEM), taskFree r.2 g 0)
  else
    let i := taskInit r.2 task process
    if i.1 < 0 then (.error i.1, taskFree i.2 g task)
    else if i.1 ≠ 0 then (.ok task, i.2, g)
    else if g.head = 0 then (.ok task, i.2, ⟨task, task, task⟩)
    else
      let m := store32 i.2.mem (g.tail + 56) task
      let m := store32 m (task + 60) g.tail
      (.ok task, ⟨i.2.heap, m⟩, { g with tail := task })

/-- `task_switch`, as far as the list goes. -/
def taskSwitch (g : TaskGlobals) (task : Nat) : TaskGlobals := { g with current := task }

/-! ## 2. A doubly linked list in memory -/

/-- **Memory holds the list** `ts`, whose first element has `p` for its predecessor. -/
def Linked (m : Mem) : (p : Nat) → List Nat → Prop
  | _, [] => True
  | p, t :: ts => prevOf m t = p ∧ nextOf m t = ts.headD 0 ∧ Linked m t ts

/-- The last element of a list without repetitions is not its first, unless it is alone. -/
theorem ne_getLastD {t : Nat} {ts : List Nat} (hnd : (t :: ts).Nodup) (hne : ts ≠ []) :
    t ≠ ts.getLastD t := by
  intro h
  obtain ⟨us, u, rfl⟩ : ∃ us u, ts = us ++ [u] := by
    rcases List.eq_nil_or_concat ts with h | ⟨us, u, h⟩
    · exact absurd h hne
    · exact ⟨us, u, h.trans (List.concat_eq_append ..)⟩
  rw [List.getLastD_concat] at h
  rw [List.nodup_cons] at hnd
  exact hnd.1 (h ▸ List.mem_append_right us List.mem_cons_self)

/-- **An element behind the last one**: the last one's `next` names it, its `prev` the last one. -/
theorem linked_snoc {m m' : Mem} {t : Nat} (ts : List Nat) :
    ∀ {p : Nat}, Linked m p ts → ts.Nodup → (∀ x ∈ ts, prevOf m' x = prevOf m x) →
      (∀ x ∈ ts, x ≠ ts.getLastD p → nextOf m' x = nextOf m x) →
      (ts ≠ [] → nextOf m' (ts.getLastD p) = t) → prevOf m' t = ts.getLastD p → nextOf m' t = 0 →
      Linked m' p (ts ++ [t]) := by
  induction ts with
  | nil =>
    intro p _ _ _ _ _ hp hn
    exact ⟨hp, hn, trivial⟩
  | cons x ts ih =>
    intro p hl hnd hprev hnext hlast hp hn
    obtain ⟨h1, h2, h3⟩ := hl
    rw [List.getLastD_cons] at hnext hlast hp
    have hrest : Linked m' x (ts ++ [t]) := by
      refine ih h3 (List.nodup_cons.mp hnd).2 (fun y hy => hprev y (List.mem_cons_of_mem _ hy))
        (fun y hy hne => hnext y (List.mem_cons_of_mem _ hy) hne) (fun hne => hlast (by simp)) hp hn
    refine ⟨(hprev x List.mem_cons_self).trans h1, ?_, hrest⟩
    cases ts with
    | nil => exact hlast (by simp)
    | cons y ts =>
      have hx := hnext x List.mem_cons_self (ne_getLastD hnd (by simp))
      rw [hx, h2]
      rfl

/-- **The list without its last element**, once the `next` of the one before is null. -/
theorem linked_init {m m' : Mem} {t : Nat} (ts : List Nat) :
    ∀ {p : Nat}, Linked m p (ts ++ [t]) → ts.Nodup → (∀ x ∈ ts, prevOf m' x = prevOf m x) →
      (∀ x ∈ ts, x ≠ ts.getLastD p → nextOf m' x = nextOf m x) →
      (ts ≠ [] → nextOf m' (ts.getLastD p) = 0) → Linked m' p ts := by
  induction ts with
  | nil =>
    intro p _ _ _ _ _
    trivial
  | cons x ts ih =>
    intro p hl hnd hprev hnext hlast
    obtain ⟨h1, h2, h3⟩ := hl
    rw [List.getLastD_cons] at hnext hlast
    have hrest : Linked m' x ts :=
      ih h3 (List.nodup_cons.mp hnd).2 (fun y hy => hprev y (List.mem_cons_of_mem _ hy))
        (fun y hy hne => hnext y (List.mem_cons_of_mem _ hy) hne) fun hne => hlast (by simp)
    refine ⟨(hprev x List.mem_cons_self).trans h1, ?_, hrest⟩
    cases ts with
    | nil => exact hlast (by simp)
    | cons y ts =>
      have hx := hnext x List.mem_cons_self (ne_getLastD hnd (by simp))
      rw [hx]
      exact h2

/-- The words of an element in the middle. -/
theorem Linked.middle {m : Mem} (ts : List Nat) {t : Nat} {us : List Nat} :
    ∀ {p : Nat}, Linked m p (ts ++ t :: us) →
      prevOf m t = ts.getLastD p ∧ nextOf m t = us.headD 0 ∧ Linked m t us := by
  induction ts with
  | nil =>
    intro p h
    exact h
  | cons x ts ih =>
    intro p h
    rw [List.getLastD_cons]
    exact ih h.2.2

/-- Following `next` from `t` until it is null, at most `fuel` times. -/
def followNext (m : Mem) : (fuel t : Nat) → List Nat
  | 0, _ => []
  | fuel + 1, t => if t = 0 then [] else t :: followNext m fuel (nextOf m t)

theorem Linked.follow {m : Mem} (ts : List Nat) :
    ∀ {p fuel : Nat}, Linked m p ts → 0 ∉ ts → ts.length ≤ fuel →
      followNext m fuel (ts.headD 0) = ts := by
  induction ts with
  | nil =>
    intro p fuel _ _ _
    cases fuel with
    | zero => rfl
    | succ fuel => rfl
  | cons x ts ih =>
    intro p fuel h h0 hlen
    cases fuel with
    | zero => exact absurd hlen (Nat.not_succ_le_zero _)
    | succ fuel =>
      have hx : x ≠ 0 := fun e => h0 (e ▸ List.mem_cons_self)
      have hrest := ih h.2.2 (fun hm => h0 (List.mem_cons_of_mem _ hm))
        (Nat.le_of_succ_le_succ hlen)
      show (if x = 0 then [] else x :: followNext m fuel (nextOf m x)) = x :: ts
      rw [if_neg hx, h.2.1, hrest]

/-! ## 3. Objects in different blocks -/

section Blocks

variable {heap : Heap} {live : List Allocation} {m : Mem}

/-- A word store into one block leaves the words of another alone. -/
theorem HeapInv.load_store (h : HeapInv heap live) {x y : Allocation} (hx : x ∈ live)
    (hy : y ∈ live) (hne : x ≠ y) (hx1 : blocksFor x.size = 1) (hy1 : blocksFor y.size = 1)
    {d e : Nat} (hd : d + 4 ≤ 4096) (he : e + 4 ≤ 4096) (v : Nat) :
    load32 (store32 m (y.ptr + e) v) (x.ptr + d) = load32 m (x.ptr + d) := by
  refine load32_congr fun a h1 h2 => store32_other ?_
  have := h.offBlock hx hy hne (d := a - x.ptr) (by omega) hy1
  rw [show x.ptr + (a - x.ptr) = a by omega] at this
  unfold OffBlock at this
  omega

/-- A directory in the blocks of `live` is not reached by a store into another block. -/
theorem HasDirectory.store (h : HeapInv heap live) {d : Directory} (hd : HasDirectory m d)
    (hsub : ∀ x ∈ d.allocations, x ∈ live) {y : Allocation} (hy : y ∈ live)
    (hny : y ∉ d.allocations) (hy1 : blocksFor y.size = 1) {e : Nat} (he : e + 4 ≤ 4096) (v : Nat) :
    HasDirectory (store32 m (y.ptr + e) v) d := by
  have hdir : tableAlloc d.directory ∈ d.allocations := by simp [Directory.allocations]
  have hchunk : (⟨d.chunk, 4⟩ : Allocation) ∈ d.allocations := by simp [Directory.allocations]
  have hc1 : blocksFor (⟨d.chunk, 4⟩ : Allocation).size = 1 := by
    show blocksFor 4 = 1
    decide
  have hoff : ∀ x ∈ d.allocations, blocksFor x.size = 1 → ∀ a, x.ptr ≤ a → a < x.ptr + 4096 →
      OffBlock a y.ptr := by
    intro x hx hx1 a h1 h2
    have := h.offBlock (hsub x hx) hy (fun e => hny (e ▸ hx)) (d := a - x.ptr) (by omega) hy1
    rwa [show x.ptr + (a - x.ptr) = a by omega] at this
  refine hd.congr (fun a h1 h2 => store32_other ?_) fun a h1 h2 => store32_other ?_
  · have := hoff _ hchunk hc1 a h1 (by show a < d.chunk + 4096; omega)
    unfold OffBlock at this
    omega
  · have := hoff _ hdir (tableAlloc_blocks _) a h1 h2
    unfold OffBlock at this
    omega

theorem HeapInv.ptr_pos (h : HeapInv heap live) {x : Allocation} (hx : x ∈ live) : x.ptr ≠ 0 := by
  have := h.placed.pos
  have := h.addr x hx
  omega

end Blocks

/-! ## 4. Creating a task -/

/-- The allocation of a task's structure. -/
def taskAlloc (t : Nat) : Allocation := ⟨t, 64⟩

theorem taskAlloc_blocks (t : Nat) : blocksFor (taskAlloc t).size = 1 := by
  show blocksFor 64 = 1
  decide

/-- The registers lie between `page_directory` and the links. -/
theorem taskInitRegisters_other (m : Mem) (task : Nat) (process : TaskProcess) {a : Nat}
    (ha : a < task + 32 ∨ task + 56 ≤ a) : taskInitRegisters m task process a = m a := by
  unfold taskInitRegisters
  rw [store32_other (by omega), store32_other (by omega), store32_other (by omega),
    store32_other (by omega), store32_other (by omega)]
  cases process.elfEntry with
  | none => exact store32_other (by omega)
  | some entry =>
    dsimp only
    rw [store32_other (by omega), store32_other (by omega)]

/-- **What a creation makes** before the list is written: the task's structure behind `task_init`,
    with its registers and null links, and its directory, whose chunk is entered. -/
structure TaskMade (k k' : Kernel) (live : List Allocation) (d : Directory) (t : Nat)
    (process : TaskProcess) : Prop where
  grows : Grows k k' live (d.allocations ++ [taskAlloc t])
  directory : HasDirectory k'.mem d
  chunk : pageDirectoryOf k'.mem t = d.chunk
  next : nextOf k'.mem t = 0
  prev : prevOf k'.mem t = 0
  identity : TablesIdentity k'.mem (pagingIsPresent ||| pagingAccessFromAll) d.tables
  registers : ∃ m, k'.mem = taskInitRegisters m t process ∧ ∀ a, t + 4 ≤ a → a < t + 64 → m a = 0

/-- **`task_init` on a fresh block.** -/
theorem taskInit_grows {k k₁ : Kernel} {live : List Allocation} {t : Nat}
    (hg : Grows k k₁ live [taskAlloc t]) (hb : t + 4096 ≤ 4294967296)
    (hf : 1026 ≤ freeBlocks k₁.heap) (process : TaskProcess) :
    ∃ k' d, taskInit k₁ t process = (0, k') ∧ TaskMade k k' live d t process := by
  have htm : taskAlloc t ∈ [taskAlloc t] := List.mem_cons_self
  have hg₁ : Grows k ⟨k₁.heap, fill k₁.mem t 0 64⟩ live [taskAlloc t] := by
    refine hg.with_mem fun a ha hoff => fill_other ha (by omega) ?_
    have h : a < t ∨ t + 4096 ≤ a := hoff _ htm
    omega
  obtain ⟨k₂, d, e₂, hne, hg₂, hdir, hid⟩ := pagingNew4gb_grows
    (k := ⟨k₁.heap, fill k₁.mem t 0 64⟩) hg₁.inv hf
    (show pagingIsPresent ||| pagingAccessFromAll < 4096 by decide)
  have hall := hg₁.trans hg₂
  -- the task's block is none of the directory's
  have hnt : taskAlloc t ∉ d.allocations := by
    have hnd := hg₂.inv.nodup
    rw [List.nodup_append] at hnd
    exact fun hx => hnd.2.2 _ hx _ (List.mem_append_left _ htm) rfl
  have hin : ∀ x ∈ d.allocations, x ∈ (d.allocations ++ [taskAlloc t]) ++ live :=
    fun x hx => List.mem_append_left _ (List.mem_append_left _ hx)
  have htin : taskAlloc t ∈ (d.allocations ++ [taskAlloc t]) ++ live :=
    List.mem_append_left _ (List.mem_append_right _ htm)
  have hreg : ∀ a, a < t ∨ t + 4096 ≤ a →
      taskInitRegisters (store32 k₂.mem t d.chunk) t process a = k₂.mem a := by
    intro a ha
    rw [taskInitRegisters_other _ _ _ (by omega), store32_other (by omega)]
  have hzero : ∀ a, t + 4 ≤ a → a < t + 64 → store32 k₂.mem t d.chunk a = 0 := by
    intro a h1 h2
    rw [store32_other (by omega)]
    have hm := hg₂.mem a (by omega) fun x hx => by
      have := hall.inv.offBlock htin (hin x hx) (fun e => hnt (e ▸ hx)) (d := a - t)
        (by rw [taskAlloc_blocks]; omega) (hg₂.small x hx)
      rwa [show (taskAlloc t).ptr + (a - t) = a by show t + (a - t) = a; omega] at this
    rw [hm]
    exact fill_inside (by omega) (by omega) (by omega)
  have hlink : ∀ o, 56 ≤ o → o + 4 ≤ 64 →
      load32 (taskInitRegisters (store32 k₂.mem t d.chunk) t process) (t + o) = 0 := by
    intro o h1 h2
    rw [load32_congr fun a h1 h2 => taskInitRegisters_other _ t process (a := a) (by omega)]
    exact load32_zero fun a ha1 ha2 => hzero a (by omega) (by omega)
  have hoff : ∀ x ∈ d.allocations, ∀ a, x.ptr ≤ a → a < x.ptr + 4096 → a < t ∨ t + 4096 ≤ a :=
    fun x hx a h1 h2 => hall.inv.off_of_ne (hin x hx) htin (fun e => hnt (e ▸ hx)) (hg₂.small x hx)
      (taskAlloc_blocks t) h1 h2
  refine ⟨⟨k₂.heap, taskInitRegisters (store32 k₂.mem t d.chunk) t process⟩, d, ?_, ?_, ?_, ?_,
    hlink 56 (by decide) (by decide), hlink 60 (by decide) (by decide), ?_, _, rfl, hzero⟩
  · unfold taskInit
    rw [e₂]
    dsimp only
    rw [if_neg hne]
  · refine hall.with_mem fun a _ hoff => hreg a ?_
    exact hoff _ (List.mem_append_right _ htm)
  · refine hdir.congr (fun a h1 h2 => hreg a ?_) fun a h1 h2 => hreg a ?_
    · exact hoff ⟨d.chunk, 4⟩
        (by simp [Directory.allocations]) a h1 (by show a < d.chunk + 4096; omega)
    · exact hoff (tableAlloc d.directory) (by simp [Directory.allocations]) a h1 h2
  · have hlt : d.chunk < 4294967296 := by
      have := (hg₂.inv.end_lt (a := ⟨d.chunk, 4⟩)
        (List.mem_append_left _ (by simp [Directory.allocations]))).2
      exact lt_of_le_of_lt (Nat.le_add_right _ _) this
    unfold pageDirectoryOf
    rw [load32_congr fun a h1 h2 => taskInitRegisters_other _ t process (a := a) (by omega)]
    exact load32_store32_same hlt
  · exact hid.congr fun x hx a h1 h2 => hreg a (hoff (tableAlloc x)
      (List.mem_append_left _ (List.mem_map_of_mem hx)) a h1 h2)

/-- **A creation with room**, word by word. -/
theorem taskNew_grows {k : Kernel} {live : List Allocation} (h : HeapInv k.heap live)
    (hf : 1027 ≤ freeBlocks k.heap) (g : TaskGlobals) (process : TaskProcess) :
    ∃ t k' d, TaskMade k k' live d t process ∧ t ≠ 0 ∧
      taskNew k g process = (.ok t, if g.head = 0 then (k', ⟨t, t, t⟩) else
        (⟨k'.heap, store32 (store32 k'.mem (g.tail + 56) t) (t + 60) g.tail⟩,
            { g with tail := t })) := by
  obtain ⟨t, k₁, hz, hg, hne, -, hb, -⟩ := kzalloc_grows h (by omega) 64 (by decide) (by decide)
  have hf₁ : freeBlocks k₁.heap + 1 = freeBlocks k.heap := hg.free
  obtain ⟨k', d, hinit, hmade⟩ := taskInit_grows hg hb (by omega) process
  refine ⟨t, k', d, hmade, hne, ?_⟩
  unfold taskNew
  rw [hz]
  dsimp only
  rw [if_neg hne, hinit]
  dsimp only
  rw [if_neg (Int.lt_irrefl 0), if_neg (not_not.mpr rfl)]
  split
  · rfl
  · rfl

end PeachKernel
