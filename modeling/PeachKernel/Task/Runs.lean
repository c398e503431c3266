/-
  File:      PeachKernel/Task/Runs.lean
  Subject:   Any sequence of `task_new`, `task_free` and `task_switch`: is the task list intact?

  * `TaskSystem`, `TaskStep`, `TaskRun` -- the kernel, the globals and the live tasks in the order
    of their creation; a creation is issued under a condition `N`, a release under `F`;
  * `TaskListOk` -- the list is consistent: `next` leads through the live tasks, `prev` leads back,
    and nothing names a released task;
  * `TaskInv` -- the invariant: the list in memory (`Linked`), and every live task's structure and
    page directory in heap blocks of their own;
  * `taskRun_listOk` -- while every creation finds its 1027 blocks and every release is of the last
    task, the list is consistent in every state. From such a state a release keeps it so exactly
    when it is of the last task: `task_list_remove` never writes the `prev` of the task behind;
  * `taskRun_stale_prev` -- two tasks are created, the first is released: the second's `prev` names
    it.
-/
import PeachKernel.Task.List
import Mathlib.Logic.Relation

namespace PeachKernel

open CInt Mem

/-! ## 1. The system -/

/-- The kernel, the task globals, and the live tasks in the order of their creation. -/
structure TaskSystem where
  kernel : Kernel
  list : TaskGlobals
  live : List Nat

/-- `task_new`; a task that was created is live. -/
def TaskSystem.new (s : TaskSystem) (process : TaskProcess) : TaskSystem :=
  let r := taskNew s.kernel s.list process
  { kernel := r.2.1, list := r.2.2, live := s.live ++ r.1.toOption.toList }

/-- `task_free` of a live task. -/
def TaskSystem.free (s : TaskSystem) (t : Nat) : TaskSystem :=
  let r := taskFree s.kernel s.list t
  { kernel := r.1, list := r.2, live := s.live.erase t }

def TaskSystem.switch (s : TaskSystem) (t : Nat) : TaskSystem :=
  { s with list := taskSwitch s.list t }

inductive TaskStep (N : TaskSystem → Prop) (F : TaskSystem → Nat → Prop) :
    TaskSystem → TaskSystem → Prop where
  | new (s : TaskSystem) (process : TaskProcess) (hN : N s) : TaskStep N F s (s.new process)
  | free (s : TaskSystem) (t : Nat) (ht : t ∈ s.live) (hF : F s t) : TaskStep N F s (s.free t)
  | switch (s : TaskSystem) (t : Nat) (ht : t ∈ s.live) : TaskStep N F s (s.switch t)

/-- Any number of steps. -/
def TaskRun (N : TaskSystem → Prop) (F : TaskSystem → Nat → Prop) :
    TaskSystem → TaskSystem → Prop := Relation.ReflTransGen (TaskStep N F)

/-- No task yet: the globals are null. -/
def TaskSystem.Start (s : TaskSystem) : Prop :=
  s.kernel.heap.Placed ∧ s.list = ⟨0, 0, 0⟩ ∧ s.live = []

/-- The heap has the blocks of a task: its structure, a directory, 1024 tables and a chunk. -/
def RoomForTask (s : TaskSystem) : Prop := 1027 ≤ freeBlocks s.kernel.heap

/-- The task is the last one of the list. -/
def LastTask (s : TaskSystem) (t : Nat) : Prop := s.live.getLast? = some t

/-- **The list is consistent.** -/
structure TaskListOk (s : TaskSystem) : Prop where
  /-- Following `next` from `task_head` visits the live tasks in the order of their creation; -/
  walk : ∀ fuel, s.live.length ≤ fuel → followNext s.kernel.mem fuel s.list.head = s.live
  /-- it ends at `task_tail`; -/
  tail : s.list.tail = s.live.getLastD 0
  /-- `prev` leads back; -/
  back : ∀ t ∈ s.live, nextOf s.kernel.mem t ≠ 0 → prevOf s.kernel.mem (nextOf s.kernel.mem t) = t
  head_prev : s.list.head ≠ 0 → prevOf s.kernel.mem s.list.head = 0
  /-- `current_task` is live whenever a task is; -/
  current : s.live ≠ [] → s.list.current ∈ s.live
  /-- and neither a link of a live task nor a global names anything but a live task. -/
  links : ∀ t ∈ s.live, (nextOf s.kernel.mem t = 0 ∨ nextOf s.kernel.mem t ∈ s.live) ∧
    (prevOf s.kernel.mem t = 0 ∨ prevOf s.kernel.mem t ∈ s.live)
  globals : (s.list.head = 0 ∨ s.list.head ∈ s.live) ∧ (s.list.tail = 0 ∨ s.list.tail ∈ s.live) ∧
    (s.list.current = 0 ∨ s.list.current ∈ s.live)

/-! ## 2. The invariant -/

/-- The allocations of a task: its structure and its directory. -/
def taskAllocs (dirs : Nat → Directory) (t : Nat) : List Allocation :=
  (dirs t).allocations ++ [taskAlloc t]

/-- **The invariant**: `dirs` gives each live task its directory. -/
structure TaskInv (s : TaskSystem) (dirs : Nat → Directory) : Prop where
  inv : HeapInv s.kernel.heap (s.live.flatMap (taskAllocs dirs))
  small : ∀ t ∈ s.live, ∀ x ∈ taskAllocs dirs t, blocksFor x.size = 1
  dir : ∀ t ∈ s.live, HasDirectory s.kernel.mem (dirs t)
  chunk : ∀ t ∈ s.live, pageDirectoryOf s.kernel.mem t = (dirs t).chunk
  linked : Linked s.kernel.mem 0 s.live
  nodup : s.live.Nodup
  head : s.list.head = s.live.headD 0
  tail : s.list.tail = s.live.getLastD 0
  current : (s.live = [] ∧ s.list.current = 0) ∨ s.list.current ∈ s.live

theorem taskAlloc_mem (dirs : Nat → Directory) (t : Nat) : taskAlloc t ∈ taskAllocs dirs t :=
  List.mem_append_right _ List.mem_cons_self

theorem mem_live_allocs {dirs : Nat → Directory} {live : List Nat} {t : Nat} (ht : t ∈ live)
    {x : Allocation} (hx : x ∈ taskAllocs dirs t) : x ∈ live.flatMap (taskAllocs dirs) :=
  List.mem_flatMap.mpr ⟨t, ht, hx⟩

theorem taskAlloc_live {dirs : Nat → Directory} {live : List Nat} {t : Nat} (ht : t ∈ live) :
    taskAlloc t ∈ live.flatMap (taskAllocs dirs) := mem_live_allocs ht (taskAlloc_mem dirs t)

section Inv

variable {s : TaskSystem} {dirs : Nat → Directory}

theorem TaskInv.ne_zero (h : TaskInv s dirs) : 0 ∉ s.live := fun h0 =>
  h.inv.ptr_pos (taskAlloc_live h0) rfl

/-- An element with a list before and behind it. -/
theorem split_of_mem {ts : List Nat} {t : Nat} (h : t ∈ ts) : ∃ l r, ts = l ++ t :: r :=
  List.append_of_mem h

/-- The first element of a rest is in the list. -/
theorem headD_cases (ts : List Nat) : ts.headD 0 = 0 ∨ ts.headD 0 ∈ ts := by
  cases ts with
  | nil => exact Or.inl rfl
  | cons t ts => exact Or.inr List.mem_cons_self

theorem getLastD_cases (ts : List Nat) : ts.getLastD 0 = 0 ∨ ts.getLastD 0 ∈ ts := by
  rcases List.eq_nil_or_concat ts with h | ⟨us, u, h⟩
  · exact Or.inl (by rw [h]; rfl)
  · refine Or.inr ?_
    rw [h, List.concat_eq_append, List.getLastD_concat]
    exact List.mem_append_right _ List.mem_cons_self

/-- **A state of the invariant has a consistent list.** -/
theorem TaskInv.listOk (h : TaskInv s dirs) : TaskListOk s where
  walk fuel hf := by
    rw [h.head]
    exact h.linked.follow s.live h.ne_zero hf
  tail := h.tail
  back t ht hne := by
    obtain ⟨l, r, e⟩ := split_of_mem ht
    have hl := h.linked
    rw [e] at hl
    obtain ⟨_, h2, h3⟩ := hl.middle l
    rw [h2] at hne ⊢
    cases r with
    | nil => exact absurd rfl hne
    | cons u r => exact h3.1
  head_prev hne := by
    have hl := h.linked
    rw [h.head] at hne ⊢
    cases e : s.live with
    | nil =>
      rw [e] at hne
      exact absurd rfl hne
    | cons t ts =>
      rw [e] at hl
      exact hl.1
  current hne := by
    rcases h.current with ⟨e, _⟩ | hc
    · exact absurd e hne
    · exact hc
  links t ht := by
    obtain ⟨l, r, e⟩ := split_of_mem ht
    have hl := h.linked
    rw [e] at hl
    obtain ⟨h1, h2, _⟩ := hl.middle l
    rw [h1, h2, e]
    constructor
    · rcases headD_cases r with h0 | h0
      · exact Or.inl h0
      · exact Or.inr (List.mem_append_right _ (List.mem_cons_of_mem _ h0))
    · rcases getLastD_cases l with h0 | h0
      · exact Or.inl h0
      · exact Or.inr (List.mem_append_left _ h0)
  globals := by
    refine ⟨?_, ?_, ?_⟩
    · rw [h.head]
      exact headD_cases s.live
    · rw [h.tail]
      exact getLastD_cases s.live
    · rcases h.current with ⟨_, e⟩ | hc
      · exact Or.inl e
      · exact Or.inr hc

end Inv

/-! ## 3. Creation -/

/-- Words of two tasks, or two words of one task. -/
theorem task_load_store {heap : Heap} {live : List Allocation} (h : HeapInv heap live) {m : Mem}
    {x y d e : Nat} (hx : taskAlloc x ∈ live) (hy : taskAlloc y ∈ live)
    (hne : x ≠ y ∨ d + 4 ≤ e ∨ e + 4 ≤ d) (hd : d + 4 ≤ 4096) (he : e + 4 ≤ 4096) (v : Nat) :
    load32 (store32 m (y + e) v) (x + d) = load32 m (x + d) := by
  by_cases hxy : x = y
  · subst hxy
    exact load32_store32_other (by omega)
  · have hne' : taskAlloc x ≠ taskAlloc y := fun e => hxy (congrArg Allocation.ptr e)
    exact h.load_store hx hy hne' (taskAlloc_blocks x) (taskAlloc_blocks y) hd he v

/-- A task's structure is none of its directory's parts, nor of another's. -/
theorem taskAlloc_not_mem {dirs : Nat → Directory} {live : List Nat}
    (hnd : (live.flatMap (taskAllocs dirs)).Nodup) {t u : Nat} (ht : t ∈ live) (hu : u ∈ live) :
    taskAlloc t ∉ (dirs u).allocations := by
  intro hmem
  obtain ⟨h1, h2⟩ := List.nodup_flatMap.mp hnd
  by_cases e : u = t
  · subst e
    have := h1 u hu
    unfold taskAllocs at this
    rw [List.nodup_append] at this
    exact this.2.2 _ hmem _ List.mem_cons_self rfl
  · have hd : List.Disjoint (taskAllocs dirs u) (taskAllocs dirs t) := by
      have hs : Std.Symm (Function.onFun List.Disjoint (taskAllocs dirs)) :=
        ⟨fun _ _ h => h.symm⟩
      exact h2.forall hu ht e
    exact hd (List.mem_append_left _ hmem) (taskAlloc_mem dirs t)

section New

variable {s : TaskSystem} {dirs : Nat → Directory}

/-- What a creation leaves of the structures that are there: every byte of their blocks. -/
theorem grows_old {k k' : Kernel} {live new : List Allocation} (hg : Grows k k' live new)
    {x : Allocation} (hx : x ∈ live) (hx1 : blocksFor x.size = 1) {a : Nat} (h1 : x.ptr ≤ a)
    (h2 : a < x.ptr + 4096) : k'.mem a = k.mem a := by
  have hxin : x ∈ new ++ live := List.mem_append_right _ hx
  have hlt := (hg.inv.end_lt hxin).2
  rw [hx1] at hlt
  refine hg.mem a (by omega) fun y hy => ?_
  have hne : x ≠ y := by
    rintro rfl
    have hnd := hg.inv.nodup
    rw [List.nodup_append] at hnd
    exact hnd.2.2 x hy x hx rfl
  have := hg.inv.offBlock hxin (List.mem_append_left _ hy) hne (d := a - x.ptr) (by omega)
    (hg.small y hy)
  rwa [show x.ptr + (a - x.ptr) = a by omega] at this

/-- **The state behind `task_init`**, before the new task `t` is linked: everything that was there
    stays, and `t` has its structure and directory. -/
structure Initialised (s : TaskSystem) (k' : Kernel) (t : Nat) (dirs : Nat → Directory) : Prop where
  fresh : t ∉ s.live
  inv : HeapInv k'.heap ((s.live ++ [t]).flatMap (taskAllocs dirs))
  small : ∀ u ∈ s.live ++ [t], ∀ x ∈ taskAllocs dirs u, blocksFor x.size = 1
  dir : ∀ u ∈ s.live ++ [t], HasDirectory k'.mem (dirs u)
  chunk : ∀ u ∈ s.live ++ [t], pageDirectoryOf k'.mem u = (dirs u).chunk
  word : ∀ u ∈ s.live, ∀ o, o + 4 ≤ 4096 → load32 k'.mem (u + o) = load32 s.kernel.mem (u + o)
  next : nextOf k'.mem t = 0
  prev : prevOf k'.mem t = 0

theorem taskInv_initialised {k' : Kernel} {t : Nat} {d : Directory} {process : TaskProcess}
    (h : TaskInv s dirs)
    (hmade : TaskMade s.kernel k' (s.live.flatMap (taskAllocs dirs)) d t process) :
    Initialised s k' t (Function.update dirs t d) := by
  have hg := hmade.grows
  have htl : t ∉ s.live := by
    intro ht
    have hnd := hg.inv.nodup
    rw [List.nodup_append] at hnd
    exact hnd.2.2 _ (List.mem_append_right _ List.mem_cons_self) _
      (taskAlloc_live ht) rfl
  have hold : ∀ u ∈ s.live, taskAllocs (Function.update dirs t d) u = taskAllocs dirs u := by
    intro u hu
    have hne : u ≠ t := fun e => htl (e ▸ hu)
    unfold taskAllocs
    rw [Function.update_of_ne hne]
  have hnew : taskAllocs (Function.update dirs t d) t = d.allocations ++ [taskAlloc t] := by
    unfold taskAllocs
    rw [Function.update_self]
  have hfm : (s.live ++ [t]).flatMap (taskAllocs (Function.update dirs t d)) =
      s.live.flatMap (taskAllocs dirs) ++ (d.allocations ++ [taskAlloc t]) := by
    rw [List.flatMap_append, List.flatMap_singleton, hnew, List.flatMap_congr hold]
  have hword : ∀ u ∈ s.live, ∀ o, o + 4 ≤ 4096 →
      load32 k'.mem (u + o) = load32 s.kernel.mem (u + o) := by
    intro u hu o ho
    refine load32_congr fun a h1 h2 => ?_
    exact grows_old hg (taskAlloc_live hu) (taskAlloc_blocks u)
      (show u ≤ a by omega) (show a < u + 4096 by omega)
  refine ⟨htl, ?_, fun u hu => ?_, fun u hu => ?_, fun u hu => ?_, hword, hmade.next,
    hmade.prev⟩
  · rw [hfm]
    exact hg.inv.perm List.perm_append_comm
  · rcases List.mem_append.mp hu with hu | hu
    · rw [hold u hu]
      exact h.small u hu
    · rw [List.mem_singleton.mp hu, hnew]
      exact hg.small
  · rcases List.mem_append.mp hu with hu | hu
    · have hne : u ≠ t := fun e => htl (e ▸ hu)
      rw [Function.update_of_ne hne]
      have hpart : ∀ x ∈ (dirs u).allocations, ∀ a, x.ptr ≤ a → a < x.ptr + 4096 →
          k'.mem a = s.kernel.mem a := fun x hx a h1 h2 =>
        grows_old hg (mem_live_allocs hu (List.mem_append_left _ hx))
          (h.small u hu x (List.mem_append_left _ hx)) h1 h2
      refine (h.dir u hu).congr (fun a h1 h2 => ?_) fun a h1 h2 => ?_
      · exact hpart ⟨(dirs u).chunk, 4⟩ (by simp [Directory.allocations]) a h1
          (show a < (dirs u).chunk + 4096 by omega)
      · exact hpart (tableAlloc (dirs u).directory) (by simp [Directory.allocations]) a h1 h2
    · rw [List.mem_singleton.mp hu, Function.update_self]
      exact hmade.directory
  · rcases List.mem_append.mp hu with hu | hu
    · have hne : u ≠ t := fun e => htl (e ▸ hu)
      rw [Function.update_of_ne hne, ← h.chunk u hu]
      exact hword u hu 0 (by decide)
    · rw [List.mem_singleton.mp hu, Function.update_self]
      exact hmade.chunk

section Link

variable {k' : Kernel} {t : Nat}

theorem Initialised.nodup (hi : Initialised s k' t dirs) (hnd : s.live.Nodup) :
    (s.live ++ [t]).Nodup := by
  rw [List.nodup_append]
  refine ⟨hnd, List.nodup_singleton t, fun a ha b hb e => ?_⟩
  rw [List.mem_singleton.mp hb] at e
  exact hi.fresh (e ▸ ha)

theorem Initialised.lt (hi : Initialised s k' t dirs) {u : Nat} (hu : u ∈ s.live ++ [t]) :
    u < 4294967296 :=
  lt_of_le_of_lt (Nat.le_add_right _ _) (hi.inv.end_lt (taskAlloc_live hu)).2

/-- The first task. -/
theorem Initialised.first (hi : Initialised s k' t dirs) (hn : s.live = []) :
    TaskInv ⟨k', ⟨t, t, t⟩, s.live ++ [t]⟩ dirs where
  inv := hi.inv
  small := hi.small
  dir := hi.dir
  chunk := hi.chunk
  linked := by
    rw [hn]
    exact ⟨hi.prev, hi.next, trivial⟩
  nodup := hi.nodup (by rw [hn]; exact List.nodup_nil)
  head := by
    rw [hn]
    rfl
  tail := by
    rw [hn]
    rfl
  current := Or.inr (List.mem_append_right _ List.mem_cons_self)

/-- A task behind the last one, `u`. -/
theorem Initialised.behind (hi : Initialised s k' t dirs) {old : Nat → Directory}
    (h : TaskInv s old) {u : Nat} (hu : u ∈ s.live) (hlast : s.live.getLastD 0 = u) :
    TaskInv ⟨⟨k'.heap, store32 (store32 k'.mem (u + 56) t) (t + 60) u⟩,
      { s.list with tail := t }, s.live ++ [t]⟩ dirs := by
  have htm : t ∈ s.live ++ [t] := List.mem_append_right _ List.mem_cons_self
  have hum : u ∈ s.live ++ [t] := List.mem_append_left _ hu
  have hne : ∀ x ∈ s.live, x ≠ t := fun x hx e => hi.fresh (e ▸ hx)
  -- a word of a task that is none of the two links written
  have hload : ∀ x ∈ s.live ++ [t], ∀ o, o + 4 ≤ 4096 → (x ≠ t ∨ o + 4 ≤ 60 ∨ 60 + 4 ≤ o) →
      (x ≠ u ∨ o + 4 ≤ 56 ∨ 56 + 4 ≤ o) →
      load32 (store32 (store32 k'.mem (u + 56) t) (t + 60) u) (x + o) = load32 k'.mem (x + o) := by
    intro x hx o ho h1 h2
    rw [task_load_store hi.inv (taskAlloc_live hx) (taskAlloc_live htm) h1 ho (by decide),
      task_load_store hi.inv (taskAlloc_live hx) (taskAlloc_live hum) h2 ho (by decide)]
  have hsub : ∀ x ∈ s.live ++ [t], ∀ y ∈ (dirs x).allocations,
      y ∈ (s.live ++ [t]).flatMap (taskAllocs dirs) := fun x hx y hy =>
    mem_live_allocs hx (List.mem_append_left _ hy)
  constructor
  case inv => exact hi.inv
  case small => exact hi.small
  case dir =>
    intro x hx
    refine HasDirectory.store hi.inv (HasDirectory.store hi.inv (hi.dir x hx) (hsub x hx)
      (taskAlloc_live hum) ?_ (taskAlloc_blocks u) (by decide) t) (hsub x hx)
        (taskAlloc_live htm) ?_
      (taskAlloc_blocks t) (by decide) u
    · exact taskAlloc_not_mem hi.inv.nodup hum hx
    · exact taskAlloc_not_mem hi.inv.nodup htm hx
  case chunk =>
    intro x hx
    rw [← hi.chunk x hx]
    exact hload x hx 0 (by decide) (by omega) (by omega)
  case linked =>
    refine linked_snoc s.live h.linked h.nodup (fun x hx => ?_) (fun x hx hxu => ?_) (fun _ => ?_)
      ?_ ?_
    · have hx' := List.mem_append_left [t] hx
      exact (hload x hx' 60 (by decide) (Or.inl (hne x hx)) (by omega)).trans
        (hi.word x hx 60 (by decide))
    · have hx' := List.mem_append_left [t] hx
      rw [hlast] at hxu
      exact (hload x hx' 56 (by decide) (by omega) (Or.inl hxu)).trans (hi.word x hx 56 (by decide))
    · rw [hlast]
      unfold nextOf
      rw [task_load_store hi.inv (taskAlloc_live hum) (taskAlloc_live htm) (Or.inl (hne u hu))
        (by decide) (by decide)]
      exact load32_store32_same (hi.lt htm)
    · rw [hlast]
      exact load32_store32_same (hi.lt hum)
    · exact (hload t htm 56 (by decide) (by omega) (Or.inl (hne u hu).symm)).trans hi.next
  case nodup => exact hi.nodup h.nodup
  case head =>
    rw [h.head]
    cases e : s.live with
    | nil =>
      rw [e] at hu
      exact absurd hu List.not_mem_nil
    | cons x xs => rfl
  case tail => exact List.getLastD_concat.symm
  case current =>
    rcases h.current with ⟨hn, _⟩ | hc
    · rw [hn] at hu
      exact absurd hu List.not_mem_nil
    · exact Or.inr (List.mem_append_left _ hc)

end Link

/-- **A creation with room** adds a task behind the last one. -/
theorem taskInv_new (h : TaskInv s dirs) (hN : RoomForTask s) (process : TaskProcess) :
    ∃ t dirs', (s.new process).live = s.live ++ [t] ∧ TaskInv (s.new process) dirs' ∧
      freeBlocks (s.new process).kernel.heap + 1027 = freeBlocks s.kernel.heap := by
  unfold RoomForTask at hN
  obtain ⟨t, k', d, hmade, -, e⟩ := taskNew_grows h.inv hN s.list process
  have hi := taskInv_initialised h hmade
  have hfree : freeBlocks k'.heap + 1027 = freeBlocks s.kernel.heap := by
    have hf := hmade.grows.free
    have hl : (d.allocations ++ [taskAlloc t]).length = 1027 := by
      simp [Directory.allocations, hmade.directory.length]
    rwa [hl] at hf
  refine ⟨t, Function.update dirs t d, ?_⟩
  rcases List.eq_nil_or_concat s.live with hnil | ⟨us, u, hlive⟩
  · have hh : s.list.head = 0 := by
      rw [h.head, hnil]
      rfl
    have hnew : s.new process = ⟨k', ⟨t, t, t⟩, s.live ++ [t]⟩ := by
      unfold TaskSystem.new
      rw [e, if_pos hh]
      rfl
    rw [hnew]
    exact ⟨rfl, hi.first hnil, hfree⟩
  · rw [List.concat_eq_append] at hlive
    have hlast : s.live.getLastD 0 = u := by
      rw [hlive, List.getLastD_concat]
    have hu : u ∈ s.live := by
      rw [hlive]
      exact List.mem_append_right _ List.mem_cons_self
    have hh : ¬ s.list.head = 0 := by
      rw [h.head]
      intro h0
      cases e : s.live with
      | nil =>
        rw [e] at hu
        exact absurd hu List.not_mem_nil
      | cons x xs =>
        rw [e] at h0
        exact h.ne_zero (by rw [e, ← show x = 0 from h0]; exact List.mem_cons_self)
    have hnew : s.new process = ⟨⟨k'.heap, store32 (store32 k'.mem (u + 56) t) (t + 60) u⟩,
        { s.list with tail := t }, s.live ++ [t]⟩ := by
      unfold TaskSystem.new
      rw [e, if_neg hh, h.tail, hlast]
      rfl
    rw [hnew]
    exact ⟨rfl, hi.behind h hu hlast, hfree⟩

end New

/-! ## 4. Release -/

section Free

variable {s : TaskSystem} {dirs : Nat → Directory} {t : Nat}

/-- The heap and memory after a release: the task's parts are released, the list is changed. -/
theorem taskFree_eq (h : TaskInv s dirs) (ht : t ∈ s.live) :
    s.free t = ⟨⟨(taskAllocs dirs t).foldl (fun h a => heapFree h a.ptr) s.kernel.heap,
      (taskListRemove s.kernel.mem s.list t).1⟩, (taskListRemove s.kernel.mem s.list t).2,
      s.live.erase t⟩ := by
  unfold TaskSystem.free taskFree
  rw [h.chunk t ht, pagingFree4gb_heap (h.dir t ht)]
  unfold taskAllocs
  rw [List.foldl_append]
  rfl

theorem taskFree_heapInv (h : TaskInv s dirs) (ht : t ∈ s.live) :
    HeapInv ((taskAllocs dirs t).foldl (fun h a => heapFree h a.ptr) s.kernel.heap)
      ((s.live.erase t).flatMap (taskAllocs dirs)) := by
  refine heapInv_freeAll _ (h.inv.perm ?_)
  rw [← List.flatMap_cons]
  exact (List.perm_cons_erase ht).symm.flatMap_right _

/-- `task_list_remove` writes the `next` of the task before, where there is one. -/
theorem taskListRemove_mem (m : Mem) (g : TaskGlobals) (t : Nat) : (taskListRemove m g t).1 =
    if prevOf m t ≠ 0 then store32 m (prevOf m t + 56) (nextOf m t) else m := rfl

/-- What the invariant says about the last task. -/
theorem TaskInv.last (h : TaskInv s dirs) {l : List Nat} (hl : s.live = l ++ [t]) :
    t ∈ s.live ∧ t ∉ l ∧ l.Nodup ∧ s.live.erase t = l ∧
      prevOf s.kernel.mem t = l.getLastD 0 ∧ nextOf s.kernel.mem t = 0 := by
  have hnd := h.nodup
  have hlink := h.linked
  rw [hl] at hnd hlink
  obtain ⟨h1, _, h2⟩ := List.nodup_append.mp hnd
  have htl : t ∉ l := fun hm => h2 t hm t List.mem_cons_self rfl
  obtain ⟨hprev, hnext, _⟩ := hlink.middle l
  rw [hl]
  refine ⟨List.mem_append_right _ List.mem_cons_self, htl, h1, ?_, hprev, hnext⟩
  rw [List.erase_append_right _ htl, List.erase_cons_head, List.append_nil]

/-- Removing the only task empties the list. -/
theorem taskListRemove_only (h : TaskInv s dirs) (hl : s.live = [t]) :
    taskListRemove s.kernel.mem s.list t = (s.kernel.mem, ⟨0, 0, 0⟩) := by
  obtain ⟨ht, -, -, -, hprev, hnext⟩ := h.last (l := []) hl
  have hp0 : prevOf s.kernel.mem t = 0 := hprev
  have hhead : t = s.list.head := by
    rw [h.head, hl]
    rfl
  have htail : t = s.list.tail := by
    rw [h.tail, hl]
    rfl
  have hcur : t = s.list.current := by
    rcases h.current with ⟨hn, _⟩ | hc
    · rw [hn] at ht
      exact absurd ht List.not_mem_nil
    · rw [hl] at hc
      exact (List.mem_singleton.mp hc).symm
  unfold taskListRemove taskGetNext
  simp only [hp0, ne_eq, not_true_eq_false, if_false, hhead.symm, htail.symm, hcur.symm, if_true,
    hnext]

/-- A store of the `next` of the task `v` leaves the other words of all tasks. -/
theorem TaskInv.load_next (h : TaskInv s dirs) {v x o : Nat} (hv : v ∈ s.live) (hx : x ∈ s.live)
    (ho : o + 4 ≤ 4096) (hne : x ≠ v ∨ o + 4 ≤ 56 ∨ 56 + 4 ≤ o) :
    load32 (store32 s.kernel.mem (v + 56) 0) (x + o) = load32 s.kernel.mem (x + o) :=
  task_load_store h.inv (taskAlloc_live hx) (taskAlloc_live hv) hne ho (by decide) 0

/-- Removing the last task behind `v`: `v` is the last one then, and the first one is switched to
    where the task was the current one. -/
theorem taskListRemove_last (h : TaskInv s dirs) {l : List Nat} {v : Nat} (hl : s.live = l ++ [t])
    (hv : v ∈ l) (hlast : l.getLastD 0 = v) :
    taskListRemove s.kernel.mem s.list t = (store32 s.kernel.mem (v + 56) 0,
      ⟨l.headD 0, v, if t = s.list.current then l.headD 0 else s.list.current⟩) := by
  obtain ⟨ht, htl, -, -, hprev, hnext⟩ := h.last hl
  have hvs : v ∈ s.live := by
    rw [hl]
    exact List.mem_append_left _ hv
  have hv0 : v ≠ 0 := fun e => h.ne_zero (e ▸ hvs)
  have htail : t = s.list.tail := by
    rw [h.tail, hl, List.getLastD_concat]
  obtain ⟨x, xs, hx⟩ := List.exists_cons_of_ne_nil (List.ne_nil_of_mem hv)
  have hhead : s.list.head = l.headD 0 := by
    rw [h.head, hl, hx]
    rfl
  have hnh : t ≠ l.headD 0 := by
    rw [hx]
    exact fun e => htl (by rw [hx, e]; exact List.mem_cons_self)
  rw [hlast] at hprev
  have hnt : nextOf (store32 s.kernel.mem (v + 56) 0) t = 0 :=
    (h.load_next hvs ht (by decide) (Or.inl fun e => htl (e ▸ hv))).trans hnext
  have hpt : prevOf (store32 s.kernel.mem (v + 56) 0) t = v :=
    (h.load_next hvs ht (by decide) (by omega)).trans hprev
  have hm : (if prevOf s.kernel.mem t ≠ 0 then store32 s.kernel.mem
      (prevOf s.kernel.mem t + 56) (nextOf s.kernel.mem t) else s.kernel.mem) =
      store32 s.kernel.mem (v + 56) 0 := by
    rw [hprev, hnext, if_pos hv0]
  unfold taskListRemove
  dsimp only
  rw [hm, hhead, if_neg hnh, if_pos htail, hpt]
  by_cases hc : t = s.list.current
  · rw [if_pos hc, if_pos hc]
    unfold taskGetNext
    dsimp only
    rw [← hc, hnt, if_pos rfl, hhead]
  · rw [if_neg hc, if_neg hc, hhead]

/-- The task that is current without the last one: the first, or the one that was. -/
theorem TaskInv.current_without (h : TaskInv s dirs) {l : List Nat} {v : Nat}
    (hl : s.live = l ++ [t]) (hv : v ∈ l) :
    (if t = s.list.current then l.headD 0 else s.list.current) ∈ l := by
  split
  · obtain ⟨x, xs, hx⟩ := List.exists_cons_of_ne_nil (List.ne_nil_of_mem hv)
    rw [hx]
    exact List.mem_cons_self
  · rename_i hc
    rcases h.current with ⟨hn, -⟩ | hcm
    · rw [hn] at hl
      exact absurd hl.symm (List.append_ne_nil_of_right_ne_nil l (List.cons_ne_nil t []))
    · rw [hl] at hcm
      rcases List.mem_append.mp hcm with hcm | hcm
      · exact hcm
      · exact absurd (List.mem_singleton.mp hcm).symm hc

/-- **A release of the last task** keeps the invariant. -/
theorem taskInv_free_last (h : TaskInv s dirs) {l : List Nat} (hl : s.live = l ++ [t]) :
    TaskInv (s.free t) dirs := by
  obtain ⟨ht, htl, hnd, her, -, -⟩ := h.last hl
  have hinv := taskFree_heapInv h ht
  rw [taskFree_eq h ht]
  rw [her] at hinv ⊢
  rcases List.eq_nil_or_concat l with hnil | ⟨us, v, hv⟩
  · -- it was the only task
    subst hnil
    rw [taskListRemove_only h hl]
    refine ⟨hinv, ?_, ?_, ?_, trivial, List.nodup_nil, rfl, rfl, Or.inl ⟨rfl, rfl⟩⟩
    · exact fun x hx => absurd hx List.not_mem_nil
    · exact fun x hx => absurd hx List.not_mem_nil
    · exact fun x hx => absurd hx List.not_mem_nil
  · -- the task `v` before it becomes the last one
    rw [List.concat_eq_append] at hv
    have hlast : l.getLastD 0 = v := by
      rw [hv, List.getLastD_concat]
    have hvl : v ∈ l := by
      rw [hv]
      exact List.mem_append_right _ List.mem_cons_self
    have hsub : ∀ x ∈ l, x ∈ s.live := fun x hx => by
      rw [hl]
      exact List.mem_append_left _ hx
    have hlink := h.linked
    rw [hl] at hlink
    rw [taskListRemove_last h hl hvl hlast]
    constructor
    case inv => exact hinv
    case small => exact fun x hx => h.small x (hsub x hx)
    case dir =>
      intro x hx
      exact HasDirectory.store h.inv (h.dir x (hsub x hx))
        (fun y hy => mem_live_allocs (hsub x hx) (List.mem_append_left _ hy))
        (taskAlloc_live (hsub v hvl)) (taskAlloc_not_mem h.inv.nodup (hsub v hvl) (hsub x hx))
        (taskAlloc_blocks v) (by decide) 0
    case chunk =>
      intro x hx
      rw [← h.chunk x (hsub x hx)]
      exact h.load_next (o := 0) (hsub v hvl) (hsub x hx) (by decide) (by omega)
    case linked =>
      refine linked_init l hlink hnd (fun x hx => ?_) (fun x hx hne => ?_) fun _ => ?_
      · exact h.load_next (hsub v hvl) (hsub x hx) (by decide) (by omega)
      · rw [hlast] at hne
        exact h.load_next (hsub v hvl) (hsub x hx) (by decide) (Or.inl hne)
      · rw [hlast]
        exact load32_store32_same (by decide)
    case nodup => exact hnd
    case head => rfl
    case tail => exact hlast.symm
    case current => exact Or.inr (h.current_without hl hvl)

/-- **A release of another task** leaves its successor's `prev` naming it. -/
theorem taskFree_stale_prev (h : TaskInv s dirs) {l r : List Nat} {u : Nat}
    (hl : s.live = l ++ t :: u :: r) :
    u ∈ (s.free t).live ∧ t ∉ (s.free t).live ∧ t ≠ 0 ∧ prevOf (s.free t).kernel.mem u = t := by
  have ht : t ∈ s.live := by
    rw [hl]
    exact List.mem_append_right _ List.mem_cons_self
  have hu : u ∈ s.live := by
    rw [hl]
    exact List.mem_append_right _ (List.mem_cons_of_mem _ List.mem_cons_self)
  have hut : u ≠ t := by
    have hnd := h.nodup
    rw [hl, List.nodup_append] at hnd
    rintro rfl
    exact (List.nodup_cons.mp hnd.2.1).1 List.mem_cons_self
  have hlink := h.linked
  rw [hl] at hlink
  obtain ⟨hprev, _, hrest⟩ := hlink.middle l
  have hpu : prevOf s.kernel.mem u = t := hrest.1
  rw [taskFree_eq h ht]
  refine ⟨h.nodup.mem_erase_iff.mpr ⟨hut, hu⟩, fun hm => (h.nodup.mem_erase_iff.mp hm).1 rfl,
    fun e => h.ne_zero (e ▸ ht), ?_⟩
  dsimp only
  rw [taskListRemove_mem]
  split
  · rename_i hp0
    have hpl : prevOf s.kernel.mem t ∈ s.live := by
      rw [hprev] at hp0 ⊢
      rw [hl]
      exact List.mem_append_left _ ((getLastD_cases l).resolve_left hp0)
    have hkeep : prevOf (store32 s.kernel.mem (prevOf s.kernel.mem t + 56)
        (nextOf s.kernel.mem t)) u = prevOf s.kernel.mem u :=
      task_load_store h.inv (taskAlloc_live hu) (taskAlloc_live hpl) (by omega) (by decide)
        (by decide) _
    exact hkeep.trans hpu
  · exact hpu

/-- From a state of the invariant, a release keeps the list consistent exactly when it is of the
    last task. -/
theorem taskFree_listOk_iff (h : TaskInv s dirs) (ht : t ∈ s.live) :
    TaskListOk (s.free t) ↔ LastTask s t := by
  obtain ⟨l, r, e⟩ := split_of_mem ht
  constructor
  · intro hok
    cases r with
    | nil =>
      unfold LastTask
      rw [e, List.getLast?_concat]
    | cons u r =>
      obtain ⟨hu, htn, ht0, hp⟩ := taskFree_stale_prev h e
      have := (hok.links u hu).2
      rw [hp] at this
      rcases this with h0 | h0
      · exact absurd h0 ht0
      · exact absurd h0 htn
  · intro hlast
    obtain ⟨l, hl⟩ := List.getLast?_eq_some_iff.mp hlast
    exact (taskInv_free_last h hl).listOk

end Free

/-! ## 5. Runs -/

theorem TaskInv.start {s : TaskSystem} (h : s.Start) (dirs : Nat → Directory) : TaskInv s dirs := by
  obtain ⟨hp, hg, hn⟩ := h
  have hnone : ∀ t ∈ s.live, False := fun t ht => by
    rw [hn] at ht
    exact absurd ht List.not_mem_nil
  constructor
  case inv =>
    rw [hn]
    exact HeapInv.nil hp
  case small => exact fun t ht => (hnone t ht).elim
  case dir => exact fun t ht => (hnone t ht).elim
  case chunk => exact fun t ht => (hnone t ht).elim
  case linked =>
    rw [hn]
    trivial
  case nodup =>
    rw [hn]
    exact List.nodup_nil
  case head =>
    rw [hn, hg]
    rfl
  case tail =>
    rw [hn, hg]
    rfl
  case current => exact Or.inl ⟨hn, by rw [hg]⟩

theorem taskInv_switch {s : TaskSystem} {dirs : Nat → Directory} (h : TaskInv s dirs) {t : Nat}
    (ht : t ∈ s.live) : TaskInv (s.switch t) dirs :=
  ⟨h.inv, h.small, h.dir, h.chunk, h.linked, h.nodup, h.head, h.tail, Or.inr ht⟩

/-- **The invariant along a run.** -/
theorem taskInv_run {s₀ s : TaskSystem} (h0 : s₀.Start) (hr : TaskRun RoomForTask LastTask s₀ s) :
    ∃ dirs, TaskInv s dirs := by
  induction hr with
  | refl => exact ⟨_, TaskInv.start h0 fun _ => ⟨0, 0, []⟩⟩
  | tail _ hs ih =>
    obtain ⟨dirs, h⟩ := ih
    cases hs with
    | new process hN =>
      obtain ⟨_, dirs', _, h', _⟩ := taskInv_new h hN process
      exact ⟨dirs', h'⟩
    | free t ht hF =>
      obtain ⟨l, hl⟩ := List.getLast?_eq_some_iff.mp hF
      exact ⟨dirs, taskInv_free_last h hl⟩
    | switch t ht => exact ⟨dirs, taskInv_switch h ht⟩

/-- **The task list in every state of every run** whose creations find their blocks and whose
    releases are of the last task; and from each of these states a release keeps the list
    consistent exactly when it is of the last task. -/
theorem taskRun_listOk {s₀ s : TaskSystem} (h0 : s₀.Start)
    (hr : TaskRun RoomForTask LastTask s₀ s) :
    TaskListOk s ∧ ∀ t ∈ s.live, (TaskListOk (s.free t) ↔ LastTask s t) := by
  obtain ⟨dirs, h⟩ := taskInv_run h0 hr
  exact ⟨h.listOk, fun t ht => taskFree_listOk_iff h ht⟩

/-- The kernel before its first task. -/
def bootTasks : TaskSystem := ⟨⟨kernelHeap fun _ => 0, fun _ => 0⟩, ⟨0, 0, 0⟩, []⟩

theorem bootTasks_start : bootTasks.Start := ⟨kernelHeap_placed _, rfl, rfl⟩

/-- A raw binary's process. -/
def someProcess : TaskProcess := ⟨0x01000000, none⟩

/-- Two tasks can be created: the kernel heap has 25600 blocks. -/
theorem bootTasks_two :
    ∃ a b dirs, RoomForTask bootTasks ∧ RoomForTask (bootTasks.new someProcess) ∧
    ((bootTasks.new someProcess).new someProcess).live = [a, b] ∧
    TaskInv ((bootTasks.new someProcess).new someProcess) dirs := by
  have hf : freeBlocks bootTasks.kernel.heap = 25600 := kernelHeap_freeBlocks _
  have h1 : RoomForTask bootTasks := by
    unfold RoomForTask
    omega
  obtain ⟨a, dirs₁, ha, hi₁, hf₁⟩ :=
    taskInv_new (TaskInv.start bootTasks_start fun _ => ⟨0, 0, []⟩) h1 someProcess
  have h2 : RoomForTask (bootTasks.new someProcess) := by
    unfold RoomForTask
    omega
  obtain ⟨b, dirs₂, hb, hi₂, _⟩ := taskInv_new hi₁ h2 someProcess
  refine ⟨a, b, dirs₂, h1, h2, ?_, hi₂⟩
  rw [hb, ha]
  rfl

/-- The run that creates two tasks: the list is consistent, and only the second may be released. -/
theorem taskRun_listOk_two : ∃ s, TaskRun RoomForTask LastTask bootTasks s ∧ s.live.length = 2 ∧
    TaskListOk s := by
  obtain ⟨a, b, _, h1, h2, hlive, _⟩ := bootTasks_two
  have hr : TaskRun RoomForTask LastTask bootTasks
      ((bootTasks.new someProcess).new someProcess) :=
    .tail (.tail .refl (.new _ someProcess h1)) (.new _ someProcess h2)
  exact ⟨_, hr, by rw [hlive]; rfl, (taskRun_listOk bootTasks_start hr).1⟩

/-- **Two tasks are created and the first is released**: the list is not consistent. -/
theorem taskRun_stale_prev : ¬ ∀ s, TaskRun (fun _ => True) (fun _ _ => True) bootTasks s →
    TaskListOk s := by
  intro hall
  obtain ⟨a, b, dirs, _, _, hlive, hi⟩ := bootTasks_two
  have ha : a ∈ ((bootTasks.new someProcess).new someProcess).live := by
    rw [hlive]
    exact List.mem_cons_self
  have hr : TaskRun (fun _ => True) (fun _ _ => True) bootTasks
      (((bootTasks.new someProcess).new someProcess).free a) :=
    .tail (.tail (.tail .refl (.new _ someProcess trivial)) (.new _ someProcess trivial))
      (.free _ a ha trivial)
  obtain ⟨hb, hna, ha0, hp⟩ := taskFree_stale_prev (l := []) hi hlive
  have := ((hall _ hr).links b hb).2
  rw [hp] at this
  rcases this with h0 | h0
  · exact ha0 h0
  · exact hna h0

end PeachKernel
