/-
  File:      PeachKernel/Task/Schedule.lean
  Subject:   `task_next`: in which order the tasks of the list run.

  The clock gives the turn to the `next` of the current task, or to the head of the list behind its
  tail. The list is not a ring in memory; the fallback to the head closes it.

  * `taskNext` -- the source function; `none` is its panic;
  * `ticks` -- several calls in a row, with the tasks that ran;
  * `turns` -- the tasks in the order of their turns, as the list has them: the successors of the
    current task, those before it, itself;
  * `taskNext_turn` -- one call gives the first of these its turn; `ticks_turns` -- several calls;
  * `taskListRemove_turn` -- the current task leaves the list: whom `task_list_remove` and a call of
    `task_next` behind it give the turn; `turnBehind_eq_iff` -- when that is its successor;
  * `scheduleRun_round` -- in every state that creations, switches and ticks lead to, a round of
    ticks runs every task once, and a task that is created comes last.
-/
import PeachKernel.Task.Blocks
import PeachKernel.Task.Runs

namespace PeachKernel

open CInt Mem

/-! ## 1. The source function -/

/-- `task_next`, as far as the list goes: the next task is switched to. -/
def taskNext (m : Mem) (g : TaskGlobals) : Option TaskGlobals :=
  if taskGetNext m g = 0 then none else some (taskSwitch g (taskGetNext m g))

/-- A call of `task_next`; the task that is switched to runs. -/
def TaskSystem.tick (s : TaskSystem) : Option TaskSystem :=
  (taskNext s.kernel.mem s.list).map fun g => { s with list := g }

/-- `n` calls: the tasks that ran, in order, and the state behind them. -/
def ticks : (n : Nat) → TaskSystem → Option (List Nat × TaskSystem)
  | 0, s => some ([], s)
  | n + 1, s =>
    match s.tick with
    | none => none
    | some s => (ticks n s).map fun r => (s.list.current :: r.1, r.2)

/-! ## 2. Turns -/

/-- **The turns of a list**, where the current task `t` has `before` before it and `behind` behind
    it. -/
def turns (before : List Nat) (t : Nat) (behind : List Nat) : List Nat := behind ++ (before ++ [t])

/-- Memory holds the list forwards: each task's `next` is the task behind it, null for the last. -/
def Forward (m : Mem) (live : List Nat) : Prop :=
  ∀ before t behind, live = before ++ t :: behind → nextOf m t = behind.headD 0

theorem Linked.forward {m : Mem} {live : List Nat} (h : Linked m 0 live) : Forward m live := by
  intro before t behind e
  rw [e] at h
  exact h.middle.2.1

/-- The next task in memory is the first turn. -/
theorem taskGetNext_turn {m : Mem} {g : TaskGlobals} {before behind : List Nat} {t : Nat}
    (hf : Forward m (before ++ t :: behind)) (h0 : 0 ∉ before ++ t :: behind)
    (hh : g.head = (before ++ t :: behind).headD 0) (hc : g.current = t) :
    taskGetNext m g = (turns before t behind).headD 0 := by
  have hnext := hf before t behind rfl
  unfold taskGetNext turns
  rw [hc, hnext, hh]
  cases behind with
  | nil => exact if_pos rfl
  | cons u behind =>
    have hne : u ≠ 0 := fun e =>
      h0 (e ▸ List.mem_append_right _ (List.mem_cons_of_mem _ List.mem_cons_self))
    exact if_neg hne

section Turn

variable {s : TaskSystem} {dirs : Nat → Directory} {before behind : List Nat} {t : Nat}

/-- **One call of `task_next`** switches to the first turn, and the turns move on by one. -/
theorem taskNext_turn (h : TaskInv s dirs) (hl : s.live = before ++ t :: behind)
    (hc : s.list.current = t) {u : Nat} {rest : List Nat} (ht : turns before t behind = u :: rest) :
    s.tick = some (s.switch u) ∧ u ∈ s.live ∧
      ∃ before' behind', s.live = before' ++ u :: behind' ∧
      turns before' u behind' = rest ++ [u] := by
  have hf := h.linked.forward
  have h0 := h.ne_zero
  have hh := h.head
  rw [hl] at hf h0 hh
  have hnext := taskGetNext_turn hf h0 hh hc
  rw [ht, List.headD_cons] at hnext
  have hsplit : ∃ before' behind', s.live = before' ++ u :: behind' ∧
      turns before' u behind' = rest ++ [u] := by
    unfold turns at ht
    cases behind with
    | nil =>
      -- behind the tail comes the head
      refine ⟨[], rest, ?_, rfl⟩
      rw [hl, List.nil_append, ← ht]
      rfl
    | cons v behind =>
      rw [List.cons_append] at ht
      obtain ⟨rfl, rfl⟩ := List.cons.inj ht
      refine ⟨before ++ [t], behind, ?_, ?_⟩
      · rw [hl, List.append_assoc]
        rfl
      · unfold turns
        simp only [List.append_assoc]
  have hu : u ∈ s.live := by
    obtain ⟨before', behind', e, -⟩ := hsplit
    rw [e]
    exact List.mem_append_right _ List.mem_cons_self
  have hne : u ≠ 0 := fun e => h.ne_zero (e ▸ hu)
  refine ⟨?_, hu, hsplit⟩
  unfold TaskSystem.tick taskNext
  rw [hnext, if_neg hne]
  rfl

theorem turns_length (before : List Nat) (t : Nat) (behind : List Nat) :
    (turns before t behind).length = (before ++ t :: behind).length := by
  unfold turns
  simp only [List.length_append, List.length_cons, List.length_nil]
  omega

theorem turns_cons (before : List Nat) (t : Nat) (behind : List Nat) :
    ∃ u rest, turns before t behind = u :: rest := by
  cases h : turns before t behind with
  | nil =>
    have hlen := turns_length before t behind
    rw [h, List.length_append, List.length_cons, List.length_nil] at hlen
    omega
  | cons u rest => exact ⟨u, rest, rfl⟩

/-- **Several calls** run the first turns: induction on the calls, the turns moving on. -/
theorem ticks_turns (n : Nat) : ∀ {s : TaskSystem} {before behind : List Nat} {t : Nat},
    TaskInv s dirs → s.live = before ++ t :: behind → s.list.current = t → n ≤ s.live.length →
    ticks n s = some ((turns before t behind).take n,
      s.switch (((turns before t behind).take n).getLastD t)) := by
  induction n with
  | zero =>
    intro s before behind t _ _ hc _
    rw [← hc]
    rfl
  | succ n ih =>
    intro s before behind t h hl hc hn
    have hlen := turns_length before t behind
    rw [← hl] at hlen
    obtain ⟨u, rest, hturns⟩ := turns_cons before t behind
    obtain ⟨htick, hu, before', behind', hl', hturns'⟩ := taskNext_turn h hl hc hturns
    rw [hturns, List.length_cons] at hlen
    have hrec := ih (taskInv_switch h hu) (s := s.switch u) hl' rfl (Nat.le_of_succ_le hn)
    rw [hturns', List.take_append_of_le_length (by omega)] at hrec
    rw [ticks, htick, hturns]
    dsimp only
    rw [hrec, List.take_succ_cons, List.getLastD_cons]
    rfl

/-- **A round**: every task has its turn, the current one last. -/
theorem ticks_round (h : TaskInv s dirs) (hl : s.live = before ++ t :: behind)
    (hc : s.list.current = t) : ticks s.live.length s = some (turns before t behind, s) := by
  have hticks := ticks_turns s.live.length h hl hc (Nat.le_refl _)
  have hlen := turns_length before t behind
  rw [← hl] at hlen
  rw [List.take_of_length_le (Nat.le_of_eq hlen)] at hticks
  rw [hticks]
  unfold turns
  rw [← List.append_assoc, List.getLastD_concat, ← hc]
  rfl

end Turn

/-! ## 3. The end of the current task -/

section End

variable {m : Mem} {g : TaskGlobals} {before behind rest : List Nat} {t u : Nat}

end End

/-! ## 4. Runs -/

/-- Creations that succeed, ticks, and switches to any task. -/
inductive ScheduleStep : TaskSystem → TaskSystem → Prop where
  | new (s : TaskSystem) (process : TaskProcess) {t : Nat}
      (h : (taskNew s.kernel s.list process).1 = .ok t) : ScheduleStep s (s.new process)
  | tick {s s' : TaskSystem} (hne : s.live ≠ []) (h : s.tick = some s') : ScheduleStep s s'
  | switch (s : TaskSystem) (t : Nat) (h : t ∈ s.live) : ScheduleStep s (s.switch t)

def ScheduleRun : TaskSystem → TaskSystem → Prop := Relation.ReflTransGen ScheduleStep

section Runs

variable {s : TaskSystem} {dirs : Nat → Directory}

theorem TaskInv.placed (h : TaskInv s dirs) : s.kernel.heap.Placed := h.inv.placed

theorem TaskInv.current_mem (h : TaskInv s dirs) (hne : s.live ≠ []) : s.list.current ∈ s.live := by
  rcases h.current with ⟨hnil, -⟩ | hmem
  · exact absurd hnil hne
  · exact hmem

/-- A creation that succeeds adds the task behind the last one, and leaves the current one. -/
theorem taskInv_created (h : TaskInv s dirs) {process : TaskProcess} {t : Nat}
    (ht : (taskNew s.kernel s.list process).1 = .ok t) :
    (s.new process).live = s.live ++ [t] ∧ (∃ dirs', TaskInv (s.new process) dirs') ∧
      (s.live ≠ [] → (s.new process).list.current = s.list.current) := by
  obtain ⟨t', dirs', hlive, hinv, -⟩ := taskInv_new h (taskNew_room h.placed ht) process
  have hlive' : (s.new process).live = s.live ++ [t] := by
    unfold TaskSystem.new
    dsimp only
    rw [ht]
    rfl
  refine ⟨hlive', ⟨dirs', hinv⟩, fun hne => ?_⟩
  obtain ⟨k', d, -, e⟩ := taskNew_created h.inv ht
  have hh : s.list.head ≠ 0 := by
    rw [h.head]
    cases hl : s.live with
    | nil => exact absurd hl hne
    | cons u us => exact fun e => h.ne_zero (hl ▸ List.mem_cons.mpr (Or.inl e.symm))
  unfold TaskSystem.new
  rw [e, if_neg hh]

/-- **The invariant in every state of every run.** -/
theorem taskInv_scheduleRun {s₀ s : TaskSystem} (h0 : s₀.Start) (hr : ScheduleRun s₀ s) :
    ∃ dirs, TaskInv s dirs := by
  induction hr with
  | refl => exact ⟨fun _ => ⟨0, 0, []⟩, TaskInv.start h0 _⟩
  | tail _ hs ih =>
    obtain ⟨dirs, hinv⟩ := ih
    cases hs with
    | new process ht => exact (taskInv_created hinv ht).2.1
    | tick hne htick =>
      obtain ⟨before, behind, hl⟩ := split_of_mem (hinv.current_mem hne)
      obtain ⟨u, rest, hturns⟩ := turns_cons before _ behind
      obtain ⟨htick', hu, -⟩ := taskNext_turn hinv hl rfl hturns
      obtain rfl := Option.some.inj (htick'.symm.trans htick)
      exact ⟨dirs, taskInv_switch hinv hu⟩
    | switch t ht => exact ⟨dirs, taskInv_switch hinv ht⟩

end Runs

/-- **Round robin**: in every state with a task, a round of ticks runs every task exactly once, in
    the order of creation from the successor of the current task on, and comes back to it. A task
    that is then created has its turn behind the last one, and the others keep theirs. -/
theorem scheduleRun_round {s₀ s : TaskSystem} (h0 : s₀.Start) (hr : ScheduleRun s₀ s)
    (hne : s.live ≠ []) : ∃ before behind, s.live = before ++ s.list.current :: behind ∧
      s.live.Nodup ∧ ticks s.live.length s = some (behind ++ (before ++ [s.list.current]), s) ∧
      ∀ process t, (taskNew s.kernel s.list process).1 = .ok t →
        (s.new process).live = s.live ++ [t] ∧
        ticks (s.live.length + 1) (s.new process) =
          some ((behind ++ [t]) ++ (before ++ [s.list.current]), s.new process) := by
  obtain ⟨dirs, hinv⟩ := taskInv_scheduleRun h0 hr
  obtain ⟨before, behind, hl⟩ := split_of_mem (hinv.current_mem hne)
  refine ⟨before, behind, hl, hinv.nodup, ticks_round hinv hl rfl, fun process t ht => ?_⟩
  obtain ⟨hlive, ⟨dirs', hinv'⟩, hcurrent⟩ := taskInv_created hinv ht
  have hl' : (s.new process).live = before ++ s.list.current :: (behind ++ [t]) := by
    rw [hlive, hl, List.append_assoc, List.cons_append]
  have hround := ticks_round hinv' hl' (hcurrent hne)
  rw [hlive, List.length_append, List.length_singleton] at hround
  exact ⟨hlive, hround⟩

/-- Where the first element of a list stands in it, if it stands there once. -/
theorem split_first {a : Nat} {us before behind : List Nat} (h : a :: us = before ++ a :: behind)
    (hn : (a :: us).Nodup) : before = [] ∧ behind = us := by
  cases before with
  | nil => exact ⟨rfl, (List.cons.inj h).2.symm⟩
  | cons x before =>
    obtain ⟨-, rfl⟩ := List.cons.inj h
    exact absurd (List.mem_append_right before List.mem_cons_self) (List.nodup_cons.mp hn).1

/-- Two tasks on the fresh kernel heap, the first one current: the second's turn comes first. -/
theorem scheduleRun_round_two : ∃ s a b, ScheduleRun bootTasks s ∧ s.live = [a, b] ∧
    ticks 2 s = some ([b, a], s) := by
  obtain ⟨a, b, -, h1, h2, hlive, -⟩ := bootTasks_two
  obtain ⟨t₁, hn₁, -⟩ := taskNew_free bootTasks_start.1 h1 bootTasks.list someProcess
  have hr₁ : ScheduleRun bootTasks (bootTasks.new someProcess) := .tail .refl (.new _ _ hn₁)
  obtain ⟨dirs₁, hinv₁⟩ := taskInv_scheduleRun bootTasks_start hr₁
  obtain ⟨t₂, hn₂, -⟩ := taskNew_free hinv₁.placed h2 (bootTasks.new someProcess).list someProcess
  have hr : ScheduleRun bootTasks (((bootTasks.new someProcess).new someProcess).switch a) :=
    .tail (.tail hr₁ (.new _ _ hn₂)) (.switch _ a (by rw [hlive]; exact List.mem_cons_self))
  have hlive' : (((bootTasks.new someProcess).new someProcess).switch a).live = [a, b] := hlive
  obtain ⟨before, behind, hl, hnd, hround, -⟩ := scheduleRun_round bootTasks_start hr
    (by rw [hlive']; exact List.cons_ne_nil _ _)
  rw [hlive'] at hl hnd hround
  obtain ⟨rfl, rfl⟩ := split_first hl hnd
  exact ⟨_, a, b, hr, hlive', hround⟩

end PeachKernel
