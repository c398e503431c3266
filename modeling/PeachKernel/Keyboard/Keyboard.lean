/-
  File:      PeachKernel/Keyboard/Keyboard.lean
  Subject:   The keyboard buffers of the processes: `keyboard_push` and `keyboard_pop`.

  Each process has a ring of 1024 characters. A key is pushed into the ring of the CURRENT PROCESS,
  a system call pops from the ring of the CURRENT TASK's process. Neither compares head and tail: a
  cell that holds 0 is an empty one, and a push into a full ring overwrites the oldest unread
  character.

  * `keyboardPush`, `keyboardPop` -- the source functions; head and tail are `int`s that wrap;
  * `KeyboardEvent`, `KeyboardRun.run` -- any order of pushes, pops and switches, with what was
    pushed to and popped from each process on record;
  * `keyboardRun_fifo` -- while no process has more than 1024 unread characters, the pops deliver
    the pushed characters in order, and answer 0 exactly when all of them have been popped;
  * `keyboardRun_resumes` -- then a drained buffer hands out the next key at once. In general it
    does exactly when the numbers of pushed and popped characters agree modulo 1024;
  * `keyboardRun_withheld` -- after 1025 pushes and 1024 pops the next key is withheld.
-/
import PeachKernel.Lib.CInt
import PeachKernel.Lib.Ring
import Mathlib.Data.List.Induction

namespace PeachKernel

open CInt

/-! ## 1. The source functions -/

/-- `struct keyboard_buffer`. -/
structure KeyboardBuffer where
  buffer : Nat → UInt8
  tail : Int
  head : Int

/-- `current_process`, the process of `current_task`, and the buffers of the processes. -/
structure KeyboardSystem (ι : Type) where
  currentProcess : Option ι
  taskProcess : Option ι
  keyboard : ι → KeyboardBuffer

variable {ι : Type} [DecidableEq ι]

/-- `keyboard_get_tail_index`: `sizeof` is unsigned, so the `int` is converted before the remainder
    is taken. -/
def keyboardGetTailIndex (b : KeyboardBuffer) : Nat := u32 b.tail % 1024

/-- The index of the next character to pop. -/
def keyboardHeadIndex (b : KeyboardBuffer) : Nat := u32 b.head % 1024

/-- A character stored behind the last one. -/
def KeyboardBuffer.push (b : KeyboardBuffer) (c : UInt8) : KeyboardBuffer where
  buffer := Function.update b.buffer (keyboardGetTailIndex b) c
  tail := i32 (b.tail + 1)
  head := b.head

/-- The first character, and the buffer without it. -/
def KeyboardBuffer.pop (b : KeyboardBuffer) : UInt8 × KeyboardBuffer :=
  let c := b.buffer (keyboardHeadIndex b)
  if c = 0x00 then (0, b)
  else (c, { b with
    buffer := Function.update b.buffer (keyboardHeadIndex b) 0
    head := i32 (b.head + 1) })

def keyboardPush (s : KeyboardSystem ι) (c : UInt8) : KeyboardSystem ι :=
  match s.currentProcess with
  | none => s
  | some p =>
    if c = 0 then s
    else { s with keyboard := Function.update s.keyboard p ((s.keyboard p).push c) }

def keyboardPop (s : KeyboardSystem ι) : UInt8 × KeyboardSystem ι :=
  match s.taskProcess with
  | none => (0, s)
  | some p =>
    ((s.keyboard p).pop.1,
      { s with keyboard := Function.update s.keyboard p (s.keyboard p).pop.2 })

/-! ## 2. Runs -/

/-- What happens to the keyboard buffers; processes and tasks are switched in between. -/
inductive KeyboardEvent (ι : Type) where
  | push (c : UInt8)
  | pop
  | switchProcess (p : Option ι)
  | switchTask (p : Option ι)

/-- A state of a run: what was pushed to and popped from each process stands beside the system. -/
structure KeyboardRun (ι : Type) where
  system : KeyboardSystem ι
  pushed : ι → List UInt8
  popped : ι → List UInt8

/-- A character on the record of a process; 0 stands for none. -/
def record (l : ι → List UInt8) (p : Option ι) (c : UInt8) : ι → List UInt8 :=
  match p with
  | none => l
  | some p => if c = 0 then l else Function.update l p (l p ++ [c])

def KeyboardRun.step (r : KeyboardRun ι) : KeyboardEvent ι → KeyboardRun ι
  | .push c => ⟨keyboardPush r.system c, record r.pushed r.system.currentProcess c, r.popped⟩
  | .pop =>
    ⟨(keyboardPop r.system).2, r.pushed,
      record r.popped r.system.taskProcess (keyboardPop r.system).1⟩
  | .switchProcess p => { r with system := { r.system with currentProcess := p } }
  | .switchTask p => { r with system := { r.system with taskProcess := p } }

/-- The events of a run, in order. -/
def KeyboardRun.run (r : KeyboardRun ι) (events : List (KeyboardEvent ι)) : KeyboardRun ι :=
  events.foldl KeyboardRun.step r

/-- A run starts with empty records. -/
def KeyboardRun.start (s : KeyboardSystem ι) : KeyboardRun ι := ⟨s, fun _ => [], fun _ => []⟩

/-- `process_init` clears the process structure. -/
def FreshKeyboard (s : KeyboardSystem ι) (p : ι) : Prop :=
  s.keyboard p = ⟨fun _ => 0, 0, 0⟩

/-- At no time of the run does `p` have more than 1024 unread characters. -/
def NeverOverrun (s : KeyboardSystem ι) (events : List (KeyboardEvent ι)) (p : ι) : Prop :=
  ∀ n, (((KeyboardRun.start s).run (events.take n)).pushed p).length ≤
    (((KeyboardRun.start s).run (events.take n)).popped p).length + 1024

/-! ## 3. One process -/

theorem u32_i32_succ (z : Int) : u32 (i32 (z + 1)) % 1024 = (u32 z % 1024 + 1) % 1024 := by
  unfold u32 i32
  split <;> omega

/-- **Head and tail count**: they are the numbers of popped and pushed characters, as far as their
    remainders go. -/
structure Counted (b : KeyboardBuffer) (pushed popped : List UInt8) : Prop where
  tail : keyboardGetTailIndex b = pushed.length % 1024
  head : keyboardHeadIndex b = popped.length % 1024

/-- **The ring holds the unread characters.** -/
structure Unread (b : KeyboardBuffer) (pushed popped : List UInt8) (unread : List UInt8) :
    Prop where
  split : pushed = popped ++ unread
  nonzero : 0 ∉ unread
  holds : RingHolds 1024 b.buffer 0 popped.length unread

section OneProcess

variable {b : KeyboardBuffer} {pushed popped unread : List UInt8}

theorem pop_empty (h : b.buffer (keyboardHeadIndex b) = 0) : b.pop = (0, b) := if_pos h

theorem pop_found (h : b.buffer (keyboardHeadIndex b) ≠ 0) :
    b.pop = (b.buffer (keyboardHeadIndex b), { b with
      buffer := Function.update b.buffer (keyboardHeadIndex b) 0
      head := i32 (b.head + 1) }) := if_neg h

theorem pop_fst (b : KeyboardBuffer) : b.pop.1 = b.buffer (keyboardHeadIndex b) := by
  by_cases h : b.buffer (keyboardHeadIndex b) = 0
  · rw [pop_empty h, h]
  · rw [pop_found h]

theorem Counted.push (h : Counted b pushed popped) (c : UInt8) :
    Counted (b.push c) (pushed ++ [c]) popped where
  tail := by
    have ht : u32 b.tail % 1024 = pushed.length % 1024 := h.tail
    rw [List.length_append, List.length_singleton, ← Nat.mod_add_mod, ← ht]
    exact u32_i32_succ b.tail
  head := h.head

theorem Counted.pop (h : Counted b pushed popped) (hc : b.pop.1 ≠ 0) :
    Counted b.pop.2 pushed (popped ++ [b.pop.1]) := by
  rw [pop_fst] at hc
  rw [pop_found hc]
  refine ⟨h.tail, ?_⟩
  have hh : u32 b.head % 1024 = popped.length % 1024 := h.head
  rw [List.length_append, List.length_singleton, ← Nat.mod_add_mod, ← hh]
  exact u32_i32_succ b.head

/-- What a pop finds is the first unread character. -/
theorem Unread.pop_eq (hc : Counted b pushed popped) (h : Unread b pushed popped unread) :
    b.buffer (keyboardHeadIndex b) = unread.headD 0 := by
  rw [hc.head]
  exact h.holds.first (by decide)

theorem Unread.push (hc : Counted b pushed popped) (h : Unread b pushed popped unread)
    (hl : unread.length < 1024) {c : UInt8} (h0 : c ≠ 0) :
    Unread (b.push c) (pushed ++ [c]) popped (unread ++ [c]) where
  split := by rw [h.split, List.append_assoc]
  nonzero hm := by
    rcases List.mem_append.mp hm with hm | hm
    · exact h.nonzero hm
    · exact h0 (List.mem_singleton.mp hm).symm
  holds := by
    have hi : keyboardGetTailIndex b = (popped.length + unread.length) % 1024 := by
      rw [hc.tail, h.split, List.length_append]
    show RingHolds 1024 (Function.update b.buffer (keyboardGetTailIndex b) c) 0 _ _
    rw [hi]
    exact h.holds.push hl c

theorem Unread.pop (hc : Counted b pushed popped) {c : UInt8}
    (h : Unread b pushed popped (c :: unread)) :
    b.pop.1 = c ∧ Unread b.pop.2 pushed (popped ++ [c]) unread := by
  have hb : b.buffer (keyboardHeadIndex b) = c := h.pop_eq hc
  have h0 : c ≠ 0 := fun e => h.nonzero (e ▸ List.mem_cons_self)
  rw [pop_found (hb.symm ▸ h0)]
  refine ⟨hb, ?_, fun hm => h.nonzero (List.mem_cons_of_mem _ hm), ?_⟩
  · rw [h.split, List.append_assoc]
    rfl
  · show RingHolds 1024 (Function.update b.buffer (keyboardHeadIndex b) 0) 0 _ _
    rw [hc.head, List.length_append]
    exact h.holds.pop

/-- A pop answers 0 exactly when nothing is unread. -/
theorem Unread.pop_zero_iff (hc : Counted b pushed popped) (h : Unread b pushed popped unread) :
    b.pop.1 = 0 ↔ popped = pushed := by
  rw [pop_fst, h.pop_eq hc, h.split]
  cases unread with
  | nil => simp
  | cons c cs =>
    have h0 : c ≠ 0 := fun e => h.nonzero (e ▸ List.mem_cons_self)
    simpa using h0

/-- **A key typed into a buffer whose pop answers 0** is handed out at once exactly when the two
    indexes agree. -/
theorem pop_push_iff (hz : b.pop.1 = 0) {c : UInt8} (h0 : c ≠ 0) :
    (b.push c).pop.1 = c ↔ keyboardGetTailIndex b = keyboardHeadIndex b := by
  rw [pop_fst] at hz ⊢
  show Function.update b.buffer (keyboardGetTailIndex b) c (keyboardHeadIndex b) = c ↔ _
  constructor
  · intro h
    by_contra hne
    rw [Function.update_of_ne (Ne.symm hne), hz] at h
    exact h0 h.symm
  · intro h
    rw [h, Function.update_self]

end OneProcess

/-! ## 4. Whole runs -/

theorem record_self (l : ι → List UInt8) (p : ι) {c : UInt8} (h0 : c ≠ 0) :
    record l (some p) c p = l p ++ [c] := by
  show (if c = 0 then l else Function.update l p (l p ++ [c])) p = _
  rw [if_neg h0, Function.update_self]

theorem record_other (l : ι → List UInt8) {q : Option ι} {p : ι} {c : UInt8}
    (h : q ≠ some p ∨ c = 0) : record l q c p = l p := by
  cases q with
  | none => rfl
  | some q =>
    show (if c = 0 then l else Function.update l q (l q ++ [c])) p = _
    by_cases h0 : c = 0
    · rw [if_pos h0]
    · have hne : p ≠ q := fun e => (h.resolve_right h0) (congrArg some e.symm)
      rw [if_neg h0, Function.update_of_ne hne]

theorem keyboardPush_self {s : KeyboardSystem ι} {p : ι} (hp : s.currentProcess = some p)
    {c : UInt8} (h0 : c ≠ 0) : (keyboardPush s c).keyboard p = (s.keyboard p).push c := by
  unfold keyboardPush
  rw [hp]
  dsimp only
  rw [if_neg h0]
  exact Function.update_self ..

theorem keyboardPush_other {s : KeyboardSystem ι} {p : ι} {c : UInt8}
    (h : s.currentProcess ≠ some p ∨ c = 0) : (keyboardPush s c).keyboard p = s.keyboard p := by
  unfold keyboardPush
  cases hq : s.currentProcess with
  | none => rfl
  | some q =>
    dsimp only
    by_cases h0 : c = 0
    · rw [if_pos h0]
    · have hne : p ≠ q := fun e => (h.resolve_right h0) (hq.trans (congrArg some e.symm))
      rw [if_neg h0]
      exact Function.update_of_ne hne ..

theorem keyboardPop_self {s : KeyboardSystem ι} {p : ι} (hp : s.taskProcess = some p) :
    (keyboardPop s).1 = (s.keyboard p).pop.1 ∧
      (keyboardPop s).2.keyboard p = (s.keyboard p).pop.2 := by
  unfold keyboardPop
  rw [hp]
  exact ⟨rfl, Function.update_self ..⟩

theorem keyboardPop_other {s : KeyboardSystem ι} {p : ι} (hp : s.taskProcess ≠ some p) :
    (keyboardPop s).2.keyboard p = s.keyboard p := by
  unfold keyboardPop
  cases hq : s.taskProcess with
  | none => rfl
  | some q =>
    have hne : p ≠ q := fun e => hp (hq.trans (congrArg some e.symm))
    exact Function.update_of_ne hne ..

/-- **What one event does to the buffer of `p`**: nothing, a push, or a pop that finds a
    character. -/
theorem step_cases (r : KeyboardRun ι) (e : KeyboardEvent ι) (p : ι) :
    ((r.step e).system.keyboard p = r.system.keyboard p ∧ (r.step e).pushed p = r.pushed p ∧
      (r.step e).popped p = r.popped p) ∨
    (∃ c, c ≠ 0 ∧ (r.step e).system.keyboard p = (r.system.keyboard p).push c ∧
      (r.step e).pushed p = r.pushed p ++ [c] ∧ (r.step e).popped p = r.popped p) ∨
    ((r.system.keyboard p).pop.1 ≠ 0 ∧
      (r.step e).system.keyboard p = (r.system.keyboard p).pop.2 ∧
      (r.step e).pushed p = r.pushed p ∧
      (r.step e).popped p = r.popped p ++ [(r.system.keyboard p).pop.1]) := by
  cases e with
  | switchProcess q => exact Or.inl ⟨rfl, rfl, rfl⟩
  | switchTask q => exact Or.inl ⟨rfl, rfl, rfl⟩
  | push c =>
    by_cases h : r.system.currentProcess = some p ∧ c ≠ 0
    · refine Or.inr (Or.inl ⟨c, h.2, keyboardPush_self h.1 h.2, ?_, rfl⟩)
      show record r.pushed r.system.currentProcess c p = _
      rw [h.1, record_self _ _ h.2]
    · have h' : r.system.currentProcess ≠ some p ∨ c = 0 := by
        by_cases h0 : c = 0
        · exact Or.inr h0
        · exact Or.inl fun e => h ⟨e, h0⟩
      exact Or.inl ⟨keyboardPush_other h', record_other _ h', rfl⟩
  | pop =>
    by_cases hp : r.system.taskProcess = some p
    · obtain ⟨h1, h2⟩ := keyboardPop_self hp
      have ho : (r.step .pop).popped p = record r.popped (some p)
          (r.system.keyboard p).pop.1 p := by
        show record r.popped r.system.taskProcess (keyboardPop r.system).1 p = _
        rw [hp, h1]
      by_cases h0 : (r.system.keyboard p).pop.1 = 0
      · refine Or.inl ⟨h2.trans ?_, rfl, ho.trans (record_other _ (Or.inr h0))⟩
        rw [pop_empty (pop_fst _ ▸ h0)]
      · exact Or.inr (Or.inr ⟨h0, h2, rfl, ho.trans (record_self _ _ h0)⟩)
    · exact Or.inl ⟨keyboardPop_other hp, rfl, record_other _ (Or.inl hp)⟩

theorem run_snoc (r : KeyboardRun ι) (events : List (KeyboardEvent ι)) (e : KeyboardEvent ι) :
    r.run (events ++ [e]) = (r.run events).step e := List.foldl_append

section Runs

variable {s : KeyboardSystem ι} {p : ι}

/-- Head and tail count in every run, overrun or not. -/
theorem counted_run (hf : FreshKeyboard s p) (events : List (KeyboardEvent ι)) :
    Counted (((KeyboardRun.start s).run events).system.keyboard p)
      (((KeyboardRun.start s).run events).pushed p)
      (((KeyboardRun.start s).run events).popped p) := by
  induction events using List.reverseRecOn with
  | nil =>
    show Counted (s.keyboard p) [] []
    rw [hf]
    exact ⟨rfl, rfl⟩
  | append_singleton events e ih =>
    rw [run_snoc]
    rcases step_cases ((KeyboardRun.start s).run events) e p with
      ⟨hb, hu, ho⟩ | ⟨c, -, hb, hu, ho⟩ | ⟨hc, hb, hu, ho⟩
    · rw [hb, hu, ho]
      exact ih
    · rw [hb, hu, ho]
      exact ih.push c
    · rw [hb, hu, ho]
      exact ih.pop hc

theorem NeverOverrun.init {events : List (KeyboardEvent ι)} {e : KeyboardEvent ι}
    (h : NeverOverrun s (events ++ [e]) p) : NeverOverrun s events p := by
  intro n
  rcases Nat.le_total n events.length with hn | hn
  · have := h n
    rwa [List.take_append_of_le_length hn] at this
  · have := h events.length
    rw [List.take_append_of_le_length (Nat.le_refl _), List.take_length] at this
    rwa [List.take_of_length_le hn]

/-- **The ring holds the unread characters** throughout a run without overrun. -/
theorem unread_run (hf : FreshKeyboard s p) (events : List (KeyboardEvent ι))
    (h : NeverOverrun s events p) : ∃ unread,
      Unread (((KeyboardRun.start s).run events).system.keyboard p)
        (((KeyboardRun.start s).run events).pushed p)
        (((KeyboardRun.start s).run events).popped p) unread := by
  induction events using List.reverseRecOn with
  | nil =>
    refine ⟨[], rfl, List.not_mem_nil, ?_⟩
    show RingHolds 1024 (s.keyboard p).buffer 0 0 []
    rw [hf]
    exact RingHolds.nil fun _ _ => rfl
  | append_singleton events e ih =>
    obtain ⟨unread, hu⟩ := ih h.init
    have hc := counted_run hf events
    have hbound := h (events.length + 1)
    rw [List.take_of_length_le (by simp), run_snoc] at hbound
    rw [run_snoc]
    rcases step_cases ((KeyboardRun.start s).run events) e p with
      ⟨hb, hpu, hpo⟩ | ⟨c, h0, hb, hpu, hpo⟩ | ⟨h0, hb, hpu, hpo⟩
    · rw [hb, hpu, hpo]
      exact ⟨unread, hu⟩
    · rw [hpu, hpo, hu.split] at hbound
      rw [hb, hpu, hpo]
      refine ⟨unread ++ [c], hu.push hc ?_ h0⟩
      simp only [List.length_append, List.length_singleton] at hbound
      omega
    · rw [hb, hpu, hpo]
      cases unread with
      | nil => exact absurd ((hu.pop_zero_iff hc).mpr (by rw [hu.split, List.append_nil])) h0
      | cons c cs =>
        obtain ⟨he, hu'⟩ := hu.pop hc
        rw [he]
        exact ⟨cs, hu'⟩

/-- **First in, first out**: in every run in which `p` never has more than 1024 unread characters,
    what was popped is the beginning of what was pushed, and a pop answers 0 exactly when that is
    all. -/
theorem keyboardRun_fifo (hf : FreshKeyboard s p) {events : List (KeyboardEvent ι)}
    (h : NeverOverrun s events p) :
    ((KeyboardRun.start s).run events).popped p <+: ((KeyboardRun.start s).run events).pushed p ∧
    (((KeyboardRun.start s).run events).system.taskProcess = some p →
      ((keyboardPop ((KeyboardRun.start s).run events).system).1 = 0 ↔
        ((KeyboardRun.start s).run events).popped p =
          ((KeyboardRun.start s).run events).pushed p)) := by
  obtain ⟨unread, hu⟩ := unread_run hf events h
  refine ⟨⟨unread, hu.split.symm⟩, fun ht => ?_⟩
  rw [(keyboardPop_self ht).1]
  exact hu.pop_zero_iff (counted_run hf events)

end Runs

/-- A process, its task current, and an empty buffer. -/
def oneKeyboard : KeyboardSystem Unit := ⟨some (), some (), fun _ => ⟨fun _ => 0, 0, 0⟩⟩

theorem oneKeyboard_fresh : FreshKeyboard oneKeyboard () := rfl

/-- Two keys are typed and one is read. -/
theorem keyboardRun_fifo_two :
    ((KeyboardRun.start oneKeyboard).run [.push 97, .push 98, .pop]).popped () = [97] ∧
    (keyboardPop ((KeyboardRun.start oneKeyboard).run [.push 97, .push 98, .pop]).system).1 ≠
      0 := by
  have h : NeverOverrun oneKeyboard [.push 97, .push 98, .pop] () := by
    intro n
    rcases n with _ | _ | _ | n
    · decide
    · decide
    · decide
    · rw [List.take_of_length_le (by simp)]
      decide
  obtain ⟨-, hz⟩ := keyboardRun_fifo oneKeyboard_fresh h
  refine ⟨by decide, fun e => ?_⟩
  exact absurd ((hz rfl).mp e) (by decide)

/-! ## 5. A key typed into a drained buffer -/

/-- Where a pop answers 0, the next key typed is the next one read. -/
def KeyHandedOut (s : KeyboardSystem ι) : Prop :=
  (keyboardPop s).1 = 0 → ∀ c, c ≠ 0 → (keyboardPop (keyboardPush s c)).1 = c

section Drained

variable {s : KeyboardSystem ι} {p : ι}

/-- The same for the buffer of the process that is typed to and read from. -/
theorem keyHandedOut_iff (hp : s.currentProcess = some p) (ht : s.taskProcess = some p)
    (hz : (keyboardPop s).1 = 0) :
    KeyHandedOut s ↔ keyboardGetTailIndex (s.keyboard p) = keyboardHeadIndex (s.keyboard p) := by
  have hb : (s.keyboard p).pop.1 = 0 := (keyboardPop_self ht).1.symm.trans hz
  have hpush : ∀ c, c ≠ 0 → (keyboardPop (keyboardPush s c)).1 = ((s.keyboard p).push c).pop.1 := by
    intro c h0
    have ht' : (keyboardPush s c).taskProcess = some p := by
      unfold keyboardPush
      rw [hp]
      dsimp only
      rw [if_neg h0]
      exact ht
    rw [(keyboardPop_self ht').1, keyboardPush_self hp h0]
  constructor
  · intro h
    have h1 := h hz 1 (by decide)
    rw [hpush 1 (by decide)] at h1
    exact (pop_push_iff hb (by decide)).mp h1
  · intro h _ c h0
    rw [hpush c h0]
    exact (pop_push_iff hb h0).mpr h

/-- **A drained buffer hands out the next key** in every run without overrun. In any run it does so
    exactly when the numbers of characters pushed and popped agree modulo the size of the ring. -/
theorem keyboardRun_resumes (hf : FreshKeyboard s p) (events : List (KeyboardEvent ι))
    (hp : ((KeyboardRun.start s).run events).system.currentProcess = some p)
    (ht : ((KeyboardRun.start s).run events).system.taskProcess = some p) :
    (NeverOverrun s events p → KeyHandedOut ((KeyboardRun.start s).run events).system) ∧
    ((keyboardPop ((KeyboardRun.start s).run events).system).1 = 0 →
      (KeyHandedOut ((KeyboardRun.start s).run events).system ↔
        (((KeyboardRun.start s).run events).pushed p).length % 1024 =
          (((KeyboardRun.start s).run events).popped p).length % 1024)) := by
  have hc := counted_run hf events
  have hiff : (keyboardPop ((KeyboardRun.start s).run events).system).1 = 0 →
      (KeyHandedOut ((KeyboardRun.start s).run events).system ↔
        (((KeyboardRun.start s).run events).pushed p).length % 1024 =
          (((KeyboardRun.start s).run events).popped p).length % 1024) := by
    intro hz
    rw [keyHandedOut_iff hp ht hz, hc.tail, hc.head]
  refine ⟨fun h hz => ?_, hiff⟩
  obtain ⟨unread, hu⟩ := unread_run hf events h
  have hall := (hu.pop_zero_iff hc).mp ((keyboardPop_self ht).1.symm.trans hz)
  exact (hiff hz).mpr (by rw [hall]) hz

end Drained

/-- A key is typed, read, and another one typed and read. -/
theorem keyboardRun_resumes_one :
    KeyHandedOut ((KeyboardRun.start oneKeyboard).run [.push 97, .pop]).system := by
  refine (keyboardRun_resumes oneKeyboard_fresh [.push 97, .pop] rfl rfl).1 fun n => ?_
  rcases n with _ | _ | n
  · decide
  · decide
  · rw [List.take_of_length_le (by simp)]
    decide

/-- The run in which 1025 times a key is typed, and then some are read. -/
def overrunEvents (reads : Nat) : List (KeyboardEvent Unit) :=
  List.replicate 1025 (.push 97) ++ List.replicate reads .pop

theorem overrunEvents_zero : overrunEvents 0 = List.replicate 1025 (.push 97) := List.append_nil _

theorem overrunEvents_succ (k : Nat) : overrunEvents (k + 1) = overrunEvents k ++ [.pop] := by
  unfold overrunEvents
  rw [List.replicate_succ' (n := k), List.append_assoc]

/-- What the two lemmas below say about a state: the cells, the records and the current process. -/
structure Overrun (r : KeyboardRun Unit) (cell : Nat → UInt8) (pushed popped : Nat) : Prop where
  cells : ∀ i, i < 1024 → (r.system.keyboard ()).buffer i = cell i
  pushed : r.pushed () = List.replicate pushed 97
  popped : r.popped () = List.replicate popped 97
  process : r.system.currentProcess = some ()
  task : r.system.taskProcess = some ()

/-- Up to 1025 keys typed and none read: the last one overwrites the first. -/
theorem overrun_pushes (n : Nat) (hn : n ≤ 1025) :
    Overrun ((KeyboardRun.start oneKeyboard).run (List.replicate n (.push 97)))
      (fun i => if i < n then 97 else 0) n 0 := by
  induction n with
  | zero => exact ⟨fun _ _ => rfl, rfl, rfl, rfl, rfl⟩
  | succ n ih =>
    have h := ih (by omega)
    have hc := counted_run oneKeyboard_fresh (List.replicate n (.push 97))
    rw [List.replicate_succ', run_snoc]
    generalize (KeyboardRun.start oneKeyboard).run (List.replicate n (.push 97)) = r at *
    have hk : (r.step (.push 97)).system = ⟨r.system.currentProcess, r.system.taskProcess,
        Function.update r.system.keyboard () ((r.system.keyboard ()).push 97)⟩ := by
      show keyboardPush r.system 97 = _
      unfold keyboardPush
      rw [h.process]
      rfl
    refine ⟨fun i hi => ?_, ?_, h.popped, ?_, ?_⟩
    · rw [hk]
      show Function.update (r.system.keyboard ()).buffer _ 97 i = _
      rw [hc.tail, h.pushed, List.length_replicate]
      by_cases he : i = n % 1024
      · rw [he, Function.update_self, if_pos (by omega)]
      · rw [Function.update_of_ne he, h.cells i hi]
        exact if_congr (by omega) rfl rfl
    · show record r.pushed r.system.currentProcess 97 () = _
      rw [h.process, record_self _ _ (by decide), h.pushed, List.replicate_succ']
    · rw [hk]
      exact h.process
    · rw [hk]
      exact h.task

/-- Then up to 1024 keys are read. -/
theorem overrun_pops (k : Nat) (hk : k ≤ 1024) :
    Overrun ((KeyboardRun.start oneKeyboard).run (overrunEvents k))
      (fun i => if i < k then 0 else 97) 1025 k := by
  induction k with
  | zero =>
    have h := overrun_pushes 1025 (Nat.le_refl _)
    rw [overrunEvents_zero]
    refine ⟨fun i hi => ?_, h.pushed, h.popped, h.process, h.task⟩
    rw [h.cells i hi, if_pos (by omega), if_neg (by omega)]
  | succ k ih =>
    have h := ih (by omega)
    have hc := counted_run oneKeyboard_fresh (overrunEvents k)
    rw [overrunEvents_succ, run_snoc]
    generalize (KeyboardRun.start oneKeyboard).run (overrunEvents k) = r at *
    have hi : keyboardHeadIndex (r.system.keyboard ()) = k := by
      rw [hc.head, h.popped, List.length_replicate]
      exact Nat.mod_eq_of_lt (by omega)
    have hcell : (r.system.keyboard ()).buffer (keyboardHeadIndex (r.system.keyboard ())) = 97 := by
      rw [hi, h.cells k (by omega), if_neg (by omega)]
    have hpop := pop_found (b := r.system.keyboard ()) (by rw [hcell]; decide)
    have hs : (keyboardPop r.system).2 = ⟨r.system.currentProcess, r.system.taskProcess,
        Function.update r.system.keyboard () (r.system.keyboard ()).pop.2⟩ := by
      unfold keyboardPop
      rw [h.task]
    refine ⟨fun i hi' => ?_, h.pushed, ?_, ?_, ?_⟩
    · show ((keyboardPop r.system).2.keyboard ()).buffer i = _
      rw [hs]
      show (r.system.keyboard ()).pop.2.buffer i = _
      rw [hpop, hi]
      show Function.update (r.system.keyboard ()).buffer k 0 i = _
      by_cases he : i = k
      · rw [he, Function.update_self, if_pos (by omega)]
      · rw [Function.update_of_ne he, h.cells i hi']
        exact if_congr (by omega) rfl rfl
    · show record r.popped r.system.taskProcess (keyboardPop r.system).1 () = _
      rw [h.task, (keyboardPop_self h.task).1, pop_fst, hcell, record_self _ _ (by decide),
        h.popped, List.replicate_succ']
    · show (keyboardPop r.system).2.currentProcess = _
      rw [hs]
      exact h.process
    · show (keyboardPop r.system).2.taskProcess = _
      rw [hs]
      exact h.task

/-- **A key is withheld**: 1025 keys are typed, 1024 are read and a pop answers 0; the next key goes
    to the second cell while the reader waits at the first. -/
theorem keyboardRun_withheld : ¬ ∀ events : List (KeyboardEvent Unit),
    ((KeyboardRun.start oneKeyboard).run events).system.currentProcess = some () →
    ((KeyboardRun.start oneKeyboard).run events).system.taskProcess = some () →
    KeyHandedOut ((KeyboardRun.start oneKeyboard).run events).system := by
  intro h
  have ho := overrun_pops 1024 (Nat.le_refl _)
  have hc := counted_run oneKeyboard_fresh (overrunEvents 1024)
  have hz : (keyboardPop ((KeyboardRun.start oneKeyboard).run (overrunEvents 1024)).system).1 =
      0 := by
    rw [(keyboardPop_self ho.task).1, pop_fst, hc.head, ho.popped, List.length_replicate,
      ho.cells _ (by decide), if_pos (by decide)]
  have hh := (keyHandedOut_iff ho.process ho.task hz).mp (h (overrunEvents 1024) ho.process ho.task)
  rw [hc.tail, hc.head, ho.pushed, ho.popped, List.length_replicate, List.length_replicate] at hh
  exact absurd hh (by decide)

end PeachKernel
