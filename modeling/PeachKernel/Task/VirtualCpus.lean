/-
  File:      PeachKernel/Task/VirtualCpus.lean
  Subject:   What the tasks see: each has a processor of its own, and the clock gives them their
             turns.

  The machine runs a user program; an interrupt leads through the assembly into a C function of the
  kernel, and out again by the stub it came through or by `task_return`. What C code does besides
  saving, switching, creating and releasing tasks is left open, as long as it leaves the tasks' own
  memory alone (`LeavesTasks`).

  Vector 0 has a handler of its own (`idt_zero`) and is not modelled; neither is the error code that
  the processor pushes at the exceptions 8, 10 to 14 and 17: the frame is the one without it.

  * `KernelImage` -- where the kernel's assembly lies, and its stack;
  * `Machine`, `MachineStep` -- the machine, from one instruction of a user program to another one;
  * `VirtualCpus`, `VirtualStep` -- the abstract machine: registers for each task, and whose turn it
    is;
  * `Virtual` -- the machine's state is that of the abstract one; runs start in such a state;
  * `machine_simulates`, `machineRun_virtual` -- the machine is the abstract one;
  * `task_resumes` -- a task goes on with the registers that it had.
-/
import PeachKernel.Lib.Simulation
import PeachKernel.Task.Registers

namespace PeachKernel

open Mem

/-! ## 1. The machine -/

/-- **The kernel's assembly**, the C functions that it calls and is called by, and the kernel's
    stack, which lies behind its data. -/
structure KernelImage where
  code : Code
  flags : AddFlags
  /-- `tss.esp0` -/
  esp0 : UInt32
  stackLow : Nat
  tmpRes : UInt32
  interruptHandler : UInt32
  isr80hHandler : UInt32
  taskReturn : UInt32
  restoreGeneralPurposeRegisters : UInt32
  interruptPointerTable : Nat → UInt32
  isr80hWrapper : UInt32
  interruptAt : ∀ n, n < 512 → ∃ b,
    BlockAt code (interruptPointerTable n) (interruptBlock (UInt32.ofNat n) interruptHandler) b
  isr80hAt : ∃ b, BlockAt code isr80hWrapper (isr80hWrapperBlock tmpRes isr80hHandler) b
  taskReturnAt : ∃ b, BlockAt code taskReturn (taskReturnBlock restoreGeneralPurposeRegisters) b
  restoreAt : ∃ b, BlockAt code restoreGeneralPurposeRegisters restoreBlock b
  handlers : code interruptHandler = none ∧ code isr80hHandler = none
  room : stackLow + 4096 ≤ esp0.toNat
  data : tmpRes.toNat + 4 ≤ stackLow

/-- The processor while a user program runs, the kernel's heap, and its tasks. -/
structure Machine where
  cpu : Cpu
  heap : Heap
  list : TaskGlobals
  live : List Nat

def Machine.system (s : Machine) : TaskSystem := ⟨⟨s.heap, s.cpu.mem⟩, s.list, s.live⟩

/-- `task_current_save_state`; `none` is its panic. -/
def taskCurrentSaveState (m : Mem) (g : TaskGlobals) (frame : Nat) : Option Mem :=
  if g.current = 0 then none else some (taskSaveState m g.current frame)

/-- The second argument of the handler that `c` enters. -/
def handlerFrame (c : Cpu) : Nat := (c.stack 8).toNat

section Step

variable (I : KernelImage)

/-- **The handler that `c` enters returns**: on its part of the stack is what it left there, the
    frame is as it was, and the rest of memory is `m`. -/
structure HandlerReturns (c : Cpu) (m : Mem) (d : Cpu) : Prop where
  eip : d.eip = c.stack 0
  cs : d.cs = c.cs
  esp : d.esp = c.esp + 4
  frame : ∀ a, c.esp.toNat + 12 ≤ a → a < I.esp0.toNat → d.mem a = c.mem a
  mem : ∀ a, a < I.stackLow ∨ I.esp0.toNat ≤ a → d.mem a = m a

/-- **It calls `task_return`** with the registers of the task `t`, somewhere down its stack. -/
structure CallsTaskReturn (c : Cpu) (m : Mem) (t : Nat) (d : Cpu) : Prop where
  eip : d.eip = I.taskReturn
  cs : d.cs = c.cs
  low : I.stackLow + 32 ≤ d.esp.toNat
  high : d.esp.toNat + 8 ≤ c.esp.toNat
  arg : d.stack 4 = UInt32.ofNat (t + 4)
  mem : ∀ a, a < I.stackLow ∨ I.esp0.toNat ≤ a → d.mem a = m a

end Step

inductive MachineEvent where
  /-- the user program comes to other registers -/
  | user (r : TaskRegisters)
  | clock
  | interrupt (n : Nat)
  | syscall (result : UInt32)
  | start (t : Nat) (process : TaskProcess)
  | exit

/-- **From one instruction of a user program to another one.** -/
inductive MachineStep (I : KernelImage) : Machine → MachineEvent → Machine → Prop where
  | user {s : Machine} {c : Cpu} (hlevel : 0 < Cpu.level c.cs)
      (hleaves : LeavesTasks s.system { s with cpu := c }.system) :
      MachineStep I s (.user (taskCpu c)) { s with cpu := c }
  /-- `idt_clock` -/
  | clock {s : Machine} {c d e : Cpu} {m : Mem} {g : TaskGlobals}
      (henter : Stops I.code I.flags (interrupted s.cpu (I.interruptPointerTable 0x20) I.esp0) c)
      (hsave : taskCurrentSaveState c.mem s.list (handlerFrame c) = some m)
      (hnext : taskNext m s.list = some g) (hcall : CallsTaskReturn I c m g.current d)
      (hleave : Stops I.code I.flags d e) : MachineStep I s .clock ⟨e, s.heap, g, s.live⟩
  /-- an interrupt whose callback returns, or that has none -/
  | interrupt {s : Machine} {n : Nat} {c d e : Cpu} {m m' : Mem} {heap : Heap} (hn : n < 512)
      (hgate : n ≠ 0 ∧ n ≠ 0x80)
      (henter : Stops I.code I.flags (interrupted s.cpu (I.interruptPointerTable n) I.esp0) c)
      (hsave : m = c.mem ∨ taskCurrentSaveState c.mem s.list (handlerFrame c) = some m)
      (hleaves : LeavesTasks ⟨⟨s.heap, m⟩, s.list, s.live⟩ ⟨⟨heap, m'⟩, s.list, s.live⟩)
      (hret : HandlerReturns I c m' d) (hleave : Stops I.code I.flags d e) :
      MachineStep I s (.interrupt n) ⟨e, heap, s.list, s.live⟩
  /-- a system call that returns -/
  | syscall {s : Machine} {c d e : Cpu} {m m' : Mem} {heap : Heap}
      (henter : Stops I.code I.flags (interrupted s.cpu I.isr80hWrapper I.esp0) c)
      (hsave : taskCurrentSaveState c.mem s.list (handlerFrame c) = some m)
      (hleaves : LeavesTasks ⟨⟨s.heap, m⟩, s.list, s.live⟩ ⟨⟨heap, m'⟩, s.list, s.live⟩)
      (hret : HandlerReturns I c m' d) (hleave : Stops I.code I.flags d e) :
      MachineStep I s (.syscall d.eax) ⟨e, heap, s.list, s.live⟩
  /-- a system call that loads a program and switches to it -/
  | start {s : Machine} {s₁ s₂ : TaskSystem} {c d e : Cpu} {m : Mem} {t : Nat}
      {process : TaskProcess}
      (henter : Stops I.code I.flags (interrupted s.cpu I.isr80hWrapper I.esp0) c)
      (hsave : taskCurrentSaveState c.mem s.list (handlerFrame c) = some m)
      (hbefore : LeavesTasks ⟨⟨s.heap, m⟩, s.list, s.live⟩ s₁)
      (hnew : (taskNew s₁.kernel s₁.list process).1 = .ok t)
      (hafter : LeavesTasks (s₁.new process) s₂)
      (hentry : ∀ entry, process.elfEntry = some entry → entry < 4294967296)
      (hcall : CallsTaskReturn I c s₂.kernel.mem t d) (hleave : Stops I.code I.flags d e) :
      MachineStep I s (.start t process) ⟨e, s₂.kernel.heap, taskSwitch s₂.list t, s₂.live⟩
  /-- a program ends, its task being the last of several, by a system call or an exception -/
  | exit {s : Machine} {s₁ s₂ : TaskSystem} {gate : UInt32} {c d e : Cpu} {m : Mem}
      {g : TaskGlobals}
      (hgate : gate = I.isr80hWrapper ∨ ∃ n, 0 < n ∧ n < 0x20 ∧ gate = I.interruptPointerTable n)
      (henter : Stops I.code I.flags (interrupted s.cpu gate I.esp0) c)
      (hsave : taskCurrentSaveState c.mem s.list (handlerFrame c) = some m)
      (hlast : LastTask s.system s.list.current) (hothers : 1 < s.live.length)
      (hbefore : LeavesTasks ⟨⟨s.heap, m⟩, s.list, s.live⟩ s₁)
      (hafter : LeavesTasks (s₁.free s.list.current) s₂)
      (hnext : taskNext s₂.kernel.mem s₂.list = some g)
      (hcall : CallsTaskReturn I c s₂.kernel.mem g.current d) (hleave : Stops I.code I.flags d e) :
      MachineStep I s .exit ⟨e, s₂.kernel.heap, g, s₂.live⟩

/-! ## 2. The abstract machine -/

/-- **A processor for each task**, and the task whose turn it is. -/
structure VirtualCpus where
  regs : Nat → TaskRegisters
  live : List Nat
  current : Nat

def VirtualCpus.set (v : VirtualCpus) (t : Nat) (r : TaskRegisters) : VirtualCpus :=
  { v with regs := Function.update v.regs t r }

/-- The clock goes on to the task behind the current one, a program that starts has its turn at
    once, and where one ends the task behind the first one is next. -/
inductive VirtualStep : VirtualCpus → MachineEvent → VirtualCpus → Prop where
  | user (v : VirtualCpus) (r : TaskRegisters) : VirtualStep v (.user r) (v.set v.current r)
  | clock {v : VirtualCpus} {before behind rest : List Nat} {u : Nat}
      (hl : v.live = before ++ v.current :: behind)
      (ht : turns before v.current behind = u :: rest) :
      VirtualStep v .clock { v with current := u }
  | interrupt (v : VirtualCpus) (n : Nat) : VirtualStep v (.interrupt n) v
  | syscall (v : VirtualCpus) (result : UInt32) :
      VirtualStep v (.syscall result) (v.set v.current { v.regs v.current with eax := result })
  | start {v : VirtualCpus} {t : Nat} (process : TaskProcess) (ht : t ∉ v.live) :
      VirtualStep v (.start t process)
        { v.set t (initialRegisters process) with live := v.live ++ [t], current := t }
  | exit {v : VirtualCpus} {t u : Nat} {ts rest : List Nat} (hl : v.live = (t :: ts) ++ [v.current])
      (ht : turns [] t ts = u :: rest) :
      VirtualStep v .exit { v with live := t :: ts, current := u }

/-- **The processors of a machine**: the current task's registers are the processor's, the others'
    are in their structures; the kernel's stack lies before its heap. -/
structure Virtual (I : KernelImage) (s : Machine) (v : VirtualCpus) : Prop where
  inv : ∃ dirs, TaskInv s.system dirs
  above : I.esp0.toNat ≤ s.heap.saddr
  live : v.live = s.live
  current : v.current = s.list.current
  member : s.list.current ∈ s.live
  running : v.regs s.list.current = taskCpu s.cpu
  saved : ∀ t ∈ s.live, t ≠ s.list.current → v.regs t = savedRegisters s.cpu.mem t
  level : ∀ t ∈ s.live, 0 < Cpu.level (v.regs t).cs

/-! ## 3. Into the kernel and out of it -/

section Kernel

variable {I : KernelImage} {c c₀ d e : Cpu} {m : Mem} {handler ret arg : UInt32}

theorem KernelImage.room_stub (I : KernelImage) : I.stackLow + 64 ≤ I.esp0.toNat := by
  have := I.room
  omega

theorem AtHandler.stops (h : AtHandler c₀ I.stackLow I.esp0 handler ret arg c)
    (hnone : I.code handler = none) : step I.code I.flags c = none := by
  unfold step
  rw [h.eip, hnone]
  exact ite_self none

/-- **An interrupt arrives at `interrupt_handler`.** -/
theorem interrupt_arrives {n : Nat} (hn : n < 512)
    (h : Stops I.code I.flags (interrupted c₀ (I.interruptPointerTable n) I.esp0) c) :
    ∃ ret b, AtHandler c₀ I.stackLow I.esp0 I.interruptHandler ret (UInt32.ofNat n) c ∧
      BlockAt I.code ret interruptExit b := by
  obtain ⟨b, hb⟩ := I.interruptAt n hn
  obtain ⟨ret, c', hsteps, hat, hexit⟩ := interrupt_enters I.flags hb I.room_stub
  obtain rfl := h.unique ⟨hsteps, hat.stops I.handlers.1⟩
  exact ⟨ret, b, hat, hexit⟩

/-- **A system call arrives at `isr80h_handler`.** -/
theorem isr80h_arrives (h : Stops I.code I.flags (interrupted c₀ I.isr80hWrapper I.esp0) c) :
    ∃ ret b, AtHandler c₀ I.stackLow I.esp0 I.isr80hHandler ret c₀.eax c ∧
      BlockAt I.code ret (isr80hExit I.tmpRes) b := by
  obtain ⟨b, hb⟩ := I.isr80hAt
  obtain ⟨ret, c', hsteps, hat, hexit⟩ := isr80h_enters I.flags hb I.room_stub
  obtain rfl := h.unique ⟨hsteps, hat.stops I.handlers.2⟩
  exact ⟨ret, b, hat, hexit⟩

/-- What a handler finds: its return address, the address of the frame, and in the frame the
    registers of the task; memory beside the stack is as it was. -/
structure Arrived (I : KernelImage) (c₀ c : Cpu) : Prop where
  cs : c.cs = KERNEL_CODE_SELECTOR
  frame : handlerFrame c = c.esp.toNat + 12
  esp : c.esp.toNat + 64 = I.esp0.toNat
  low : I.stackLow ≤ c.esp.toNat
  words : ∃ reserved, Words c.mem (c.esp.toNat + 12) (interruptFrame (taskCpu c₀) reserved)
  mem : ∀ a, a < I.stackLow ∨ I.esp0.toNat ≤ a → c.mem a = c₀.mem a

theorem AtHandler.arrived (h : AtHandler c₀ I.stackLow I.esp0 handler ret arg c) :
    Arrived I c₀ c ∧ c.stack 0 = ret := by
  obtain ⟨reserved, hs⟩ := h.stack
  have htop : I.esp0.toNat ≤ 4294967295 := Nat.le_of_lt_succ I.esp0.toNat_lt
  have hlen : (interruptFrame (taskCpu c₀) reserved).length = 13 := rfl
  have e := hs.top_eq
  simp only [List.length_cons, hlen] at e
  have h12 : (c.esp + 12).toNat = c.esp.toNat + 12 := toNat_add_of_lt (by simp; omega)
  have hframe : c.stack 8 = c.esp + 12 := hs.dwordAt_eq (i := 2) (by simp) htop rfl
  refine ⟨⟨h.cs, ?_, by omega, hs.low_le, ⟨reserved, hs.words.2.2.2⟩, hs.outside⟩,
    hs.dwordAt_eq (i := 0) (by simp) htop rfl⟩
  unfold handlerFrame
  rw [hframe, h12]

/-- The handler's stack when it has returned. -/
theorem HandlerReturns.stack (h : HandlerReturns I c m d) (ha : Arrived I c₀ c) :
    ∃ a₁ a₂ reserved, StackAt d.mem I.stackLow I.esp0.toNat d.mem d.esp
      (a₁ :: a₂ :: interruptFrame (taskCpu c₀) reserved) := by
  obtain ⟨reserved, hw⟩ := ha.words
  have he := ha.esp
  have hlow := ha.low
  have htop := I.esp0.toNat_lt
  have hlen : (interruptFrame (taskCpu c₀) reserved).length = 13 := rfl
  have h4 : (c.esp + 4).toNat = c.esp.toNat + 4 := toNat_add_of_lt (by simp; omega)
  have hany : ∀ a, (UInt32.ofNat (load32 d.mem a)).toNat = load32 d.mem a := fun a =>
    Nat.mod_eq_of_lt (load32_lt d.mem a)
  refine ⟨UInt32.ofNat (load32 d.mem (c.esp.toNat + 4)),
    UInt32.ofNat (load32 d.mem (c.esp.toNat + 8)), reserved, ?_⟩
  rw [h.esp]
  constructor
  · omega
  · simp only [List.length_cons, hlen]
    omega
  · rw [h4]
    refine ⟨(hany _).symm, (hany _).symm, ?_⟩
    exact hw.congr _ fun a h1 h2 => h.frame a h1 (by omega)
  · exact fun _ _ => rfl

/-- **Behind the macro `interrupt`** the task goes on with its registers. -/
theorem HandlerReturns.interrupted {b : UInt32} (h : HandlerReturns I c m d) (ha : Arrived I c₀ c)
    (hexit : BlockAt I.code (c.stack 0) interruptExit b) (hlevel : 0 < Cpu.level c₀.cs)
    (hleave : Stops I.code I.flags d e) :
    taskCpu e = taskCpu c₀ ∧ ∀ a, I.esp0.toNat ≤ a → e.mem a = m a := by
  obtain ⟨a₁, a₂, reserved, hs⟩ := h.stack ha
  have htop : I.esp0.toNat ≤ 4294967295 := Nat.le_of_lt_succ I.esp0.toNat_lt
  have hend := interrupt_leaves I.flags (h.eip ▸ hexit) (h.cs.trans ha.cs) hs htop hlevel
  obtain rfl := hleave.unique hend
  exact ⟨rfl, fun a hle => h.mem a (Or.inr hle)⟩

/-- **Behind `isr80h_wrapper`** it has the result, too. -/
theorem HandlerReturns.isr80h {b : UInt32} (h : HandlerReturns I c m d) (ha : Arrived I c₀ c)
    (hexit : BlockAt I.code (c.stack 0) (isr80hExit I.tmpRes) b) (hlevel : 0 < Cpu.level c₀.cs)
    (hleave : Stops I.code I.flags d e) :
    taskCpu e = { taskCpu c₀ with eax := d.eax } ∧ ∀ a, I.esp0.toNat ≤ a → e.mem a = m a := by
  obtain ⟨a₁, a₂, reserved, hs⟩ := h.stack ha
  have htop : I.esp0.toNat ≤ 4294967295 := Nat.le_of_lt_succ I.esp0.toNat_lt
  have hdata := I.data
  have hroom := I.room
  have hend := isr80h_leaves I.flags (h.eip ▸ hexit) (h.cs.trans ha.cs) hs htop hlevel
    (Or.inl hdata)
  obtain rfl := hleave.unique hend
  refine ⟨rfl, fun a hle => ?_⟩
  have hother : store32 d.mem I.tmpRes.toNat d.eax.toNat a = d.mem a := store32_other (by omega)
  exact hother.trans (h.mem a (Or.inr hle))

/-- **`task_return` runs** to a task whose structure lies behind the kernel's stack. -/
theorem CallsTaskReturn.runs {t : Nat} (h : CallsTaskReturn I c m t d) (ha : Arrived I c₀ c)
    (habove : I.esp0.toNat ≤ t) (hend : t + 4096 < 4294967296)
    (hlevel : 0 < Cpu.level (savedRegisters m t).cs) :
    ∃ e, Stops I.code I.flags d e ∧ taskCpu e = savedRegisters m t ∧
      ∀ a, I.esp0.toNat ≤ a → e.mem a = m a := by
  obtain ⟨b, hb⟩ := I.taskReturnAt
  obtain ⟨b', hb'⟩ := I.restoreAt
  have hesp := ha.esp
  have hlow := h.low
  have hhigh := h.high
  have hregs : (UInt32.ofNat (t + 4)).toNat = t + 4 :=
    Nat.mod_eq_of_lt (show t + 4 < 4294967296 by omega)
  have hsame : savedRegisters d.mem t = savedRegisters m t :=
    savedRegisters_congr fun o _ _ => load32_congr fun a h1 _ => h.mem a (Or.inr (by omega))
  have hs : StackAt d.mem I.stackLow (d.esp.toNat + 8) d.mem d.esp
      [d.stack 0, UInt32.ofNat (t + 4)] := by
    have h4 : (d.esp + 4).toNat = d.esp.toNat + 4 := toNat_add_of_lt (by simp; omega)
    have hany : ∀ a, (UInt32.ofNat (load32 d.mem a)).toNat = load32 d.mem a := fun a =>
      Nat.mod_eq_of_lt (load32_lt d.mem a)
    constructor
    · omega
    · rfl
    · have hret : d.stack 0 = UInt32.ofNat (load32 d.mem d.esp.toNat) := by
        unfold Cpu.stack dwordAt
        rw [UInt32.add_zero]
      have harg : UInt32.ofNat (t + 4) = UInt32.ofNat (load32 d.mem (d.esp.toNat + 4)) := by
        rw [← h.arg, ← h4]
        rfl
      refine ⟨?_, ?_, trivial⟩
      · rw [hret, hany]
      · rw [harg, hany]
    · exact fun _ _ => rfl
  obtain ⟨e', hstops, hregs', -, hmem⟩ := taskReturn_runs I.flags (h.eip ▸ hb) hb'
    (h.cs.trans ha.cs) hs hlow (by omega) hregs (by omega) (Or.inr (by omega)) (hsame ▸ hlevel)
  exact ⟨e', hstops, hregs'.trans hsame, fun a hle =>
    (hmem a (Or.inr (by omega))).trans (h.mem a (Or.inr hle))⟩

/-- **Behind `task_return`** the task goes on with the registers in its structure. -/
theorem CallsTaskReturn.resumes {t : Nat} (h : CallsTaskReturn I c m t d) (ha : Arrived I c₀ c)
    (habove : I.esp0.toNat ≤ t) (hend : t + 4096 < 4294967296)
    (hlevel : 0 < Cpu.level (savedRegisters m t).cs) (hleave : Stops I.code I.flags d e) :
    taskCpu e = savedRegisters m t ∧ ∀ a, I.esp0.toNat ≤ a → e.mem a = m a := by
  obtain ⟨e', hstops, hregs⟩ := h.runs ha habove hend hlevel
  obtain rfl := hleave.unique hstops
  exact hregs

end Kernel

/-! ## 4. What a step does -/

section Steps

variable {I : KernelImage} {s : Machine} {v : VirtualCpus} {c d e : Cpu} {m : Mem}
  {dirs : Nat → Directory}

/-- In a handler the tasks are as they were. -/
theorem Arrived.leaves (ha : Arrived I s.cpu c) (hi : TaskInv s.system dirs)
    (habove : I.esp0.toNat ≤ s.heap.saddr) :
    LeavesTasks s.system ⟨⟨s.heap, c.mem⟩, s.list, s.live⟩ :=
  leavesTasks_below habove (fun a h => ha.mem a (Or.inr h)) hi

/-- **Behind `task_current_save_state`** the structures of all tasks hold their registers. -/
theorem Virtual.save (hv : Virtual I s v) (hi : TaskInv s.system dirs) (ha : Arrived I s.cpu c)
    (hsave : taskCurrentSaveState c.mem s.list (handlerFrame c) = some m) :
    TaskInv ⟨⟨s.heap, m⟩, s.list, s.live⟩ dirs ∧ ∀ t ∈ s.live, savedRegisters m t = v.regs t := by
  have hleaves := ha.leaves hi hv.above
  have hi' := hleaves.inv hi
  have hne : s.list.current ≠ 0 := fun e => hi.ne_zero (e ▸ hv.member)
  unfold taskCurrentSaveState at hsave
  rw [if_neg hne, ha.frame] at hsave
  obtain rfl := Option.some.inj hsave
  have hle := (hi'.bounds hv.member).1
  have habove := hv.above
  have he := ha.esp
  have hapart : c.esp.toNat + 12 + 52 ≤ s.list.current + 4 ∨
      s.list.current + 52 ≤ c.esp.toNat + 12 := by
    have hle' : s.heap.saddr ≤ s.list.current := hle
    omega
  obtain ⟨hinv, hothers⟩ := taskInv_save hi' hv.member fun a ha' => taskSaveState_other hapart ha'
  refine ⟨hinv, fun t ht => ?_⟩
  by_cases hcur : t = s.list.current
  · obtain ⟨reserved, hw⟩ := ha.words
    rw [hcur, taskSaveState_saved hapart hw, hv.running]
  · rw [hothers t ht hcur, hv.saved t ht hcur]
    exact hleaves.saved ht

/-- **Back in a user program**: the kernel's stack does not matter. -/
theorem Virtual.after {heap : Heap} {g : TaskGlobals} {live : List Nat} {v' : VirtualCpus}
    (hi : TaskInv ⟨⟨heap, m⟩, g, live⟩ dirs) (habove : I.esp0.toNat ≤ heap.saddr)
    (hmem : ∀ a, I.esp0.toNat ≤ a → e.mem a = m a) (hlive : v'.live = live)
    (hcur : v'.current = g.current) (hmember : g.current ∈ live)
    (hrunning : v'.regs g.current = taskCpu e)
    (hsaved : ∀ t ∈ live, t ≠ g.current → v'.regs t = savedRegisters m t)
    (hlevel : ∀ t ∈ live, 0 < Cpu.level (v'.regs t).cs) : Virtual I ⟨e, heap, g, live⟩ v' := by
  have hleaves := leavesTasks_below (m := e.mem) habove hmem hi
  exact {
    inv := ⟨dirs, hleaves.inv hi⟩
    above := habove
    live := hlive
    current := hcur
    member := hmember
    running := hrunning
    saved := fun t ht hne => (hsaved t ht hne).trans (hleaves.saved ht).symm
    level := hlevel }

/-- **The switch to a task** whose structure holds its registers. -/
theorem Virtual.switched {heap : Heap} {g : TaskGlobals} {live : List Nat} {v' : VirtualCpus}
    (hi : TaskInv ⟨⟨heap, m⟩, g, live⟩ dirs) (habove : I.esp0.toNat ≤ heap.saddr)
    (ha : Arrived I s.cpu c) (hcall : CallsTaskReturn I c m g.current d)
    (hleave : Stops I.code I.flags d e) (hlive : v'.live = live) (hcur : v'.current = g.current)
    (hmember : g.current ∈ live) (hsaved : ∀ t ∈ live, v'.regs t = savedRegisters m t)
    (hlevel : ∀ t ∈ live, 0 < Cpu.level (v'.regs t).cs) : Virtual I ⟨e, heap, g, live⟩ v' := by
  obtain ⟨hle, hend⟩ := hi.bounds hmember
  obtain ⟨hregs, hmem⟩ := hcall.resumes ha (habove.trans hle) hend
    (hsaved _ hmember ▸ hlevel _ hmember) hleave
  exact Virtual.after hi habove hmem hlive hcur hmember ((hsaved _ hmember).trans hregs.symm)
    (fun t ht _ => hsaved t ht) hlevel

theorem VirtualCpus.set_self (v : VirtualCpus) (t : Nat) (r : TaskRegisters) :
    (v.set t r).regs t = r := by
  unfold VirtualCpus.set
  exact Function.update_self ..

theorem VirtualCpus.set_ne (v : VirtualCpus) {t u : Nat} (h : u ≠ t) (r : TaskRegisters) :
    (v.set t r).regs u = v.regs u := by
  unfold VirtualCpus.set
  exact Function.update_of_ne h ..

/-- A level that all tasks have, with one of them changed. -/
theorem VirtualCpus.set_level {live : List Nat} (h : ∀ t ∈ live, 0 < Cpu.level (v.regs t).cs)
    {t : Nat} {r : TaskRegisters} (hr : 0 < Cpu.level r.cs) :
    ∀ u ∈ live, 0 < Cpu.level ((v.set t r).regs u).cs := by
  intro u hu
  by_cases hut : u = t
  · rw [hut, VirtualCpus.set_self]
    exact hr
  · rw [VirtualCpus.set_ne v hut]
    exact h u hu

/-- **A user program runs.** -/
theorem Virtual.user (hv : Virtual I s v) (hlevel : 0 < Cpu.level c.cs)
    (hleaves : LeavesTasks s.system { s with cpu := c }.system) :
    Virtual I { s with cpu := c } (v.set v.current (taskCpu c)) := by
  obtain ⟨dirs, hi⟩ := hv.inv
  refine Virtual.after (hleaves.inv hi) hv.above (fun _ _ => rfl) hv.live hv.current hv.member ?_ ?_
    (VirtualCpus.set_level hv.level hlevel)
  · rw [← hv.current, VirtualCpus.set_self]
  · intro t ht hne
    rw [hv.current, VirtualCpus.set_ne v hne, hv.saved t ht hne]
    exact (hleaves.saved ht).symm

/-- **The clock.** -/
theorem Virtual.clock (hv : Virtual I s v) {g : TaskGlobals}
    (henter : Stops I.code I.flags
        (PeachKernel.interrupted s.cpu (I.interruptPointerTable 0x20) I.esp0) c)
    (hsave : taskCurrentSaveState c.mem s.list (handlerFrame c) = some m)
    (hnext : taskNext m s.list = some g) (hcall : CallsTaskReturn I c m g.current d)
    (hleave : Stops I.code I.flags d e) :
    ∃ v', VirtualStep v .clock v' ∧ Virtual I ⟨e, s.heap, g, s.live⟩ v' := by
  obtain ⟨dirs, hi⟩ := hv.inv
  obtain ⟨ret, b, hat, -⟩ := interrupt_arrives (by decide) henter
  have ha := hat.arrived.1
  obtain ⟨hi', hsaved⟩ := hv.save hi ha hsave
  obtain ⟨before, behind, hl⟩ := split_of_mem hv.member
  obtain ⟨u, rest, hturns⟩ := turns_cons before s.list.current behind
  obtain ⟨htick, hu, -⟩ := taskNext_turn hi' hl rfl hturns
  have hg : g = taskSwitch s.list u := by
    unfold TaskSystem.tick at htick
    rw [hnext] at htick
    exact congrArg TaskSystem.list (Option.some.inj htick)
  subst hg
  have hl' : v.live = before ++ v.current :: behind := by
    rw [hv.live, hv.current]
    exact hl
  refine ⟨{ v with current := u }, .clock hl' (hv.current ▸ hturns), ?_⟩
  exact Virtual.switched (taskInv_switch hi' hu) hv.above ha hcall hleave hv.live rfl hu
    (fun t ht => (hsaved t ht).symm) hv.level

/-- **An interrupt whose handler returns.** -/
theorem Virtual.interrupt (hv : Virtual I s v) {n : Nat} {m' : Mem} {heap : Heap} (hn : n < 512)
    (henter : Stops I.code I.flags
        (PeachKernel.interrupted s.cpu (I.interruptPointerTable n) I.esp0) c)
    (hsave : m = c.mem ∨ taskCurrentSaveState c.mem s.list (handlerFrame c) = some m)
    (hleaves : LeavesTasks ⟨⟨s.heap, m⟩, s.list, s.live⟩ ⟨⟨heap, m'⟩, s.list, s.live⟩)
    (hret : HandlerReturns I c m' d) (hleave : Stops I.code I.flags d e) :
    Virtual I ⟨e, heap, s.list, s.live⟩ v := by
  obtain ⟨dirs, hi⟩ := hv.inv
  obtain ⟨ret, b, hat, hexit⟩ := interrupt_arrives hn henter
  obtain ⟨ha, hret'⟩ := hat.arrived
  have hbefore : TaskInv ⟨⟨s.heap, m⟩, s.list, s.live⟩ dirs ∧
      ∀ t ∈ s.live, t ≠ s.list.current → savedRegisters m t = v.regs t := by
    rcases hsave with rfl | hsave
    · have hl := ha.leaves hi hv.above
      exact ⟨hl.inv hi, fun t ht hne => (hl.saved ht).trans (hv.saved t ht hne).symm⟩
    · obtain ⟨hi', hsaved⟩ := hv.save hi ha hsave
      exact ⟨hi', fun t ht _ => hsaved t ht⟩
  have hlevel : 0 < Cpu.level s.cpu.cs := by
    have h := hv.level _ hv.member
    rwa [hv.running] at h
  obtain ⟨hregs, hmem⟩ := hret.interrupted ha (hret' ▸ hexit) hlevel hleave
  have habove : I.esp0.toNat ≤ heap.saddr := hleaves.place ▸ hv.above
  refine Virtual.after (hleaves.inv hbefore.1) habove hmem hv.live hv.current hv.member
    (hv.running.trans hregs.symm) (fun t ht hne => ?_) hv.level
  rw [← hbefore.2 t ht hne]
  exact (hleaves.saved ht).symm

/-- **A system call that returns.** -/
theorem Virtual.syscall (hv : Virtual I s v) {m' : Mem} {heap : Heap}
    (henter : Stops I.code I.flags (PeachKernel.interrupted s.cpu I.isr80hWrapper I.esp0) c)
    (hsave : taskCurrentSaveState c.mem s.list (handlerFrame c) = some m)
    (hleaves : LeavesTasks ⟨⟨s.heap, m⟩, s.list, s.live⟩ ⟨⟨heap, m'⟩, s.list, s.live⟩)
    (hret : HandlerReturns I c m' d) (hleave : Stops I.code I.flags d e) :
    Virtual I ⟨e, heap, s.list, s.live⟩
      (v.set v.current { v.regs v.current with eax := d.eax }) := by
  obtain ⟨dirs, hi⟩ := hv.inv
  obtain ⟨ret, b, hat, hexit⟩ := isr80h_arrives henter
  obtain ⟨ha, hret'⟩ := hat.arrived
  obtain ⟨hi', hsaved⟩ := hv.save hi ha hsave
  have hrun : v.regs v.current = taskCpu s.cpu := hv.current.symm ▸ hv.running
  have hlevel : 0 < Cpu.level s.cpu.cs := by
    have h := hv.level _ hv.member
    rwa [hv.running] at h
  obtain ⟨hregs, hmem⟩ := hret.isr80h ha (hret' ▸ hexit) hlevel hleave
  have habove : I.esp0.toNat ≤ heap.saddr := hleaves.place ▸ hv.above
  rw [hrun]
  refine Virtual.after (hleaves.inv hi') habove hmem hv.live hv.current hv.member ?_
    (fun t ht hne => ?_) (VirtualCpus.set_level hv.level hlevel)
  · rw [← hv.current, VirtualCpus.set_self]
    exact hregs.symm
  · rw [hv.current, VirtualCpus.set_ne v hne, ← hsaved t ht]
    exact (hleaves.saved ht).symm

/-- **A system call that starts a program.** -/
theorem Virtual.start (hv : Virtual I s v) {s₁ s₂ : TaskSystem} {t : Nat} {process : TaskProcess}
    (henter : Stops I.code I.flags (PeachKernel.interrupted s.cpu I.isr80hWrapper I.esp0) c)
    (hsave : taskCurrentSaveState c.mem s.list (handlerFrame c) = some m)
    (hbefore : LeavesTasks ⟨⟨s.heap, m⟩, s.list, s.live⟩ s₁)
    (hnew : (taskNew s₁.kernel s₁.list process).1 = .ok t)
    (hafter : LeavesTasks (s₁.new process) s₂)
    (hentry : ∀ entry, process.elfEntry = some entry → entry < 4294967296)
    (hcall : CallsTaskReturn I c s₂.kernel.mem t d) (hleave : Stops I.code I.flags d e) :
    ∃ v', VirtualStep v (.start t process) v' ∧
      Virtual I ⟨e, s₂.kernel.heap, taskSwitch s₂.list t, s₂.live⟩ v' := by
  obtain ⟨dirs, hi⟩ := hv.inv
  obtain ⟨ret, b, hat, -⟩ := isr80h_arrives henter
  have ha := hat.arrived.1
  obtain ⟨hi', hsaved⟩ := hv.save hi ha hsave
  have hi₁ := hbefore.inv hi'
  have hlive₁ : s₁.live = s.live := hbefore.live
  have hne : s₁.live ≠ [] := by
    rw [hlive₁]
    exact List.ne_nil_of_mem hv.member
  obtain ⟨⟨dirs₂, hi₂⟩, hlive₂, hfresh, hplace₂, hregs₂, hold₂⟩ :=
    taskNew_registers hi₁ hne hentry hnew
  have hlive₃ : s₂.live = s.live ++ [t] := by rw [hafter.live, hlive₂, hlive₁]
  have ht : t ∈ s₂.live := by
    rw [hlive₃]
    exact List.mem_append_right _ List.mem_cons_self
  have hplace : s₂.kernel.heap.saddr = s.heap.saddr := by
    rw [hafter.place, hplace₂]
    exact hbefore.place
  have hfresh' : t ∉ v.live := by
    rw [hv.live, ← hlive₁]
    exact hfresh
  have hinit : 0 < Cpu.level (initialRegisters process).cs := by
    show 0 < Cpu.level (3 * 8 + 3)
    decide
  refine ⟨_, .start process hfresh', ?_⟩
  refine Virtual.switched (taskInv_switch (hafter.inv hi₂) ht) (hplace ▸ hv.above) ha hcall hleave
    (by rw [hlive₃, hv.live]) rfl ht (fun u hu => ?_) (fun u hu => ?_)
  · rw [hlive₃] at hu
    rcases List.mem_append.mp hu with hu | hu
    · have hut : u ≠ t := fun e => hfresh (hlive₁ ▸ e ▸ hu)
      have hu₁ : u ∈ s₁.live := hlive₁ ▸ hu
      have hu₂ : u ∈ (s₁.new process).live := hlive₂ ▸ List.mem_append_left _ hu₁
      show (v.set t (initialRegisters process)).regs u = _
      rw [VirtualCpus.set_ne v hut, hafter.saved hu₂, hold₂ u hu₁, hbefore.saved hu, hsaved u hu]
    · rw [List.mem_singleton.mp hu]
      show (v.set t (initialRegisters process)).regs t = _
      rw [VirtualCpus.set_self, hafter.saved (hlive₂ ▸ List.mem_append_right _ List.mem_cons_self),
        hregs₂]
  · rw [hlive₃] at hu
    rcases List.mem_append.mp hu with hu | hu
    · exact VirtualCpus.set_level hv.level hinit u hu
    · rw [List.mem_singleton.mp hu]
      show 0 < Cpu.level ((v.set t (initialRegisters process)).regs t).cs
      rw [VirtualCpus.set_self]
      exact hinit

/-- **A program ends**, its task being the last one of several. -/
theorem Virtual.exit (hv : Virtual I s v) {s₁ s₂ : TaskSystem} {gate : UInt32} {g : TaskGlobals}
    (hgate : gate = I.isr80hWrapper ∨ ∃ n, 0 < n ∧ n < 0x20 ∧ gate = I.interruptPointerTable n)
    (henter : Stops I.code I.flags (PeachKernel.interrupted s.cpu gate I.esp0) c)
    (hsave : taskCurrentSaveState c.mem s.list (handlerFrame c) = some m)
    (hlast : LastTask s.system s.list.current) (hothers : 1 < s.live.length)
    (hbefore : LeavesTasks ⟨⟨s.heap, m⟩, s.list, s.live⟩ s₁)
    (hafter : LeavesTasks (s₁.free s.list.current) s₂)
    (hnext : taskNext s₂.kernel.mem s₂.list = some g)
    (hcall : CallsTaskReturn I c s₂.kernel.mem g.current d) (hleave : Stops I.code I.flags d e) :
    ∃ v', VirtualStep v .exit v' ∧ Virtual I ⟨e, s₂.kernel.heap, g, s₂.live⟩ v' := by
  obtain ⟨dirs, hi⟩ := hv.inv
  have ha : Arrived I s.cpu c := by
    rcases hgate with rfl | ⟨n, -, hn, rfl⟩
    · obtain ⟨ret, b, hat, -⟩ := isr80h_arrives henter
      exact hat.arrived.1
    · obtain ⟨ret, b, hat, -⟩ := interrupt_arrives (by omega) henter
      exact hat.arrived.1
  obtain ⟨hi', hsaved⟩ := hv.save hi ha hsave
  obtain ⟨l, hl⟩ := List.getLast?_eq_some_iff.mp hlast
  have hl : s.live = l ++ [s.list.current] := hl
  cases l with
  | nil =>
    rw [hl] at hothers
    exact absurd hothers (Nat.lt_irrefl 1)
  | cons t ts =>
    have hi₁ := hbefore.inv hi'
    have hlive₁ : s₁.live = t :: ts ++ [s.list.current] := hbefore.live.trans hl
    obtain ⟨hi₂, hlive₂, hplace₂, hcur₂, hregs₂⟩ :=
      taskFree_registers hi₁ hlive₁ (List.cons_ne_nil t ts)
      (congrArg TaskGlobals.current hbefore.list)
    have hi₃ := hafter.inv hi₂
    have hlive₃ : s₂.live = t :: ts := hafter.live.trans hlive₂
    have hcur₃ : s₂.list.current = t := by
      rw [hafter.list, hcur₂]
      rfl
    obtain ⟨u, rest, hturns⟩ := turns_cons [] t ts
    obtain ⟨htick, hu, -⟩ :=
      taskNext_turn hi₃ (show s₂.live = [] ++ t :: ts from hlive₃) hcur₃ hturns
    have hg : g = taskSwitch s₂.list u := by
      unfold TaskSystem.tick at htick
      rw [hnext] at htick
      exact congrArg TaskSystem.list (Option.some.inj htick)
    subst hg
    have hplace : s₂.kernel.heap.saddr = s.heap.saddr := by
      rw [hafter.place, hplace₂]
      exact hbefore.place
    have hin : ∀ w ∈ s₂.live, w ∈ t :: ts ∧ w ∈ s.live := by
      intro w hw
      rw [hlive₃] at hw
      exact ⟨hw, hl ▸ List.mem_append_left _ hw⟩
    have hl' : v.live = t :: ts ++ [v.current] := by
      rw [hv.live, hv.current]
      exact hl
    refine ⟨_, .exit hl' hturns, ?_⟩
    · refine Virtual.switched (taskInv_switch hi₃ hu)
        (hplace ▸ hv.above) ha hcall hleave hlive₃.symm
        rfl hu (fun w hw => ?_) fun w hw => hv.level w (hin w hw).2
      obtain ⟨hw', hws⟩ := hin w hw
      show v.regs w = _
      rw [hafter.saved (hlive₂ ▸ hw'), hregs₂ w hw', hbefore.saved hws, hsaved w hws]

end Steps

/-! ## 5. Runs -/

/-- **Every step of the machine is a step of the abstract one.** -/
theorem machine_simulates (I : KernelImage) :
    Simulates (MachineStep I) VirtualStep (Virtual I) := by
  intro s v l s₁ hv hs
  cases hs with
  | user hlevel hleaves => exact ⟨_, .user v _, hv.user hlevel hleaves⟩
  | clock henter hsave hnext hcall hleave => exact hv.clock henter hsave hnext hcall hleave
  | interrupt hn _ henter hsave hleaves hret hleave =>
    exact ⟨v, .interrupt v _, hv.interrupt hn henter hsave hleaves hret hleave⟩
  | syscall henter hsave hleaves hret hleave =>
    exact ⟨_, .syscall v _, hv.syscall henter hsave hleaves hret hleave⟩
  | start henter hsave hbefore hnew hafter hentry hcall hleave =>
    exact hv.start henter hsave hbefore hnew hafter hentry hcall hleave
  | exit hgate henter hsave hlast hothers hbefore hafter hnext hcall hleave =>
    exact hv.exit hgate henter hsave hlast hothers hbefore hafter hnext hcall hleave

/-- **The tasks have processors of their own**: whatever the order of the interrupts, system calls,
    starts and ends of programs, a run of the machine is a run of the abstract machine, in which
    each of these changes the registers of one task and nothing else. -/
theorem machineRun_virtual {I : KernelImage} {s s' : Machine} {v : VirtualCpus}
    {events : List MachineEvent} (hv : Virtual I s v)
    (hr : LabelledRun (MachineStep I) s events s') :
    ∃ v', LabelledRun VirtualStep v events v' ∧ Virtual I s' v' :=
  (machine_simulates I).run hr hv

/-- A task whose turn it is not keeps its registers. -/
theorem VirtualStep.frame {v v' : VirtualCpus} {l : MachineEvent} (h : VirtualStep v l v') {t : Nat}
    (ht : t ∈ v.live) (hne : v.current ≠ t) : t ∈ v'.live ∧ v'.regs t = v.regs t := by
  cases h with
  | user r => exact ⟨ht, VirtualCpus.set_ne v hne.symm r⟩
  | clock _ _ => exact ⟨ht, rfl⟩
  | interrupt n => exact ⟨ht, rfl⟩
  | syscall result => exact ⟨ht, VirtualCpus.set_ne v hne.symm _⟩
  | start process hfresh =>
    refine ⟨List.mem_append_left _ ht, VirtualCpus.set_ne v ?_ _⟩
    rintro rfl
    exact hfresh ht
  | exit hl _ =>
    rw [hl] at ht
    rcases List.mem_append.mp ht with ht | ht
    · exact ⟨ht, rfl⟩
    · exact absurd (List.mem_singleton.mp ht).symm hne

/-- **A task resumes**: one that the clock or the start of a program interrupts has the same
    registers when its turn comes back, whatever the others did. -/
theorem task_resumes {I : KernelImage} {s s₁ s' : Machine} {v : VirtualCpus} {first : MachineEvent}
    {events : List MachineEvent} (hv : Virtual I s v) (hfirst : MachineStep I s first s₁)
    (hkind : first = .clock ∨ ∃ t process, first = .start t process)
    (hr : LabelledRun (fun a l b => a.list.current ≠ s.list.current ∧ MachineStep I a l b) s₁ events
        s')
    (hback : s'.list.current = s.list.current) : taskCpu s'.cpu = taskCpu s.cpu := by
  generalize hcur : s.list.current = t at hr hback
  have hmem : t ∈ v.live := by
    rw [hv.live, ← hcur]
    exact hv.member
  obtain ⟨v₁, hstep, hv₁⟩ := machine_simulates I hv hfirst
  have hkept : t ∈ v₁.live ∧ v₁.regs t = v.regs t := by
    rcases hkind with rfl | ⟨t', process, rfl⟩
    · cases hstep with
      | clock _ _ => exact ⟨hmem, rfl⟩
    · cases hstep with
      | start _ hfresh =>
        refine ⟨List.mem_append_left _ hmem, VirtualCpus.set_ne v ?_ _⟩
        rintro rfl
        exact hfresh hmem
  have hrun : v.regs t = taskCpu s.cpu := by
    rw [← hcur]
    exact hv.running
  rw [hrun] at hkept
  clear hfirst hkind hstep hmem hrun
  induction hr generalizing v₁ with
  | nil a =>
    rw [← hkept.2, ← hback]
    exact hv₁.running.symm
  | cons hs _ ih =>
    obtain ⟨hne, hs⟩ := hs
    obtain ⟨v₂, hstep, hv₂⟩ := machine_simulates I hv₁ hs
    obtain ⟨hlive, hregs⟩ := hstep.frame hkept.1 (hv₁.current ▸ hne)
    exact ih hback v₂ hv₂ ⟨hlive, hregs.trans hkept.2⟩

/-! ## 6. A kernel and two tasks -/

/-- **The clock gets through**: its interrupt leads to the next task. -/
theorem Virtual.clock_runs {I : KernelImage} {s : Machine} {v : VirtualCpus} (hv : Virtual I s v)
    {before behind rest : List Nat} {u : Nat} (hl : s.live = before ++ s.list.current :: behind)
    (ht : turns before s.list.current behind = u :: rest) :
    ∃ e, MachineStep I s .clock ⟨e, s.heap, taskSwitch s.list u, s.live⟩ := by
  obtain ⟨dirs, hi⟩ := hv.inv
  obtain ⟨b, hb⟩ := I.interruptAt 0x20 (by decide)
  obtain ⟨ret, c, hsteps, hat, -⟩ := interrupt_enters I.flags (c := s.cpu) hb I.room_stub
  have ha := hat.arrived.1
  have hne : s.list.current ≠ 0 := fun e => hi.ne_zero (e ▸ hv.member)
  have hsave : taskCurrentSaveState c.mem s.list (handlerFrame c) =
      some (taskSaveState c.mem s.list.current (handlerFrame c)) := if_neg hne
  generalize taskSaveState c.mem s.list.current (handlerFrame c) = m at hsave
  obtain ⟨hi', hsaved⟩ := hv.save hi ha hsave
  obtain ⟨htick, hu, -⟩ := taskNext_turn hi' hl rfl ht
  have hnext : taskNext m s.list = some (taskSwitch s.list u) := by
    unfold TaskSystem.tick at htick
    obtain ⟨g, hg, he⟩ := Option.map_eq_some_iff.mp htick
    obtain rfl : g = taskSwitch s.list u := congrArg TaskSystem.list he
    exact hg
  obtain ⟨hle, hend⟩ := hi'.bounds hu
  have habove : I.esp0.toNat ≤ u := hv.above.trans hle
  have hesp := ha.esp
  have hroom := I.room
  have hlow := ha.low
  have htop := I.esp0.toNat_lt
  have h16 : (c.esp - 16).toNat = c.esp.toNat - 16 :=
    UInt32.toNat_sub_of_le _ _ (UInt32.le_iff_toNat_le.mpr (by simp; omega))
  have h12 : (c.esp - 16 + 4).toNat = c.esp.toNat - 12 := by
    rw [toNat_add_of_lt (by simp; omega), h16]
    simp
    omega
  -- `task_next` with a word of its own on the stack
  have hcall : CallsTaskReturn I c m u { c with
      eip := I.taskReturn, esp := c.esp - 16, mem := store32 m (c.esp.toNat - 12) (u + 4) } := by
    constructor
    · rfl
    · rfl
    · show I.stackLow + 32 ≤ (c.esp - 16).toNat
      omega
    · show (c.esp - 16).toNat + 8 ≤ c.esp.toNat
      omega
    · show dwordAt (store32 m (c.esp.toNat - 12) (u + 4)) (c.esp - 16 + 4) = _
      unfold dwordAt
      rw [h12, load32_store32_same (by omega)]
    · exact fun a h => store32_other (by omega)
  have hlevel : 0 < Cpu.level (savedRegisters m u).cs := hsaved u hu ▸ hv.level u hu
  obtain ⟨e, hleave, -⟩ := hcall.runs ha habove hend hlevel
  exact ⟨e, .clock ⟨hsteps, hat.stops I.handlers.1⟩ hsave hnext hcall hleave⟩

/-- Code that a table gives, an instruction at each address. -/
theorem blockAt_table {code : Code} (is : List Instr) : ∀ {a : UInt32},
    (∀ i (hi : i < is.length), code (a + UInt32.ofNat i) = some (is[i], a + UInt32.ofNat i + 1)) →
      ∃ b, BlockAt code a is b := by
  induction is with
  | nil => exact fun {a} _ => ⟨a, rfl⟩
  | cons i is ih =>
    intro a h
    have h0 := h 0 (Nat.succ_pos _)
    have e : a + UInt32.ofNat 0 = a := UInt32.add_zero a
    rw [e] at h0
    obtain ⟨b, hb⟩ := @ih (a + 1) fun j hj => by
      have hj' := h (j + 1) (Nat.succ_lt_succ hj)
      have e : a + UInt32.ofNat (j + 1) = a + 1 + UInt32.ofNat j := by
        rw [UInt32.ofNat_add, UInt32.add_assoc, UInt32.add_comm (UInt32.ofNat j)]
        rfl
      rw [e] at hj'
      exact hj'
    exact ⟨b, a + 1, h0, hb⟩

/-- The stubs of a small kernel: those of the table 16 instructions apart, and the other blocks. -/
def smallCode : Code := fun a =>
  let o := a.toNat
  let block :=
    if o < 8192 then interruptBlock (UInt32.ofNat (o / 16)) 0x20000
    else if o < 8208 then isr80hWrapperBlock 0x30000 0x20001
    else if o < 8224 then taskReturnBlock 8224
    else if o < 8240 then restoreBlock
    else []
  block[o % 16]?.map fun i => (i, a + 1)

theorem smallCode_block {a : UInt32} {is : List Instr} (ha : a.toNat % 16 = 0) (hl : is.length ≤ 16)
    (hmax : a.toNat < 8240)
    (his : ∀ o, o / 16 = a.toNat / 16 →
      (if o < 8192 then interruptBlock (UInt32.ofNat (o / 16)) 0x20000
        else if o < 8208 then isr80hWrapperBlock 0x30000 0x20001
        else if o < 8224 then taskReturnBlock 8224
        else if o < 8240 then restoreBlock
        else []) = is) : ∃ b, BlockAt smallCode a is b := by
  refine blockAt_table is fun i hi => ?_
  have hi' : (UInt32.ofNat i).toNat = i := Nat.mod_eq_of_lt (show i < 4294967296 by omega)
  have ho : (a + UInt32.ofNat i).toNat = a.toNat + i := by
    rw [toNat_add_of_lt (by omega), hi']
  unfold smallCode
  dsimp only
  rw [ho, his _ (by omega), show (a.toNat + i) % 16 = i by omega, List.getElem?_eq_getElem hi]
  rfl

def smallImage : KernelImage where
  code := smallCode
  flags := fun f _ _ => f
  esp0 := 0x600000
  stackLow := 0x500000
  tmpRes := 0x30000
  interruptHandler := 0x20000
  isr80hHandler := 0x20001
  taskReturn := 8208
  restoreGeneralPurposeRegisters := 8224
  interruptPointerTable := fun n => UInt32.ofNat (16 * n)
  isr80hWrapper := 8192
  interruptAt := by
    intro n hn
    have e : (UInt32.ofNat (16 * n)).toNat = 16 * n :=
      Nat.mod_eq_of_lt (show 16 * n < 4294967296 by omega)
    refine smallCode_block (by omega) (show 10 ≤ 16 by decide) (by omega) fun o ho => ?_
    rw [if_pos (by omega), show o / 16 = n by omega]
  isr80hAt := by
    refine smallCode_block (by decide) (by decide) (by decide) fun o ho => ?_
    have e : (8192 : UInt32).toNat = 8192 := rfl
    rw [if_neg (by omega), if_pos (by omega)]
  taskReturnAt := by
    refine smallCode_block (by decide) (by decide) (by decide) fun o ho => ?_
    have e : (8208 : UInt32).toNat = 8208 := rfl
    rw [if_neg (by omega), if_neg (by omega), if_pos (by omega)]
  restoreAt := by
    refine smallCode_block (by decide) (by decide) (by decide) fun o ho => ?_
    have e : (8224 : UInt32).toNat = 8224 := rfl
    rw [if_neg (by omega), if_neg (by omega), if_neg (by omega), if_pos (by omega)]
  handlers := by decide
  room := by decide
  data := by decide

/-- A processor in a user program, its registers zero. -/
def idleCpu (m : Mem) : Cpu :=
  ⟨0, 0, 0, 0, 0, 0, 0, 0, 0, 0, 3 * 8 + 3, 0, 0, 0, 0, 0, m⟩

/-- Two tasks on a heap with room for them. -/
theorem twoTasks {s : TaskSystem} (h0 : s.Start) (hroom : 2054 ≤ freeBlocks s.kernel.heap)
    (process : TaskProcess)
    (hentry : ∀ entry, process.elfEntry = some entry → entry < 4294967296) :
    ∃ s₂ dirs a b, TaskInv s₂ dirs ∧ s₂.live = [a, b] ∧
      s₂.kernel.heap.saddr = s.kernel.heap.saddr ∧
      savedRegisters s₂.kernel.mem b = initialRegisters process := by
  have hi₀ := TaskInv.start h0 fun _ => ⟨0, 0, []⟩
  obtain ⟨a, hn₁, -⟩ := taskNew_free h0.1 (by omega) s.list process
  obtain ⟨a', dirs₁, hlive₁, hi₁, hfree⟩ := taskInv_new hi₀ (show 1027 ≤ _ by omega) process
  have hplace₁ := taskNew_place hi₀ hn₁
  generalize s.new process = s₁ at hlive₁ hi₁ hfree hplace₁
  rw [h0.2.2, List.nil_append] at hlive₁
  obtain ⟨b, hn₂, -⟩ := taskNew_free hi₁.placed (by omega) s₁.list process
  have hne : s₁.live ≠ [] := by
    rw [hlive₁]
    exact List.cons_ne_nil _ _
  obtain ⟨⟨dirs₂, hi₂⟩, hlive₂, -, hplace₂, hregs, -⟩ := taskNew_registers hi₁ hne hentry hn₂
  rw [hlive₁] at hlive₂
  exact ⟨_, dirs₂, a', b, hi₂, hlive₂, hplace₂.trans hplace₁, hregs⟩

/-- Two tasks of this kernel, the first one running. -/
theorem smallImage_two : ∃ s v a b, Virtual smallImage s v ∧ s.live = [a, b] ∧ a ≠ b ∧
    s.list.current = a := by
  have hfree : freeBlocks bootTasks.kernel.heap = 25600 := kernelHeap_freeBlocks _
  have hplace : bootTasks.kernel.heap.saddr = 0x01000000 := rfl
  obtain ⟨s, dirs, a, b, hinv, hlive, hsaddr, hregs⟩ :=
    twoTasks bootTasks_start (by omega) ⟨0, none⟩ (fun _ h => by cases h)
  rw [hplace] at hsaddr
  clear hfree hplace
  have hab : a ≠ b := by
    have hnd := hinv.nodup
    rw [hlive] at hnd
    exact fun e => (List.nodup_cons.mp hnd).1 (e ▸ List.mem_cons_self)
  have ha : a ∈ s.live := by
    rw [hlive]
    exact List.mem_cons_self
  refine ⟨⟨idleCpu s.kernel.mem, s.kernel.heap, taskSwitch s.list a, s.live⟩,
    ⟨fun t => if t = a then taskCpu (idleCpu s.kernel.mem) else savedRegisters s.kernel.mem t,
      s.live, a⟩,
    a, b, ⟨⟨dirs, taskInv_switch hinv ha⟩, ?_, rfl, rfl, ha, if_pos rfl, fun t _ hne => if_neg hne,
      fun t ht => ?_⟩, hlive, hab, rfl⟩
  · show 0x600000 ≤ s.kernel.heap.saddr
    omega
  · have ht' : t = a ∨ t = b := by
      rw [show s.live = [a, b] from hlive] at ht
      simpa using ht
    dsimp only
    rcases ht' with rfl | rfl
    · rw [if_pos rfl]
      show 0 < Cpu.level (3 * 8 + 3)
      decide
    · rw [if_neg hab.symm, hregs]
      decide

/-- Two ticks: the first task is interrupted, the second one has its turn, and the first one
    resumes. -/
theorem smallImage_ticks : ∃ s v s₁ s₂, Virtual smallImage s v ∧
    MachineStep smallImage s .clock s₁ ∧ MachineStep smallImage s₁ .clock s₂ ∧
    s₁.list.current ≠ s.list.current ∧ s₂.list.current = s.list.current := by
  obtain ⟨s, v, a, b, hv, hlive, hab, hcur⟩ := smallImage_two
  have hl : s.live = [] ++ s.list.current :: [b] := by
    rw [hlive, hcur]
    rfl
  obtain ⟨e, hstep⟩ := hv.clock_runs hl rfl
  obtain ⟨v₁, -, hv₁⟩ := machine_simulates smallImage hv hstep
  have hl' : s.live = [a] ++ b :: [] := hlive
  obtain ⟨e', hstep'⟩ := hv₁.clock_runs hl' rfl
  exact ⟨s, v, _, _, hv, hstep, hstep', fun h => hab (h.trans hcur).symm, hcur.symm⟩

theorem machineRun_virtual_ticks : ∃ s s' v v', Virtual smallImage s v ∧
    LabelledRun (MachineStep smallImage) s [.clock, .clock] s' ∧
    LabelledRun VirtualStep v [.clock, .clock] v' ∧ Virtual smallImage s' v' := by
  obtain ⟨s, v, s₁, s₂, hv, h1, h2, -, -⟩ := smallImage_ticks
  have hr : LabelledRun (MachineStep smallImage) s [.clock, .clock] s₂ :=
    .cons h1 (.cons h2 (.nil _))
  obtain ⟨v', hrun, hv'⟩ := machineRun_virtual hv hr
  exact ⟨s, s₂, v, v', hv, hr, hrun, hv'⟩

theorem task_resumes_ticks : ∃ s s₁ s₂, MachineStep smallImage s .clock s₁ ∧
    MachineStep smallImage s₁ .clock s₂ ∧ s₁.list.current ≠ s.list.current ∧
    taskCpu s₂.cpu = taskCpu s.cpu := by
  obtain ⟨s, v, s₁, s₂, hv, h1, h2, hne, hback⟩ := smallImage_ticks
  exact ⟨s, s₁, s₂, h1, h2, hne,
    task_resumes hv h1 (Or.inl rfl) (.cons ⟨hne, h2⟩ (.nil _)) hback⟩

end PeachKernel
