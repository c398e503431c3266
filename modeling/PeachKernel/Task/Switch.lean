/-
  File:      PeachKernel/Task/Switch.lean
  Subject:   Into the kernel and back: the assembly of `idt/idt.asm` and `task/task.asm`, and the
             registers that the kernel keeps for a task.

  The stack of the kernel, its code and its data have the same addresses in every page directory, so
  memory is one here. The data segment registers are not saved: behind a switch they hold the stack
  selector of the task.

  * `interruptBlock`, `isr80hWrapperBlock`, `taskReturnBlock`, `restoreBlock` -- the source's
    instructions;
  * `taskSaveState` -- `task_save_state`;
  * `interrupt_enters`, `interrupt_leaves`, `isr80h_leaves` -- the two sides of a handler;
  * `taskReturn_runs` -- `task_return` loads the registers that were saved.
-/
import PeachKernel.Lib.X86
import PeachKernel.Task.Runs

namespace PeachKernel

open Mem

/-! ## 1. The source functions -/

def KERNEL_CODE_SELECTOR : UInt16 := 0x08
def KERNEL_DATA_SELECTOR : UInt16 := 0x10

/-- The macro `interrupt`, up to the call and behind it. -/
def interruptEntry (n : UInt32) : List Instr :=
  [.nop, .nop, .nop, .pushad, .push .esp, .pushImm n]
def interruptExit : List Instr := [.addImm .esp 8, .popad, .iret]
def interruptBlock (n interruptHandler : UInt32) : List Instr :=
  interruptEntry n ++ .call interruptHandler :: interruptExit

/-- `isr80h_wrapper`. -/
def isr80hEntry : List Instr := [.nop, .nop, .pushad, .push .esp, .push .eax]
def isr80hExit (tmpRes : UInt32) : List Instr :=
  [.storeAbs tmpRes .eax, .addImm .esp 8, .popad, .loadAbs .eax tmpRes, .iret]
def isr80hWrapperBlock (tmpRes isr80hHandler : UInt32) : List Instr :=
  isr80hEntry ++ .call isr80hHandler :: isr80hExit tmpRes

/-- `task_return`. -/
def taskReturnEntry : List Instr :=
  [.mov .ebp .esp, .load .ebx .ebp 4, .pushMem .ebx 44, .pushMem .ebx 40, .pushMem .ebx 36,
    .pushMem .ebx 32, .pushMem .ebx 28, .loadAx .ebx 44, .movSeg .ds, .movSeg .es, .movSeg .fs,
    .movSeg .gs, .pushMem .ebp 4]
def taskReturnBlock (restoreGeneralPurposeRegisters : UInt32) : List Instr :=
  taskReturnEntry ++ .call restoreGeneralPurposeRegisters :: [.addImm .esp 4, .iret]

/-- `restore_general_purpose_registers`. -/
def restoreBlock : List Instr :=
  [.push .ebp, .mov .ebp .esp, .load .ebx .ebp 8, .load .edi .ebx 0, .load .esi .ebx 4,
    .load .ebp .ebx 8, .load .edx .ebx 16, .load .ecx .ebx 20, .load .eax .ebx 24,
    .load .ebx .ebx 12, .addImm .esp 4] ++ [.ret]

/-- `struct registers`; a selector has 16 bits. -/
structure TaskRegisters where
  edi : UInt32
  esi : UInt32
  ebp : UInt32
  ebx : UInt32
  edx : UInt32
  ecx : UInt32
  eax : UInt32
  ip : UInt32
  cs : UInt16
  flags : UInt32
  esp : UInt32
  ss : UInt16
  deriving DecidableEq

/-- The registers in a task's structure. -/
def savedRegisters (m : Mem) (task : Nat) : TaskRegisters where
  edi := UInt32.ofNat (load32 m (task + 4))
  esi := UInt32.ofNat (load32 m (task + 8))
  ebp := UInt32.ofNat (load32 m (task + 12))
  ebx := UInt32.ofNat (load32 m (task + 16))
  edx := UInt32.ofNat (load32 m (task + 20))
  ecx := UInt32.ofNat (load32 m (task + 24))
  eax := UInt32.ofNat (load32 m (task + 28))
  ip := UInt32.ofNat (load32 m (task + 32))
  cs := (UInt32.ofNat (load32 m (task + 36))).toUInt16
  flags := UInt32.ofNat (load32 m (task + 40))
  esp := UInt32.ofNat (load32 m (task + 44))
  ss := (UInt32.ofNat (load32 m (task + 48))).toUInt16

/-- The registers of a processor that runs a task. -/
def taskCpu (c : Cpu) : TaskRegisters :=
  ⟨c.edi, c.esi, c.ebp, c.ebx, c.edx, c.ecx, c.eax, c.eip, c.cs, c.eflags, c.esp, c.ss⟩

/-- `struct interrupt_frame` of such a processor, from its first field on. -/
def interruptFrame (r : TaskRegisters) (reserved : UInt32) : List UInt32 :=
  [r.edi, r.esi, r.ebp, reserved, r.ebx, r.edx, r.ecx, r.eax, r.ip, r.cs.toUInt32, r.flags, r.esp,
    r.ss.toUInt32]

/-- `task_save_state`: field by field, the offset in `struct task` and the one in the frame. -/
def saveField (task frame : Nat) (m : Mem) (field : Nat × Nat) : Mem :=
  store32 m (task + field.1) (load32 m (frame + field.2))

/-- `ip`, `cs`, `flags`, `esp`, `ss`, `eax`, `ebp`, `ebx`, `ecx`, `edi`, `edx`, `esi`. -/
def savedFields : List (Nat × Nat) :=
  [(32, 32), (36, 36), (40, 40), (44, 44), (48, 48), (28, 28), (12, 8), (16, 16), (24, 24), (4, 0),
    (20, 20), (8, 4)]

def taskSaveState (m : Mem) (task frame : Nat) : Mem := savedFields.foldl (saveField task frame) m

/-! ## 2. Saving -/

section Saving

variable {m : Mem} {task frame : Nat}

/-- Fields are stored apart: one that is not among them keeps its word, one that is has the
    frame's. -/
theorem saveFields_words (hapart : frame + 52 ≤ task + 4 ∨ task + 52 ≤ frame)
    (fields : List (Nat × Nat)) :
    ∀ {m : Mem}, (∀ f ∈ fields, 4 ≤ f.1 ∧ f.1 + 4 ≤ 52 ∧ f.2 + 4 ≤ 52) →
      (fields.Pairwise fun f g => f.1 + 4 ≤ g.1 ∨ g.1 + 4 ≤ f.1) →
      (∀ a, a < task + 4 ∨ task + 52 ≤ a → fields.foldl (saveField task frame) m a = m a) ∧
      (∀ o, (∀ f ∈ fields, f.1 + 4 ≤ o ∨ o + 4 ≤ f.1) →
        load32 (fields.foldl (saveField task frame) m) (task + o) = load32 m (task + o)) ∧
      ∀ f ∈ fields, load32 (fields.foldl (saveField task frame) m)
          (task + f.1) = load32 m (frame + f.2) := by
  induction fields with
  | nil => exact fun _ _ => ⟨fun _ _ => rfl, fun _ _ => rfl, fun _ h => absurd h List.not_mem_nil⟩
  | cons f fields ih =>
    intro m hin hpair
    obtain ⟨hf1, hf2, hf3⟩ := hin f List.mem_cons_self
    obtain ⟨hhead, htail⟩ := List.pairwise_cons.mp hpair
    obtain ⟨hout, hother, hthese⟩ := @ih (saveField task frame m f)
      (fun g hg => hin g (List.mem_cons_of_mem _ hg)) htail
    rw [List.foldl_cons]
    refine ⟨fun a ha => ?_, fun o ho => ?_, fun g hg => ?_⟩
    · rw [hout a ha]
      exact store32_other (by omega)
    · rw [hother o fun g hg => ho g (List.mem_cons_of_mem _ hg)]
      have := ho f List.mem_cons_self
      exact load32_store32_other (by omega)
    · rcases List.mem_cons.mp hg with rfl | hg'
      · rw [hother g.1 fun g' hg' => (hhead g' hg').symm]
        exact load32_store32_same (load32_lt m _)
      · obtain ⟨hg1, hg2, hg3⟩ := hin g hg
        rw [hthese g hg']
        exact load32_store32_other (by omega)

theorem savedFields_apart : (∀ f ∈ savedFields, 4 ≤ f.1 ∧ f.1 + 4 ≤ 52 ∧ f.2 + 4 ≤ 52) ∧
    savedFields.Pairwise fun f g => f.1 + 4 ≤ g.1 ∨ g.1 + 4 ≤ f.1 := by
  decide

/-- **`task_save_state` writes the registers of a task and nothing else**. -/
theorem taskSaveState_other (hapart : frame + 52 ≤ task + 4 ∨ task + 52 ≤ frame) {a : Nat}
    (ha : a < task + 4 ∨ task + 52 ≤ a) : taskSaveState m task frame a = m a :=
  (saveFields_words hapart savedFields savedFields_apart.1 savedFields_apart.2).1 a ha

/-- **... and what it writes are those of the frame.** -/
theorem taskSaveState_saved (hapart : frame + 52 ≤ task + 4 ∨ task + 52 ≤ frame) {r : TaskRegisters}
    {reserved : UInt32} (hframe : Words m frame (interruptFrame r reserved)) :
    savedRegisters (taskSaveState m task frame) task = r := by
  have hsaved := (saveFields_words (m := m) hapart savedFields savedFields_apart.1
    savedFields_apart.2).2.2
  have hword : ∀ {o i : Nat}, (o, 4 * i) ∈ savedFields → i < 13 →
      UInt32.ofNat (load32 (taskSaveState m task frame) (task + o)) =
        (interruptFrame r reserved).getD i 0 := by
    intro o i ho hi
    have h := hsaved _ ho
    unfold taskSaveState
    rw [h, hframe.getD _ hi]
    exact UInt32.ofNat_toNat
  unfold savedRegisters
  rw [@hword 4 0 (by decide) (by decide), @hword 8 1 (by decide) (by decide),
    @hword 12 2 (by decide) (by decide), @hword 16 4 (by decide) (by decide),
    @hword 20 5 (by decide) (by decide), @hword 24 6 (by decide) (by decide),
    @hword 28 7 (by decide) (by decide), @hword 32 8 (by decide) (by decide),
    @hword 36 9 (by decide) (by decide), @hword 40 10 (by decide) (by decide),
    @hword 44 11 (by decide) (by decide), @hword 48 12 (by decide) (by decide)]
  have hcs : ((interruptFrame r reserved).getD 9 0).toUInt16 = r.cs := UInt16.toUInt16_toUInt32 r.cs
  have hss : ((interruptFrame r reserved).getD 12 0).toUInt16 = r.ss :=
    UInt16.toUInt16_toUInt32 r.ss
  rw [hcs, hss]
  rfl

end Saving

/-! ## 3. Into a handler and back -/

section Handlers

variable {code : Code} {flags : AddFlags} {c : Cpu} {gate esp0 b : UInt32} {low : Nat}

/-- An interrupt of a task, at its gate. -/
def interrupted (c : Cpu) (gate esp0 : UInt32) : Cpu :=
  c.interrupt gate esp0 KERNEL_CODE_SELECTOR KERNEL_DATA_SELECTOR

theorem level_kernel : Cpu.level KERNEL_CODE_SELECTOR = 0 := by decide

/-- **The way into a handler**: the processor at the handler, with two arguments on the stack, the
    second one the address of the frame of the task's registers. -/
structure AtHandler (c : Cpu) (low : Nat) (esp0 handler ret arg : UInt32) (c' : Cpu) : Prop where
  eip : c'.eip = handler
  cs : c'.cs = KERNEL_CODE_SELECTOR
  stack : ∃ reserved, StackAt c.mem low esp0.toNat c'.mem c'.esp
    (ret :: arg :: (c'.esp + 12) :: interruptFrame (taskCpu c) reserved)

/-- What a stub pushes: the registers, their address, an argument and the return address. -/
def stubPushes (k : Cpu) (arg ret : UInt32) : Cpu :=
  ((k.pushad.push k.pushad.esp).push arg).push ret

theorem stubPushes_cs (k : Cpu) (arg ret : UInt32) : (stubPushes k arg ret).cs = k.cs := by
  unfold stubPushes
  rw [Cpu.push_cs, Cpu.push_cs, Cpu.push_cs, Cpu.pushad_cs]

theorem stackAt_stub (hroom : low + 64 ≤ esp0.toNat) (arg ret : UInt32) :
    ∃ reserved, StackAt c.mem low esp0.toNat (stubPushes (interrupted c gate esp0) arg ret).mem
      (stubPushes (interrupted c gate esp0) arg ret).esp
      (ret :: arg :: ((stubPushes (interrupted c gate esp0) arg ret).esp + 12) ::
        interruptFrame (taskCpu c) reserved) := by
  generalize hk : interrupted c gate esp0 = k
  have h5 : StackAt c.mem low esp0.toNat k.mem k.esp
      [c.eip, c.cs.toUInt32, c.eflags, c.esp, c.ss.toUInt32] := hk ▸ stackAt_interrupt (by omega)
  have e5 := h5.top_eq
  simp only [List.length_cons, List.length_nil] at e5
  have h13 := h5.pushad (by omega)
  have hframe : k.general ++ [c.eip, c.cs.toUInt32, c.eflags, c.esp, c.ss.toUInt32] =
      interruptFrame (taskCpu c) k.esp := by
    subst hk
    rfl
  rw [hframe] at h13
  have e13 := h13.top_eq
  have hlen : (interruptFrame (taskCpu c) k.esp).length = 13 := rfl
  have h14 := h13.push (by omega) k.pushad.esp
  have e14 := toNat_sub_four k.pushad.esp (by omega)
  have h15 := h14.push (by omega) arg
  have e15 := toNat_sub_four (k.pushad.esp - 4) (by omega)
  have h16 := h15.push (by omega) ret
  have hback : (stubPushes k arg ret).esp + 12 = k.pushad.esp := by
    show k.pushad.esp - 4 - 4 - 4 + 12 = k.pushad.esp
    grind
  rw [hback]
  exact ⟨k.esp, h16⟩

variable (flags) in
/-- A stub that pushes these is executed up to its call. -/
theorem stub_steps {k : Cpu} {entry exit_ : List Instr} {handler arg : UInt32}
    (hb : BlockAt code k.eip (entry ++ .call handler :: exit_) b)
    (hj : ∀ i ∈ entry, i.jumps = false) (h0 : Cpu.level k.cs = 0)
    (he : blockEffect flags entry k = (k.pushad.push k.pushad.esp).push arg) :
    ∃ ret, Steps code flags k { stubPushes k arg ret with eip := handler } ∧
      BlockAt code ret exit_ b := by
  obtain ⟨call, hentry, ret, hcall, hexit⟩ := hb.split
  have h1 := steps_block flags entry hentry hj rfl h0
  have hcs : (blockEffect flags entry k).cs = k.cs := by
    rw [he, Cpu.push_cs, Cpu.push_cs, Cpu.pushad_cs]
  unfold stubPushes
  rw [← he]
  generalize blockEffect flags entry k = x at h1 hcs
  refine ⟨ret, h1.trans (steps_one flags hcall rfl ?_), hexit⟩
  rw [hcs]
  exact h0

theorem atHandler_of {x : Cpu} {handler ret arg : UInt32} (hcs : x.cs = KERNEL_CODE_SELECTOR)
    (hstack : ∃ reserved, StackAt c.mem low esp0.toNat x.mem x.esp
      (ret :: arg :: (x.esp + 12) :: interruptFrame (taskCpu c) reserved)) :
    AtHandler c low esp0 handler ret arg { x with eip := handler } :=
  ⟨rfl, hcs, hstack⟩

theorem interruptEntry_effect (k : Cpu) (n : UInt32) :
    blockEffect flags (interruptEntry n) k = (k.pushad.push k.pushad.esp).push n :=
  rfl

theorem isr80hEntry_effect (k : Cpu) :
    blockEffect flags isr80hEntry k = (k.pushad.push k.pushad.esp).push k.eax := by
  have h : blockEffect flags isr80hEntry k =
      (k.pushad.push k.pushad.esp).push (k.pushad.push k.pushad.esp).eax := rfl
  rw [h, Cpu.push_eax, Cpu.pushad_eax]

variable (flags) in
/-- **The macro `interrupt` up to its call.** -/
theorem interrupt_enters {n handler : UInt32} (hb : BlockAt code gate (interruptBlock n handler) b)
    (hroom : low + 64 ≤ esp0.toNat) :
    ∃ ret c', Steps code flags (interrupted c gate esp0) c' ∧
    AtHandler c low esp0 handler ret n c' ∧
      BlockAt code ret interruptExit b := by
  have hj : ∀ i ∈ interruptEntry n, i.jumps = false := straight_of_all rfl
  obtain ⟨ret, hsteps, hexit⟩ := stub_steps flags (k := interrupted c gate esp0) hb hj
    level_kernel (interruptEntry_effect _ n)
  exact ⟨ret, _, hsteps, atHandler_of (stubPushes_cs _ n ret) (stackAt_stub hroom n ret), hexit⟩

variable (flags) in
/-- **`isr80h_wrapper` up to its call.** -/
theorem isr80h_enters {tmpRes handler : UInt32}
    (hb : BlockAt code gate (isr80hWrapperBlock tmpRes handler) b) (hroom : low + 64 ≤ esp0.toNat) :
    ∃ ret c', Steps code flags (interrupted c gate esp0) c' ∧
      AtHandler c low esp0 handler ret c.eax c' ∧ BlockAt code ret (isr80hExit tmpRes) b := by
  have hj : ∀ i ∈ isr80hEntry, i.jumps = false := by decide
  obtain ⟨ret, hsteps, hexit⟩ := stub_steps flags (k := interrupted c gate esp0) hb hj
    level_kernel (isr80hEntry_effect _)
  exact ⟨ret, _, hsteps, atHandler_of (stubPushes_cs _ _ ret) (stackAt_stub hroom c.eax ret), hexit⟩

/-- A processor that goes on with the registers of a task. -/
def taskLoad (c : Cpu) (r : TaskRegisters) : Cpu :=
  { c with
    edi := r.edi, esi := r.esi, ebp := r.ebp, esp := r.esp, ebx := r.ebx, edx := r.edx, ecx := r.ecx
    eax := r.eax, eip := r.ip, eflags := r.flags, cs := r.cs, ss := r.ss }

/-- There the kernel's code ends. -/
theorem taskLoad_stops {r : TaskRegisters} (hr : 0 < Cpu.level r.cs) (d : Cpu) :
    step code flags (taskLoad d r) = none :=
  if_neg fun h => by
    rw [show (taskLoad d r).cs = r.cs from rfl] at h
    rw [h] at hr
    exact absurd hr (by decide)

variable {m₀ : Mem} {top : Nat} {d : Cpu} {r : TaskRegisters} {reserved a₁ a₂ : UInt32}

/-- `popad` behind the two arguments of a handler. -/
theorem frame_popad (hs : StackAt m₀ low top d.mem d.esp (a₁ :: a₂ :: interruptFrame r reserved))
    (htop : top ≤ 4294967295) (eflags : UInt32) :
    ({ d with esp := d.esp + 8, eflags := eflags } : Cpu).popad =
        { d with
          edi := r.edi, esi := r.esi, ebp := r.ebp, ebx := r.ebx, edx := r.edx, ecx := r.ecx
          eax := r.eax, esp := d.esp + 8 + 32, eflags := eflags } ∧
      StackAt m₀ low top d.mem (d.esp + 8 + 32)
        [r.ip, r.cs.toUInt32, r.flags, r.esp, r.ss.toUInt32] := by
  have hpop := hs.pop (n := 2) (d := 8) (by simp) htop rfl
  exact hpop.popad (c := { d with esp := d.esp + 8, eflags := eflags }) htop

variable (flags) in
/-- `iret` to a task. -/
theorem frame_iret {k : Cpu} {next cs ss : UInt32} {ws : List UInt32}
    (hi : code k.eip = some (.iret, next))
    (hs : StackAt m₀ low top k.mem k.esp (r.ip :: cs :: r.flags :: r.esp :: ss :: ws))
    (hsel : cs.toUInt16 = r.cs ∧ ss.toUInt16 = r.ss) (htop : top ≤ 4294967295)
    (hcs : k.cs = KERNEL_CODE_SELECTOR) (hr : 0 < Cpu.level r.cs) :
    Steps code flags k
      { k with eip := r.ip, cs := r.cs, eflags := r.flags, esp := r.esp, ss := r.ss } := by
  have hlevel : Cpu.level k.cs < Cpu.level cs.toUInt16 := by
    rw [hcs, level_kernel, hsel.1]
    exact hr
  have hone := steps_one flags hi rfl (hcs ▸ level_kernel)
  have hexec : Instr.iret.exec flags k next = k.iret := rfl
  rw [hexec, hs.iret htop hlevel, hsel.1, hsel.2] at hone
  exact hone

theorem frame_selectors (r : TaskRegisters) :
    r.cs.toUInt32.toUInt16 = r.cs ∧ r.ss.toUInt32.toUInt16 = r.ss :=
  ⟨UInt16.toUInt16_toUInt32 r.cs, UInt16.toUInt16_toUInt32 r.ss⟩

variable (flags) in
/-- **The macro `interrupt` behind its call**: the task goes on with the registers of its frame. -/
theorem interrupt_leaves (hb : BlockAt code d.eip interruptExit b)
    (hcs : d.cs = KERNEL_CODE_SELECTOR)
    (hs : StackAt m₀ low top d.mem d.esp (a₁ :: a₂ :: interruptFrame r reserved))
    (htop : top ≤ 4294967295) (hr : 0 < Cpu.level r.cs) : Stops code flags d (taskLoad d r) := by
  refine ⟨?_, taskLoad_stops hr d⟩
  obtain ⟨m, hfirst, next, hiret, -⟩ := BlockAt.split (p := [.addImm .esp 8, .popad]) hb
  have h1 := steps_block flags _ hfirst (by decide) rfl (hcs ▸ level_kernel)
  obtain ⟨hpopad, hs'⟩ := frame_popad hs htop (flags d.eflags d.esp 8)
  have heffect : blockEffect flags [.addImm .esp 8, .popad] d =
      ({ d with esp := d.esp + 8, eflags := flags d.eflags d.esp 8 } : Cpu).popad := rfl
  rw [heffect, hpopad] at h1
  exact h1.trans (frame_iret flags hiret hs' (frame_selectors r) htop hcs hr)

variable (flags) in
/-- **`isr80h_wrapper` behind its call**: the task goes on with the result in `eax`. -/
theorem isr80h_leaves {tmpRes : UInt32} (hb : BlockAt code d.eip (isr80hExit tmpRes) b)
    (hcs : d.cs = KERNEL_CODE_SELECTOR)
    (hs : StackAt m₀ low top d.mem d.esp (a₁ :: a₂ :: interruptFrame r reserved))
    (htop : top ≤ 4294967295) (hr : 0 < Cpu.level r.cs)
    (htmp : tmpRes.toNat + 4 ≤ low ∨ top ≤ tmpRes.toNat) :
    Stops code flags d (taskLoad { d with mem := store32 d.mem tmpRes.toNat d.eax.toNat }
      { r with eax := d.eax }) := by
  refine ⟨?_, taskLoad_stops (r := { r with eax := d.eax }) hr _⟩
  obtain ⟨m, hfirst, next, hiret, -⟩ := BlockAt.split
    (p := [.storeAbs tmpRes .eax, .addImm .esp 8, .popad, .loadAbs .eax tmpRes]) hb
  have hj : ∀ i ∈ [Instr.storeAbs tmpRes .eax, .addImm .esp 8, .popad, .loadAbs .eax tmpRes],
      i.jumps = false :=
    straight_of_all rfl
  have h1 := steps_block flags _ hfirst hj rfl (hcs ▸ level_kernel)
  have hmem := hs.store htmp d.eax.toNat
  have hword : dwordAt (store32 d.mem tmpRes.toNat d.eax.toNat) tmpRes = d.eax := by
    unfold dwordAt
    rw [load32_store32_same d.eax.toNat_lt]
    exact UInt32.ofNat_toNat
  have heffect : blockEffect flags [.storeAbs tmpRes .eax, .addImm .esp 8, .popad,
      .loadAbs .eax tmpRes] d = (fun k : Cpu => { k.popad with eax := dwordAt k.popad.mem tmpRes })
        { d with
          mem := store32 d.mem tmpRes.toNat d.eax.toNat, esp := d.esp + 8
          eflags := flags d.eflags d.esp 8 } := rfl
  generalize store32 d.mem tmpRes.toNat d.eax.toNat = m' at hmem hword heffect ⊢
  obtain ⟨hpopad, hs'⟩ := frame_popad (d := { d with mem := m' }) hmem htop
    (flags d.eflags d.esp 8)
  rw [heffect] at h1
  dsimp only at h1 hpopad
  rw [hpopad, hword] at h1
  exact h1.trans (frame_iret flags (r := { r with eax := d.eax }) hiret hs' (frame_selectors r)
    htop hcs hr)

end Handlers

/-! ## 4. `task_return` -/

section Return

variable {code : Code} {flags : AddFlags} {m₀ : Mem} {low top task : Nat} {regs : UInt32}

variable (m₀) in
/-- The words of a task's registers, as the assembly reads them. -/
theorem registers_word (hregs : regs.toNat = task + 4) (hsmall : task + 52 < 4294967296)
    {d : UInt32} (hd : d.toNat + 4 ≤ 48) :
    (regs + d).toNat = task + 4 + d.toNat ∧
      dwordAt m₀ (regs + d) = UInt32.ofNat (load32 m₀ (task + 4 + d.toNat)) := by
  have h : (regs + d).toNat = task + 4 + d.toNat := by
    rw [toNat_add_of_lt (by omega), hregs]
  refine ⟨h, ?_⟩
  unfold dwordAt
  rw [h]

variable (flags) in
/-- **`restore_general_purpose_registers`.** -/
theorem restore_runs {k : Cpu} {ret b : UInt32} {ws : List UInt32}
    (hb : BlockAt code k.eip restoreBlock b) (hcs : k.cs = KERNEL_CODE_SELECTOR)
    (hs : StackAt m₀ low top k.mem k.esp (ret :: regs :: ws)) (hroom : low + 4 ≤ k.esp.toNat)
    (htop : top ≤ 4294967295) (hregs : regs.toNat = task + 4) (hsmall : task + 52 < 4294967296)
    (hout : task + 52 ≤ low ∨ top ≤ task + 4) :
    ∃ m esp eflags, StackAt m₀ low top m esp (regs :: ws) ∧
      Steps code flags k { k with
        edi := (savedRegisters m₀ task).edi, esi := (savedRegisters m₀ task).esi
        ebp := (savedRegisters m₀ task).ebp, ebx := (savedRegisters m₀ task).ebx
        edx := (savedRegisters m₀ task).edx, ecx := (savedRegisters m₀ task).ecx
        eax := (savedRegisters m₀ task).eax
        eip := ret, esp := esp, eflags := eflags, mem := m } := by
  obtain ⟨back, hbody, next, hret, -⟩ := hb.split
  have h1 := steps_block flags _ hbody (by decide) rfl (hcs ▸ level_kernel)
  have hpush : StackAt m₀ low top (k.push k.ebp).mem (k.push k.ebp).esp
      (k.ebp :: ret :: regs :: ws) :=
    hs.push hroom k.ebp
  have hfields : ∀ d : UInt32, d.toNat + 4 ≤ 48 → dwordAt (k.push k.ebp).mem (regs + d) =
      UInt32.ofNat (load32 m₀ (task + 4 + d.toNat)) := by
    intro d hd
    obtain ⟨ha, hw⟩ := registers_word m₀ hregs hsmall hd
    rw [← hw]
    exact hpush.dwordAt_outside (by omega)
  have hptr : dwordAt (k.push k.ebp).mem ((k.push k.ebp).esp + 8) = regs :=
    hpush.dwordAt_eq (i := 2) (by simp) htop rfl
  have hpop := hpush.pop (n := 1) (d := 4) (by simp) htop rfl
  have heffect : ∀ k : Cpu, blockEffect flags [.push .ebp, .mov .ebp .esp, .load .ebx .ebp 8,
      .load .edi .ebx 0, .load .esi .ebx 4, .load .ebp .ebx 8, .load .edx .ebx 16,
      .load .ecx .ebx 20, .load .eax .ebx 24, .load .ebx .ebx 12, .addImm .esp 4] k =
      (fun (k : Cpu) (b : UInt32) => { k with
        edi := dwordAt k.mem (b + 0), esi := dwordAt k.mem (b + 4), ebp := dwordAt k.mem (b + 8)
        edx := dwordAt k.mem (b + 16), ecx := dwordAt k.mem (b + 20), eax := dwordAt k.mem (b + 24)
        ebx := dwordAt k.mem (b + 12), esp := k.esp + 4, eflags := flags k.eflags k.esp 4 })
      (k.push k.ebp) (dwordAt (k.push k.ebp).mem ((k.push k.ebp).esp + 8)) := fun _ => rfl
  rw [heffect, hptr] at h1
  dsimp only at h1
  rw [hfields 0 (by decide), hfields 4 (by decide), hfields 8 (by decide), hfields 16 (by decide),
    hfields 20 (by decide), hfields 24 (by decide), hfields 12 (by decide)] at h1
  obtain ⟨h2, hs'⟩ := hpop.ret flags (c := { k.push k.ebp with
    edi := (savedRegisters m₀ task).edi, esi := (savedRegisters m₀ task).esi
    ebp := (savedRegisters m₀ task).ebp, ebx := (savedRegisters m₀ task).ebx
    edx := (savedRegisters m₀ task).edx, ecx := (savedRegisters m₀ task).ecx
    eax := (savedRegisters m₀ task).eax, esp := (k.push k.ebp).esp + 4
    eflags := flags (k.push k.ebp).eflags (k.push k.ebp).esp 4, eip := back }) hret
    (hcs ▸ level_kernel) htop
  exact ⟨_, _, _, hs', h1.trans h2⟩

/-- The words that `task_return` pushes for `iret`. -/
def iretWords (m : Mem) (task : Nat) : List UInt32 :=
  [UInt32.ofNat (load32 m (task + 32)), UInt32.ofNat (load32 m (task + 36)),
    UInt32.ofNat (load32 m (task + 40)), UInt32.ofNat (load32 m (task + 44)),
    UInt32.ofNat (load32 m (task + 48))]

/-- The parts of `task_return` before its call: the five pushes stand in the middle. -/
theorem taskReturnEntry_effect (k : Cpu) : blockEffect flags taskReturnEntry k =
    blockEffect flags [.loadAx .ebx 44, .movSeg .ds, .movSeg .es, .movSeg .fs, .movSeg .gs,
      .pushMem .ebp 4] (blockEffect flags (List.map (Instr.pushMem .ebx) [44, 40, 36, 32, 28])
        { k with ebp := k.esp, ebx := dwordAt k.mem (k.esp + 4) }) := by
  have hparts : taskReturnEntry = [.mov .ebp .esp, .load .ebx .ebp 4] ++
    (List.map (Instr.pushMem .ebx)
        [44, 40, 36, 32, 28] ++ [.loadAx .ebx 44, .movSeg .ds, .movSeg .es,
      .movSeg .fs, .movSeg .gs, .pushMem .ebp 4]) := rfl
  have hstart : blockEffect flags [.mov .ebp .esp, .load .ebx .ebp 4] k =
    { k with ebp := k.esp, ebx := dwordAt k.mem (k.esp + 4) } := rfl
  rw [hparts, blockEffect_append, blockEffect_append, hstart]

theorem taskReturn_selectors (k : Cpu) :
    blockEffect flags [.loadAx .ebx 44, .movSeg .ds, .movSeg .es, .movSeg .fs, .movSeg .gs,
      .pushMem .ebp 4] k =
    (fun x : UInt32 => ({ k with
      eax := x, ds := x.toUInt16, es := x.toUInt16, fs := x.toUInt16, gs := x.toUInt16 } : Cpu).push
        (dwordAt k.mem (k.ebp + 4)))
    ((k.eax &&& 0xFFFF0000) ||| (dwordAt k.mem (k.ebx + 44) &&& 0xFFFF)) :=
  rfl

variable (flags) in
/-- **`task_return` up to its call.** -/
theorem taskReturn_enters {d : Cpu} {ret call : UInt32} {ws : List UInt32}
    (hb : BlockAt code d.eip taskReturnEntry call) (hcs : d.cs = KERNEL_CODE_SELECTOR)
    (hs : StackAt m₀ low top d.mem d.esp (ret :: regs :: ws)) (hroom : low + 24 ≤ d.esp.toNat)
    (htop : top ≤ 4294967295) (hregs : regs.toNat = task + 4) (hsmall : task + 52 < 4294967296)
    (hout : task + 52 ≤ low ∨ top ≤ task + 4) :
    ∃ c', Steps code flags d c' ∧ c'.eip = call ∧ c'.cs = KERNEL_CODE_SELECTOR ∧
      (∀ s, c'.seg s = (savedRegisters m₀ task).ss) ∧
      StackAt m₀ low top c'.mem c'.esp (regs :: (iretWords m₀ task ++ ret :: regs :: ws)) := by
  have hword : ∀ d : UInt32, d.toNat + 4 ≤ 48 →
      dwordAt m₀ (regs + d) = UInt32.ofNat (load32 m₀ (task + 4 + d.toNat)) := fun d hd =>
    (registers_word m₀ hregs hsmall hd).2
  have haside : ∀ d : UInt32, d.toNat + 4 ≤ 48 →
      (regs + d).toNat + 4 ≤ low ∨ top ≤ (regs + d).toNat := by
    intro d hd
    have := (registers_word m₀ hregs hsmall hd).1
    omega
  have h1 := steps_block flags taskReturnEntry hb (by decide) rfl (hcs ▸ level_kernel)
  have hptr : dwordAt d.mem (d.esp + 4) = regs := hs.dwordAt_eq (i := 1) (by simp) htop rfl
  -- the five pushes
  obtain ⟨m, esp, he, hs'⟩ := StackAt.pushMems flags (show Reg.ebx ≠ .esp by decide) (p := regs)
    [44, 40, 36, 32, 28] (k := { d with ebp := d.esp, ebx := regs }) hs rfl (by simp; omega)
    fun e he => haside e (by
      simp only [List.mem_cons, List.not_mem_nil, or_false] at he
      rcases he with rfl | rfl | rfl | rfl | rfl <;> decide)
  simp only [List.map_cons, List.map_nil, List.reverse_cons, List.reverse_nil, List.nil_append,
    List.cons_append] at hs'
  rw [hword 44 (by decide), hword 40 (by decide), hword 36 (by decide), hword 32 (by decide),
    hword 28 (by decide)] at hs'
  have hbp : d.esp = esp + 20 := by
    have e₁ := hs.top_eq
    have e₂ := hs'.top_eq
    simp only [List.length_cons] at e₁ e₂
    apply UInt32.toNat_inj.mp
    rw [toNat_add_of_lt (by simp; omega)]
    simp
    omega
  have hagain : dwordAt m (d.esp + 4) = regs := by
    rw [hbp, UInt32.add_assoc]
    exact hs'.dwordAt_eq (i := 6) (by simp) htop (by decide)
  -- the selector and the last push
  have hax : dwordAt m (regs + 44) = UInt32.ofNat (load32 m₀ (task + 48)) := by
    rw [hs'.dwordAt_outside (haside 44 (by decide)), hword 44 (by decide)]
    rfl
  rw [taskReturnEntry_effect, hptr, he, taskReturn_selectors] at h1
  dsimp only at h1
  rw [hagain, hax] at h1
  have hx := toUInt16_insert d.eax (UInt32.ofNat (load32 m₀ (task + 48)))
  generalize (d.eax &&& 0xFFFF0000) ||| (UInt32.ofNat (load32 m₀ (task + 48)) &&& 0xFFFF) =
    x at h1 hx
  have hroom' : low + 4 ≤ esp.toNat := by
    have e₁ := congrArg UInt32.toNat hbp
    have e₂ := hs'.top_eq
    have e₃ := hs.top_eq
    simp only [List.length_cons] at e₂ e₃
    omega
  refine ⟨_, h1, rfl, hcs, fun s => ?_, hs'.push hroom' regs⟩
  cases s with
  | _ => exact hx

variable (flags) in
/-- **`task_return`**: the processor goes on with the registers in the structure, its data segments
    with the stack's selector; memory beside the kernel's stack is as before. -/
theorem taskReturn_runs {d : Cpu} {ret restore b b' : UInt32} {ws : List UInt32}
    (hb : BlockAt code d.eip (taskReturnBlock restore) b)
    (hrestore : BlockAt code restore restoreBlock b') (hcs : d.cs = KERNEL_CODE_SELECTOR)
    (hs : StackAt m₀ low top d.mem d.esp (ret :: regs :: ws)) (hroom : low + 32 ≤ d.esp.toNat)
    (htop : top ≤ 4294967295) (hregs : regs.toNat = task + 4) (hsmall : task + 52 < 4294967296)
    (hout : task + 52 ≤ low ∨ top ≤ task + 4) (hr : 0 < Cpu.level (savedRegisters m₀ task).cs) :
    ∃ c', Stops code flags d c' ∧ taskCpu c' = savedRegisters m₀ task ∧
      (∀ s, c'.seg s = (savedRegisters m₀ task).ss) ∧ ∀ a, a < low ∨ top ≤ a → c'.mem a = m₀ a := by
  obtain ⟨call, hentry, back, hcall, hexit⟩ := hb.split
  obtain ⟨c₁, h1, he1, hcs1, hseg1, hs1⟩ :=
    taskReturn_enters flags hentry hcs hs (by omega) htop hregs hsmall hout
  have hlen : (iretWords m₀ task).length = 5 := rfl
  have e₁ := hs.top_eq
  have e₂ := hs1.top_eq
  simp only [List.length_cons, List.length_append, hlen] at e₁ e₂
  -- the call
  have h2 := steps_one flags hcall he1 (hcs1 ▸ level_kernel)
  have hs2 := hs1.push (by omega) back
  have e₃ := toNat_sub_four c₁.esp (by omega)
  obtain ⟨m, esp, eflags, hs3, h3⟩ := restore_runs flags
    (k := { c₁.push back with eip := restore }) hrestore hcs1 hs2 (by
      show low + 4 ≤ (c₁.esp - 4).toNat
      omega) htop hregs hsmall hout
  -- behind it
  obtain ⟨at_, hadd, next, hiret, -⟩ := BlockAt.split (p := [.addImm .esp 4]) hexit
  have hpop := hs3.pop (n := 1) (d := 4) (by simp) htop rfl
  have h4 := steps_block flags [.addImm .esp 4] hadd (by decide) (c := { c₁.push back with
    edi := (savedRegisters m₀ task).edi, esi := (savedRegisters m₀ task).esi
    ebp := (savedRegisters m₀ task).ebp, ebx := (savedRegisters m₀ task).ebx
    edx := (savedRegisters m₀ task).edx, ecx := (savedRegisters m₀ task).ecx
    eax := (savedRegisters m₀ task).eax
    eip := back, esp := esp, eflags := eflags, mem := m }) rfl (hcs1 ▸ level_kernel)
  have h5 := frame_iret flags (r := savedRegisters m₀ task)
    (k := { c₁.push back with
      edi := (savedRegisters m₀ task).edi, esi := (savedRegisters m₀ task).esi
      ebp := (savedRegisters m₀ task).ebp, ebx := (savedRegisters m₀ task).ebx
      edx := (savedRegisters m₀ task).edx, ecx := (savedRegisters m₀ task).ecx
      eax := (savedRegisters m₀ task).eax
      eip := at_, esp := esp + 4, eflags := flags eflags esp 4, mem := m }) hiret hpop
        ⟨rfl, rfl⟩ htop
    hcs1 hr
  refine ⟨_, ⟨h1.trans (h2.trans (h3.trans (h4.trans h5))), ?_⟩, rfl, fun s => ?_, hs3.outside⟩
  · exact taskLoad_stops hr { c₁.push back with mem := m }
  · cases s with
    | ds => exact hseg1 .ds
    | es => exact hseg1 .es
    | fs => exact hseg1 .fs
    | gs => exact hseg1 .gs

end Return

end PeachKernel
