/-
  File:      PeachKernel/Lib/X86.lean
  Subject:   The part of the 32-bit x86 machine with which a kernel saves and restores the registers
             of a program: stack instructions, moves, the entry of an interrupt from user mode and
             the return from it.

  Memory is flat. Of the encoding of an instruction only the address behind it matters, so code
  gives an address its instruction and that address. The flags behind an addition are a parameter,
  of which nothing is said.

  * `Cpu`, `Instr`, `step` -- the machine;
  * `BlockAt`, `steps_block` -- instructions one behind the other are executed one after the other;
    `Stops.unique` -- and come out at one place;
  * `StackAt` -- what lies on a stack above a mark, with memory outside it unchanged, and what a
    push and a pop do to it;
  * `Cpu.interrupt`, `Cpu.iret` -- into the kernel and back.
-/
import Mathlib.Logic.Relation
import PeachKernel.Lib.ByteMem

open Mem

/-! ## 1. The machine -/

inductive Reg where
  | edi | esi | ebp | esp | ebx | edx | ecx | eax
  deriving DecidableEq

inductive Seg where
  | ds | es | fs | gs
  deriving DecidableEq

structure Cpu where
  edi : UInt32
  esi : UInt32
  ebp : UInt32
  esp : UInt32
  ebx : UInt32
  edx : UInt32
  ecx : UInt32
  eax : UInt32
  eip : UInt32
  eflags : UInt32
  cs : UInt16
  ss : UInt16
  ds : UInt16
  es : UInt16
  fs : UInt16
  gs : UInt16
  mem : Mem

/-- The word at an address. -/
def dwordAt (m : Mem) (a : UInt32) : UInt32 := UInt32.ofNat (load32 m a.toNat)

namespace Cpu

def reg (c : Cpu) : Reg → UInt32
  | .edi => c.edi
  | .esi => c.esi
  | .ebp => c.ebp
  | .esp => c.esp
  | .ebx => c.ebx
  | .edx => c.edx
  | .ecx => c.ecx
  | .eax => c.eax

def setReg (c : Cpu) (v : UInt32) : Reg → Cpu
  | .edi => { c with edi := v }
  | .esi => { c with esi := v }
  | .ebp => { c with ebp := v }
  | .esp => { c with esp := v }
  | .ebx => { c with ebx := v }
  | .edx => { c with edx := v }
  | .ecx => { c with ecx := v }
  | .eax => { c with eax := v }

def seg (c : Cpu) : Seg → UInt16
  | .ds => c.ds
  | .es => c.es
  | .fs => c.fs
  | .gs => c.gs

def setSeg (c : Cpu) (v : UInt16) : Seg → Cpu
  | .ds => { c with ds := v }
  | .es => { c with es := v }
  | .fs => { c with fs := v }
  | .gs => { c with gs := v }

def push (c : Cpu) (v : UInt32) : Cpu :=
  { c with esp := c.esp - 4, mem := store32 c.mem (c.esp - 4).toNat v.toNat }

/-- The word `d` bytes above the top of the stack. -/
def stack (c : Cpu) (d : UInt32) : UInt32 := dwordAt c.mem (c.esp + d)

/-- `pushad`; the stack pointer it pushes is the one from before. -/
def pushad (c : Cpu) : Cpu :=
  ((((((((c.push c.eax).push c.ecx).push c.edx).push c.ebx).push c.esp).push c.ebp).push c.esi).push
    c.edi)

theorem push_eip (c : Cpu) (v a : UInt32) :
    ({ c with eip := a } : Cpu).push v = { c.push v with eip := a } :=
  rfl

@[simp] theorem push_cs (c : Cpu) (v : UInt32) : (c.push v).cs = c.cs := rfl

@[simp] theorem push_eax (c : Cpu) (v : UInt32) : (c.push v).eax = c.eax := rfl

@[simp] theorem pushad_cs (c : Cpu) : c.pushad.cs = c.cs := by
  simp only [pushad, push_cs]

@[simp] theorem pushad_eax (c : Cpu) : c.pushad.eax = c.eax := by
  simp only [pushad, push_eax]

/-- `popad`; the stack pointer among the words is skipped. -/
def popad (c : Cpu) : Cpu :=
  { c with
    edi := c.stack 0
    esi := c.stack 4
    ebp := c.stack 8
    ebx := c.stack 16
    edx := c.stack 20
    ecx := c.stack 24
    eax := c.stack 28
    esp := c.esp + 32 }

/-- The privilege level that a selector asks for. -/
def level (selector : UInt16) : UInt16 := selector &&& 3

/-- `iret`; the stack is left, too, where it leads to an outer level. -/
def iret (c : Cpu) : Cpu :=
  let cs := (c.stack 4).toUInt16
  let c' := { c with eip := c.stack 0, cs := cs, eflags := c.stack 8, esp := c.esp + 12 }
  if level c.cs < level cs then { c' with esp := c.stack 12, ss := (c.stack 16).toUInt16 } else c'

/-- **An interrupt from user mode**, through an interrupt gate: the processor takes the kernel's
    stack, pushes what `iret` will need, and clears the flags IF, TF, NT, RF and VM. -/
def interrupt (c : Cpu) (gate esp0 : UInt32) (cs0 ss0 : UInt16) : Cpu :=
  let k := { c with esp := esp0, ss := ss0 }
  let k := ((((k.push c.ss.toUInt32).push c.esp).push c.eflags).push c.cs.toUInt32).push c.eip
  { k with eip := gate, cs := cs0, eflags := c.eflags &&& 0xFFFCBCFF }

end Cpu

inductive Instr where
  | nop
  | push (r : Reg)
  | pushImm (v : UInt32)
  /-- `push dword [base+d]` -/
  | pushMem (base : Reg) (d : UInt32)
  | mov (dst src : Reg)
  | movImm (dst : Reg) (v : UInt32)
  /-- `mov dst, [base+d]` -/
  | load (dst base : Reg) (d : UInt32)
  /-- `mov dst, [a]` -/
  | loadAbs (dst : Reg) (a : UInt32)
  /-- `mov [a], src` -/
  | storeAbs (a : UInt32) (src : Reg)
  /-- `mov ax, [base+d]` -/
  | loadAx (base : Reg) (d : UInt32)
  /-- `mov seg, ax` -/
  | movSeg (s : Seg)
  | addImm (r : Reg) (v : UInt32)
  | pushad
  | popad
  | call (target : UInt32)
  | ret
  | iret
  deriving DecidableEq

/-- The flags behind an addition, from those before and its operands. -/
abbrev AddFlags : Type := UInt32 → UInt32 → UInt32 → UInt32

/-- What an instruction that does not jump does, but for `eip`. -/
def Instr.effect (flags : AddFlags) (c : Cpu) : Instr → Cpu
  | .push r => c.push (c.reg r)
  | .pushImm v => c.push v
  | .pushMem base d => c.push (dwordAt c.mem (c.reg base + d))
  | .mov dst src => c.setReg (c.reg src) dst
  | .movImm dst v => c.setReg v dst
  | .load dst base d => c.setReg (dwordAt c.mem (c.reg base + d)) dst
  | .loadAbs dst a => c.setReg (dwordAt c.mem a) dst
  | .storeAbs a src => { c with mem := store32 c.mem a.toNat (c.reg src).toNat }
  | .loadAx base d =>
    { c with eax := (c.eax &&& 0xFFFF0000) ||| (dwordAt c.mem (c.reg base + d) &&& 0xFFFF) }
  | .movSeg s => c.setSeg c.eax.toUInt16 s
  | .addImm r v => { c.setReg (c.reg r + v) r with eflags := flags c.eflags (c.reg r) v }
  | .pushad => c.pushad
  | .popad => c.popad
  | _ => c

def Instr.jumps : Instr → Bool
  | .call _ => true
  | .ret => true
  | .iret => true
  | _ => false

/-- One instruction, the next one being at `next`. -/
def Instr.exec (flags : AddFlags) (c : Cpu) (next : UInt32) : Instr → Cpu
  | .call target => { c.push next with eip := target }
  | .ret => { c with eip := c.stack 0, esp := c.esp + 4 }
  | .iret => c.iret
  | i => { i.effect flags c with eip := next }

/-- The instruction at an address, and the address behind it. -/
abbrev Code : Type := UInt32 → Option (Instr × UInt32)

/-- `code` is the kernel's: it is executed at level 0. -/
def step (code : Code) (flags : AddFlags) (c : Cpu) : Option Cpu :=
  if Cpu.level c.cs = 0 then (code c.eip).map fun i => i.1.exec flags c i.2 else none

/-- Any number of steps. -/
def Steps (code : Code) (flags : AddFlags) : Cpu → Cpu → Prop :=
  Relation.ReflTransGen fun c c' => step code flags c = some c'

/-- The steps up to where `code` is left: for other code, or for an outer level. -/
def Stops (code : Code) (flags : AddFlags) (c c' : Cpu) : Prop :=
  Steps code flags c c' ∧ step code flags c' = none

/-- The instructions `is` lie from `a` to `b`. -/
def BlockAt (code : Code) : UInt32 → List Instr → UInt32 → Prop
  | a, [], b => a = b
  | a, i :: is, b => ∃ next, code a = some (i, next) ∧ BlockAt code next is b

section Blocks

variable {code : Code} {flags : AddFlags} {c c' c'' : Cpu} {a b : UInt32}

theorem Steps.trans (h : Steps code flags c c') (h' : Steps code flags c' c'') :
    Steps code flags c c'' :=
  Relation.ReflTransGen.trans h h'

/-- **Code is left in one way.** -/
theorem Stops.unique (h : Stops code flags c c') (h' : Stops code flags c c'') : c' = c'' := by
  have hone : ∀ {k k' : Cpu}, step code flags k = none → Steps code flags k k' → k = k' := by
    intro k k' hk hs
    rcases hs.cases_head with e | ⟨k₁, hk₁, -⟩
    · exact e
    · rw [hk] at hk₁
      cases hk₁
  have hunique : Relator.RightUnique fun c c' => step code flags c = some c' := by
    intro k k₁ k₂ h₁ h₂
    exact Option.some.inj (h₁.symm.trans h₂)
  rcases Relation.ReflTransGen.total_of_right_unique hunique h.1 h'.1 with hr | hr
  · exact hone h.2 hr
  · exact (hone h'.2 hr).symm

variable (flags) in
/-- An instruction is executed where `eip` is. -/
theorem steps_one {i : Instr} {next : UInt32} (hi : code a = some (i, next)) (ha : c.eip = a)
    (h0 : Cpu.level c.cs = 0) : Steps code flags c (i.exec flags c next) := by
  refine Relation.ReflTransGen.single ?_
  unfold step
  rw [if_pos h0, ha, hi]
  rfl

theorem exec_straight {i : Instr} (h : i.jumps = false) (next : UInt32) :
    i.exec flags c next = { i.effect flags c with eip := next } := by
  cases i with
  | call _ => cases h
  | ret => cases h
  | iret => cases h
  | _ => rfl

/-- An effect does not depend on `eip`, and leaves it. -/
theorem effect_eip (i : Instr) :
    i.effect flags { c with eip := a } = { i.effect flags c with eip := a } := by
  cases i with
  | push r => cases r <;> rfl
  | pushMem base d => cases base <;> rfl
  | mov dst src => cases dst <;> cases src <;> rfl
  | movImm dst v => cases dst <;> rfl
  | load dst base d => cases dst <;> cases base <;> rfl
  | loadAbs dst a => cases dst <;> rfl
  | storeAbs a src => cases src <;> rfl
  | loadAx base d => cases base <;> rfl
  | movSeg s => cases s <;> rfl
  | addImm r v => cases r <;> rfl
  | pushImm v => exact Cpu.push_eip c v a
  | pushad =>
    show Cpu.pushad _ = { c.pushad with eip := a }
    unfold Cpu.pushad
    simp only [Cpu.push_eip]
  | _ => rfl

/-- An effect leaves the code segment, too. -/
theorem effect_cs (i : Instr) : (i.effect flags c).cs = c.cs := by
  cases i with
  | mov dst src => cases dst <;> rfl
  | movImm dst v => cases dst <;> rfl
  | load dst base d => cases dst <;> rfl
  | loadAbs dst a => cases dst <;> rfl
  | movSeg s => cases s <;> rfl
  | addImm r v => cases r <;> rfl
  | pushad => exact Cpu.pushad_cs c
  | _ => rfl

/-- What the instructions of a block without jumps do, but for `eip`. -/
def blockEffect (flags : AddFlags) (is : List Instr) (c : Cpu) : Cpu :=
  is.foldl (Instr.effect flags) c

theorem blockEffect_append (is js : List Instr) (c : Cpu) :
    blockEffect flags (is ++ js) c = blockEffect flags js (blockEffect flags is c) :=
  List.foldl_append

theorem blockEffect_eip (is : List Instr) : ∀ {c : Cpu},
    blockEffect flags is { c with eip := a } = { blockEffect flags is c with eip := a } := by
  induction is with
  | nil => exact fun {c} => rfl
  | cons i is ih =>
    intro c
    show blockEffect flags is (i.effect flags { c with eip := a }) = _
    rw [effect_eip, ih]
    rfl

theorem straight_of_all {is : List Instr} (h : is.all (fun i => !i.jumps) = true) :
    ∀ i ∈ is, i.jumps = false := fun i hi =>
  Bool.not_eq_true' _ ▸ List.all_eq_true.mp h i hi

variable (flags) in
/-- **A block without jumps** is executed from its beginning to its end. -/
theorem steps_block (is : List Instr) : ∀ {c : Cpu} {a : UInt32}, BlockAt code a is b →
    (∀ i ∈ is, i.jumps = false) → c.eip = a → Cpu.level c.cs = 0 →
    Steps code flags c { blockEffect flags is c with eip := b } := by
  induction is with
  | nil =>
    rintro c a rfl - rfl -
    exact Relation.ReflTransGen.refl
  | cons i is ih =>
    rintro c a ⟨next, hi, his⟩ hj ha h0
    have hone : Steps code flags c { i.effect flags c with eip := next } := by
      rw [← exec_straight (hj i List.mem_cons_self)]
      exact steps_one flags hi ha h0
    have hcs : ({ i.effect flags c with eip := next } : Cpu).cs = c.cs := effect_cs i
    have hrest := ih his (fun j hj' => hj j (List.mem_cons_of_mem _ hj'))
      (c := { i.effect flags c with eip := next }) rfl (hcs ▸ h0)
    rw [blockEffect_eip] at hrest
    exact hone.trans hrest

/-- A block in two parts. -/
theorem BlockAt.split {p q : List Instr} : ∀ {a : UInt32}, BlockAt code a (p ++ q) b →
    ∃ m, BlockAt code a p m ∧ BlockAt code m q b := by
  induction p with
  | nil => exact fun {a} h => ⟨a, rfl, h⟩
  | cons i is ih =>
    rintro a ⟨next, hi, hrest⟩
    obtain ⟨m, h1, h2⟩ := ih hrest
    exact ⟨m, ⟨next, hi, h1⟩, h2⟩

end Blocks

/-! ## 2. Words on a stack -/

/-- The words `ws` one behind the other from an address on. -/
def Words (m : Mem) : Nat → List UInt32 → Prop
  | _, [] => True
  | a, w :: ws => load32 m a = w.toNat ∧ Words m (a + 4) ws

theorem Words.congr {m m' : Mem} (ws : List UInt32) : ∀ {a : Nat}, Words m a ws →
    (∀ b, a ≤ b → b < a + 4 * ws.length → m' b = m b) → Words m' a ws := by
  induction ws with
  | nil => exact fun _ _ => trivial
  | cons w ws ih =>
    intro a h hm
    rw [List.length_cons] at hm
    refine ⟨(load32_congr fun b h1 h2 => hm b h1 (by omega)).trans h.1, ?_⟩
    exact ih h.2 fun b h1 h2 => hm b (by omega) (by omega)

/-- Word `i` of them. -/
theorem Words.getD {m : Mem} (ws : List UInt32) : ∀ {a i : Nat}, Words m a ws → i < ws.length →
    load32 m (a + 4 * i) = (ws.getD i 0).toNat := by
  induction ws with
  | nil => exact fun _ hi => absurd hi (Nat.not_lt_zero _)
  | cons w ws ih =>
    intro a i h hi
    cases i with
    | zero => exact h.1
    | succ i =>
      have e : a + 4 * (i + 1) = a + 4 + 4 * i := by omega
      rw [e, ih h.2 (Nat.lt_of_succ_lt_succ hi)]
      rfl

theorem Words.drop {m : Mem} (n : Nat) : ∀ {a : Nat} {ws : List UInt32}, Words m a ws →
    n ≤ ws.length → Words m (a + 4 * n) (ws.drop n) := by
  induction n with
  | zero => exact fun h _ => h
  | succ n ih =>
    intro a ws h hn
    cases ws with
    | nil => exact absurd hn (Nat.not_succ_le_zero n)
    | cons w ws =>
      have e : a + 4 * (n + 1) = a + 4 + 4 * n := by omega
      rw [e]
      exact ih h.2 (Nat.le_of_succ_le_succ hn)

/-- **A stack**: `ws` lies from `esp` up to `top`, and memory below `low` and from `top` on is
    `m₀`. -/
structure StackAt (m₀ : Mem) (low top : Nat) (m : Mem) (esp : UInt32) (ws : List UInt32) :
    Prop where
  low_le : low ≤ esp.toNat
  top_eq : esp.toNat + 4 * ws.length = top
  words : Words m esp.toNat ws
  outside : ∀ a, a < low ∨ top ≤ a → m a = m₀ a

section Stack

variable {m₀ m : Mem} {low top : Nat} {esp v : UInt32} {ws : List UInt32}

theorem toNat_sub_four (esp : UInt32) (h : 4 ≤ esp.toNat) : (esp - 4).toNat = esp.toNat - 4 :=
  UInt32.toNat_sub_of_le _ _ (UInt32.le_iff_toNat_le.mpr h)

theorem toNat_add_of_lt {a d : UInt32} (h : a.toNat + d.toNat < 4294967296) :
    (a + d).toNat = a.toNat + d.toNat := by
  rw [UInt32.toNat_add]
  exact Nat.mod_eq_of_lt h

theorem stackAt_empty (m : Mem) {esp : UInt32} (low : Nat) (h : low ≤ esp.toNat) :
    StackAt m low esp.toNat m esp [] :=
  ⟨h, rfl, trivial, fun _ _ => rfl⟩

/-- **A push.** -/
theorem StackAt.push (h : StackAt m₀ low top m esp ws) (hroom : low + 4 ≤ esp.toNat) (v : UInt32) :
    StackAt m₀ low top (store32 m (esp - 4).toNat v.toNat) (esp - 4) (v :: ws) := by
  have hesp : (esp - 4).toNat = esp.toNat - 4 := toNat_sub_four _ (by omega)
  have htop := h.top_eq
  have hv : v.toNat < 4294967296 := v.toNat_lt
  have hlen : (v :: ws).length = ws.length + 1 := rfl
  rw [hesp]
  constructor
  · omega
  · omega
  · have e : esp.toNat - 4 + 4 = esp.toNat := by omega
    refine ⟨?_, ?_⟩
    · rw [hesp]
      exact load32_store32_same hv
    · rw [hesp, e]
      exact Words.congr _ h.words fun b h1 _ => store32_other (by omega)
  · intro a ha
    rw [store32_other (by omega)]
    exact h.outside a ha

/-- **What lies on it.** -/
theorem StackAt.dwordAt_eq (h : StackAt m₀ low top m esp ws) {i : Nat} (hi : i < ws.length)
    (htop : top ≤ 4294967295) {d : UInt32} (hd : d.toNat = 4 * i) :
    dwordAt m (esp + d) = ws.getD i 0 := by
  have htop' := h.top_eq
  unfold dwordAt
  rw [toNat_add_of_lt (by omega), hd, Words.getD _ h.words hi]
  exact UInt32.ofNat_toNat

/-- **A pop** of some words. -/
theorem StackAt.pop (h : StackAt m₀ low top m esp ws) {n : Nat} (hn : n ≤ ws.length)
    (htop : top ≤ 4294967295) {d : UInt32} (hd : d.toNat = 4 * n) :
    StackAt m₀ low top m (esp + d) (ws.drop n) := by
  have htop' := h.top_eq
  have hle := h.low_le
  have hlen : (ws.drop n).length + n = ws.length := by
    rw [List.length_drop]
    omega
  have hesp : (esp + d).toNat = esp.toNat + 4 * n := by
    rw [toNat_add_of_lt (by omega), hd]
  constructor
  · omega
  · omega
  · rw [hesp]
    exact h.words.drop n hn
  · exact h.outside

/-- A store outside the stack. -/
theorem StackAt.store (h : StackAt m₀ low top m esp ws) {a : Nat} (ha : a + 4 ≤ low ∨ top ≤ a)
    (w : Nat) : StackAt (store32 m a w) low top (store32 m a w) esp ws := by
  have hle := h.low_le
  have htop := h.top_eq
  exact ⟨hle, htop, h.words.congr ws fun b h1 h2 => store32_other (by omega), fun _ _ => rfl⟩

/-- A word outside the stack. -/
theorem StackAt.dwordAt_outside (h : StackAt m₀ low top m esp ws) {a : UInt32}
    (ha : a.toNat + 4 ≤ low ∨ top ≤ a.toNat) : dwordAt m a = dwordAt m₀ a := by
  unfold dwordAt
  rw [load32_congr fun b h1 h2 => h.outside b (by omega)]

end Stack

/-! ## 3. Instructions on a stack -/

section OnStack

variable {m₀ : Mem} {low top : Nat} {flags : AddFlags} {c : Cpu} {ws : List UInt32}

variable (flags) in
/-- **Pushes from memory** beside the stack, through a register. -/
theorem StackAt.pushMems {base : Reg} (hbase : base ≠ .esp) {p : UInt32} (ds : List UInt32) :
    ∀ {k : Cpu} {ws : List UInt32}, StackAt m₀ low top k.mem k.esp ws → k.reg base = p →
      low + 4 * ds.length ≤ k.esp.toNat →
      (∀ d ∈ ds, (p + d).toNat + 4 ≤ low ∨ top ≤ (p + d).toNat) →
      ∃ m esp, blockEffect flags (ds.map (Instr.pushMem base)) k = { k with mem := m, esp := esp } ∧
        StackAt m₀ low top m esp ((ds.map fun d => dwordAt m₀ (p + d)).reverse ++ ws) := by
  induction ds with
  | nil => exact fun {k _} h _ _ _ => ⟨k.mem, k.esp, rfl, h⟩
  | cons d ds ih =>
    intro k ws h hp hroom hout
    simp only [List.length_cons] at hroom
    have hword : dwordAt k.mem (k.reg base + d) = dwordAt m₀ (p + d) := by
      rw [hp]
      exact h.dwordAt_outside (hout d List.mem_cons_self)
    have hpush := h.push (by omega) (dwordAt m₀ (p + d))
    have hreg : (k.push (dwordAt m₀ (p + d))).reg base = p := by
      rw [← hp]
      cases base with
      | esp => exact absurd rfl hbase
      | _ => rfl
    have hesp : (k.push (dwordAt m₀ (p + d))).esp.toNat = k.esp.toNat - 4 :=
      toNat_sub_four _ (by omega)
    obtain ⟨m, esp, he, hs⟩ :=
        ih (k := k.push (dwordAt m₀ (p + d))) hpush hreg (by omega) fun d' hd' =>
      hout d' (List.mem_cons_of_mem _ hd')
    refine ⟨m, esp, ?_, ?_⟩
    · show blockEffect flags (ds.map (Instr.pushMem base))
        (k.push (dwordAt k.mem (k.reg base + d))) = _
      rw [hword, he]
      rfl
    · rw [List.map_cons, List.reverse_cons, List.append_assoc]
      exact hs

/-- Bits moved into the lower half of a register. -/
theorem toUInt16_insert (x w : UInt32) :
    ((x &&& 0xFFFF0000) ||| (w &&& 0xFFFF)).toUInt16 = w.toUInt16 := by
  have h1 : (0xFFFF0000 : UInt32).toUInt16 = 0 := by decide
  have h2 : (0xFFFF : UInt32).toUInt16 = -1 := by decide
  rw [UInt32.toUInt16_or, UInt32.toUInt16_and, UInt32.toUInt16_and, h1, h2, UInt16.and_zero,
    UInt16.zero_or, UInt16.and_neg_one]

/-- The registers that `pushad` pushes, from the last one on. -/
def Cpu.general (c : Cpu) : List UInt32 := [c.edi, c.esi, c.ebp, c.esp, c.ebx, c.edx, c.ecx, c.eax]

/-- **`pushad`.** -/
theorem StackAt.pushad (h : StackAt m₀ low top c.mem c.esp ws) (hroom : low + 32 ≤ c.esp.toNat) :
    StackAt m₀ low top c.pushad.mem c.pushad.esp (c.general ++ ws) := by
  have h1 := h.push (by omega) c.eax
  have e1 := toNat_sub_four c.esp (by omega)
  have h2 := h1.push (by omega) c.ecx
  have e2 := toNat_sub_four (c.esp - 4) (by omega)
  have h3 := h2.push (by omega) c.edx
  have e3 := toNat_sub_four (c.esp - 4 - 4) (by omega)
  have h4 := h3.push (by omega) c.ebx
  have e4 := toNat_sub_four (c.esp - 4 - 4 - 4) (by omega)
  have h5 := h4.push (by omega) c.esp
  have e5 := toNat_sub_four (c.esp - 4 - 4 - 4 - 4) (by omega)
  have h6 := h5.push (by omega) c.ebp
  have e6 := toNat_sub_four (c.esp - 4 - 4 - 4 - 4 - 4) (by omega)
  have h7 := h6.push (by omega) c.esi
  have e7 := toNat_sub_four (c.esp - 4 - 4 - 4 - 4 - 4 - 4) (by omega)
  exact h7.push (by omega) c.edi

/-- **`popad`.** -/
theorem StackAt.popad {edi esi ebp esp ebx edx ecx eax : UInt32}
    (h : StackAt m₀ low top c.mem c.esp ([edi, esi, ebp, esp, ebx, edx, ecx, eax] ++ ws))
    (htop : top ≤ 4294967295) :
    c.popad = { c with
      edi := edi, esi := esi, ebp := ebp, ebx := ebx, edx := edx, ecx := ecx, eax := eax
      esp := c.esp + 32 } ∧
    StackAt m₀ low top c.mem (c.esp + 32) ws := by
  have hlen : 8 ≤ ([edi, esi, ebp, esp, ebx, edx, ecx, eax] ++ ws).length := by
    rw [List.length_append]
    exact Nat.le_add_right 8 _
  have hword : ∀ (i : Nat) (d : UInt32), i < 8 → d.toNat = 4 * i →
      c.stack d = ([edi, esi, ebp, esp, ebx, edx, ecx, eax] ++ ws).getD i 0 := fun i d hi hd =>
    h.dwordAt_eq (by omega) htop hd
  refine ⟨?_, h.pop hlen htop (by decide)⟩
  unfold Cpu.popad
  rw [hword 0 0 (by decide) (by decide), hword 1 4 (by decide) (by decide),
    hword 2 8 (by decide) (by decide), hword 4 16 (by decide) (by decide),
    hword 5 20 (by decide) (by decide), hword 6 24 (by decide) (by decide),
    hword 7 28 (by decide) (by decide)]
  rfl

/-- **`iret` to an outer level.** -/
theorem StackAt.iret {eip cs eflags esp ss : UInt32}
    (h : StackAt m₀ low top c.mem c.esp (eip :: cs :: eflags :: esp :: ss :: ws))
    (htop : top ≤ 4294967295) (hout : Cpu.level c.cs < Cpu.level cs.toUInt16) :
    c.iret = { c with
      eip := eip, cs := cs.toUInt16, eflags := eflags, esp := esp, ss := ss.toUInt16 } := by
  have hword : ∀ (i : Nat) (d : UInt32), i < 5 → d.toNat = 4 * i →
      c.stack d = (eip :: cs :: eflags :: esp :: ss :: ws).getD i 0 := fun i d hi hd =>
    h.dwordAt_eq (by simp only [List.length_cons]; omega) htop hd
  have h1 : c.stack 4 = cs := hword 1 4 (by decide) (by decide)
  unfold Cpu.iret
  rw [hword 0 0 (by decide) (by decide), h1, hword 2 8 (by decide) (by decide),
    hword 3 12 (by decide) (by decide), hword 4 16 (by decide) (by decide)]
  dsimp only
  rw [if_pos hout]
  rfl

variable (flags) in
/-- **`ret`.** -/
theorem StackAt.ret {code : Code} {next a : UInt32} (h : StackAt m₀ low top c.mem c.esp (a :: ws))
    (hi : code c.eip = some (.ret, next)) (h0 : Cpu.level c.cs = 0) (htop : top ≤ 4294967295) :
    Steps code flags c { c with eip := a, esp := c.esp + 4 } ∧
      StackAt m₀ low top c.mem (c.esp + 4) ws := by
  have hword : c.stack 0 = a := h.dwordAt_eq (i := 0) (by simp) htop rfl
  have hone := steps_one flags hi rfl h0
  have hexec : Instr.ret.exec flags c next = { c with eip := c.stack 0, esp := c.esp + 4 } := rfl
  rw [hexec, hword] at hone
  exact ⟨hone, h.pop (n := 1) (d := 4) (by simp) htop rfl⟩

/-- **An interrupt** leaves on the kernel's stack what `iret` needs. -/
theorem stackAt_interrupt {gate esp0 : UInt32} {cs0 ss0 : UInt16} (hroom : low + 20 ≤ esp0.toNat) :
    StackAt c.mem low esp0.toNat (c.interrupt gate esp0 cs0 ss0).mem
      (c.interrupt gate esp0 cs0 ss0).esp
      [c.eip, c.cs.toUInt32, c.eflags, c.esp, c.ss.toUInt32] := by
  have h1 := (stackAt_empty c.mem low (show low ≤ esp0.toNat by omega)).push
    (by omega) c.ss.toUInt32
  have e1 := toNat_sub_four esp0 (by omega)
  have h2 := h1.push (by omega) c.esp
  have e2 := toNat_sub_four (esp0 - 4) (by omega)
  have h3 := h2.push (by omega) c.eflags
  have e3 := toNat_sub_four (esp0 - 4 - 4) (by omega)
  have h4 := h3.push (by omega) c.cs.toUInt32
  have e4 := toNat_sub_four (esp0 - 4 - 4 - 4) (by omega)
  exact h4.push (by omega) c.eip

end OnStack
