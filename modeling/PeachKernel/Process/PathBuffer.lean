/-
  File:      PeachKernel/Process/PathBuffer.lean
  Subject:   The array `path` of the system commands 6 and 7: `"0:/"` and the name of a program, in
             108 bytes on the kernel's stack.

  Command 6 copies the name with `strcpy`, out of an array of the same size; command 7 with
  `strncpy`, whose count is the size of the whole array. Neither takes the three characters in front
  into account.

  * `Stores` -- memory, and the addresses that were written; `strcpyFrom`, `strncpyFrom` -- the
    copies;
  * `strncpyFrom_spec` -- what a copy of a string writes and leaves; `strcpyFrom_eq` -- `strcpy` is
    one with enough room;
  * `command6Path`, `command7Path` -- the two ways to build the path;
  * `pathBuffer_iff` -- when the array is built as it should be.
-/
import PeachKernel.Process.Invoke

namespace PeachKernel

open Mem

/-! ## 1. Copies that keep account of their writes -/

/-- Memory, and the addresses that have been written, in order. -/
structure Stores where
  mem : Mem
  written : List Nat

def Stores.put (s : Stores) (a : Nat) (c : UInt8) : Stores :=
  ⟨Function.update s.mem a c, s.written ++ [a]⟩

/-- The loop of `strcpy`; a string ends within `fuel` characters. -/
def strcpyFrom : (fuel dest src : Nat) → Stores → Option Stores
  | 0, _, _, _ => none
  | fuel + 1, dest, src, s =>
    if s.mem src ≠ 0x00 then strcpyFrom fuel (dest + 1) (src + 1) (s.put dest (s.mem src))
    else some (s.put dest 0x00)

/-- The loop of `strncpy` from character `i`, with room for `left` more and the NUL. -/
def strncpyFrom (dest src : Nat) : (left i : Nat) → Stores → Stores
  | 0, i, s => s.put (dest + i) 0x00
  | left + 1, i, s =>
    if s.mem (src + i) = 0x00 then s.put (dest + i) 0x00
    else strncpyFrom dest src left (i + 1) (s.put (dest + i) (s.mem (src + i)))

/-- `strcpy(path, "0:/")`. -/
def putDrive (path : Nat) (s : Stores) : Stores :=
  (((s.put path 0x30).put (path + 1) 0x3A).put (path + 2) 0x2F).put (path + 3) 0x00

/-- The path of `isr80h_command6_process_load_start`, from `filename`. -/
def command6Path (m : Mem) (path filename fuel : Nat) : Option Stores :=
  strcpyFrom fuel (path + 3) filename (putDrive path ⟨m, []⟩)

/-- The path of `isr80h_command7_invoke_system_command`: `sizeof(path)` is 108. -/
def command7Path (m : Mem) (path programName : Nat) : Stores :=
  strncpyFrom (path + 3) programName (108 - 1) 0 (putDrive path ⟨m, []⟩)

/-- `"0:/"`. -/
def drivePrefix : List UInt8 := [0x30, 0x3A, 0x2F]

/-- **The array is built as it should be**: nothing outside its 108 bytes is written, there is a NUL
    in it, and it holds the path where that fits. -/
structure PathBuilt (path : Nat) (name : List UInt8) (s : Stores) : Prop where
  inside : ∀ a ∈ s.written, path ≤ a ∧ a < path + 108
  terminated : ∃ i < 108, s.mem (path + i) = 0
  holds : (drivePrefix ++ name).length + 1 ≤ 108 → CString s.mem path (drivePrefix ++ name)

/-! ## 2. What a copy leaves -/

section Copies

variable {s : Stores} {path dest src : Nat} {name : List UInt8}

/-- The account changes nothing. -/
theorem strncpyFrom_mem (dest src left : Nat) : ∀ {i : Nat} {s : Stores},
    (strncpyFrom dest src left i s).mem = strncpyLoop dest src left i s.mem := by
  induction left with
  | zero => exact rfl
  | succ left ih =>
    intro i s
    rw [strncpyFrom, strncpyLoop]
    split
    · rfl
    · exact ih

/-- A character of a string that is copied, one further. -/
theorem cString_put {c : UInt8} {cs : List UInt8} {i : Nat} {x : UInt8}
    (h : CString s.mem (src + i) (c :: cs))
    (hoff : dest ≤ src ∨ src + i + (c :: cs).length < dest) :
    CString (s.put (dest + i) x).mem (src + (i + 1)) cs := by
  have hrest : CString s.mem (src + (i + 1)) cs := h.2.2
  rw [List.length_cons] at hoff
  exact hrest.congr cs fun a h1 h2 => Function.update_of_ne (by omega) _ _

/-- **A copy of a string**: one character after the other is written, and a NUL; the string is
    there, cut to the room. The source may lie behind the destination, or before it without reaching
    it. Induction on the room. -/
theorem strncpyFrom_spec (dest src left : Nat) : ∀ {i : Nat} {name : List UInt8} {s : Stores},
    CString s.mem (src + i) name → (dest ≤ src ∨ src + i + name.length < dest) →
      (strncpyFrom dest src left i s).written =
        s.written ++ List.range' (dest + i) ((name.take left).length + 1) ∧
      CString (strncpyFrom dest src left i s).mem (dest + i) (name.take left) ∧
      ∀ a, a < dest + i → (strncpyFrom dest src left i s).mem a = s.mem a := by
  induction left with
  | zero =>
    intro i name s _ _
    refine ⟨rfl, Function.update_self _ _ _,
      fun a ha => Function.update_of_ne (Nat.ne_of_lt ha) _ _⟩
  | succ left ih =>
    intro i name s hname hoff
    rw [strncpyFrom]
    cases name with
    | nil =>
      have hzero : s.mem (src + i) = 0 := hname
      rw [if_pos hzero]
      exact ⟨rfl, Function.update_self _ _ _,
        fun a ha => Function.update_of_ne (Nat.ne_of_lt ha) _ _⟩
    | cons c cs =>
      obtain ⟨hc, hne, -⟩ := id hname
      have hrest := cString_put (x := c) hname hoff
      rw [List.length_cons] at hoff
      obtain ⟨hwritten, hcopy, hframe⟩ := ih hrest (by omega)
      rw [if_neg (hc ▸ hne), hc, List.take_succ_cons, List.length_cons]
      refine ⟨?_, ⟨?_, hne, hcopy⟩, fun a ha => ?_⟩
      · rw [hwritten, List.range'_succ, Stores.put, List.append_assoc]
        rfl
      · rw [hframe (dest + i) (by omega)]
        exact Function.update_self _ _ _
      · rw [hframe a (Nat.lt_succ_of_lt ha)]
        exact Function.update_of_ne (Nat.ne_of_lt ha) _ _

/-- **`strcpy` is `strncpy` with enough room.** -/
theorem strcpyFrom_eq (dest src : Nat) (fuel : Nat) :
    ∀ {i left : Nat} {name : List UInt8} {s : Stores}, CString s.mem (src + i) name →
    (dest ≤ src ∨ src + i + name.length < dest) → name.length < fuel →
      name.length ≤ left →
      strcpyFrom fuel (dest + i) (src + i) s = some (strncpyFrom dest src left i s) := by
  induction fuel with
  | zero => exact fun _ _ h => absurd h (Nat.not_lt_zero _)
  | succ fuel ih =>
    intro i left name s hname hoff hfuel hleft
    rw [strcpyFrom]
    cases name with
    | nil =>
      have hzero : s.mem (src + i) = 0 := hname
      rw [if_neg (not_not.mpr hzero)]
      cases left with
      | zero => rfl
      | succ left => rw [strncpyFrom, if_pos hzero]
    | cons c cs =>
      obtain ⟨hc, hne, -⟩ := id hname
      rw [List.length_cons] at hfuel hleft
      obtain ⟨left, rfl⟩ : ∃ room, left = room + 1 := ⟨left - 1, by omega⟩
      have hrest := cString_put (x := c) hname hoff
      rw [List.length_cons] at hoff
      rw [if_pos (hc ▸ hne), strncpyFrom, if_neg (hc ▸ hne), hc]
      exact ih hrest (by omega) (by omega) (by omega)

/-! ## 3. The array -/

/-- The drive is written, and a name that lies elsewhere is as it was. -/
theorem putDrive_name {m : Mem} (hname : CString m src name)
    (hoff : path + 108 ≤ src ∨ src + name.length < path) :
    CString (putDrive path ⟨m, []⟩).mem src name := by
  refine hname.congr name fun a h1 h2 => ?_
  unfold putDrive Stores.put
  dsimp only
  rw [Function.update_of_ne (by omega), Function.update_of_ne (by omega),
    Function.update_of_ne (by omega), Function.update_of_ne (by omega)]

/-- **The path behind the copy**: where it was written, and that it is there. -/
theorem pathCopy_spec {m : Mem} (hname : CString m src name)
    (hoff : path + 108 ≤ src ∨ src + name.length < path) (left : Nat) :
    (∀ a, a ∈ (strncpyFrom (path + 3) src left 0 (putDrive path ⟨m, []⟩)).written ↔
      path ≤ a ∧ a ≤ path + 3 + (name.take left).length) ∧
    CString (strncpyFrom (path + 3) src left 0 (putDrive path ⟨m, []⟩)).mem path
      (drivePrefix ++ name.take left) := by
  obtain ⟨hwritten, hcopy, hframe⟩ := strncpyFrom_spec (path + 3) src left (i := 0)
    (s := putDrive path ⟨m, []⟩) (putDrive_name hname hoff) (by omega)
  have hdrive : (putDrive path ⟨m, []⟩).written = [path, path + 1, path + 2, path + 3] := rfl
  have hbytes : ∀ i, i < 3 → (putDrive path ⟨m, []⟩).mem (path + i) = drivePrefix.getD i 0 := by
    intro i hi
    unfold putDrive Stores.put
    dsimp only
    obtain rfl | rfl | rfl : i = 0 ∨ i = 1 ∨ i = 2 := by omega
    · simp [drivePrefix]
    · simp [drivePrefix]
    · simp [drivePrefix]
  constructor
  · intro a
    rw [hwritten, hdrive, List.mem_append, List.mem_range'_1]
    simp only [List.mem_cons, List.not_mem_nil, or_false]
    omega
  · refine ⟨?_, by decide, ?_, by decide, ?_, by decide, hcopy⟩
    · rw [hframe path (by omega)]
      exact hbytes 0 (by decide)
    · rw [hframe (path + 1) (by omega)]
      exact hbytes 1 (by decide)
    · rw [hframe (path + 1 + 1) (by omega)]
      exact hbytes 2 (by decide)

/-- **The array is built as it should be exactly when** the name has at most 104 characters. -/
theorem pathBuilt_iff {m : Mem} (hname : CString m src name)
    (hoff : path + 108 ≤ src ∨ src + name.length < path) {left : Nat} (hleft : 105 ≤ left) :
    PathBuilt path name (strncpyFrom (path + 3) src left 0 (putDrive path ⟨m, []⟩)) ↔
      name.length ≤ 104 := by
  obtain ⟨hwritten, hpath⟩ := pathCopy_spec hname hoff left
  constructor
  · intro h
    -- the address of the NUL
    have hlast := (h.inside (path + 3 + (name.take left).length)
      ((hwritten _).mpr ⟨by omega, Nat.le_refl _⟩)).2
    rw [List.length_take] at hlast
    omega
  · intro hle
    rw [List.take_of_length_le (by omega)] at hwritten hpath
    have hlen : (drivePrefix ++ name).length = 3 + name.length := List.length_append
    refine ⟨fun a ha => ?_, ⟨3 + name.length, by omega, ?_⟩, fun _ => hpath⟩
    · have hrange := (hwritten a).mp ha
      omega
    · have hend := @CString.drop _ (drivePrefix ++ name) _ [] (by rw [List.append_nil]; exact hpath)
      rw [hlen] at hend
      exact hend

end Copies

/-- **The paths of the two commands are built as they should be exactly when** the name has at most
    104 characters. Command 6 has it in an array of 108 bytes, command 7 in the 512 bytes of an
    argument; neither reaches into `path`. -/
theorem pathBuffer_iff {m : Mem} {path src : Nat} {name : List UInt8} (hname : CString m src name) :
    (name.length ≤ 107 → path + 108 ≤ src ∨ src + 108 ≤ path →
      ∃ s, (∀ fuel, name.length < fuel → command6Path m path src fuel = some s) ∧
        (PathBuilt path name s ↔ name.length ≤ 104)) ∧
    (name.length ≤ 511 → path + 108 ≤ src ∨ src + 512 ≤ path →
      (PathBuilt path name (command7Path m path src) ↔ name.length ≤ 104)) := by
  constructor
  · intro hlen hoff
    have hapart : path + 108 ≤ src ∨ src + name.length < path := by omega
    refine ⟨strncpyFrom (path + 3) src 107 0 (putDrive path ⟨m, []⟩), fun fuel hfuel => ?_,
      pathBuilt_iff hname hapart (by decide)⟩
    exact strcpyFrom_eq (path + 3) src fuel (i := 0) (putDrive_name hname hapart)
      (by omega) hfuel hlen
  · intro hlen hoff
    exact pathBuilt_iff hname (by omega) (by decide)

/-- The program `a`. -/
theorem pathBuffer_iff_a :
    PathBuilt 1000 [0x61] (command7Path (copyIn (fun _ => 0) 0 [0x61, 0]) 1000 0) :=
  have hname : CString (copyIn (fun _ => 0) 0 [0x61, 0]) 0 [0x61] :=
    ⟨by decide, by decide, show copyIn (fun _ => 0) 0 [0x61, 0] 1 = 0 by decide⟩
  ((pathBuffer_iff hname).2 (by decide) (Or.inr (by decide))).mpr (by decide)

/-- A character again and again, and then zeros. -/
theorem cString_replicate {c : UInt8} (hc : c ≠ 0) (n : Nat) : ∀ p : Nat,
    CString (fun a => if a < p + n then c else 0) p (List.replicate n c) := by
  induction n with
  | zero => exact fun p => if_neg (Nat.lt_irrefl _)
  | succ n ih =>
    intro p
    have hrest := ih (p + 1)
    rw [show p + 1 + n = p + (n + 1) by omega] at hrest
    exact ⟨if_pos (by omega), hc, hrest⟩

/-- **A name of 105 characters**: the NUL is written behind the array. -/
theorem pathBuffer_overflows :
    ¬ ∀ (m : Mem) (path src : Nat) (name : List UInt8), CString m src name → name.length ≤ 511 →
    path + 108 ≤ src ∨ src + 512 ≤ path →
      PathBuilt path name (command7Path m path src) := by
  intro h
  have hname := cString_replicate (c := 0x61) (by decide) 105 0
  have hbuilt := h _ 1000 0 _ hname (by decide) (Or.inr (by decide))
  exact absurd ((pathBuilt_iff hname (Or.inr (by decide)) (by decide)).mp hbuilt) (by decide)

/-- The path that command 7 loads is the one in the array, and behind it. -/
theorem command7Path_holds {π : Type} (s : LoadState π) {path : Nat} {name : List UInt8}
    (hname : CString s.files.kernel.mem (invokeArguments s) name)
    (hoff : path + 108 ≤ invokeArguments s ∨ invokeArguments s + name.length < path) :
    CString (command7Path s.files.kernel.mem path (invokeArguments s)).mem path (invokePath s) := by
  unfold invokePath
  rw [hname.readString name 107]
  exact (pathCopy_spec hname hoff 107).2

end PeachKernel
