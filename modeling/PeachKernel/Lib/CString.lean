/-
  File:      PeachKernel/Lib/CString.lean
  Subject:   Strings of C in a byte memory: characters, then a NUL.

  * `CString m p cs` -- memory holds the string `cs` at `p`;
  * `readString` -- at most `n` characters of the string at `p`, as `strncpy` reads them;
  * `copyIn_cString` -- a string that was stored is there.
-/
import PeachKernel.Lib.ByteMem

namespace PeachKernel

open CInt Mem

/-- **Memory holds the string** `cs` at `p`. -/
def CString (m : Mem) : (p : Nat) → List UInt8 → Prop
  | p, [] => m p = 0
  | p, c :: cs => m p = c ∧ c ≠ 0 ∧ CString m (p + 1) cs

/-- The characters before the NUL at `p`, no more than `n`. -/
def readString (m : Mem) : (n p : Nat) → List UInt8
  | 0, _ => []
  | n + 1, p => if m p = 0 then [] else m p :: readString m n (p + 1)

theorem CString.readString {m : Mem} (cs : List UInt8) : ∀ {p : Nat} (n : Nat), CString m p cs →
    readString m n p = cs.take n := by
  induction cs with
  | nil =>
    intro p n h
    cases n with
    | zero => rfl
    | succ n => exact if_pos h
  | cons c cs ih =>
    intro p n h
    obtain ⟨hc, h0, h⟩ := h
    cases n with
    | zero => rfl
    | succ n => rw [PeachKernel.readString, hc, if_neg h0, ih n h, List.take_succ_cons]

/-- A string is a matter of its own bytes. -/
theorem CString.congr {m m' : Mem} (cs : List UInt8) : ∀ {p : Nat}, CString m p cs →
    (∀ a, p ≤ a → a ≤ p + cs.length → m' a = m a) → CString m' p cs := by
  induction cs with
  | nil =>
    intro p h hm
    exact (hm p (Nat.le_refl _) (Nat.le_refl _)).trans h
  | cons c cs ih =>
    intro p h hm
    obtain ⟨hc, h0, h⟩ := h
    rw [List.length_cons] at hm
    exact ⟨(hm p (Nat.le_refl _) (by omega)).trans hc, h0, ih h fun a h1 h2 => hm a (by omega)
      (by omega)⟩

/-- A NUL behind its first characters cuts a string. -/
theorem CString.cut {m : Mem} (cs : List UInt8) : ∀ {p : Nat} {c : UInt8} {rest : List UInt8},
    CString m p (cs ++ c :: rest) → CString (Function.update m (p + cs.length) 0) p cs := by
  induction cs with
  | nil =>
    intro p c rest _
    exact Function.update_self _ _ _
  | cons d cs ih =>
    intro p c rest h
    obtain ⟨hd, h0, h⟩ := h
    rw [List.length_cons, show p + (cs.length + 1) = p + 1 + cs.length by omega]
    exact ⟨by rw [Function.update_of_ne (by omega)]; exact hd, h0, ih h⟩

/-- The string behind the first characters. -/
theorem CString.drop {m : Mem} (cs : List UInt8) : ∀ {p : Nat} {rest : List UInt8},
    CString m p (cs ++ rest) → CString m (p + cs.length) rest := by
  induction cs with
  | nil => exact fun h => h
  | cons d cs ih =>
    intro p rest h
    rw [List.length_cons, show p + (cs.length + 1) = p + 1 + cs.length by omega]
    exact ih h.2.2

/-- The characters of a string are none of them NUL. -/
theorem CString.ne_zero {m : Mem} (cs : List UInt8) :
    ∀ {p : Nat}, CString m p cs → ∀ c ∈ cs, c ≠ 0 := by
  induction cs with
  | nil => exact fun _ c hc => absurd hc List.not_mem_nil
  | cons d cs ih =>
    intro p h c hc
    rcases List.mem_cons.mp hc with rfl | hc
    · exact h.2.1
    · exact ih h.2.2 c hc

theorem cString_of_bytes {m : Mem} (cs : List UInt8) : ∀ {p : Nat}, (∀ c ∈ cs, c ≠ 0) →
    (∀ i, i < (cs ++ [0]).length → m (p + i) = (cs ++ [0]).getD i 0) → CString m p cs := by
  induction cs with
  | nil =>
    intro p _ h
    exact h 0 Nat.one_pos
  | cons c cs ih =>
    intro p h0 h
    refine ⟨h 0 (Nat.succ_pos _), h0 c List.mem_cons_self,
      ih (fun c' h' => h0 c' (List.mem_cons_of_mem _ h')) fun i hi => ?_⟩
    have := h (i + 1) (Nat.succ_lt_succ hi)
    rwa [Nat.add_assoc, Nat.add_comm 1 i]

/-- **A string that was stored** with its NUL. -/
theorem copyIn_cString (m : Mem) {cs : List UInt8} (h0 : ∀ c ∈ cs, c ≠ 0) {a : Nat}
    (ha : a + (cs ++ [0]).length ≤ 4294967296) : CString (copyIn m a (cs ++ [0])) a cs :=
  cString_of_bytes cs h0 fun _ hi => copyIn_inside hi ha

/-- The characters of a string that is read, and the NUL behind them where the room lets it be
    seen. -/
theorem readString_getD (m : Mem) (n : Nat) : ∀ {p i : Nat}, i ≤ (readString m n p).length → i < n →
    m (p + i) = (readString m n p).getD i 0 := by
  induction n with
  | zero => exact fun _ h => absurd h (Nat.not_lt_zero _)
  | succ n ih =>
    intro p i hi hn
    by_cases h0 : m p = 0
    · rw [readString, if_pos h0] at hi ⊢
      have hzero : i = 0 := Nat.le_zero.mp hi
      subst hzero
      exact h0
    · rw [readString, if_neg h0] at hi ⊢
      cases i with
      | zero => rfl
      | succ i =>
        have hrest := @ih (p + 1) i (Nat.le_of_succ_le_succ hi) (Nat.lt_of_succ_lt_succ hn)
        rw [show p + (i + 1) = p + 1 + i by omega]
        exact hrest

theorem readString_ne_zero (m : Mem) (n : Nat) : ∀ {p : Nat}, ∀ c ∈ readString m n p, c ≠ 0 := by
  induction n with
  | zero => exact fun c hc => absurd hc List.not_mem_nil
  | succ n ih =>
    intro p c hc
    rw [readString] at hc
    split at hc
    · exact absurd hc List.not_mem_nil
    · rename_i h0
      rcases List.mem_cons.mp hc with rfl | hc
      · exact h0
      · exact ih c hc

end PeachKernel
