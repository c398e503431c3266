/-
  File:      PeachKernel/Strings.lean
  Subject:   The functions of `string/string.c` and `memory/memory.c` that paths and names are read
             with.

  A string is the list of its characters; a NUL ends it, and so does the end of the list.
-/
import Mathlib.Data.Int.Basic

namespace PeachKernel

def strlen : List UInt8 → Nat
  | [] => 0
  | c :: ptr => if c ≠ 0 then strlen ptr + 1 else 0

def strnlen : (max : Nat) → (ptr : List UInt8) → Nat
  | 0, _ => 0
  | max + 1, ptr => if ptr.headD 0 = 0 then 0 else strnlen max ptr.tail + 1

def isdigit (c : UInt8) : Bool := 48 ≤ c && c ≤ 57

def tonumericdigit (c : UInt8) : Int := (c.toNat : Int) - 48

/-- `memcmp`: the characters that differ first are compared as signed ones. -/
def memcmp : (count : Nat) → (s1 s2 : List UInt8) → Int
  | 0, _, _ => 0
  | count + 1, s1, s2 =>
    if s1.headD 0 ≠ s2.headD 0 then (if (s1.headD 0).toInt8 < (s2.headD 0).toInt8 then -1 else 1)
    else memcmp count s1.tail s2.tail

def toupper (c : UInt8) : UInt8 := if 65 + 32 ≤ c ∧ c ≤ 90 + 32 then c - 32 else c

def tolower (c : UInt8) : UInt8 := if 65 ≤ c ∧ c ≤ 90 then c + 32 else c

/-- `istrncmp`: `strncmp`, with letters that differ only in case taken for equal. -/
def istrncmp : (n : Nat) → (s1 s2 : List UInt8) → Int
  | 0, _, _ => 0
  | n + 1, s1, s2 =>
    let u1 := s1.headD 0
    let u2 := s2.headD 0
    if u1 ≠ u2 ∧ tolower u1 ≠ tolower u2 then (u1.toNat : Int) - u2.toNat
    else if u1 = 0 then 0
    else istrncmp n s1.tail s2.tail

/-- `strncmp`: at most `n` characters, no further than a NUL. Past the end of a list stands a
    NUL. -/
def strncmp : (n : Nat) → (str1 str2 : List UInt8) → Int
  | 0, _, _ => 0
  | n + 1, str1, str2 =>
    let u1 := str1.headD 0
    let u2 := str2.headD 0
    if u1 ≠ u2 then (u1.toNat : Int) - u2.toNat
    else if u1 = 0 then 0
    else strncmp n str1.tail str2.tail

end PeachKernel
