/-
  File:      PeachKernel/Lib/Decimal.lean
  Subject:   Decimal texts of integers, as lists of ASCII characters.

  * `digits n` -- the digits of a number, without leading zeros (none for 0); `digits_step` splits
    the last one off;
  * `text i` -- the decimal text of an integer; `Canonical` says what such texts look like;
  * `parse` -- the integer that a text stands for; `parse_text` gives it back.
-/
import Mathlib.Data.Nat.Digits.Lemmas

namespace Decimal

/-! ## 1. Digits -/

/-- The character of a digit. -/
def digitChar (d : Nat) : UInt8 := UInt8.ofNat (48 + d)

def IsDigit (c : UInt8) : Prop := 48 ≤ c.toNat ∧ c.toNat ≤ 57

instance (c : UInt8) : Decidable (IsDigit c) := inferInstanceAs (Decidable (_ ∧ _))

/-- The digits of a number, the first one first; 0 has none. -/
def digits (n : Nat) : List UInt8 := ((Nat.digits 10 n).map digitChar).reverse

theorem digitChar_toNat {d : Nat} (hd : d < 10) : (digitChar d).toNat = 48 + d := by
  unfold digitChar
  rw [UInt8.toNat_ofNat']
  exact Nat.mod_eq_of_lt (by omega)

theorem digitChar_isDigit {d : Nat} (hd : d < 10) : IsDigit (digitChar d) := by
  unfold IsDigit
  rw [digitChar_toNat hd]
  omega

/-- **The last digit** and the ones before it. -/
theorem digits_step {n : Nat} (h : n ≠ 0) : digits n = digits (n / 10) ++ [digitChar (n % 10)] := by
  unfold digits
  rw [Nat.digits_def' (by decide) (Nat.pos_of_ne_zero h), List.map_cons, List.reverse_cons]

theorem digits_length_le_iff (n k : Nat) : (digits n).length ≤ k ↔ n < 10 ^ k := by
  unfold digits
  rw [List.length_reverse, List.length_map]
  exact Nat.digits_length_le_iff (by decide) n

theorem digits_isDigit (n : Nat) : ∀ c ∈ digits n, IsDigit c := by
  intro c hc
  obtain ⟨d, hd, rfl⟩ := List.mem_map.mp (List.mem_reverse.mp hc)
  exact digitChar_isDigit (Nat.digits_lt_base (by decide) hd)

theorem digits_eq_nil_iff {n : Nat} : digits n = [] ↔ n = 0 := by
  unfold digits
  rw [List.reverse_eq_nil_iff, List.map_eq_nil_iff, Nat.digits_eq_nil_iff_eq_zero]

/-- No leading zero. -/
theorem digits_head_ne {n : Nat} (h : n ≠ 0) : (digits n).head? ≠ some 48 := by
  have hne : Nat.digits 10 n ≠ [] := Nat.digits_ne_nil_iff_ne_zero.mpr h
  have hlast : (Nat.digits 10 n).getLast hne ≠ 0 := Nat.getLast_digit_ne_zero 10 h
  have hlt : (Nat.digits 10 n).getLast hne < 10 :=
    Nat.digits_lt_base (by decide) (List.getLast_mem hne)
  unfold digits
  rw [List.head?_reverse, List.getLast?_map, List.getLast?_eq_getLast_of_ne_nil hne]
  intro e
  have hc := congrArg UInt8.toNat (Option.some.inj e)
  rw [digitChar_toNat hlt] at hc
  have h48 : (48 : UInt8).toNat = 48 := rfl
  omega

/-! ## 2. Texts -/

/-- The text of a number: its digits, or a single 0. -/
def natText (n : Nat) : List UInt8 := if n = 0 then [48] else digits n

/-- **The decimal text of an integer**, a minus sign in front where it is negative. -/
def text (i : Int) : List UInt8 := if i < 0 then 45 :: natText i.natAbs else natText i.natAbs

/-- **The canonical form**: an optional minus sign and digits, no leading zero, and 0 without a
    sign. -/
def Canonical (cs : List UInt8) : Prop :=
  ∃ body, (cs = body ∨ (cs = 45 :: body ∧ body ≠ [48])) ∧ body ≠ [] ∧ (∀ c ∈ body, IsDigit c) ∧
    (body.head? = some 48 → body = [48])

theorem natText_ne_nil (n : Nat) : natText n ≠ [] := by
  unfold natText
  split
  · exact List.cons_ne_nil _ _
  · rename_i h
    exact fun e => h (digits_eq_nil_iff.mp e)

theorem natText_isDigit (n : Nat) : ∀ c ∈ natText n, IsDigit c := by
  unfold natText
  split
  · intro c hc
    rw [List.mem_singleton.mp hc]
    decide
  · exact digits_isDigit n

theorem natText_head (n : Nat) (h : (natText n).head? = some 48) : natText n = [48] := by
  unfold natText at h ⊢
  split
  · rfl
  · rename_i hn
    rw [if_neg hn] at h
    exact absurd h (digits_head_ne hn)

theorem text_canonical (i : Int) : Canonical (text i) := by
  refine ⟨natText i.natAbs, ?_, natText_ne_nil _, natText_isDigit _, natText_head _⟩
  unfold text
  split
  · rename_i hneg
    refine Or.inr ⟨rfl, fun e => ?_⟩
    have hne : i.natAbs ≠ 0 := by omega
    unfold natText at e
    rw [if_neg hne] at e
    exact digits_head_ne hne (by rw [e]; rfl)
  · exact Or.inl rfl

/-! ## 3. Values -/

/-- The value of digits behind the value `v` of those before them; `none` for another character. -/
def valueFrom : (v : Nat) → List UInt8 → Option Nat
  | v, [] => some v
  | v, c :: cs => if IsDigit c then valueFrom (10 * v + (c.toNat - 48)) cs else none

/-- **The integer that a text stands for.** -/
def parse : List UInt8 → Option Int
  | [] => none
  | c :: cs =>
    if c = 45 then (if cs = [] then none else (valueFrom 0 cs).map fun n : Nat => -(n : Int))
    else (valueFrom 0 (c :: cs)).map fun n : Nat => (n : Int)

theorem valueFrom_append (cs : List UInt8) : ∀ (v : Nat) (cs' : List UInt8),
    valueFrom v (cs ++ cs') = (valueFrom v cs).bind fun w => valueFrom w cs' := by
  induction cs with
  | nil => exact fun _ _ => rfl
  | cons c cs ih =>
    intro v cs'
    rw [List.cons_append, valueFrom, valueFrom]
    split
    · exact ih _ _
    · rfl

theorem valueFrom_digits (n : Nat) : valueFrom 0 (digits n) = some n := by
  induction n using Nat.strong_induction_on with
  | _ n ih =>
    by_cases h : n = 0
    · rw [digits_eq_nil_iff.mpr h, h]
      rfl
    · have hd : n % 10 < 10 := Nat.mod_lt _ (by decide)
      rw [digits_step h, valueFrom_append, ih (n / 10) (by omega), Option.bind_some, valueFrom,
        if_pos (digitChar_isDigit hd), digitChar_toNat hd, valueFrom]
      congr 1
      omega

theorem valueFrom_natText (n : Nat) : valueFrom 0 (natText n) = some n := by
  unfold natText
  split
  · rename_i h
    rw [h]
    rfl
  · exact valueFrom_digits n

/-- **Parsing a text gives back the integer.** -/
theorem parse_text (i : Int) : parse (text i) = some i := by
  have hvalue := valueFrom_natText i.natAbs
  unfold text
  split
  · rename_i hneg
    rw [parse, if_pos rfl, if_neg (natText_ne_nil _), hvalue, Option.map_some]
    congr 1
    omega
  · have hdigit := natText_isDigit i.natAbs
    have hne := natText_ne_nil i.natAbs
    generalize natText i.natAbs = cs at hvalue hdigit hne
    cases cs with
    | nil => exact absurd rfl hne
    | cons c cs =>
      have hc : c ≠ 45 := by
        rintro rfl
        exact absurd (hdigit 45 List.mem_cons_self) (by decide)
      rw [parse, if_neg hc, hvalue, Option.map_some]
      congr 1
      omega

end Decimal
