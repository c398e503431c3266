/-
  File:      PeachKernel/Stdlib/Itoa.lean
  Subject:   `itoa` of the programs' library: the decimal text of an `int`, written from its end.

  The digits are taken off a value that is not positive, so that the least `int` needs no case of
  its own. `text` is a static buffer of 12 bytes; `bytes j` is `text[j]` for every `int` index, and
  an index outside `0 .. 11` would be some other byte of memory.

  * `itoa` -- the source function; `written` logs the indexes, and no function reads it;
  * `ItoaHolds` -- what the buffer holds so far, from `loc` to its end;
  * `itoaLoop_holds` -- the digits of the value come in front of it;
  * `itoa_decimal` -- the result is the decimal text of the argument.
-/
import PeachKernel.Lib.CString
import PeachKernel.Lib.Decimal

namespace PeachKernel

/-! ## 1. The source function -/

/-- The bytes of `text` and around it, `loc`, and the indexes written so far. -/
structure ItoaText where
  bytes : Int → UInt8
  loc : Int
  written : List Int

/-- `text[--loc] = c`. -/
def ItoaText.put (t : ItoaText) (c : UInt8) : ItoaText where
  bytes := Function.update t.bytes (t.loc - 1) c
  loc := t.loc - 1
  written := (t.loc - 1) :: t.written

/-- The loop of `itoa`. -/
def itoaLoop (t : ItoaText) (i : Int32) : ItoaText :=
  if i = 0 then t else itoaLoop (t.put (UInt8.ofInt (48 - (i % 10).toInt))) (i / 10)
termination_by i.toInt.natAbs
decreasing_by
  rename_i h
  have hdiv : (i / 10).toInt = i.toInt.tdiv 10 := Int32.toInt_div_of_ne_right i 10 (by decide)
  have hne : i.toInt ≠ 0 := fun e => h (Int32.toInt_inj.mp e)
  rw [hdiv, Int.natAbs_tdiv]
  exact Nat.div_lt_self (by omega) (by decide)

/-- `itoa`, in a buffer with any contents: the string that it returns starts at `loc`. -/
def itoa (bytes : Int → UInt8) (i : Int32) : ItoaText :=
  let t : ItoaText := ⟨Function.update bytes 11 0, 11, [11]⟩
  let neg := ¬ 0 ≤ i
  let t := itoaLoop t (if 0 ≤ i then -i else i)
  let t := if t.loc = 11 then t.put 0x30 else t
  if neg then t.put 0x2D else t

/-- The string that is returned. -/
def ItoaText.string (t : ItoaText) : List UInt8 := readString (fun j => t.bytes j) 12 t.loc.toNat

/-! ## 2. The buffer -/

/-- **From `loc` on the buffer holds the string** `cs`, up to its last byte; nothing was written
    outside of it. -/
structure ItoaHolds (t : ItoaText) (cs : List UInt8) : Prop where
  loc : t.loc + cs.length = 11
  fits : cs.length ≤ 11
  string : CString (fun j => t.bytes j) t.loc.toNat cs
  inside : ∀ j ∈ t.written, 0 ≤ j ∧ j < 12

section Buffer

variable {t : ItoaText} {cs : List UInt8}

/-- A character in front. -/
theorem ItoaHolds.put (h : ItoaHolds t cs) {c : UInt8} (hc : c ≠ 0) (hroom : cs.length < 11) :
    ItoaHolds (t.put c) (c :: cs) := by
  have hloc := h.loc
  have hpos : ((t.loc - 1).toNat : Int) = t.loc - 1 := Int.toNat_of_nonneg (by omega)
  refine ⟨?_, hroom, ⟨?_, hc, ?_⟩, fun j hj => ?_⟩
  · show t.loc - 1 + ((cs.length + 1 : Nat) : Int) = 11
    omega
  · show Function.update t.bytes (t.loc - 1) c ((t.loc - 1).toNat : Int) = c
    rw [hpos, Function.update_self]
  · have hnext : (t.put c).loc.toNat + 1 = t.loc.toNat := by
      show (t.loc - 1).toNat + 1 = t.loc.toNat
      omega
    rw [hnext]
    refine h.string.congr cs fun a h1 _ => ?_
    show Function.update t.bytes (t.loc - 1) c (a : Int) = t.bytes a
    exact Function.update_of_ne (by omega) _ _
  · rcases List.mem_cons.mp hj with rfl | hj
    · omega
    · exact h.inside j hj

/-- **The loop**: the digits of the value, which is not positive, come in front. -/
theorem itoaLoop_holds (n : Nat) : ∀ {t : ItoaText} {cs : List UInt8} {i : Int32},
    i.toInt = -(n : Int) → ItoaHolds t cs → (Decimal.digits n).length + cs.length ≤ 11 →
    ItoaHolds (itoaLoop t i) (Decimal.digits n ++ cs) := by
  -- on the value; a turn takes its last digit off
  induction n using Nat.strong_induction_on with
  | _ n ih =>
    intro t cs i hi h hroom
    by_cases hn : n = 0
    · have hzero : i = 0 := Int32.toInt_inj.mp (by rw [hi, hn]; rfl)
      rw [itoaLoop, if_pos hzero, Decimal.digits_eq_nil_iff.mpr hn]
      exact h
    · have hne : i ≠ 0 := by
        rintro rfl
        have h0 : (0 : Int32).toInt = 0 := rfl
        omega
      have h10 : (10 : Int32).toInt = 10 := rfl
      have hdigit : UInt8.ofInt (48 - (i % 10).toInt) = Decimal.digitChar (n % 10) := by
        have hmod : (i % 10).toInt = -((n % 10 : Nat) : Int) := by
          rw [Int32.toInt_mod, h10, hi, Int.neg_tmod]
          rfl
        unfold Decimal.digitChar
        have hsum : ((48 - -((n % 10 : Nat) : Int)) % 2 ^ 8).toNat = 48 + n % 10 := by omega
        rw [UInt8.ofInt, hmod, hsum]
      have hdiv : (i / 10).toInt = -((n / 10 : Nat) : Int) := by
        rw [Int32.toInt_div_of_ne_right _ _ (by decide), h10, hi, Int.neg_tdiv]
        rfl
      have hstep := Decimal.digits_step hn
      have hlen := congrArg List.length hstep
      rw [List.length_append, List.length_singleton] at hlen
      have hchar : Decimal.digitChar (n % 10) ≠ 0 := by
        intro e
        have hval := Decimal.digitChar_toNat (Nat.mod_lt n (show 0 < 10 by decide))
        rw [e] at hval
        have h0 : (0 : UInt8).toNat = 0 := rfl
        omega
      rw [itoaLoop, if_neg hne, hdigit, hstep, List.append_assoc, List.singleton_append]
      exact ih (n / 10) (by omega) hdiv (h.put hchar (by omega)) (by rw [List.length_cons]; omega)

/-- **The buffer behind `itoa`** holds the decimal text. -/
theorem itoa_holds (bytes : Int → UInt8) (i : Int32) :
    ItoaHolds (itoa bytes i) (Decimal.text i.toInt) := by
  have hlow := i.le_toInt
  have hhigh := i.toInt_lt
  have hle : 0 ≤ i ↔ 0 ≤ i.toInt := Int32.le_iff_toInt_le
  have hstart : ItoaHolds ⟨Function.update bytes 11 0, 11, [11]⟩ [] := by
    have hnul : Function.update bytes 11 0 11 = 0 := Function.update_self _ _ _
    refine ⟨rfl, Nat.zero_le _, hnul, fun j hj => ?_⟩
    rw [List.mem_singleton.mp hj]
    decide
  have hval : (if 0 ≤ i then -i else i).toInt = -(i.toInt.natAbs : Int) := by
    split
    · rename_i hpos
      have hpos' := hle.mp hpos
      rw [Int32.toInt_neg, Int.bmod_eq_of_le (by omega) (by omega)]
      omega
    · rename_i hneg
      have hneg' := mt hle.mpr hneg
      omega
  have hlen : (Decimal.digits i.toInt.natAbs).length ≤ 10 :=
    (Decimal.digits_length_le_iff _ _).mpr (by omega)
  have hloop := itoaLoop_holds i.toInt.natAbs hval hstart (by rw [List.length_nil]; omega)
  rw [List.append_nil] at hloop
  -- behind the loop: the digit of 0, and the sign
  have hzero : (itoaLoop ⟨Function.update bytes 11 0, 11, [11]⟩ (if 0 ≤ i then -i else i)).loc =
      11 ↔ i.toInt.natAbs = 0 := by
    have hloc := hloop.loc
    rw [← Decimal.digits_eq_nil_iff, ← List.length_eq_zero_iff]
    omega
  unfold itoa Decimal.text Decimal.natText
  dsimp only
  generalize itoaLoop ⟨Function.update bytes 11 0, 11, [11]⟩ (if 0 ≤ i then -i else i) = t
    at hloop hzero ⊢
  by_cases h0 : i.toInt.natAbs = 0
  · rw [if_pos (hzero.mpr h0), if_pos h0, if_neg (show ¬ i.toInt < 0 by omega),
      if_neg (not_not.mpr (hle.mpr (by omega)))]
    rw [Decimal.digits_eq_nil_iff.mpr h0] at hloop
    exact hloop.put (by decide) (by decide)
  · rw [if_neg (mt hzero.mp h0), if_neg h0]
    by_cases hneg : i.toInt < 0
    · rw [if_pos hneg, if_pos (mt hle.mp (by omega))]
      exact hloop.put (by decide) (by omega)
    · rw [if_neg hneg, if_neg (not_not.mpr (hle.mpr (by omega)))]
      exact hloop

/-- The string that is returned. -/
theorem itoa_string (bytes : Int → UInt8) (i : Int32) :
    (itoa bytes i).string = Decimal.text i.toInt := by
  have h := itoa_holds bytes i
  unfold ItoaText.string
  rw [h.string.readString _ 12, List.take_of_length_le (Nat.le_succ_of_le h.fits)]

/-- **`itoa` returns the decimal text of its argument**, for every `int`: the text is canonical, and
    parsing it gives back the argument. It is written inside the buffer. -/
theorem itoa_decimal (bytes : Int → UInt8) (i : Int32) :
    CString (fun j => (itoa bytes i).bytes j) (itoa bytes i).loc.toNat (Decimal.text i.toInt) ∧
      0 ≤ (itoa bytes i).loc ∧ Decimal.Canonical (Decimal.text i.toInt) ∧
      Decimal.parse (Decimal.text i.toInt) = some i.toInt ∧
      ∀ j ∈ (itoa bytes i).written, 0 ≤ j ∧ j < 12 := by
  have h := itoa_holds bytes i
  have hloc := h.loc
  have hfits := h.fits
  exact ⟨h.string, by omega, Decimal.text_canonical _, Decimal.parse_text _, h.inside⟩

end Buffer

end PeachKernel
