/-
  File:      PeachKernel/Stdlib/Printf.lean
  Subject:   `printf` of the programs' library.

  The loop over the format steps on in its head, and once more in front of a conversion's character.
  A `%` that ends the format makes the second step go to the NUL; it is put out like any other
  character, and the step in the head goes behind it.

  * `printf` -- the source function: what it puts out, and the addresses of the format it reads;
    `none` is a call that does not come back within the fuel, or finds no argument for a conversion;
  * `formatPieces`, `render` -- what a format means;
  * `OpenEnd` -- the format ends with a `%` that no character follows: an odd number of them stands
    there;
  * `printf_right_iff` -- the call comes back, reads the format only, and puts out what it means,
    exactly where it does not end so.
-/
import PeachKernel.Stdlib.Itoa
import Mathlib.Data.List.TakeWhile

namespace PeachKernel

open Mem

/-! ## 1. The source function -/

/-- `'%'`. -/
def percent : UInt8 := 0x25

/-- An argument: an `int`, or a `char *` with the characters of its string. -/
inductive PrintfArg where
  | int (ival : Int32)
  | string (sval : List UInt8)

/-- `va_arg(ap, int)`. -/
def vaArgInt : List PrintfArg → Option (Int32 × List PrintfArg)
  | .int ival :: ap => some (ival, ap)
  | _ => none

/-- `va_arg(ap, char *)`. -/
def vaArgString : List PrintfArg → Option (List UInt8 × List PrintfArg)
  | .string sval :: ap => some (sval, ap)
  | _ => none

/-- The loop of `printf` from `p` on; `text` is the buffer of `itoa`. Behind it: the characters that
    `putchar` and `print` are given, and the addresses at which the format was read. -/
def printfLoop (m : Mem) : (fuel p : Nat) → (ap : List PrintfArg) → (text : Int → UInt8) →
    Option (List UInt8 × List Nat)
  | 0, _, _, _ => none
  | fuel + 1, p, ap, text =>
    if m p = 0 then some ([], [p])
    else if m p ≠ percent then
      (printfLoop m fuel (p + 1) ap text).map fun r => (m p :: r.1, p :: r.2)
    else if m (p + 1) = 0x69 then
      match vaArgInt ap with
      | none => none
      | some (ival, ap) =>
        let t := itoa text ival
        (printfLoop m fuel (p + 2) ap t.bytes).map fun r => (t.string ++ r.1, p :: (p + 1) :: r.2)
    else if m (p + 1) = 0x73 then
      match vaArgString ap with
      | none => none
      | some (sval, ap) =>
        (printfLoop m fuel (p + 2) ap text).map fun r => (sval ++ r.1, p :: (p + 1) :: r.2)
    else
      (printfLoop m fuel (p + 2) ap text).map fun r => (m (p + 1) :: r.1, p :: (p + 1) :: r.2)

def printf (fuel : Nat) (m : Mem) (fmt : Nat) (ap : List PrintfArg) (text : Int → UInt8) :
    Option (List UInt8 × List Nat) :=
  printfLoop m fuel fmt ap text

/-! ## 2. Formats -/

/-- A piece of a format: a character, also one behind a `%`, or a conversion. -/
inductive Piece where
  | char (c : UInt8)
  | int
  | string

/-- What the character behind a `%` stands for. -/
def conversion (c : UInt8) : Piece :=
  if c = 0x69 then .int else if c = 0x73 then .string else .char c

/-- The pieces of a format; a `%` at its end is none. -/
def formatPieces : List UInt8 → List Piece
  | [] => []
  | [c] => if c = percent then [] else [.char c]
  | c :: d :: cs =>
    if c = percent then conversion d :: formatPieces cs else .char c :: formatPieces (d :: cs)

/-- **What a format means** for its arguments; `none` where these do not match the conversions. -/
def render : List Piece → List PrintfArg → Option (List UInt8)
  | [], _ => some []
  | .char c :: pieces, args => (render pieces args).map (c :: ·)
  | .int :: pieces, .int ival :: args => (render pieces args).map (Decimal.text ival.toInt ++ ·)
  | .string :: pieces, .string sval :: args => (render pieces args).map (sval ++ ·)
  | _, _ => none

/-- The number of `%` that end a format. -/
def trailingPercents (cs : List UInt8) : Nat := (cs.reverse.takeWhile (· = percent)).length

/-- **The last `%` of the format has no character behind it.** -/
def OpenEnd (cs : List UInt8) : Prop := trailingPercents cs % 2 = 1

instance (cs : List UInt8) : Decidable (OpenEnd cs) := inferInstanceAs (Decidable (_ = _))

theorem trailingPercents_cons (c : UInt8) (cs : List UInt8) : trailingPercents (c :: cs) =
    if trailingPercents cs = cs.length ∧ c = percent then cs.length + 1 else
        trailingPercents cs := by
  unfold trailingPercents
  rw [List.reverse_cons, List.takeWhile_append, List.length_reverse]
  by_cases hall : (cs.reverse.takeWhile (· = percent)).length = cs.length
  · by_cases hc : c = percent
    · rw [if_pos hall, if_pos ⟨hall, hc⟩, List.takeWhile_cons_of_pos (by simpa using hc)]
      simp
    · rw [if_pos hall, if_neg fun h => hc h.2, List.takeWhile_cons_of_neg (by simpa using hc)]
      simp [hall]
  · rw [if_neg hall, if_neg fun h => hall h.1]

theorem trailingPercents_le (cs : List UInt8) : trailingPercents cs ≤ cs.length := by
  unfold trailingPercents
  refine Nat.le_trans (List.takeWhile_prefix _).length_le ?_
  rw [List.length_reverse]

/-- A character that is no `%`, -/
theorem openEnd_char {c : UInt8} (hc : c ≠ percent) (cs : List UInt8) :
    OpenEnd (c :: cs) ↔ OpenEnd cs := by
  unfold OpenEnd
  rw [trailingPercents_cons, if_neg fun h => hc h.2]

/-- ... and a `%` with any character behind it, change nothing at the end. -/
theorem openEnd_pair (d : UInt8) (cs : List UInt8) : OpenEnd (percent :: d :: cs) ↔ OpenEnd cs := by
  have hle := trailingPercents_le cs
  unfold OpenEnd
  rw [trailingPercents_cons, trailingPercents_cons, List.length_cons]
  by_cases h : trailingPercents cs = cs.length ∧ d = percent
  · rw [if_pos h, if_pos ⟨rfl, rfl⟩, h.1]
    omega
  · rw [if_neg h, if_neg fun h' => absurd h'.1 (by omega)]

/-- **The shapes of a format**: its end, a single `%`, a character, and a `%` with one behind it. -/
theorem format_cases {P : List UInt8 → Prop} (nil : P []) (single : P [percent])
    (char : ∀ c cs, c ≠ percent → P cs → P (c :: cs))
    (pair : ∀ d cs, P cs → P (percent :: d :: cs)) : ∀ cs, P cs
  | [] => nil
  | [c] => if hc : c = percent then hc ▸ single else char c [] hc nil
  | c :: d :: cs =>
    if hc : c = percent then hc ▸ pair d cs (format_cases nil single char pair cs)
    else char c (d :: cs) hc (format_cases nil single char pair (d :: cs))

theorem formatPieces_char {c : UInt8} (hc : c ≠ percent) (cs : List UInt8) :
    formatPieces (c :: cs) = .char c :: formatPieces cs := by
  cases cs with
  | nil => exact if_neg hc
  | cons d cs => exact if_neg hc

/-! ## 3. Runs -/

section Runs

variable {m : Mem}

/-- The turn of a character, -/
theorem printfLoop_char {p fuel : Nat} {ap : List PrintfArg} {text : Int → UInt8} (h0 : m p ≠ 0)
    (hc : m p ≠ percent) : printfLoop m (fuel + 1) p ap text =
      (printfLoop m fuel (p + 1) ap text).map fun r => (m p :: r.1, p :: r.2) := by
  rw [printfLoop, if_neg h0, if_pos hc]

/-- ... and of a `%`, whose conversion puts out `piece` and leaves the arguments `rest`. -/
theorem printfLoop_percent {p : Nat} (fuel : Nat) {ap : List PrintfArg} {pieces : List Piece}
    (text : Int → UInt8) {out : List UInt8} (hp : m p = percent)
    (hout : render (conversion (m (p + 1)) :: pieces) ap = some out) :
    ∃ piece rest out' text', out = piece ++ out' ∧ render pieces rest = some out' ∧
      printfLoop m (fuel + 1) p ap text =
        (printfLoop m fuel (p + 2) rest text').map fun r =>
          (piece ++ r.1, p :: (p + 1) :: r.2) := by
  have h0 : m p ≠ 0 := by
    rw [hp]
    decide
  rw [printfLoop, if_neg h0, if_neg (not_not.mpr hp)]
  unfold conversion at hout
  by_cases hi : m (p + 1) = 0x69
  · rw [if_pos hi] at hout ⊢
    cases ap with
    | nil => cases hout
    | cons a rest =>
      cases a with
      | string sval => cases hout
      | int ival =>
        obtain ⟨out', hrest, rfl⟩ := Option.map_eq_some_iff.mp hout
        refine ⟨_, rest, out', (itoa text ival).bytes, rfl, hrest, ?_⟩
        rw [← itoa_string text ival]
        rfl
  · rw [if_neg hi] at hout ⊢
    by_cases hs : m (p + 1) = 0x73
    · rw [if_pos hs] at hout ⊢
      cases ap with
      | nil => cases hout
      | cons a rest =>
        cases a with
        | int ival => cases hout
        | string sval =>
          obtain ⟨out', hrest, rfl⟩ := Option.map_eq_some_iff.mp hout
          exact ⟨sval, rest, out', text, rfl, hrest, rfl⟩
    · rw [if_neg hs] at hout ⊢
      obtain ⟨out', hrest, rfl⟩ := Option.map_eq_some_iff.mp hout
      exact ⟨[m (p + 1)], ap, out', text, rfl, hrest, rfl⟩

/-- **A format that does not end open**: the loop puts out what it means, and reads up to its
    NUL. -/
theorem printfLoop_closed (cs : List UInt8) : ∀ {p fuel : Nat} {ap : List PrintfArg}
    {text : Int → UInt8} {out : List UInt8}, CString m p cs → ¬ OpenEnd cs →
    render (formatPieces cs) ap = some out → cs.length < fuel →
    ∃ reads, printfLoop m fuel p ap text = some (out, reads) ∧ ∀ a ∈ reads, a ≤ p + cs.length := by
  induction cs using format_cases with
  | nil =>
    intro p fuel ap text out h _ hout hf
    obtain ⟨fuel, rfl⟩ := Nat.exists_eq_succ_of_ne_zero (Nat.ne_of_gt hf)
    have hnul : m p = 0 := h
    obtain rfl := Option.some.inj hout
    refine ⟨[p], ?_, fun a ha => by rw [List.mem_singleton.mp ha]; exact Nat.le_refl _⟩
    rw [printfLoop, if_pos hnul]
  | single =>
    intro p fuel ap text out _ hopen
    exact absurd (show OpenEnd [percent] by decide) hopen
  | char c cs hc ih =>
    intro p fuel ap text out h hopen hout hf
    obtain ⟨fuel, rfl⟩ := Nat.exists_eq_succ_of_ne_zero (Nat.ne_of_gt (Nat.zero_lt_of_lt hf))
    obtain ⟨hp, h0, hrest⟩ := h
    rw [formatPieces_char hc] at hout
    obtain ⟨out', hout', rfl⟩ := Option.map_eq_some_iff.mp hout
    obtain ⟨reads, hrun, hreads⟩ := @ih _ _ _ text _ hrest (mt (openEnd_char hc cs).mpr hopen) hout'
      (Nat.lt_of_succ_lt_succ hf)
    refine ⟨p :: reads, ?_, fun a ha => ?_⟩
    · rw [printfLoop_char (by rwa [hp]) (by rwa [hp]), hrun, hp]
      rfl
    · rw [List.length_cons]
      rcases List.mem_cons.mp ha with rfl | ha
      · omega
      · have := hreads a ha
        omega
  | pair d cs ih =>
    intro p fuel ap text out h hopen hout hf
    obtain ⟨fuel, rfl⟩ := Nat.exists_eq_succ_of_ne_zero (Nat.ne_of_gt (Nat.zero_lt_of_lt hf))
    obtain ⟨hp, -, hd, -, hrest⟩ := h
    have hout' : render (conversion (m (p + 1)) :: formatPieces cs) ap = some out := by
      rw [hd]
      exact hout
    obtain ⟨piece, rest, out', text', rfl, hrender, hturn⟩ := printfLoop_percent fuel text hp hout'
    rw [List.length_cons, List.length_cons] at hf
    obtain ⟨reads, hrun, hreads⟩ :=
      @ih _ _ _ text' _ hrest (mt (openEnd_pair d cs).mpr hopen) hrender
      (show cs.length < fuel by omega)
    refine ⟨p :: (p + 1) :: reads, ?_, fun a ha => ?_⟩
    · rw [hturn, hrun]
      rfl
    · rw [List.length_cons, List.length_cons]
      rcases List.mem_cons.mp ha with rfl | ha
      · omega
      · rcases List.mem_cons.mp ha with rfl | ha
        · omega
        · have := hreads a ha
          omega

/-- **One turn of a call that comes back**: the NUL, a character, or a `%` and what is behind it. -/
theorem printfLoop_cases {p fuel : Nat} {ap : List PrintfArg} {text : Int → UInt8}
    {r : List UInt8 × List Nat} (h : printfLoop m (fuel + 1) p ap text = some r) :
    (m p = 0 ∧ r.2 = [p]) ∨
    (m p ≠ 0 ∧ m p ≠ percent ∧ ∃ r', printfLoop m fuel (p + 1) ap text = some r' ∧
        r.2 = p :: r'.2) ∨
    (m p = percent ∧ ∃ rest text' r', printfLoop m fuel (p + 2) rest text' = some r' ∧
      r.2 = p :: (p + 1) :: r'.2) := by
  rw [printfLoop] at h
  by_cases h0 : m p = 0
  · rw [if_pos h0] at h
    exact Or.inl ⟨h0, by rw [← Option.some.inj h]⟩
  rw [if_neg h0] at h
  by_cases hc : m p ≠ percent
  · rw [if_pos hc] at h
    obtain ⟨r', hr', rfl⟩ := Option.map_eq_some_iff.mp h
    exact Or.inr (Or.inl ⟨h0, hc, r', hr', rfl⟩)
  rw [if_neg hc] at h
  refine Or.inr (Or.inr ⟨not_not.mp hc, ?_⟩)
  split at h
  · split at h
    · cases h
    · obtain ⟨r', hr', rfl⟩ := Option.map_eq_some_iff.mp h
      exact ⟨_, _, r', hr', rfl⟩
  · split at h
    · split at h
      · cases h
      · obtain ⟨r', hr', rfl⟩ := Option.map_eq_some_iff.mp h
        exact ⟨_, _, r', hr', rfl⟩
    · obtain ⟨r', hr', rfl⟩ := Option.map_eq_some_iff.mp h
      exact ⟨_, _, r', hr', rfl⟩

/-- The first byte that a call reads is the one it starts at. -/
theorem printfLoop_reads_start {p fuel : Nat} {ap : List PrintfArg} {text : Int → UInt8}
    {r : List UInt8 × List Nat} (h : printfLoop m fuel p ap text = some r) : p ∈ r.2 := by
  cases fuel with
  | zero => cases h
  | succ fuel =>
    rcases printfLoop_cases h with ⟨-, e⟩ | ⟨-, -, r', -, e⟩ | ⟨-, rest, text', r', -, e⟩
    all_goals
      rw [e]
      exact List.mem_cons_self

/-- **A format that ends open** is read behind its NUL. -/
theorem printfLoop_open (cs : List UInt8) : ∀ {p fuel : Nat} {ap : List PrintfArg}
    {text : Int → UInt8} {r : List UInt8 × List Nat}, CString m p cs → OpenEnd cs →
    printfLoop m fuel p ap text = some r → p + cs.length + 1 ∈ r.2 := by
  induction cs using format_cases with
  | nil =>
    intro p fuel ap text r _ hopen
    exact absurd hopen (by decide)
  | single =>
    intro p fuel ap text r h _ hr
    cases fuel with
    | zero => cases hr
    | succ fuel =>
      rcases printfLoop_cases hr with ⟨h0, -⟩ | ⟨-, hc, -⟩ | ⟨-, rest, text', r', hr', e⟩
      · exact absurd (h.1.symm.trans h0) (by decide)
      · exact absurd h.1 hc
      · -- the head of the loop goes on behind the NUL
        rw [e]
        exact List.mem_cons_of_mem _ (List.mem_cons_of_mem _ (printfLoop_reads_start hr'))
  | char c cs hc ih =>
    intro p fuel ap text r h hopen hr
    obtain ⟨hp, h0, hrest⟩ := h
    cases fuel with
    | zero => cases hr
    | succ fuel =>
      rcases printfLoop_cases hr with ⟨h0', -⟩ | ⟨-, -, r', hr', e⟩ | ⟨hpc, -⟩
      · exact absurd (hp.symm.trans h0') h0
      · rw [e, List.length_cons, show p + (cs.length + 1) + 1 = p + 1 + cs.length + 1 by omega]
        exact List.mem_cons_of_mem _ (ih hrest ((openEnd_char hc cs).mp hopen) hr')
      · exact absurd (hp.symm.trans hpc) hc
  | pair d cs ih =>
    intro p fuel ap text r h hopen hr
    obtain ⟨hp, hp0, -, -, hrest⟩ := h
    cases fuel with
    | zero => cases hr
    | succ fuel =>
      rcases printfLoop_cases hr with ⟨h0, -⟩ | ⟨-, hc, -⟩ | ⟨-, rest, text', r', hr', e⟩
      · exact absurd (hp.symm.trans h0) hp0
      · exact absurd hp hc
      · rw [e, List.length_cons, List.length_cons,
          show p + (cs.length + 1 + 1) + 1 = p + 2 + cs.length + 1 by omega]
        exact List.mem_cons_of_mem _
          (List.mem_cons_of_mem _ (ih hrest ((openEnd_pair d cs).mp hopen) hr'))

end Runs

/-! ## 4. Calls -/

/-- **The call is right**: it comes back, puts out what the format means, and reads no byte of it
    behind its NUL. -/
def PrintfRight (m : Mem) (fmt : Nat) (cs : List UInt8) (ap : List PrintfArg) (text : Int → UInt8)
    (out : List UInt8) : Prop :=
  ∃ fuel reads, printf fuel m fmt ap text = some (out, reads) ∧ ∀ a ∈ reads, a ≤ fmt + cs.length

/-- **A call with matching arguments is right exactly where no single `%` ends the format.** -/
theorem printf_right_iff {m : Mem} {fmt : Nat} {cs : List UInt8} (h : CString m fmt cs)
    {ap : List PrintfArg} {out : List UInt8} (hout : render (formatPieces cs) ap = some out)
    (text : Int → UInt8) : PrintfRight m fmt cs ap text out ↔ ¬ OpenEnd cs := by
  constructor
  · rintro ⟨fuel, reads, hrun, hreads⟩ hopen
    have := hreads _ (printfLoop_open cs h hopen hrun)
    omega
  · intro hopen
    obtain ⟨reads, hrun, hreads⟩ := printfLoop_closed cs h hopen hout (Nat.lt_succ_self _)
    exact ⟨_, reads, hrun, hreads⟩

/-- A format in a program. -/
def formatAt (cs : List UInt8) : Mem := copyIn (fun _ => 0) 0x400000 (cs ++ [0])

/-- `printf("a%i%%", -7)`. -/
theorem printf_right_iff_int : PrintfRight (formatAt [0x61, 0x25, 0x69, 0x25, 0x25]) 0x400000
    [0x61, 0x25, 0x69, 0x25, 0x25] [.int (-7)] (fun _ => 0) [0x61, 0x2D, 0x37, 0x25] := by
  refine (printf_right_iff (copyIn_cString _ (by simp) (by decide)) ?_ _).mpr (by decide)
  have htext : Decimal.text (-7 : Int32).toInt = [0x2D, 0x37] := by decide +kernel
  show some (0x61 :: (Decimal.text (-7 : Int32).toInt ++ [0x25])) = _
  rw [htext]
  rfl

/-- `printf("%")` puts the NUL out, and reads the byte behind it. -/
theorem printf_overruns :
    printf 2 (formatAt [0x25]) 0x400000 []
      (fun _ => 0) = some ([0], [0x400000, 0x400001, 0x400002]) ∧
    render (formatPieces [0x25]) [] = some [] ∧
    ¬ PrintfRight (formatAt [0x25]) 0x400000 [0x25] [] (fun _ => 0) [] := by
  have hfmt : CString (formatAt [0x25]) 0x400000 [0x25] :=
    copyIn_cString _ (by simp) (by decide)
  refine ⟨by decide +kernel, rfl, ?_⟩
  rintro ⟨fuel, reads, hrun, hreads⟩
  exact absurd (hreads _ (printfLoop_open [0x25] hfmt (by decide) hrun)) (by decide)

end PeachKernel
