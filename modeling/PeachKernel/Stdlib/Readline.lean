/-
  File:      PeachKernel/Stdlib/Readline.lean
  Subject:   `peachos_terminal_readline` of the programs' library: keys become a line.

  The loop counts the characters of the line in its index `i`. A backspace takes one off by setting
  the index two back, in front of the step of the loop. On an empty line there is none to take off:
  then the backspace itself is stored, as a character of the line.

  `out` is the buffer of the caller; `out j` is `out[j]` for every `int` index.

  * `peachosGetkeyblock`, `peachosTerminalReadline` -- the source functions; `getkey n` is the
    answer of the `n`-th `peachos_getkey`, and `none` a call that does not come back within the
    fuel;
  * `lineAfter`, `InputEnds` -- what the keys mean: the line behind some keys, and where input ends;
  * `storedLine` -- what the loop has stored: this line, with a backspace in front of it while an
    odd number of them has met the empty line (`storedLine_eq`);
  * `readlineLoop_run` -- the loop up to some key;
  * `readline_right_iff` -- the call gives the line that was typed exactly where such a backspace is
    taken off again before the input ends.
-/
import PeachKernel.Lib.CString

namespace PeachKernel

open Mem

/-! ## 1. The source functions -/

/-- `peachos_getkeyblock`: the first key from the `n`-th answer on, and the number of answers
    taken. -/
def peachosGetkeyblock (getkey : Nat → UInt8) : (fuel n : Nat) → Option (UInt8 × Nat)
  | 0, _ => none
  | fuel + 1, n => if getkey n = 0 then peachosGetkeyblock getkey fuel (n + 1) else
      some (getkey n, n + 1)

/-- The answers of `peachos_getkey` taken so far, the index of the loop, the buffer, and what
    `peachos_putchar` was given. -/
structure ReadlineState where
  taken : Nat
  i : Int
  out : Int → UInt8
  typed : List UInt8

/-- The loop of `peachos_terminal_readline`. -/
def readlineLoop (getkey : Nat → UInt8) (max : Int) (outputWhileTyping : Bool) :
    (fuel : Nat) → ReadlineState → Option ReadlineState
  | 0, _ => none
  | fuel + 1, s =>
    if s.i < max - 1 then
      match peachosGetkeyblock getkey (fuel + 1) s.taken with
      | none => none
      | some (key, taken) =>
        if key = 13 then some { s with taken := taken }
        else
          let typed := if outputWhileTyping then s.typed ++ [key] else s.typed
          if key = 0x08 ∧ 1 ≤ s.i then
            -- `i -= 2`, and the step of the loop
            readlineLoop getkey max outputWhileTyping fuel
              ⟨taken, s.i - 2 + 1, Function.update s.out (s.i - 1) 0, typed⟩
          else
            readlineLoop getkey max outputWhileTyping fuel
              ⟨taken, s.i + 1, Function.update s.out s.i key, typed⟩
    else some s

/-- `peachos_terminal_readline`. -/
def peachosTerminalReadline (fuel : Nat) (getkey : Nat → UInt8) (out : Int → UInt8) (max : Int)
    (outputWhileTyping : Bool) : Option ReadlineState :=
  (readlineLoop getkey max outputWhileTyping fuel ⟨0, 0, out, []⟩).map fun s =>
    { s with out := Function.update s.out s.i 0 }

/-! ## 2. What keys mean -/

/-- A key on a line: a backspace takes the last character off, if there is one. -/
def editKey (line : List UInt8) (key : UInt8) : List UInt8 :=
  if key = 0x08 then line.dropLast else line ++ [key]

/-- **The line behind the first `n` keys.** -/
def lineAfter (keys : Nat → UInt8) : Nat → List UInt8
  | 0 => []
  | n + 1 => editKey (lineAfter keys n) (keys n)

/-- The number of backspaces on the empty line, of the first `n` keys. -/
def blankBackspaces (keys : Nat → UInt8) : Nat → Nat
  | 0 => 0
  | n + 1 => blankBackspaces keys n + if keys n = 0x08 ∧ lineAfter keys n = [] then 1 else 0

/-- A key as the loop stores it. -/
def storeKey (line : List UInt8) (key : UInt8) : List UInt8 :=
  if key = 0x08 ∧ line ≠ [] then line.dropLast else line ++ [key]

/-- What the loop has stored behind the first `n` keys. -/
def storedLine (keys : Nat → UInt8) : Nat → List UInt8
  | 0 => []
  | n + 1 => storeKey (storedLine keys n) (keys n)

/-- **The stored line**: behind an odd number of backspaces on the empty line, one of them stands in
    front. -/
theorem storedLine_eq (keys : Nat → UInt8) (n : Nat) : storedLine keys n =
    if blankBackspaces keys n % 2 = 1 then 0x08 :: lineAfter keys n else lineAfter keys n := by
  induction n with
  | zero => rfl
  | succ n ih =>
    rw [storedLine, blankBackspaces, lineAfter, ih]
    by_cases hk : keys n = 0x08
    · have hedit : editKey (lineAfter keys n) (keys n) = (lineAfter keys n).dropLast := if_pos hk
      rw [hedit]
      by_cases hl : lineAfter keys n = []
      · -- the parity changes
        rw [if_pos (⟨hk, hl⟩ : keys n = 0x08 ∧ lineAfter keys n = []), hl, hk]
        rcases Nat.mod_two_eq_zero_or_one (blankBackspaces keys n) with hp | hp
        · rw [if_neg (by omega), if_pos (by omega)]
          rfl
        · rw [if_pos hp, if_neg (by omega)]
          rfl
      · rw [if_neg fun h : keys n = 0x08 ∧ lineAfter keys n = [] => hl h.2, Nat.add_zero]
        split
        · exact (if_pos ⟨hk, List.cons_ne_nil _ _⟩).trans (List.dropLast_cons_of_ne_nil hl)
        · exact if_pos ⟨hk, hl⟩
    · have hedit : editKey (lineAfter keys n) (keys n) = lineAfter keys n ++ [keys n] := if_neg hk
      have hstore : ∀ line, storeKey line (keys n) = line ++ [keys n] :=
        fun line => if_neg fun h => hk h.1
      rw [hedit, hstore, if_neg fun h : keys n = 0x08 ∧ lineAfter keys n = [] => hk h.1,
        Nat.add_zero]
      split <;> rfl

theorem storeKey_length_le (line : List UInt8) (key : UInt8) :
    (storeKey line key).length ≤ line.length + 1 := by
  unfold storeKey
  split
  · rw [List.length_dropLast]
    omega
  · rw [List.length_append]
    exact Nat.le_refl _

theorem storedLine_ne_zero {keys : Nat → UInt8} (hk : ∀ n, keys n ≠ 0) (n : Nat) :
    ∀ c ∈ storedLine keys n, c ≠ 0 := by
  induction n with
  | zero => exact fun c hc => absurd hc List.not_mem_nil
  | succ n ih =>
    intro c hc
    rw [storedLine, storeKey] at hc
    split at hc
    · exact ih c (List.dropLast_subset _ hc)
    · rcases List.mem_append.mp hc with hc | hc
      · exact ih c hc
      · rw [List.mem_singleton.mp hc]
        exact hk n

/-! ## 3. Where input ends -/

section Input

variable {lines : Nat → List UInt8} {keys : Nat → UInt8} {max : Int}

/-- Input goes on behind the first `n` keys, when `lines` are the lines behind them: no key was a
    carriage return, and none was asked for with a full line. -/
def InputGoes (lines : Nat → List UInt8) (keys : Nat → UInt8) (max : Int) (n : Nat) : Prop :=
  ∀ j, j < n → keys j ≠ 13 ∧ ((lines j).length : Int) < max - 1

/-- **Input ends** behind `taken` keys, with a line that is full or with a carriage return. -/
inductive InputEnds (lines : Nat → List UInt8) (keys : Nat → UInt8) (max : Int) :
    (taken : Nat) → (line : List UInt8) → Prop where
  | full {n : Nat} (h : InputGoes lines keys max n) (hf : ((lines n).length : Int) = max - 1) :
      InputEnds lines keys max n (lines n)
  | carriageReturn {n : Nat} (h : InputGoes lines keys max n)
      (hl : ((lines n).length : Int) < max - 1) (hk : keys n = 13) :
      InputEnds lines keys max (n + 1) (lines n)

theorem InputGoes.succ {n : Nat} (h : InputGoes lines keys max n) (hk : keys n ≠ 13)
    (hl : ((lines n).length : Int) < max - 1) : InputGoes lines keys max (n + 1) := by
  intro j hj
  rcases Nat.lt_succ_iff_lt_or_eq.mp hj with hj | rfl
  · exact h j hj
  · exact ⟨hk, hl⟩

theorem InputGoes.mono {n j : Nat} (h : InputGoes lines keys max n) (hj : j ≤ n) :
    InputGoes lines keys max j :=
  fun i hi => h i (Nat.lt_of_lt_of_le hi hj)

/-- The characters of a line that is typed. -/
theorem InputGoes.characters {n : Nat} (h : InputGoes (lineAfter keys) keys max n) :
    ∀ c ∈ lineAfter keys n, c ≠ 13 ∧ c ≠ 0x08 := by
  induction n with
  | zero => exact fun c hc => absurd hc List.not_mem_nil
  | succ n ih =>
    intro c hc
    have hline := ih (h.mono (Nat.le_succ n))
    rw [lineAfter, editKey] at hc
    split at hc
    · exact hline c (List.dropLast_subset _ hc)
    · rename_i hk
      rcases List.mem_append.mp hc with hc | hc
      · exact hline c hc
      · rw [List.mem_singleton.mp hc]
        exact ⟨(h n (Nat.lt_succ_self n)).1, hk⟩

/-- **Every backspace on the empty line finds its second**: while an odd number of them was typed,
    the line has two characters less than room is, and no carriage return comes. -/
def BlanksPaired (keys : Nat → UInt8) (max : Int) : Prop :=
  ∀ n, InputGoes (lineAfter keys) keys max n → blankBackspaces keys n % 2 = 1 →
    ((lineAfter keys n).length : Int) + 2 < max ∧ keys n ≠ 13

theorem lineAfter_length_le (keys : Nat → UInt8) (n : Nat) :
    (lineAfter keys n).length ≤ (storedLine keys n).length := by
  rw [storedLine_eq]
  split
  · exact Nat.le_succ _
  · exact Nat.le_refl _

/-- While what is stored goes on, so does what is typed. -/
theorem InputGoes.typed {n : Nat} (h : InputGoes (storedLine keys) keys max n) :
    InputGoes (lineAfter keys) keys max n := by
  intro j hj
  have hle := lineAfter_length_le keys j
  exact ⟨(h j hj).1, Int.lt_of_le_of_lt (by omega) (h j hj).2⟩

/-- ... and back, as long as the backspaces on the empty line are paired. -/
theorem InputGoes.stored {n : Nat} (h : InputGoes (lineAfter keys) keys max n)
    (hb : ∀ j, j < n → blankBackspaces keys j % 2 = 1 →
        ((lineAfter keys j).length : Int) + 2 < max) :
    InputGoes (storedLine keys) keys max n := by
  intro j hj
  refine ⟨(h j hj).1, ?_⟩
  rw [storedLine_eq]
  split
  · rename_i hp
    have := hb j hj hp
    rw [List.length_cons]
    omega
  · exact (h j hj).2

/-- Where the backspaces are paired, the input ends with the line that is stored. -/
theorem BlanksPaired.ends_iff (hb : BlanksPaired keys max) (taken : Nat) (line : List UInt8) :
    InputEnds (storedLine keys) keys max taken line ↔
    InputEnds (lineAfter keys) keys max taken line := by
  have heq : ∀ n, InputGoes (lineAfter keys) keys max n →
      (max ≤ ((lineAfter keys n).length : Int) + 2 ∨ keys n = 13) →
      storedLine keys n = lineAfter keys n := by
    intro n hg hend
    rw [storedLine_eq, if_neg]
    intro hp
    have := hb n hg hp
    rcases hend with h | h
    · omega
    · exact this.2 h
  have hle : ∀ n, (storedLine keys n).length ≤ (lineAfter keys n).length + 1 := by
    intro n
    rw [storedLine_eq]
    split
    · exact Nat.le_refl _
    · exact Nat.le_succ _
  have hstored : ∀ {n}, InputGoes (lineAfter keys) keys max n →
      InputGoes (storedLine keys) keys max n :=
    fun hg => hg.stored fun j hj hp => (hb j (hg.mono (Nat.le_of_lt hj)) hp).1
  constructor
  · rintro (⟨hg, hf⟩ | ⟨hg, hl, hk⟩)
    · have hline := heq _ hg.typed (Or.inl (by have := hle taken; omega))
      rw [hline] at hf ⊢
      exact .full hg.typed hf
    · have hline := heq _ hg.typed (Or.inr hk)
      rw [hline] at hl ⊢
      exact .carriageReturn hg.typed hl hk
  · rintro (⟨hg, hf⟩ | ⟨hg, hl, hk⟩)
    · have hline := heq _ hg (Or.inl (by omega))
      rw [← hline] at hf ⊢
      exact .full (hstored hg) hf
    · have hline := heq _ hg (Or.inr hk)
      rw [← hline] at hl ⊢
      exact .carriageReturn (hstored hg) hl hk

end Input

/-! ## 4. The loop -/

section Loop

variable {keys : Nat → UInt8} {max : Int} (typing : Bool) {out₀ : Int → UInt8}

/-- **Behind `n` keys** the index counts the characters of the stored line, and the buffer, that
    began as `out₀`, has them; outside its `max` bytes nothing changed. -/
structure StoresKeys (keys : Nat → UInt8) (max : Int) (out₀ : Int → UInt8) (n : Nat)
    (s : ReadlineState) : Prop where
  taken : s.taken = n
  index : s.i = (storedLine keys n).length
  bytes : ∀ (j : Nat) (h : j < (storedLine keys n).length), s.out j = (storedLine keys n)[j]
  outside : ∀ j : Int, j < 0 ∨ max ≤ j → s.out j = out₀ j

theorem peachosGetkeyblock_nonzero (hk : ∀ n, keys n ≠ 0) (fuel n : Nat) :
    peachosGetkeyblock keys (fuel + 1) n = some (keys n, n + 1) :=
  if_neg (hk n)

/-- **One turn of the loop** stores one key. -/
theorem readlineLoop_step (hk : ∀ n, keys n ≠ 0) {n : Nat} {s : ReadlineState}
    (hs : StoresKeys keys max out₀ n s) (hroom : ((storedLine keys n).length : Int) < max - 1)
    (hreturn : keys n ≠ 13) : ∃ s', StoresKeys keys max out₀ (n + 1) s' ∧ ∀ fuel,
      readlineLoop keys max typing (fuel + 1) s = readlineLoop keys max typing fuel s' := by
  have hi := hs.index
  by_cases hback : keys n = 0x08 ∧ 1 ≤ s.i
  · have hne : storedLine keys n ≠ [] := by
      intro h
      rw [hi, h] at hback
      exact absurd hback.2 (by decide)
    have hline : storedLine keys (n + 1) = (storedLine keys n).dropLast := if_pos ⟨hback.1, hne⟩
    have hpos : 0 < (storedLine keys n).length := List.length_pos_iff.mpr hne
    have hlen : (storedLine keys (n + 1)).length = (storedLine keys n).length - 1 := by
      rw [hline, List.length_dropLast]
    refine ⟨⟨n + 1, s.i - 2 + 1, Function.update s.out (s.i - 1) 0,
      if typing then s.typed ++ [keys n] else s.typed⟩, ⟨rfl, ?_, ?_, ?_⟩, fun fuel => ?_⟩
    · show s.i - 2 + 1 = _
      rw [hlen, hi]
      omega
    · intro j hj
      show Function.update s.out (s.i - 1) 0 j = _
      rw [hlen] at hj
      rw [Function.update_of_ne (by omega), hs.bytes j (by omega)]
      simp only [hline, List.getElem_dropLast]
    · intro j hj
      show Function.update s.out (s.i - 1) 0 j = _
      rw [Function.update_of_ne (by omega), hs.outside j hj]
    · rw [readlineLoop, if_pos (by omega), hs.taken, peachosGetkeyblock_nonzero hk]
      show (if keys n = 13 then _ else if keys n = 0x08 ∧ 1 ≤ s.i then _ else _) = _
      rw [if_neg hreturn, if_pos hback]
  · have hline : storedLine keys (n + 1) = storedLine keys n ++ [keys n] := by
      refine if_neg fun h => hback ⟨h.1, ?_⟩
      have := List.length_pos_iff.mpr h.2
      omega
    have hlen : (storedLine keys (n + 1)).length = (storedLine keys n).length + 1 := by
      rw [hline, List.length_append]
      rfl
    refine ⟨⟨n + 1, s.i + 1, Function.update s.out s.i (keys n),
      if typing then s.typed ++ [keys n] else s.typed⟩, ⟨rfl, ?_, ?_, ?_⟩, fun fuel => ?_⟩
    · show s.i + 1 = _
      rw [hlen, hi]
      rfl
    · intro j hj
      show Function.update s.out s.i (keys n) j = _
      rw [hlen] at hj
      simp only [hline]
      rcases Nat.lt_succ_iff_lt_or_eq.mp hj with hj | rfl
      · rw [Function.update_of_ne (by omega), hs.bytes j hj, List.getElem_append_left hj]
      · rw [← hi, Function.update_self, List.getElem_append_right (Nat.le_refl _)]
        simp
    · intro j hj
      show Function.update s.out s.i (keys n) j = _
      rw [Function.update_of_ne (by omega), hs.outside j hj]
    · rw [readlineLoop, if_pos (by omega), hs.taken, peachosGetkeyblock_nonzero hk]
      show (if keys n = 13 then _ else if keys n = 0x08 ∧ 1 ≤ s.i then _ else _) = _
      rw [if_neg hreturn, if_neg hback]

/-- **The loop up to some key.** -/
theorem readlineLoop_run (out₀ : Int → UInt8) (hk : ∀ n, keys n ≠ 0) (n : Nat) :
    InputGoes (storedLine keys) keys max n → ∃ s, StoresKeys keys max out₀ n s ∧ ∀ fuel,
      readlineLoop keys max typing (fuel + n)
        ⟨0, 0, out₀, []⟩ = readlineLoop keys max typing fuel s := by
  induction n with
  | zero =>
    intro _
    refine ⟨_, ⟨rfl, rfl, fun j hj => absurd hj (Nat.not_lt_zero j), fun j _ => rfl⟩,
      fun fuel => rfl⟩
  | succ n ih =>
    intro hg
    obtain ⟨s, hs, hrun⟩ := ih (hg.mono (Nat.le_succ n))
    obtain ⟨hreturn, hroom⟩ := hg n (Nat.lt_succ_self n)
    obtain ⟨s', hs', hstep⟩ := readlineLoop_step typing hk hs hroom hreturn
    refine ⟨s', hs', fun fuel => ?_⟩
    rw [show fuel + (n + 1) = fuel + 1 + n by omega, hrun, hstep]

/-- The loop never stores more characters than there is room for. -/
theorem InputGoes.stored_length (hmax : 1 ≤ max) {n : Nat}
    (h : InputGoes (storedLine keys) keys max n) :
    ((storedLine keys n).length : Int) ≤ max - 1 := by
  cases n with
  | zero =>
    show (0 : Int) ≤ max - 1
    omega
  | succ n =>
    have hroom := (h n (Nat.lt_succ_self n)).2
    have hle : (storedLine keys (n + 1)).length ≤ (storedLine keys n).length + 1 :=
      storeKey_length_le _ _
    omega

/-- **A stop of the loop**: some keys were taken, and what they stored is in the buffer. -/
structure StopsWith (max : Int) (out₀ : Int → UInt8) (taken : Nat) (cs : List UInt8)
    (s : ReadlineState) : Prop where
  taken : s.taken = taken
  index : s.i = cs.length
  bytes : ∀ (j : Nat) (h : j < cs.length), s.out j = cs[j]
  outside : ∀ j : Int, j < 0 ∨ max ≤ j → s.out j = out₀ j

/-- **The input of the loop ends**: so does the loop. -/
theorem readlineLoop_ends (out₀ : Int → UInt8) (hk : ∀ n, keys n ≠ 0) {taken : Nat}
    {line : List UInt8} (h : InputEnds (storedLine keys) keys max taken line) : ∃ fuel s,
      readlineLoop keys max typing fuel ⟨0, 0, out₀, []⟩ = some s ∧
      StopsWith max out₀ taken line s := by
  rcases h with ⟨hg, hf⟩ | ⟨hg, hl, hreturn⟩
  · obtain ⟨s, hs, hrun⟩ := readlineLoop_run typing out₀ hk _ hg
    refine ⟨1 + taken, s, ?_, ⟨hs.taken, hs.index, hs.bytes, hs.outside⟩⟩
    rw [hrun, readlineLoop, if_neg (by have := hs.index; omega)]
  · rename_i n
    obtain ⟨s, hs, hrun⟩ := readlineLoop_run typing out₀ hk _ hg
    refine ⟨1 + n, { s with taken := n + 1 }, ?_, ⟨rfl, hs.index, hs.bytes, hs.outside⟩⟩
    rw [hrun, readlineLoop, if_pos (by have := hs.index; omega), hs.taken,
      peachosGetkeyblock_nonzero hk]
    exact if_pos hreturn

/-- **A loop that comes back** does so at an end of its input. -/
theorem readlineLoop_returns (hk : ∀ n, keys n ≠ 0) (hmax : 1 ≤ max) (fuel : Nat) : ∀ {n : Nat}
    {s r : ReadlineState}, InputGoes (storedLine keys) keys max n → StoresKeys keys max out₀ n s →
    readlineLoop keys max typing fuel s = some r →
    ∃ line, InputEnds (storedLine keys) keys max r.taken line ∧
    StopsWith max out₀ r.taken line r := by
  induction fuel with
  | zero =>
    intro n s r _ _ hr
    cases hr
  | succ fuel ih =>
    intro n s r hg hs hr
    have hi := hs.index
    by_cases hroom : ((storedLine keys n).length : Int) < max - 1
    · by_cases hreturn : keys n = 13
      · rw [readlineLoop, if_pos (by omega), hs.taken, peachosGetkeyblock_nonzero hk] at hr
        obtain rfl := Option.some.inj ((if_pos hreturn).symm.trans hr)
        exact ⟨_, .carriageReturn hg hroom hreturn, ⟨rfl, hi, hs.bytes, hs.outside⟩⟩
      · obtain ⟨s', hs', hstep⟩ := readlineLoop_step typing hk hs hroom hreturn
        rw [hstep] at hr
        exact ih (hg.succ hreturn hroom) hs' hr
    · rw [readlineLoop, if_neg (by omega)] at hr
      obtain rfl := Option.some.inj hr
      have hfull : ((storedLine keys n).length : Int) = max - 1 := by
        have := hg.stored_length hmax
        omega
      have htaken := hs.taken
      refine ⟨storedLine keys n, ?_, ⟨rfl, hi, hs.bytes, hs.outside⟩⟩
      rw [htaken]
      exact .full hg hfull

end Loop

/-! ## 5. Calls -/

/-- **The buffer of the caller**, that began as `out₀`, holds the line with its NUL, within `max`
    bytes. -/
structure HoldsLine (out₀ : Int → UInt8) (max : Int) (line : List UInt8) (out : Int → UInt8) :
    Prop where
  string : CString (fun j => out j) 0 line
  room : (line.length : Int) < max
  noBackspace : 0x08 ∉ line
  noReturn : 13 ∉ line
  outside : ∀ j : Int, j < 0 ∨ max ≤ j → out j = out₀ j

/-- **The call reads a line**: where input ends it comes back, with the line behind the keys it
    took. -/
structure ReadsLine (keys : Nat → UInt8) (max : Int) (typing : Bool) (out₀ : Int → UInt8) :
    Prop where
  returns : ∀ taken line, InputEnds (lineAfter keys) keys max taken line → ∃ fuel r,
    peachosTerminalReadline fuel keys out₀ max typing = some r ∧ r.taken = taken ∧
    HoldsLine out₀ max line r.out
  right : ∀ fuel r, peachosTerminalReadline fuel keys out₀ max typing = some r →
    ∃ line, InputEnds (lineAfter keys) keys max r.taken line ∧ HoldsLine out₀ max line r.out

section Calls

variable {keys : Nat → UInt8} {max : Int} {typing : Bool} {out₀ : Int → UInt8}

/-- The NUL behind the loop ends the string. -/
theorem StopsWith.cString {taken : Nat} {line : List UInt8} {s : ReadlineState}
    (h : StopsWith max out₀ taken line s) (h0 : ∀ c ∈ line, c ≠ 0) :
    CString (fun j => Function.update s.out s.i 0 j) 0 line := by
  refine cString_of_bytes line h0 fun j hj => ?_
  rw [List.length_append, List.length_singleton] at hj
  show Function.update s.out s.i 0 ((0 + j : Nat) : Int) = _
  have hi := h.index
  rcases Nat.lt_succ_iff_lt_or_eq.mp hj with hj | rfl
  · rw [Function.update_of_ne (by omega), Nat.zero_add, h.bytes j hj, List.getD_eq_getElem?_getD,
      List.getElem?_append_left hj, List.getElem?_eq_getElem hj]
    rfl
  · rw [Nat.zero_add, ← hi, Function.update_self]
    simp

/-- A line that was typed, and is what the loop stored, is in the buffer of the caller. -/
theorem StopsWith.holdsLine (hk : ∀ n, keys n ≠ 0) {taken : Nat} {line : List UInt8}
    {s : ReadlineState} (h : StopsWith max out₀ taken line s)
    (he : InputEnds (lineAfter keys) keys max taken line)
    (hst : InputEnds (storedLine keys) keys max taken line) :
    HoldsLine out₀ max line (Function.update s.out s.i 0) := by
  have h0 : ∀ c ∈ line, c ≠ 0 := by
    rcases hst with ⟨-, -⟩ | ⟨-, -, -⟩ <;> exact storedLine_ne_zero hk _
  have hlen : (line.length : Int) < max := by
    rcases he with ⟨-, hf⟩ | ⟨-, hl, -⟩ <;> omega
  have hchars : ∀ c ∈ line, c ≠ 13 ∧ c ≠ 0x08 := by
    rcases he with ⟨hg, -⟩ | ⟨hg, -, -⟩ <;> exact hg.characters
  refine ⟨h.cString h0, hlen, fun hc => (hchars _ hc).2 rfl, fun hc => (hchars _ hc).1 rfl,
    fun j hj => ?_⟩
  have hi := h.index
  rw [Function.update_of_ne (by omega), h.outside j hj]

/-- Where the backspaces on the empty line are paired, the call reads a line. -/
theorem BlanksPaired.readsLine (hk : ∀ n, keys n ≠ 0) (hmax : 1 ≤ max)
    (hb : BlanksPaired keys max) : ReadsLine keys max typing out₀ := by
  constructor
  · intro taken line he
    have hst := (hb.ends_iff taken line).mpr he
    obtain ⟨fuel, s, hrun, hs⟩ := readlineLoop_ends typing out₀ hk hst
    refine ⟨fuel, _, congrArg _ hrun, hs.taken, hs.holdsLine hk he hst⟩
  · intro fuel r hr
    obtain ⟨s, hrun, rfl⟩ := Option.map_eq_some_iff.mp hr
    have hg : InputGoes (storedLine keys) keys max 0 := fun j hj => absurd hj (Nat.not_lt_zero j)
    have hs₀ : StoresKeys keys max out₀ 0 ⟨0, 0, out₀, []⟩ :=
      ⟨rfl, rfl, fun j hj => absurd hj (Nat.not_lt_zero j), fun j _ => rfl⟩
    obtain ⟨line, hst, hs⟩ := readlineLoop_returns typing hk hmax fuel hg hs₀ hrun
    have he := (hb.ends_iff s.taken line).mp hst
    exact ⟨line, he, hs.holdsLine hk he hst⟩

/-- **A backspace that is in front of the stored line** where its input ends: the call does not read
    a line. -/
theorem not_readsLine (hk : ∀ n, keys n ≠ 0) {taken : Nat} {line : List UInt8}
    (h : InputEnds (storedLine keys) keys max taken (0x08 :: line)) :
    ¬ ReadsLine keys max typing out₀ := by
  intro hr
  obtain ⟨fuel, s, hrun, hs⟩ := readlineLoop_ends typing out₀ hk h
  obtain ⟨line', -, hline⟩ := hr.right fuel _ (congrArg _ hrun)
  have hi : s.i = line.length + 1 := hs.index
  have hfirst : Function.update s.out s.i 0 0 = (0x08 : UInt8) := by
    rw [Function.update_of_ne (by omega)]
    exact hs.bytes 0 (Nat.succ_pos _)
  cases line' with
  | nil =>
    have hnul : Function.update s.out s.i 0 0 = (0 : UInt8) := hline.string
    exact absurd (hfirst.symm.trans hnul) (by decide)
  | cons c cs =>
    have hc : Function.update s.out s.i 0 0 = c := hline.string.1
    exact hline.noBackspace (by rw [← hfirst, hc]; exact List.mem_cons_self)

/-- **The call reads the line that was typed exactly where every backspace on the empty line finds
    its second.** -/
theorem readline_right_iff (hk : ∀ n, keys n ≠ 0) (hmax : 1 ≤ max) (typing : Bool)
    (out₀ : Int → UInt8) : ReadsLine keys max typing out₀ ↔ BlanksPaired keys max := by
  refine ⟨fun hr => ?_, fun hb => hb.readsLine hk hmax⟩
  -- at the first place where they are not paired the input of the loop ends
  intro n
  induction n using Nat.strong_induction_on with
  | _ n ih =>
    intro hg hp
    have hline : storedLine keys n = 0x08 :: lineAfter keys n := by rw [storedLine_eq, if_pos hp]
    have hst := hg.stored fun j hj hpj => (ih j hj (hg.mono (Nat.le_of_lt hj)) hpj).1
    have hle := hst.stored_length hmax
    rw [hline, List.length_cons] at hle
    by_contra hbad
    by_cases hroom : ((lineAfter keys n).length : Int) + 2 < max
    · have hreturn : keys n = 13 := by
        by_contra h
        exact hbad ⟨hroom, h⟩
      have hend := InputEnds.carriageReturn hst (by rw [hline, List.length_cons]; omega) hreturn
      rw [hline] at hend
      exact not_readsLine hk hend hr
    · have hend := InputEnds.full hst (by rw [hline, List.length_cons]; omega)
      rw [hline] at hend
      exact not_readsLine hk hend hr

end Calls

/-- Keys, and then carriage returns. -/
def keysOf (typed : List UInt8) (n : Nat) : UInt8 := typed.getD n 13

theorem keysOf_ne_zero {typed : List UInt8} (h : 0 ∉ typed) (n : Nat) : keysOf typed n ≠ 0 := by
  unfold keysOf
  rw [List.getD_eq_getElem?_getD]
  cases hn : typed[n]? with
  | none => exact fun e => absurd e (by decide)
  | some c => exact fun e => h (e ▸ List.mem_of_getElem? hn)

/-- `lx`, a backspace and `s` are read as `ls`. -/
theorem readline_right_iff_letters :
    ReadsLine (keysOf [0x6C, 0x78, 0x08, 0x73]) 1024 true (fun _ => 0) := by
  refine (readline_right_iff (keysOf_ne_zero (by decide)) (by decide) _ _).mpr ?_
  intro n hg hp
  -- no key behind the carriage return is taken
  have hn : n ≤ 4 := by
    by_contra h
    exact (hg 4 (by omega)).1 rfl
  have hodd : ∀ m, m ≤ 4 → blankBackspaces (keysOf [0x6C, 0x78, 0x08, 0x73]) m % 2 ≠ 1 := by
    decide
  exact absurd hp (hodd n hn)

/-- A backspace on the empty line, and a carriage return: the line is a backspace. -/
theorem readline_stores_backspace :
    (peachosTerminalReadline 2 (keysOf [0x08]) (fun _ => 0xFF) 1024 true).map
      (fun r => (r.taken, r.out 0, r.out 1)) = some (2, 0x08, 0) ∧
    InputEnds (lineAfter (keysOf [0x08])) (keysOf [0x08]) 1024 2 [] ∧
    ¬ ReadsLine (keysOf [0x08]) 1024 true (fun _ => 0xFF) := by
  have hstored : InputEnds (storedLine (keysOf [0x08])) (keysOf [0x08]) 1024 2 [0x08] := by
    refine .carriageReturn (fun j hj => ?_) (by decide) rfl
    obtain rfl : j = 0 := by omega
    decide
  refine ⟨by decide +kernel, ?_, not_readsLine (keysOf_ne_zero (by decide)) hstored⟩
  refine .carriageReturn (fun j hj => ?_) (by decide) rfl
  obtain rfl : j = 0 := by omega
  decide

end PeachKernel
