/-
  File:      PeachKernel/Stdlib/Command.lean
  Subject:   `peachos_parse_command` of the programs' library: a command line becomes a list of
             arguments, through `strtok`.

  `strtok` keeps a cursor in a global, and takes up a new string only where the cursor is null. The
  cursor becomes null when the string is used up. `peachos_parse_command` calls it until then,
  except where an allocation fails: it returns at once, and the cursor still points into its buffer,
  which is gone. The next call finds the cursor there and never looks at its own command.

  * `strtok`, `peachosParseCommand` -- the source functions; `fuel` bounds their loops, `none` is a
    call that does not come back within it;
  * `commandWords`, `commandArguments` -- what a command line means: its words, as far as
    allocations were granted;
  * `strtok_next` -- one call takes a word off the string; `peachosParseCommand_null` -- with a null
    cursor a call gives the arguments of its command;
  * `parseCommand_independent_iff` -- a call leaves the next one to its own command exactly where
    none of its allocations failed.
-/
import PeachKernel.Lib.CString
import Mathlib.Data.List.TakeWhile

namespace PeachKernel

open Mem

/-! ## 1. The source functions -/

/-- The loop of `strtok` that skips delimiters. -/
def skipDelimiters (m : Mem) (delimiters : List UInt8) : (fuel pStart : Nat) → Option Nat
  | 0, _ => none
  | fuel + 1, pStart =>
    if m pStart ∈ delimiters then skipDelimiters m delimiters fuel (pStart + 1) else some pStart

/-- The loop that finds the end of the token, and cuts the string there; memory and cursor behind
    it. -/
def findTokenEnd (delimiters : List UInt8) : (fuel : Nat) → Mem → (sp : Nat) → Option (Mem × Nat)
  | 0, _, _ => none
  | fuel + 1, m, sp =>
    if m sp = 0 then some (m, sp)
    else if m sp ∈ delimiters then some (Function.update m sp 0, sp + 1)
    else findTokenEnd delimiters fuel m (sp + 1)

/-- `strtok`: the token (0 where there is none), memory and the cursor. -/
def strtok (fuel : Nat) (m : Mem) (sp str : Nat) (delimiters : List UInt8) :
    Option (Nat × Mem × Nat) :=
  if str = 0 ∧ sp = 0 then some (0, m, sp)
  else
    let sp := if str ≠ 0 ∧ sp = 0 then str else sp
    match skipDelimiters m delimiters fuel sp with
    | none => none
    | some pStart =>
      if m pStart = 0 then some (0, m, 0)
      else (findTokenEnd delimiters fuel m pStart).map fun r => (pStart, r.1, r.2)

/-- `" "`. -/
def space : List UInt8 := [0x20]

/-- The loop over the further tokens; `ok k` says whether the `k`-th `peachos_malloc` of the call
    succeeds. The arguments are those behind the last one so far. -/
def argumentsLoop (ok : Nat → Bool) : (fuel k token : Nat) → Mem → (sp : Nat) →
    Option (List (List UInt8) × Nat)
  | 0, _, _, _, _ => none
  | fuel + 1, k, token, m, sp =>
    if token = 0 then some ([], sp)
    else if ok k = false then some ([], sp)
    else
      let argument := readString m 511 token
      match strtok fuel m sp 0 space with
      | none => none
      | some (token, m, sp) =>
        (argumentsLoop ok fuel (k + 1) token m sp).map fun r => (argument :: r.1, r.2)

/-- `peachos_parse_command`, with its buffer `scommand` at an address of the stack: the arguments
    (none where it returns null) and the cursor behind it. -/
def peachosParseCommand (fuel : Nat) (m : Mem) (sp scommand : Nat) (command : List UInt8)
    (max : Int) (ok : Nat → Bool) : Option (List (List UInt8) × Nat) :=
  if 1025 ≤ max then some ([], sp)
  else
    let m := copyIn m scommand ((command.takeWhile (· ≠ 0)).take 1024 ++ [0])
    match strtok fuel m sp scommand space with
    | none => none
    | some (token, m, sp) =>
      if token = 0 then some ([], sp)
      else if ok 0 = false then some ([], sp)
      else
        let argument := readString m 511 token
        match strtok fuel m sp 0 space with
        | none => none
        | some (token, m, sp) =>
          (argumentsLoop ok fuel 1 token m sp).map fun r => (argument :: r.1, r.2)

/-! ## 2. Words -/

/-- The words of a line, between its delimiters. -/
def splitWords (delimiters cs : List UInt8) : List (List UInt8) :=
  (cs.splitOnP (· ∈ delimiters)).filter (· ≠ [])

/-- The words of a command, as far as the buffer holds it. -/
def commandWords (command : List UInt8) : List (List UInt8) :=
  splitWords space ((command.takeWhile (· ≠ 0)).take 1024)

/-- The words, cut to the size of an argument, up to the first allocation that fails. -/
def grantedArguments (ok : Nat → Bool) : (k : Nat) → List (List UInt8) → List (List UInt8)
  | _, [] => []
  | k, w :: ws => if ok k then w.take 511 :: grantedArguments ok (k + 1) ws else []

/-- **What a call answers**, as far as it concerns the call: a function of its command, and of
    whether its own allocations succeed. -/
def commandArguments (command : List UInt8) (max : Int) (ok : Nat → Bool) : List (List UInt8) :=
  if 1025 ≤ max then [] else grantedArguments ok 0 (commandWords command)

section Words

variable {delimiters : List UInt8}

/-- A delimiter in front makes no word. -/
theorem splitWords_cons {c : UInt8} (h : c ∈ delimiters) (cs : List UInt8) :
    splitWords delimiters (c :: cs) = splitWords delimiters cs := by
  unfold splitWords
  have hnil : ∀ x ∈ ([] : List UInt8), decide (x ∈ delimiters) = false := by simp
  have hsplit := List.splitOnP_append_cons_of_forall_mem hnil c (decide_eq_true h) cs
  rw [List.nil_append] at hsplit
  rw [hsplit, List.filter_cons_of_neg (by simp)]

/-- A word with a delimiter behind it. -/
theorem splitWords_word {w : List UInt8} (hw : ∀ c ∈ w, c ∉ delimiters) (hne : w ≠ []) {d : UInt8}
    (hd : d ∈ delimiters) (cs : List UInt8) :
    splitWords delimiters (w ++ d :: cs) = w :: splitWords delimiters cs := by
  unfold splitWords
  rw [List.splitOnP_append_cons_of_forall_mem (fun c hc => decide_eq_false (hw c hc)) d
    (decide_eq_true hd), List.filter_cons_of_pos (by simpa using hne)]

/-- The last word. -/
theorem splitWords_last {w : List UInt8} (hw : ∀ c ∈ w, c ∉ delimiters) (hne : w ≠ []) :
    splitWords delimiters w = [w] := by
  unfold splitWords
  rw [List.splitOnP_eq_singleton fun c hc => decide_eq_false (hw c hc)]
  simp [hne]

theorem splitWords_append {ds : List UInt8} (h : ∀ d ∈ ds, d ∈ delimiters) (cs : List UInt8) :
    splitWords delimiters (ds ++ cs) = splitWords delimiters cs := by
  induction ds with
  | nil => rfl
  | cons d ds ih =>
    rw [List.cons_append, splitWords_cons (h d List.mem_cons_self)]
    exact ih fun d' h' => h d' (List.mem_cons_of_mem _ h')

/-- **A line is delimiters, a word, and the rest**: `ds` are the delimiters in front, `w` the word,
    and the rest is empty or starts with a delimiter. -/
structure FirstWord (delimiters cs ds w rest : List UInt8) : Prop where
  line : cs = ds ++ (w ++ rest)
  front : ∀ d ∈ ds, d ∈ delimiters
  word : ∀ c ∈ w, c ∉ delimiters
  ne : w ≠ []
  behind : rest = [] ∨ ∃ d cs', rest = d :: cs' ∧ d ∈ delimiters

theorem firstWord_cases (delimiters cs : List UInt8) :
    (∀ c ∈ cs, c ∈ delimiters) ∨ ∃ ds w rest, FirstWord delimiters cs ds w rest := by
  induction cs with
  | nil => exact Or.inl fun c hc => absurd hc List.not_mem_nil
  | cons c cs ih =>
    by_cases hc : c ∈ delimiters
    · rcases ih with h | ⟨ds, w, rest, h⟩
      · exact Or.inl fun c' h' => (List.mem_cons.mp h').elim (fun e => e ▸ hc) (h c')
      · refine Or.inr ⟨c :: ds, w,
          rest, by rw [h.line]; rfl, fun d hd => ?_, h.word, h.ne, h.behind⟩
        exact (List.mem_cons.mp hd).elim (fun e => e ▸ hc) (h.front d)
    · have hword : ∀ {w : List UInt8}, (∀ x ∈ w, x ∉ delimiters) → ∀ x ∈ c :: w, x ∉ delimiters :=
        fun hw x hx => (List.mem_cons.mp hx).elim (fun e => e ▸ hc) (hw x)
      refine Or.inr ⟨[], ?_⟩
      cases cs with
      | nil => exact ⟨[c], [], rfl, fun _ h => absurd h List.not_mem_nil,
          hword fun _ h => absurd h List.not_mem_nil, List.cons_ne_nil _ _, Or.inl rfl⟩
      | cons c' cs =>
        by_cases hc' : c' ∈ delimiters
        · exact ⟨[c], c' :: cs, rfl, fun _ h => absurd h List.not_mem_nil,
            hword fun _ h => absurd h List.not_mem_nil, List.cons_ne_nil _ _,
            Or.inr ⟨c', cs, rfl, hc'⟩⟩
        · rcases ih with h | ⟨ds, w, rest, h⟩
          · exact absurd (h c' List.mem_cons_self) hc'
          · -- no delimiter stands in front of the word that goes on
            have hds : ds = [] := by
              cases ds with
              | nil => rfl
              | cons d ds =>
                have e := (List.cons.inj h.line).1
                exact absurd (h.front d List.mem_cons_self) (e ▸ hc')
            refine ⟨c :: w, rest, ?_, fun _ h => absurd h List.not_mem_nil, hword h.word,
              List.cons_ne_nil _ _, h.behind⟩
            rw [h.line, hds]
            rfl

/-- The words behind the first one. -/
theorem FirstWord.words {cs ds w rest : List UInt8} (h : FirstWord delimiters cs ds w rest) :
    splitWords delimiters cs = w :: splitWords delimiters rest.tail := by
  rw [h.line, splitWords_append h.front]
  rcases h.behind with rfl | ⟨d, cs', rfl, hd⟩
  · rw [List.append_nil, splitWords_last h.word h.ne]
    rfl
  · exact splitWords_word h.word h.ne hd cs'

theorem splitWords_none {cs : List UInt8} (h : ∀ c ∈ cs, c ∈ delimiters) :
    splitWords delimiters cs = [] := by
  have := splitWords_append h []
  rw [List.append_nil] at this
  rw [this]
  simp [splitWords]

end Words

/-! ## 3. Tokens -/

section Tokens

variable {m : Mem} {delimiters : List UInt8}

theorem skipDelimiters_run (ds : List UInt8) : ∀ {p fuel : Nat} {rest : List UInt8},
    CString m p (ds ++ rest) → (∀ d ∈ ds, d ∈ delimiters) → m (p + ds.length) ∉ delimiters →
    ds.length < fuel → skipDelimiters m delimiters fuel p = some (p + ds.length) := by
  induction ds with
  | nil =>
    intro p fuel rest _ _ hend hf
    obtain ⟨fuel, rfl⟩ : ∃ n, fuel = n + 1 := ⟨fuel - 1, by omega⟩
    exact if_neg hend
  | cons d ds ih =>
    intro p fuel rest h hds hend hf
    obtain ⟨fuel, rfl⟩ : ∃ n, fuel = n + 1 := ⟨fuel - 1, by omega⟩
    rw [List.length_cons] at hend hf ⊢
    have hshift : p + (ds.length + 1) = p + 1 + ds.length := by omega
    rw [hshift] at hend ⊢
    rw [skipDelimiters, if_pos (by rw [h.1]; exact hds d List.mem_cons_self)]
    exact ih h.2.2 (fun d' h' => hds d' (List.mem_cons_of_mem _ h')) hend (by omega)

theorem findTokenEnd_run (w : List UInt8) : ∀ {p fuel : Nat} {rest : List UInt8},
    CString m p (w ++ rest) → (∀ c ∈ w, c ∉ delimiters) → w.length < fuel →
    (rest = [] ∨ ∃ d cs', rest = d :: cs' ∧ d ∈ delimiters) →
    findTokenEnd delimiters fuel m p = some (if rest = [] then (m, p + w.length)
      else (Function.update m (p + w.length) 0, p + w.length + 1)) := by
  induction w with
  | nil =>
    intro p fuel rest h _ hf hrest
    obtain ⟨fuel, rfl⟩ : ∃ n, fuel = n + 1 := ⟨fuel - 1, by omega⟩
    rcases hrest with rfl | ⟨d, cs', rfl, hd⟩
    · have hnul : m p = 0 := h
      rw [findTokenEnd, if_pos hnul, if_pos rfl]
      rfl
    · rw [findTokenEnd, if_neg (by rw [h.1]; exact h.2.1), if_pos (by rw [h.1]; exact hd),
        if_neg (List.cons_ne_nil _ _)]
      rfl
  | cons c w ih =>
    intro p fuel rest h hw hf hrest
    obtain ⟨fuel, rfl⟩ : ∃ n, fuel = n + 1 := ⟨fuel - 1, by omega⟩
    rw [List.length_cons] at hf ⊢
    have hc : m p = c := h.1
    rw [findTokenEnd, if_neg (by rw [hc]; exact h.2.1),
      if_neg (by rw [hc]; exact hw c List.mem_cons_self),
      ih h.2.2 (fun c' h' => hw c' (List.mem_cons_of_mem _ h')) (by omega) hrest,
      show p + 1 + w.length = p + (w.length + 1) by omega]

/-- **What a call of `strtok` leaves for the rest of a line**, whose end is at `last`: no token and
    a null cursor where no word is left; else the first word at the token, and the others behind the
    cursor, which lies behind `first`. -/
inductive TokenState (delimiters : List UInt8) (first last : Nat) :
    List (List UInt8) → (token : Nat) → Mem → (sp : Nat) → Prop where
  | done (m : Mem) : TokenState delimiters first last [] 0 m 0
  | word {w cs : List UInt8} {token sp : Nat} {m : Mem} (ht : token ≠ 0) (hw : CString m token w)
      (hs : CString m sp cs) (h1 : first < sp) (h2 : sp + cs.length = last) :
      TokenState delimiters first last (w :: splitWords delimiters cs) token m sp

/-- **One call** takes a word off the string at `p`, where the cursor is, or the null cursor is set
    to. -/
theorem strtok_next {fuel sp str p : Nat} {cs : List UInt8} (h : CString m p cs)
    (h0 : 0 ∉ delimiters) (hp : p ≠ 0) (hcur : sp = p ∨ (sp = 0 ∧ str = p))
    (hf : cs.length < fuel) :
    ∃ token m' sp', strtok fuel m sp str delimiters = some (token, m', sp') ∧
      TokenState delimiters p (p + cs.length) (splitWords delimiters cs) token m' sp' := by
  have hstart : ¬ (str = 0 ∧ sp = 0) := by omega
  have hsp : (if str ≠ 0 ∧ sp = 0 then str else sp) = p := by
    rcases hcur with e | ⟨e1, e2⟩
    · rw [if_neg fun hc => hp (e ▸ hc.2), e]
    · rw [if_pos ⟨e2 ▸ hp, e1⟩, e2]
  unfold strtok
  rw [if_neg hstart]
  dsimp only
  rw [hsp]
  rcases firstWord_cases delimiters cs with hall | ⟨ds, w, rest, hfirst⟩
  · -- delimiters only, up to the NUL
    have hline : CString m p (cs ++ []) := by rwa [List.append_nil]
    have hnul : m (p + cs.length) = 0 := hline.drop
    have hskip := skipDelimiters_run cs hline hall (by rw [hnul]; exact h0) hf
    rw [hskip]
    dsimp only
    rw [if_pos hnul, splitWords_none hall]
    exact ⟨0, m, 0, rfl, .done m⟩
  · have hline := h
    rw [hfirst.line] at hline
    have hlen := congrArg List.length hfirst.line
    rw [List.length_append, List.length_append] at hlen
    have hq := hline.drop
    obtain ⟨c, w', hcw⟩ : ∃ c w', w = c :: w' := List.exists_cons_of_ne_nil hfirst.ne
    have hc : m (p + ds.length) = c ∧ c ≠ 0 := by
      rw [hcw] at hq
      exact ⟨hq.1, hq.2.1⟩
    have hwpos : 0 < w.length := List.length_pos_iff.mpr hfirst.ne
    have hskip := skipDelimiters_run ds hline hfirst.front
      (by rw [hc.1]; exact hfirst.word c (hcw ▸ List.mem_cons_self))
        (show ds.length < fuel by omega)
    have hend := findTokenEnd_run w hq hfirst.word (show w.length < fuel by omega) hfirst.behind
    rw [hskip]
    dsimp only
    rw [if_neg (by rw [hc.1]; exact hc.2), hend, hfirst.words]
    rcases hfirst.behind with hnil | ⟨d, cs', hrest, hd⟩
    · rw [if_pos hnil]
      rw [hnil, List.append_nil] at hq
      have hdrop : CString m (p + ds.length + w.length) [] :=
        (show CString m (p + ds.length) (w ++ []) by rwa [List.append_nil]).drop
      rw [hnil] at hlen ⊢
      refine ⟨_, _, _, rfl, .word (by omega) hq hdrop (by omega) ?_⟩
      rw [List.length_nil] at hlen
      show p + ds.length + w.length + 0 = p + cs.length
      omega
    · rw [if_neg (by rw [hrest]; exact List.cons_ne_nil _ _)]
      rw [hrest] at hq hlen ⊢
      rw [List.length_cons] at hlen
      have hbehind : CString m (p + ds.length + w.length + 1) cs' := hq.drop.2.2
      refine ⟨_, _, _, rfl, .word (by omega) hq.cut
        (hbehind.congr cs' fun a h1 _ => Function.update_of_ne (by omega) _ _) (by omega) ?_⟩
      rw [List.tail_cons]
      omega

theorem TokenState.behind {first first' last token sp : Nat} {ws : List (List UInt8)}
    (h : TokenState delimiters first last ws token m sp) (hle : first' ≤ first) :
    TokenState delimiters first' last ws token m sp := by
  cases h with
  | done => exact .done m
  | word ht hw hs h1 h2 => exact .word ht hw hs (Nat.lt_of_le_of_lt hle h1) h2

/-- The state of the next call has less of the line ahead. -/
theorem TokenState.sp_lt {first last token sp : Nat} {ws : List (List UInt8)}
    (h : TokenState delimiters first last ws token m sp) (h0 : sp ≠ 0) : first < sp := by
  cases h with
  | done => exact absurd rfl h0
  | word ht hw hs h1 h2 => exact h1

end Tokens

/-! ## 4. A call with a null cursor -/

theorem zero_not_mem_space : (0 : UInt8) ∉ space := by decide

/-- The loop gives the words as arguments, as far as they are granted. The cursor is null behind it
    where all of them were, else it is still in the line. -/
theorem argumentsLoop_words (ok : Nat → Bool) {first last : Nat} (fuel : Nat) :
    ∀ {k token sp : Nat} {m : Mem} {ws : List (List UInt8)},
      TokenState space first last ws token m sp → (sp ≠ 0 → last + 1 < sp + fuel) → 0 < fuel →
      ∃ sp', argumentsLoop ok fuel k token m sp = some (grantedArguments ok k ws, sp') ∧
        ((∀ j, j < ws.length → ok (k + j) = true) → sp' = 0) ∧
        ((¬ ∀ j, j < ws.length → ok (k + j) = true) → first < sp' ∧ sp' ≤ last) := by
  induction fuel with
  | zero =>
    intro k token sp m ws _ _ h
    exact absurd h (Nat.lt_irrefl 0)
  | succ fuel ih =>
    intro k token sp m ws h hf _
    rw [argumentsLoop]
    cases h with
    | done =>
      exact ⟨0, if_pos rfl, fun _ => rfl,
        fun hno => absurd (fun j hj => absurd hj (Nat.not_lt_zero j)) hno⟩
    | @word w cs token sp m ht hw hs h1 h2 =>
      rw [if_neg ht]
      cases hok : ok k with
      | false =>
        -- the call returns here, and leaves the cursor where it is
        refine ⟨sp, by rw [if_pos rfl, grantedArguments, hok]; rfl, fun hall => ?_,
          fun _ => by omega⟩
        have := hall 0 (Nat.succ_pos _)
        rw [Nat.add_zero, hok] at this
        cases this
      | true =>
        have hsp : sp ≠ 0 := by omega
        have hf' := hf hsp
        have hlt : cs.length < fuel := by omega
        have hcur : sp = sp ∨ (sp = 0 ∧ 0 = sp) := Or.inl rfl
        obtain ⟨token', m', sp', hnext, hstate⟩ := strtok_next hs zero_not_mem_space hsp hcur hlt
        rw [h2] at hstate
        obtain ⟨sp'', hloop, hnull, hleft⟩ := ih (k := k + 1) (hstate.behind (Nat.le_of_lt h1))
          (fun h => by have := hstate.sp_lt h; omega) (by omega)
        rw [if_neg (by decide)]
        dsimp only
        rw [hnext]
        dsimp only
        rw [hloop]
        have hshift : (∀ j, j < (w :: splitWords space cs).length → ok (k + j) = true) ↔
            ∀ j, j < (splitWords space cs).length → ok (k + 1 + j) = true := by
          constructor
          · intro hall j hj
            rw [Nat.add_assoc, Nat.add_comm 1 j]
            exact hall (j + 1) (Nat.succ_lt_succ hj)
          · intro hall j hj
            cases j with
            | zero => exact hok
            | succ j =>
              rw [← Nat.add_assoc, Nat.add_right_comm]
              exact hall j (Nat.lt_of_succ_lt_succ hj)
        rw [hshift]
        refine ⟨sp'', ?_, hnull, hleft⟩
        rw [Option.map_some, grantedArguments, hok, if_pos rfl, hw.readString w 511]

/-- None of the allocations that a call makes fails. -/
def AllGranted (command : List UInt8) (max : Int) (ok : Nat → Bool) : Prop :=
  1025 ≤ max ∨ ∀ k, k < (commandWords command).length → ok k = true

theorem commandBuffer_ne_zero (command : List UInt8) :
    ∀ c ∈ (command.takeWhile (· ≠ 0)).take 1024, c ≠ 0 := by
  intro c hc
  have := List.mem_takeWhile_imp (List.mem_of_mem_take hc)
  simpa using this

/-- **A call with a null cursor** answers the arguments of its own command. Behind it the cursor is
    null again where no allocation failed, else it points into the buffer. -/
theorem peachosParseCommand_null {fuel scommand : Nat} (hf : 1030 ≤ fuel) (h0 : scommand ≠ 0)
    (hb : scommand + 1025 ≤ 4294967296) (m : Mem) (command : List UInt8) (max : Int)
    (ok : Nat → Bool) :
    ∃ sp, peachosParseCommand fuel m 0 scommand command max ok =
        some (commandArguments command max ok, sp) ∧
      (AllGranted command max ok → sp = 0) ∧
      (¬ AllGranted command max ok → scommand < sp ∧ sp ≤ scommand + 1024) := by
  unfold peachosParseCommand commandArguments AllGranted
  by_cases hmax : 1025 ≤ max
  · rw [if_pos hmax, if_pos hmax]
    exact ⟨0, rfl, fun _ => rfl, fun hno => absurd (Or.inl hmax) hno⟩
  rw [if_neg hmax, if_neg hmax]
  have hgranted : (1025 ≤ max ∨ ∀ k, k < (commandWords command).length → ok k = true) ↔
      ∀ k, k < (commandWords command).length → ok k = true := or_iff_right hmax
  rw [hgranted]
  unfold commandWords
  have hchars := commandBuffer_ne_zero command
  have hlen : ((command.takeWhile (· ≠ 0)).take 1024).length ≤ 1024 := List.length_take_le _ _
  generalize (command.takeWhile (· ≠ 0)).take 1024 = cs at hchars hlen ⊢
  have hstr : CString (copyIn m scommand (cs ++ [0])) scommand cs :=
    copyIn_cString m hchars (by rw [List.length_append, List.length_singleton]; omega)
  have hlt : cs.length < fuel := by omega
  have hcur : (0 : Nat) = scommand ∨ ((0 : Nat) = 0 ∧ scommand = scommand) := Or.inr ⟨rfl, rfl⟩
  obtain ⟨token, m₁, sp₁, hnext, hstate⟩ := strtok_next hstr zero_not_mem_space h0 hcur hlt
  obtain ⟨sp, hloop, hnull, hleft⟩ := argumentsLoop_words ok (fuel + 1) (k := 0) hstate
    (fun h => by have := hstate.sp_lt h; omega) (Nat.succ_pos _)
  simp only [Nat.zero_add] at hnull hleft
  dsimp only
  rw [hnext]
  -- the rest of the call is a turn of the loop
  exact ⟨sp, hloop, hnull, fun hno => ⟨(hleft hno).1, by have := (hleft hno).2; omega⟩⟩

/-! ## 5. One call after another -/

/-- A call in a program: memory as the program left it, where the stack has the buffer, the
    arguments, and which of its allocations succeed. -/
structure CommandCall where
  mem : Mem
  scommand : Nat
  command : List UInt8
  max : Int
  ok : Nat → Bool
  scommand_pos : scommand ≠ 0
  scommand_bound : scommand + 1025 ≤ 4294967296

def CommandCall.run (fuel : Nat) (call : CommandCall) (sp : Nat) :
    Option (List (List UInt8) × Nat) :=
  peachosParseCommand fuel call.mem sp call.scommand call.command call.max call.ok

/-- None of its allocations fails. -/
def CommandCall.Granted (call : CommandCall) : Prop := AllGranted call.command call.max call.ok

/-- What it answers, if it is left to itself. -/
def CommandCall.arguments (call : CommandCall) : List (List UInt8) :=
  commandArguments call.command call.max call.ok

/-- The cursor behind some calls. -/
def cursorAfter (fuel : Nat) : List CommandCall → (sp : Nat) → Option Nat
  | [], sp => some sp
  | call :: calls, sp =>
    match call.run fuel sp with
    | none => none
    | some (_, sp) => cursorAfter fuel calls sp

/-- **Calls whose allocations succeed** leave the cursor null. -/
theorem cursorAfter_granted {fuel : Nat} (hf : 1030 ≤ fuel) (calls : List CommandCall)
    (h : ∀ call ∈ calls, call.Granted) (more : List CommandCall) :
    cursorAfter fuel (calls ++ more) 0 = cursorAfter fuel more 0 := by
  induction calls with
  | nil => rfl
  | cons call calls ih =>
    obtain ⟨sp, hrun, hnull, -⟩ := peachosParseCommand_null hf call.scommand_pos call.scommand_bound
      call.mem call.command call.max call.ok
    have hsp := hnull (h call List.mem_cons_self)
    have hrun' : call.run fuel 0 = some (call.arguments, 0) := hsp ▸ hrun
    rw [List.cons_append, cursorAfter, hrun']
    exact ih fun c hc => h c (List.mem_cons_of_mem _ hc)

/-- A command of `n` letters, parsed in a buffer whose `n`-th byte the cursor is at: it finds the
    NUL, and no argument. -/
def lettersCall (call : CommandCall) (n : Nat) : CommandCall :=
  { call with command := List.replicate n 0x61, max := 0, ok := fun _ => true }

theorem letters_buffer {n : Nat} (h : n ≤ 1024) :
    ((List.replicate n (0x61 : UInt8)).takeWhile (· ≠ 0)).take 1024 = List.replicate n 0x61 := by
  rw [List.takeWhile_eq_self_iff.mpr fun c hc => by rw [List.eq_of_mem_replicate hc]; decide]
  exact List.take_of_length_le (by rwa [List.length_replicate])

theorem lettersCall_arguments (call : CommandCall) {n : Nat} (h1 : 1 ≤ n) (h2 : n ≤ 1024) :
    (lettersCall call n).arguments ≠ [] := by
  have hne : List.replicate n (0x61 : UInt8) ≠ [] := by
    intro e
    have := congrArg List.length e
    rw [List.length_replicate, List.length_nil] at this
    omega
  have hwords : commandWords (List.replicate n 0x61) = [List.replicate n 0x61] := by
    unfold commandWords
    rw [letters_buffer h2]
    exact splitWords_last (fun c hc => by rw [List.eq_of_mem_replicate hc]; decide) hne
  show commandArguments (List.replicate n 0x61) 0 (fun _ => true) ≠ []
  rw [commandArguments, if_neg (by decide), hwords]
  exact List.cons_ne_nil _ _

theorem lettersCall_run {fuel : Nat} (hf : 1030 ≤ fuel) (call : CommandCall) {n : Nat} (h1 : 1 ≤ n)
    (h2 : n ≤ 1024) : (lettersCall call n).run fuel (call.scommand + n) = some ([], 0) := by
  have hb := call.scommand_bound
  have hstr : CString (copyIn call.mem call.scommand (List.replicate n 0x61 ++ [0])) call.scommand
      (List.replicate n 0x61 ++ []) := by
    rw [List.append_nil]
    refine copyIn_cString call.mem (fun c hc => by rw [List.eq_of_mem_replicate hc]; decide) ?_
    rw [List.length_append, List.length_replicate, List.length_singleton]
    omega
  have hnul := hstr.drop
  rw [List.length_replicate] at hnul
  have hcur : call.scommand + n = call.scommand + n ∨
      (call.scommand + n = 0 ∧ call.scommand = call.scommand + n) := Or.inl rfl
  have hlt : ([] : List UInt8).length < fuel := by
    rw [List.length_nil]
    omega
  obtain ⟨token, m', sp', hnext, hstate⟩ := strtok_next hnul zero_not_mem_space
    (by have := call.scommand_pos; omega) hcur hlt
  rw [splitWords_none fun c hc => absurd hc List.not_mem_nil] at hstate
  show peachosParseCommand fuel call.mem (call.scommand + n) call.scommand (List.replicate n 0x61) 0
    (fun _ => true) = some ([], 0)
  unfold peachosParseCommand
  rw [if_neg (by decide), letters_buffer h2]
  dsimp only
  rw [hnext]
  cases hstate
  rfl

/-- **A call leaves the next one to its own command exactly where none of its allocations failed**,
    behind any calls of which the same is true. -/
theorem parseCommand_independent_iff {fuel : Nat} (hf : 1030 ≤ fuel) (earlier : List CommandCall)
    (he : ∀ call ∈ earlier, call.Granted) (first : CommandCall) :
    ∃ sp, cursorAfter fuel (earlier ++ [first]) 0 = some sp ∧
      ((∀ second : CommandCall, (second.run fuel sp).map Prod.fst = some second.arguments) ↔
        first.Granted) := by
  obtain ⟨sp, hrun, hnull, hleft⟩ := peachosParseCommand_null hf first.scommand_pos
    first.scommand_bound first.mem first.command first.max first.ok
  have hrun' : first.run fuel 0 = some (first.arguments, sp) := hrun
  refine ⟨sp, by rw [cursorAfter_granted hf earlier he, cursorAfter, hrun']; rfl, fun hall => ?_,
    fun hg second => ?_⟩
  · by_contra hno
    obtain ⟨h1, h2⟩ := hleft hno
    obtain ⟨n, rfl⟩ : ∃ n, sp = first.scommand + n := ⟨sp - first.scommand, by omega⟩
    have hn := hall (lettersCall first n)
    rw [lettersCall_run hf first (by omega) (by omega)] at hn
    exact lettersCall_arguments first (n := n) (by omega) (by omega) (Option.some.inj hn).symm
  · rw [hnull hg]
    obtain ⟨sp', hrun', -⟩ := peachosParseCommand_null hf second.scommand_pos second.scommand_bound
      second.mem second.command second.max second.ok
    show (peachosParseCommand fuel second.mem 0 second.scommand second.command second.max
      second.ok).map Prod.fst = _
    rw [hrun']
    rfl

/-- A call with the buffer on the program's stack. -/
def stackCall (command : List UInt8) (ok : Nat → Bool) : CommandCall :=
  ⟨fun _ => 0, 0x3FE000, command, 1024, ok, by decide, by decide⟩

/-- `ls` and then `ps`, with memory for both. -/
theorem parseCommand_independent_two :
    ∃ sp, cursorAfter 2000 [stackCall [0x6C, 0x73] fun _ => true] 0 = some sp ∧
    ((stackCall [0x70, 0x73] fun _ => true).run 2000 sp).map Prod.fst = some [[0x70, 0x73]] := by
  obtain ⟨sp, hsp, hiff⟩ := parseCommand_independent_iff (show 1030 ≤ 2000 by decide) []
    (fun _ h => absurd h List.not_mem_nil) (stackCall [0x6C, 0x73] fun _ => true)
  exact ⟨sp, hsp, hiff.mpr (Or.inr fun _ _ => rfl) (stackCall [0x70, 0x73] fun _ => true)⟩

/-- **`ls -a` without memory, then `x`** in the same place of the stack, where the first call has
    cut its command behind `ls`: the second call answers the argument `-a` of the first. -/
theorem parseCommand_takes_over : ∃ sp,
    cursorAfter 2000 [stackCall [0x6C, 0x73, 0x20, 0x2D, 0x61] fun _ => false] 0 = some sp ∧
    (⟨copyIn (fun _ => 0) 0x3FE000 [0x6C, 0x73, 0, 0x2D, 0x61, 0], 0x3FE000, [0x78], 1024,
      fun _ => true, by decide, by decide⟩ : CommandCall).run 2000 sp = some ([[0x2D, 0x61]], 0) ∧
    commandArguments [0x78] 1024 (fun _ => true) = [[0x78]] := by
  refine ⟨0x3FE003, ?_, ?_, ?_⟩
  · decide +kernel
  · decide +kernel
  · decide +kernel

end PeachKernel
