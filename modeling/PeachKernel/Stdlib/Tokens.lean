/-
  File:      PeachKernel/Stdlib/Tokens.lean
  Subject:   A string taken apart with `strtok`, up to its null.

  The first call is given the string, every further one null, until a call returns null. Each call
  writes one NUL at most, over the delimiter behind its token.

  * `strtokUntilNull` -- these calls;
  * `strtok_frame` -- what one call writes;
  * `Tokenized` -- the tokens of a string, and memory behind the calls;
  * `strtokUntilNull_words` -- the calls end, and give the words of the string;
  * `strtok_words` -- so do they from a null cursor, and `peachosParseCommand` with them.
-/
import PeachKernel.Stdlib.Command

namespace PeachKernel

open Mem

/-- `strtok(str, delimiters)`, and `strtok(NULL, delimiters)` until it returns null: the tokens,
    memory and the cursor. -/
def strtokUntilNull (fuel : Nat) (delimiters : List UInt8) : (calls : Nat) → Mem → (sp str : Nat) →
    Option (List Nat × Mem × Nat)
  | 0, _, _, _ => none
  | calls + 1, m, sp, str =>
    match strtok fuel m sp str delimiters with
    | none => none
    | some (token, m, sp) =>
      if token = 0 then some ([], m, sp)
      else (strtokUntilNull fuel delimiters calls m sp 0).map fun r => (token :: r.1, r.2)

/-! ## 1. What one call writes -/

section Frame

variable {delimiters : List UInt8}

theorem skipDelimiters_le {m : Mem} (fuel : Nat) : ∀ {p q : Nat},
    skipDelimiters m delimiters fuel p = some q → p ≤ q := by
  induction fuel with
  | zero =>
    intro p q h
    cases h
  | succ fuel ih =>
    intro p q h
    rw [skipDelimiters] at h
    split at h
    · exact Nat.le_of_succ_le (ih h)
    · exact Nat.le_of_eq (Option.some.inj h)

/-- Memory `m'` is `m` with NULs over some delimiters from `lo` on and in front of `hi`. -/
def CutsDelimiters (delimiters : List UInt8) (lo hi : Nat) (m m' : Mem) : Prop :=
  ∀ a, m' a = m a ∨ (m a ∈ delimiters ∧ m' a = 0 ∧ lo ≤ a ∧ a < hi)

theorem CutsDelimiters.mono {lo hi lo' hi' : Nat} {m m' : Mem}
    (h : CutsDelimiters delimiters lo hi m m') (hlo : lo' ≤ lo) (hhi : hi ≤ hi') :
    CutsDelimiters delimiters lo' hi' m m' := by
  intro a
  rcases h a with e | ⟨hd, h0, h1, h2⟩
  · exact Or.inl e
  · exact Or.inr ⟨hd, h0, Nat.le_trans hlo h1, Nat.lt_of_lt_of_le h2 hhi⟩

/-- What is a delimiter behind some cuts was one before. -/
theorem CutsDelimiters.trans (h0 : 0 ∉ delimiters) {lo hi : Nat} {m m' m'' : Mem}
    (h : CutsDelimiters delimiters lo hi m m') (h' : CutsDelimiters delimiters lo hi m' m'') :
    CutsDelimiters delimiters lo hi m m'' := by
  intro a
  rcases h' a with e' | ⟨hd, hz, h1, h2⟩
  · rw [e']
    exact h a
  · rcases h a with e | ⟨-, hz', -, -⟩
    · exact Or.inr ⟨e ▸ hd, hz, h1, h2⟩
    · exact absurd (hz' ▸ hd) h0

/-- A string without delimiters is not cut. -/
theorem CutsDelimiters.cString (h0 : 0 ∉ delimiters) {lo hi : Nat} {m m' : Mem}
    (h : CutsDelimiters delimiters lo hi m m') (w : List UInt8) : ∀ {p : Nat},
    (∀ c ∈ w, c ∉ delimiters) → CString m p w → CString m' p w := by
  have hkeep : ∀ a, m a ∉ delimiters → m' a = m a := fun a ha =>
    (h a).resolve_right fun hcut => ha hcut.1
  induction w with
  | nil =>
    intro p _ hp
    have hnul : m p = 0 := hp
    exact (hkeep p (by rwa [hnul])).trans hnul
  | cons c w ih =>
    intro p hw hp
    obtain ⟨hc, hne, hrest⟩ := hp
    refine ⟨(hkeep p (by rw [hc]; exact hw c List.mem_cons_self)).trans hc, hne, ih ?_ hrest⟩
    exact fun x hx => hw x (List.mem_cons_of_mem _ hx)

theorem findTokenEnd_frame (fuel : Nat) : ∀ {m m' : Mem} {sp sp' : Nat},
    findTokenEnd delimiters fuel m sp = some (m', sp') →
    sp ≤ sp' ∧ (m sp ≠ 0 → sp < sp') ∧ CutsDelimiters delimiters sp sp' m m' := by
  induction fuel with
  | zero =>
    intro m m' sp sp' h
    cases h
  | succ fuel ih =>
    intro m m' sp sp' h
    rw [findTokenEnd] at h
    split at h
    · rename_i hnul
      obtain ⟨rfl, rfl⟩ := Prod.mk.inj (Option.some.inj h)
      exact ⟨Nat.le_refl _, fun hne => absurd hnul hne, fun a => Or.inl rfl⟩
    · split at h
      · rename_i hd
        obtain ⟨rfl, rfl⟩ := Prod.mk.inj (Option.some.inj h)
        refine ⟨Nat.le_succ _, fun _ => Nat.lt_succ_self _, fun a => ?_⟩
        by_cases ha : a = sp
        · subst ha
          exact Or.inr ⟨hd, Function.update_self _ _ _, Nat.le_refl _, Nat.lt_succ_self _⟩
        · exact Or.inl (Function.update_of_ne ha _ _)
      · obtain ⟨hle, -, hcut⟩ := ih h
        exact ⟨Nat.le_of_succ_le hle, fun _ => hle, hcut.mono (Nat.le_succ _) (Nat.le_refl _)⟩

/-- **One call of `strtok`** at `p` cuts the string up to its cursor, and its token is in front of
    it. -/
theorem strtok_frame {fuel sp str p token sp' : Nat} {m m' : Mem} (hp : p ≠ 0)
    (hcur : sp = p ∨ (sp = 0 ∧ str = p))
    (h : strtok fuel m sp str delimiters = some (token, m', sp')) :
    CutsDelimiters delimiters p sp' m m' ∧ (token ≠ 0 → p ≤ token ∧ token < sp') := by
  unfold strtok at h
  rw [if_neg (by omega)] at h
  have hsp : (if str ≠ 0 ∧ sp = 0 then str else sp) = p := by
    rcases hcur with e | ⟨e1, e2⟩
    · rw [if_neg fun hc => hp (e ▸ hc.2), e]
    · rw [if_pos ⟨e2 ▸ hp, e1⟩, e2]
  dsimp only at h
  rw [hsp] at h
  split at h
  · cases h
  · rename_i pStart hskip
    split at h
    · cases h
      exact ⟨fun a => Or.inl rfl, fun ht => absurd rfl ht⟩
    · rename_i hne
      obtain ⟨⟨m₁, sp₁⟩, hend, he⟩ := Option.map_eq_some_iff.mp h
      cases he
      obtain ⟨-, hlt, hcut⟩ := findTokenEnd_frame fuel hend
      have hle := skipDelimiters_le fuel hskip
      exact ⟨hcut.mono hle (Nat.le_refl _), fun _ => ⟨hle, hlt hne⟩⟩

end Frame

/-! ## 2. The tokens of a string -/

section Words

variable {delimiters : List UInt8}

/-- No word has a delimiter. -/
theorem splitWords_no_delimiter (cs : List UInt8) :
    ∀ w ∈ splitWords delimiters cs, ∀ c ∈ w, c ∉ delimiters := by
  induction hn : cs.length using Nat.strong_induction_on generalizing cs with
  | _ n ih =>
    rcases firstWord_cases delimiters cs with hall | ⟨ds, w, rest, hfirst⟩
    · rw [splitWords_none hall]
      exact fun w hw => absurd hw List.not_mem_nil
    · rw [hfirst.words]
      intro w' hw'
      rcases List.mem_cons.mp hw' with rfl | hw'
      · exact hfirst.word
      · refine ih rest.tail.length ?_ rest.tail rfl w' hw'
        have hlen := congrArg List.length hfirst.line
        have hpos := List.length_pos_iff.mpr hfirst.ne
        rw [List.length_append, List.length_append] at hlen
        rw [List.length_tail]
        omega

/-- **A string that was taken apart**: from `lo` on and in front of `hi` the tokens stand one behind
    the other, each has its word, and nothing is written but NULs over delimiters. -/
structure Tokenized (delimiters : List UInt8) (lo hi : Nat) (m : Mem) (ws : List (List UInt8))
    (tokens : List Nat) (m' : Mem) : Prop where
  words : List.Forall₂ (CString m') tokens ws
  written : CutsDelimiters delimiters lo hi m m'
  order : tokens.Pairwise (· < ·)
  inside : ∀ t ∈ tokens, lo ≤ t ∧ t < hi

/-- **The calls give the words** of the string at `p`, and leave the cursor null. -/
theorem strtokUntilNull_words (h0 : 0 ∉ delimiters) (calls : Nat) :
    ∀ {fuel sp str p : Nat} {m : Mem} {cs : List UInt8}, CString m p cs → p ≠ 0 →
    sp = p ∨ (sp = 0 ∧ str = p) → cs.length < fuel → cs.length < calls → ∃ tokens m',
      strtokUntilNull fuel delimiters calls m sp str = some (tokens, m', 0) ∧
      Tokenized delimiters p (p + cs.length) m (splitWords delimiters cs) tokens m' := by
  induction calls with
  | zero =>
    intro fuel sp str p m cs _ _ _ _ hc
    exact absurd hc (Nat.not_lt_zero _)
  | succ calls ih =>
    intro fuel sp str p m cs h hp hcur hf hc
    obtain ⟨token, m₁, sp₁, hcall, hstate⟩ := strtok_next h h0 hp hcur hf
    obtain ⟨hcut, htoken⟩ := strtok_frame hp hcur hcall
    have hfree := @splitWords_no_delimiter delimiters cs
    rw [strtokUntilNull, hcall]
    dsimp only
    generalize splitWords delimiters cs = ws at hstate hfree ⊢
    cases hstate with
    | done =>
      -- a null cursor is behind no delimiter
      have hsame : m₁ = m := funext fun a => (hcut a).resolve_right fun hd =>
        absurd hd.2.2.2 (Nat.not_lt_zero a)
      subst hsame
      exact ⟨[], m₁, if_pos rfl, .nil, fun a => Or.inl rfl, .nil,
        fun t ht => absurd ht List.not_mem_nil⟩
    | @word w cs₁ _ _ _ ht hw hs h1 h2 =>
      obtain ⟨tokens, m', hrest, htok⟩ := ih hs (Nat.ne_of_gt (Nat.zero_lt_of_lt h1)) (Or.inl rfl)
        (show cs₁.length < fuel by omega) (show cs₁.length < calls by omega)
      obtain ⟨hlo, hhi⟩ := htoken ht
      have hcut' : CutsDelimiters delimiters p (p + cs.length) m₁ m' :=
        htok.written.mono (Nat.le_of_lt h1) (Nat.le_of_eq h2)
      refine ⟨token :: tokens, m', ?_, ?_, ?_, ?_, ?_⟩
      · rw [if_neg ht, hrest]
        rfl
      · exact .cons (htok.written.cString h0 w (hfree w List.mem_cons_self) hw) htok.words
      · exact (hcut.mono (Nat.le_refl _) (by omega)).trans h0 hcut'
      · refine List.pairwise_cons.mpr ⟨fun t ht' => ?_, htok.order⟩
        exact Nat.lt_of_lt_of_le hhi (htok.inside t ht').1
      · intro t ht'
        rcases List.mem_cons.mp ht' with rfl | ht'
        · omega
        · have := htok.inside t ht'
          omega

end Words

/-! ## 3. From a null cursor -/

theorem grantedArguments_all {ok : Nat → Bool} (hok : ∀ k, ok k = true) (ws : List (List UInt8)) :
    ∀ k, grantedArguments ok k ws = ws.map (·.take 511) := by
  induction ws with
  | nil => exact fun _ => rfl
  | cons w ws ih =>
    intro k
    rw [grantedArguments, if_pos (hok k), ih, List.map_cons]

/-- **A string is taken apart into its words**, with the null cursor before and behind; and so a
    command is, as far as its buffer holds it, where `max` is less than the size of the buffer.
    Otherwise the call refuses. -/
theorem strtok_words {m : Mem} {s : Nat} {cs delimiters : List UInt8} (h : CString m s cs)
    (hs : s ≠ 0) (h0 : 0 ∉ delimiters) :
    (∀ fuel, cs.length < fuel → ∃ tokens m',
      strtokUntilNull fuel delimiters fuel m 0 s = some (tokens, m', 0) ∧
      Tokenized delimiters s (s + cs.length) m (splitWords delimiters cs) tokens m') ∧
    (∀ (scommand : Nat) (m : Mem) (command : List UInt8) (max : Int) (ok : Nat → Bool) (fuel : Nat),
      scommand ≠ 0 → scommand + 1025 ≤ 4294967296 → (∀ k, ok k = true) → 1030 ≤ fuel →
      peachosParseCommand fuel m 0 scommand command max ok =
        some (if max < 1025 then (commandWords command).map (·.take 511) else [], 0)) := by
  refine ⟨fun fuel hf => strtokUntilNull_words h0 fuel h hs (Or.inr ⟨rfl, rfl⟩) hf hf, ?_⟩
  intro scommand m command max ok fuel hp hb hok hf
  obtain ⟨sp, hrun, hnull, -⟩ := peachosParseCommand_null hf hp hb m command max ok
  rw [hrun, hnull (Or.inr fun k _ => hok k)]
  unfold commandArguments
  by_cases hmax : max < 1025
  · rw [if_neg (by omega), if_pos hmax, grantedArguments_all hok]
  · rw [if_pos (by omega), if_neg hmax]

/-- `" a,,b "`, in a program. -/
def listLine : List UInt8 := [0x20, 0x61, 0x2C, 0x2C, 0x62, 0x20]

/-- It is taken apart at the delimiters `", "`. -/
theorem strtok_words_two : ∃ tokens m',
    strtokUntilNull 10 [0x2C, 0x20] 10 (copyIn (fun _ => 0) 0x3FE000 (listLine ++ [0])) 0 0x3FE000 =
      some (tokens, m', 0) ∧
    List.Forall₂ (CString m') tokens [[0x61], [0x62]] := by
  have hstr : CString (copyIn (fun _ => 0) 0x3FE000 (listLine ++ [0])) 0x3FE000 listLine :=
    copyIn_cString _ (by simp [listLine]) (by decide)
  obtain ⟨tokens, m', hrun, htok⟩ := (strtok_words hstr (by decide)
    (show (0 : UInt8) ∉ [0x2C, 0x20] by decide)).1 10 (by decide)
  have hwords : splitWords [0x2C, 0x20] listLine = [[0x61], [0x62]] := by decide +kernel
  exact ⟨tokens, m', hrun, hwords ▸ htok.words⟩

/-- **A call with `max` 1025** gives no argument, though its command has a word. -/
theorem peachosParseCommand_refuses :
    peachosParseCommand 2000 (fun _ => 0) 0 0x3FE000 [0x78] 1025 (fun _ => true) = some ([], 0) ∧
    (commandWords [0x78]).map (·.take 511) = [[0x78]] :=
  ⟨rfl, by decide +kernel⟩

end PeachKernel
