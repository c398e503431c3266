/-
  File:      PeachKernel/Fs/PathPieces.lean
  Subject:   The components of a path that the parser drops.

  The list of parts ends where `pathparser_parse_path_part` answers 0: at the end of the path, at an
  empty component, and where no block is left. The root is returned in all three cases.

  * `pathPieces` -- what lies between the slashes of a path, empty or not;
  * `pathComponents_eq` -- the parser looks at the pieces before the first empty one;
  * `partsLoop_texts`, `pathparserParse_texts` -- of these it takes as many as there are blocks for;
  * `pathparserParse_all_iff` -- no piece is dropped exactly where no empty one stands before
    another one, and every part gets its two blocks.
-/
import PeachKernel.Fs.PathParser
import Mathlib.Data.List.TakeWhile

namespace PeachKernel

/-! ## 1. Pieces -/

/-- What lies between the slashes of a path behind its drive, up to its NUL. -/
def pathPieces (path : List UInt8) : List (List UInt8) :=
  ((path.drop 3).takeWhile (· ≠ 0)).splitOn slash

/-- **The components of a path**: the pieces that are not empty. -/
def namedPieces (path : List UInt8) : List (List UInt8) := (pathPieces path).filter (· ≠ [])

/-- No empty piece stands before one that is not. -/
def NoGap (path : List UInt8) : Prop := (pathPieces path).Pairwise fun a b => a = [] → b = []

instance (path : List UInt8) : Decidable (NoGap path) :=
  inferInstanceAs (Decidable (List.Pairwise _ _))

/-- The elements before the first one without a property are all that have it exactly where none has
    it behind one without. -/
theorem takeWhile_eq_filter_iff {α : Type} {p : α → Bool} (l : List α) :
    l.takeWhile p = l.filter p ↔ l.Pairwise fun a b => p a = false → p b = false := by
  induction l with
  | nil => simp
  | cons a l ih =>
    rw [List.pairwise_cons, ← ih]
    cases ha : p a with
    | true =>
      rw [List.takeWhile_cons_of_pos ha, List.filter_cons_of_pos ha]
      exact ⟨fun h => ⟨fun b _ hno => absurd hno (by decide), (List.cons.inj h).2⟩,
        fun h => congrArg (a :: ·) h.2⟩
    | false =>
      have hneg : ¬ p a = true := by rw [ha]; exact Bool.false_ne_true
      rw [List.takeWhile_cons_of_neg hneg, List.filter_cons_of_neg hneg]
      constructor
      · intro h
        have hall := List.filter_eq_nil_iff.mp h.symm
        refine ⟨fun b hb _ => Bool.eq_false_iff.mpr (hall b hb), ?_⟩
        rw [← h]
        cases l with
        | nil => rfl
        | cons b l => exact List.takeWhile_cons_of_neg (hall b List.mem_cons_self)
      · exact fun h => (List.filter_eq_nil_iff.mpr fun b hb => Bool.eq_false_iff.mp
          (h.1 b hb rfl)).symm

/-- ... and these are a first part of those. -/
theorem takeWhile_length_le {α : Type} (p : α → Bool) (l : List α) :
    (l.takeWhile p).length ≤ (l.filter p).length := by
  induction l with
  | nil => simp
  | cons a l ih =>
    cases ha : p a with
    | true => simpa [ha] using ih
    | false => simp [ha]

/-- The characters of a part. -/
theorem pathPartLoop_takeWhile (path : List UInt8) :
    (pathPartLoop path).1 = path.takeWhile (fun c => c ≠ slash ∧ c ≠ 0) := by
  induction path with
  | nil => rfl
  | cons c path ih =>
    rw [pathPartLoop]
    by_cases hc : c ≠ slash ∧ c ≠ 0
    · rw [if_pos hc, List.takeWhile_cons_of_pos (by simpa using hc), ← ih]
    · rw [if_neg hc, List.takeWhile_cons_of_neg (by simpa using hc)]

/-- Behind a part stands a slash, or the end of the string. -/
theorem pathPartLoop_rest (path : List UInt8) :
    (∃ rest, (pathPartLoop path).2 = slash :: rest) ∨ (pathPartLoop path).2 = [] ∨
      ∃ rest, (pathPartLoop path).2 = 0 :: rest := by
  induction path with
  | nil => exact Or.inr (Or.inl rfl)
  | cons c path ih =>
    rw [pathPartLoop]
    split
    · exact ih
    · rename_i hc
      by_cases hs : c = slash
      · exact Or.inl ⟨path, by rw [hs]⟩
      · exact Or.inr (Or.inr ⟨path, by rw [not_not.mp fun h0 => hc ⟨hs, h0⟩]⟩)

/-- **The parser looks at the pieces before the first empty one.** -/
theorem componentsFrom_eq (fuel : Nat) : ∀ {path : List UInt8}, path.length < fuel →
    componentsFrom fuel path = ((path.takeWhile (· ≠ 0)).splitOn slash).takeWhile (· ≠ []) := by
  induction fuel with
  | zero => exact fun h => absurd h (Nat.not_lt_zero _)
  | succ fuel ih =>
    intro path h
    have hsplit := pathPartLoop_split path
    have hlen := congrArg List.length hsplit
    rw [List.length_append] at hlen
    have htext : ∀ c ∈ (pathPartLoop path).1, c ≠ slash ∧ c ≠ 0 := by
      rw [pathPartLoop_takeWhile]
      exact fun c hc => by simpa using List.mem_takeWhile_imp hc
    rw [componentsFrom_succ]
    have hrest := pathPartLoop_rest path
    generalize (pathPartLoop path).1 = text at hsplit htext hlen ⊢
    generalize (pathPartLoop path).2 = rest at hsplit hrest hlen ⊢
    subst hsplit
    have hslash : slash ∉ text := fun hmem => (htext _ hmem).1 rfl
    have h0 : ∀ c ∈ text, decide (c ≠ 0) = true := fun c hc => decide_eq_true (htext c hc).2
    rw [List.takeWhile_append_of_pos h0]
    have hcons : ∀ pieces : List (List UInt8), (text :: pieces).takeWhile (· ≠ []) =
        if text = [] then [] else text :: pieces.takeWhile (· ≠ []) := by
      intro pieces
      by_cases ht : text = []
      · rw [if_pos ht, List.takeWhile_cons_of_neg (by simpa using ht)]
      · rw [if_neg ht, List.takeWhile_cons_of_pos (by simpa using ht)]
    -- the end of the path is reached, or a slash stands behind the part
    have hlast : rest.takeWhile (· ≠ 0) = [] → componentsFrom fuel (skipSlash rest) = [] →
        (if text = [] then [] else text :: componentsFrom fuel (skipSlash rest)) =
          ((text ++ rest.takeWhile (· ≠ 0)).splitOn slash).takeWhile (· ≠ []) := by
      intro hnil hnone
      rw [hnil, List.append_nil, List.splitOn_eq_singleton hslash, hcons, hnone]
      rfl
    rcases hrest with ⟨rest, rfl⟩ | rfl | ⟨rest, rfl⟩
    · have hskip : skipSlash (slash :: rest) = rest := if_pos rfl
      rw [List.takeWhile_cons_of_pos (by decide), List.splitOn_append_cons_self_of_not_mem hslash,
        hcons, hskip, ih (by rw [List.length_cons] at hlen; omega)]
    · refine hlast rfl ?_
      cases fuel <;> rfl
    · refine hlast (List.takeWhile_cons_of_neg (by simp)) ?_
      cases fuel <;> rfl

/-- **The components that the parser sees.** -/
theorem pathComponents_eq (path : List UInt8) :
    pathComponents path = (pathPieces path).takeWhile (· ≠ []) :=
  componentsFrom_eq _ (by rw [List.length_drop]; omega)

theorem pathComponents_named_iff (path : List UInt8) :
    pathComponents path = namedPieces path ↔ NoGap path := by
  rw [pathComponents_eq]
  refine (takeWhile_eq_filter_iff _).trans ?_
  unfold NoGap
  simp

theorem pathComponents_length_le (path : List UInt8) :
    (pathComponents path).length ≤ (namedPieces path).length := by
  rw [pathComponents_eq]
  exact takeWhile_length_le _ _

/-! ## 2. The parts -/

section Parts

variable {k : Kernel} {path : List UInt8}

/-- **A part for which two blocks are not left** is none. -/
theorem pathparserParsePathPart_short (hp : k.heap.Placed) (hf : freeBlocks k.heap < 2) :
    (pathparserParsePathPart k path).1 = none := by
  by_cases ht : (pathPartLoop path).1 = []
  · rw [pathparserParsePathPart_empty ht]
  have hlen : ¬ (pathPartLoop path).1.length = 0 := fun e => ht (List.length_eq_zero_iff.mp e)
  unfold pathparserParsePathPart pathparserGetPathPart
  by_cases h0 : freeBlocks k.heap = 0
  · rw [kzalloc_full hp h0 (by decide) (by decide)]
    simp [hlen]
  · -- the text gets the last block
    obtain ⟨str, k₁, e₁, hne₁, hp₁, hf₁⟩ :=
      kzalloc_one hp (Nat.pos_of_ne_zero h0) 108 (by decide) (by decide)
    have hnone : freeBlocks k₁.heap = 0 := by omega
    rw [e₁]
    simp only [hlen, if_false, if_neg hne₁]
    rw [kzalloc_full hp₁ hnone (by decide) (by decide)]
    simp

/-- **The loop takes as many components as there are blocks for.** -/
theorem partsLoop_texts (fuel : Nat) : ∀ {k : Kernel} {path : List UInt8}, k.heap.Placed →
    (partsLoop fuel k path).1.map PathPart.text =
      (componentsFrom fuel path).take (freeBlocks k.heap / 2) := by
  induction fuel with
  | zero => exact fun _ => List.take_nil.symm
  | succ fuel ih =>
    intro k path hp
    rw [componentsFrom_succ, partsLoop]
    by_cases ht : (pathPartLoop path).1 = []
    · rw [if_pos ht, pathparserParsePathPart_empty ht]
      simp
    rw [if_neg ht]
    by_cases hf : 2 ≤ freeBlocks k.heap
    · obtain ⟨part, k', e, htext, hp', hf'⟩ := pathparserParsePathPart_component hp hf ht
      have hhalf : freeBlocks k.heap / 2 = freeBlocks k'.heap / 2 + 1 := by omega
      have hrest := @ih k' (skipSlash (pathPartLoop path).2) hp'
      rw [e, hhalf, List.take_succ_cons, ← hrest, ← htext]
      rfl
    · have hnone : (pathparserParsePathPart k path).1 = none :=
        pathparserParsePathPart_short hp (Nat.lt_of_not_le hf)
      have hhalf : freeBlocks k.heap / 2 = 0 := Nat.div_eq_of_lt (Nat.lt_of_not_le hf)
      generalize pathparserParsePathPart k path = r at hnone ⊢
      obtain ⟨part, rest, k'⟩ := r
      subst hnone
      rw [hhalf, List.take_zero]
      rfl

/-- **The parts of a path whose root gets its block.** -/
theorem pathparserParse_texts (hp : k.heap.Placed) (hl : strlen path ≤ 108)
    (hd : StartsWithDrive path) (hf : 0 < freeBlocks k.heap) :
    ∃ root k', pathparserParse k path = (some root, k') ∧
      root.first.map PathPart.text = (pathComponents path).take ((freeBlocks k.heap - 1) / 2) := by
  obtain ⟨r, k₁, -, hp₁, hf₁, e⟩ := pathparserParse_loop hp hl hd hf
  refine ⟨_, _, e, ?_⟩
  rw [← hf₁]
  exact partsLoop_texts _ hp₁

/-- Some of the components that the parser sees hold all components of a path exactly where they are
    all of them. -/
theorem namedPieces_sublist_iff (path : List UInt8) (n : Nat) :
    (namedPieces path).Sublist ((pathComponents path).take n) ↔
      NoGap path ∧ (namedPieces path).length ≤ n := by
  constructor
  · intro h
    have hle := h.length_le
    rw [List.length_take] at hle
    have hseen := pathComponents_length_le path
    have hall : namedPieces path = pathComponents path :=
      (h.trans (List.take_sublist _ _)).eq_of_length_le (by omega)
    exact ⟨(pathComponents_named_iff path).mp hall.symm, by omega⟩
  · rintro ⟨hgap, hn⟩
    rw [(pathComponents_named_iff path).mpr hgap, List.take_of_length_le hn]

/-- **No component is dropped** exactly where null is the answer, or no empty piece stands before
    another one and the root and all parts with their texts get their blocks. -/
theorem pathparserParse_all_iff (hp : k.heap.Placed) (path : List UInt8) :
    (∀ root k', pathparserParse k path = (some root, k') →
      (namedPieces path).Sublist (root.first.map PathPart.text)) ↔
      (108 < strlen path ∨ ¬ StartsWithDrive path) ∨ freeBlocks k.heap = 0 ∨
        (NoGap path ∧ 2 * (namedPieces path).length + 1 ≤ freeBlocks k.heap) := by
  rcases pathparserParse_cases k path with ⟨href, e⟩ | ⟨hl, hd, h⟩
  · rw [e]
    exact ⟨fun _ => Or.inl href, fun _ root k' h => absurd (congrArg Prod.fst h).symm
      (Option.some_ne_none root)⟩
  have hno : ¬ (108 < strlen path ∨ ¬ StartsWithDrive path) :=
    not_or.mpr ⟨Nat.not_lt.mpr hl, not_not.mpr hd⟩
  have hroot := kzalloc_null_iff hp (show 1 ≤ 8 by decide) (by decide)
  rcases h with ⟨h0, e⟩ | ⟨hne, -⟩
  · rw [e]
    exact ⟨fun _ => Or.inr (Or.inl (hroot.mp h0)), fun _ root k' h => absurd
      (congrArg Prod.fst h).symm (Option.some_ne_none root)⟩
  · have hf : freeBlocks k.heap ≠ 0 := fun h => hne (hroot.mpr h)
    obtain ⟨root, k', e, htexts⟩ := pathparserParse_texts hp hl hd (Nat.pos_of_ne_zero hf)
    have hiff := namedPieces_sublist_iff path ((freeBlocks k.heap - 1) / 2)
    have hroom : (namedPieces path).length ≤ (freeBlocks k.heap - 1) / 2 ↔
        2 * (namedPieces path).length + 1 ≤ freeBlocks k.heap := by omega
    rw [← htexts, hroom] at hiff
    rw [or_iff_right hno, or_iff_right hf, ← hiff, e]
    constructor
    · exact fun h => h root k' rfl
    · intro h root' k'' heq
      obtain rfl := Option.some.inj (congrArg Prod.fst heq)
      exact h

/-- `"0:/a/b"`, with 25600 free blocks. -/
theorem pathparserParse_all_iff_two : ∃ root k',
    pathparserParse emptyKernel [0x30, 0x3A, 0x2F, 0x61, 0x2F, 0x62] = (some root, k') ∧
      (namedPieces [0x30, 0x3A, 0x2F, 0x61, 0x2F, 0x62]).Sublist
        (root.first.map PathPart.text) := by
  have hdrive : StartsWithDrive [0x30, 0x3A, 0x2F, 0x61, 0x2F, 0x62] := by decide
  obtain ⟨root, k', e, -⟩ := pathparserParse_texts emptyKernel_placed (by decide) hdrive
    (emptyKernel_room (n := 1) (by decide))
  have hlen : (namedPieces [0x30, 0x3A, 0x2F, 0x61, 0x2F, 0x62]).length = 2 := by decide +kernel
  have hroom : 2 * (namedPieces [0x30, 0x3A, 0x2F, 0x61, 0x2F, 0x62]).length + 1 ≤
      freeBlocks emptyKernel.heap := by
    rw [hlen]
    exact emptyKernel_room (by decide)
  exact ⟨root, k', e, (pathparserParse_all_iff emptyKernel_placed _).mpr
    (Or.inr (Or.inr ⟨by decide +kernel, hroom⟩)) root k' e⟩

/-- `"0:/a//b"`: a root is returned, and its only part is `"a"`. -/
theorem pathparserParse_drops : ∃ root k',
    pathparserParse emptyKernel [0x30, 0x3A, 0x2F, 0x61, 0x2F, 0x2F, 0x62] = (some root, k') ∧
      root.first.map PathPart.text = [[0x61]] ∧
      namedPieces [0x30, 0x3A, 0x2F, 0x61, 0x2F, 0x2F, 0x62] = [[0x61], [0x62]] ∧
      ¬ (namedPieces [0x30, 0x3A, 0x2F, 0x61, 0x2F, 0x2F, 0x62]).Sublist
        (root.first.map PathPart.text) := by
  have hdrive : StartsWithDrive [0x30, 0x3A, 0x2F, 0x61, 0x2F, 0x2F, 0x62] := by decide
  obtain ⟨root, k', e, htexts⟩ := pathparserParse_texts emptyKernel_placed (by decide) hdrive
    (emptyKernel_room (n := 1) (by decide))
  have hparts : root.first.map PathPart.text = [[0x61]] := by
    rw [htexts, emptyKernel_free]
    decide
  have hnamed : namedPieces [0x30, 0x3A, 0x2F, 0x61, 0x2F, 0x2F, 0x62] = [[0x61], [0x62]] := by
    decide +kernel
  refine ⟨root, k', e, hparts, hnamed, ?_⟩
  rw [hparts, hnamed]
  decide

end Parts

end PeachKernel
