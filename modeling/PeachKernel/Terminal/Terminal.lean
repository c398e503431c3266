/-
  File:      PeachKernel/Terminal/Terminal.lean
  Subject:   The text screen of `terminal.c`: which cells any sequence of characters writes.

  The cursor is a pair of 16-bit counters, and a character goes to cell `row * 80 + col`, wherever
  that is: the screen never scrolls, and nothing compares the row with its 20 lines. A backspace in
  column 0 of a later line steps back to the end of the line before, writes a space there, and then
  counts the column down once more, from 0 to 65535.

  * `terminalPutchar`, `terminalBackspace`, `terminalWritechar`, `terminalInitialize`, `print` --
    the source functions; `written` logs the cells, and no function reads it;
  * `Fits` -- what a character needs: a line of the screen, and for a backspace a character before
    it in its line (or none on the whole screen);
  * `terminalWritechar_keeps_iff` -- one character keeps the writes on the screen and the cursor on
    its line exactly when it fits;
  * `terminalRun_inside` -- any sequence of characters that fit writes inside the buffer.
-/
import Mathlib.Logic.Relation

namespace PeachKernel

/-! ## 1. The source functions -/

/-- `VGA_WIDTH`. -/
def vgaWidth : UInt16 := 80

/-- `VGA_HEIGHT`. -/
def vgaHeight : Nat := 20

/-- `video_mem` as cells of 16 bits, the cursor, and the cells written so far, the last one
    first. -/
structure Terminal where
  videoMem : Nat → BitVec 16
  row : UInt16
  col : UInt16
  written : List Nat

/-- `terminal_make_char`: both characters are signed, and are extended before they are combined. -/
def terminalMakeChar (c colour : UInt8) : BitVec 16 :=
  (colour.toBitVec.signExtend 16 <<< 8) ||| c.toBitVec.signExtend 16

def terminalPutchar (t : Terminal) (x y : Nat) (c colour : UInt8) : Terminal :=
  { t with
    videoMem := fun i => if i = y * 80 + x then terminalMakeChar c colour else t.videoMem i
    written := (y * 80 + x) :: t.written }

/-- `terminal_writechar`, behind its tests for a newline and a backspace. -/
def terminalWriteOrdinary (t : Terminal) (c colour : UInt8) : Terminal :=
  let t := terminalPutchar t t.col.toNat t.row.toNat c colour
  let t := { t with col := t.col + 1 }
  if vgaWidth ≤ t.col then { t with col := 0, row := t.row + 1 } else t

/-- `terminal_backspace`; the space that it writes is no newline and no backspace. -/
def terminalBackspace (t : Terminal) : Terminal :=
  if t.row = 0 ∧ t.col = 0 then t
  else
    let t := if t.col = 0 then { t with row := t.row - 1, col := vgaWidth } else t
    let t := { t with col := t.col - 1 }
    let t := terminalWriteOrdinary t 0x20 15
    { t with col := t.col - 1 }

def terminalWritechar (t : Terminal) (c colour : UInt8) : Terminal :=
  if c = 0x0A then { t with row := t.row + 1, col := 0 }
  else if c = 0x08 then terminalBackspace t
  else terminalWriteOrdinary t c colour

/-- The loop over the columns `x` of a line that `terminal_initialize` clears. -/
def clearLine (y : Nat) (t : Terminal) (columns : List Nat) : Terminal :=
  columns.foldl (fun t x => terminalPutchar t x y 0x20 0) t

/-- `terminal_initialize`, for a screen with any contents. -/
def terminalInitialize (videoMem : Nat → BitVec 16) : Terminal :=
  (List.range vgaHeight).foldl (fun t y => clearLine y t (List.range 80)) ⟨videoMem, 0, 0, []⟩

/-- `print`, for the characters of a string before its NUL. -/
def print (t : Terminal) (str : List UInt8) : Terminal :=
  str.foldl (fun t c => terminalWritechar t c 15) t

/-! ## 2. One character -/

/-- **The screen is intact**: only its cells were written, and the cursor is on its line. -/
structure Terminal.Inside (t : Terminal) : Prop where
  cells : ∀ i ∈ t.written, i < 80 * 20
  line : t.col.toNat < 80

/-- A character that is neither needs a line of the screen; a backspace needs one too, and a
    character before it in this line, unless the screen is empty before it. -/
def Terminal.Fits (t : Terminal) (c : UInt8) : Prop :=
  c = 0x0A ∨
  (c = 0x08 ∧ ((t.row = 0 ∧ t.col = 0) ∨ (t.row.toNat < 20 ∧ t.col ≠ 0))) ∨
  (c ≠ 0x0A ∧ c ≠ 0x08 ∧ t.row.toNat < 20)

section Character

variable {t : Terminal}

theorem toNat_ne_zero {x : UInt16} (h : x ≠ 0) : 0 < x.toNat := by
  rcases Nat.eq_zero_or_pos x.toNat with h0 | h0
  · exact absurd (UInt16.toNat_inj.mp h0) h
  · exact h0

theorem toNat_add_one {x : UInt16} (h : x.toNat < 65535) : (x + 1).toNat = x.toNat + 1 := by
  rw [UInt16.toNat_add]
  exact Nat.mod_eq_of_lt (by simp; omega)

theorem zero_line : (0 : UInt16).toNat < 80 := by decide

theorem terminalWriteOrdinary_cell (t : Terminal) (c colour : UInt8) :
    t.row.toNat * 80 + t.col.toNat ∈ (terminalWriteOrdinary t c colour).written := by
  unfold terminalWriteOrdinary terminalPutchar
  dsimp only
  split
  · exact List.mem_cons_self
  · exact List.mem_cons_self

/-- An ordinary character: its cell, and the column behind it. -/
theorem terminalWriteOrdinary_eq (h : t.col.toNat < 80) (c colour : UInt8) :
    (terminalWriteOrdinary t c colour).written = (t.row.toNat * 80 + t.col.toNat) :: t.written ∧
    (terminalWriteOrdinary t c colour).col =
      (if t.col.toNat = 79 then 0 else t.col + 1) := by
  have hcol : (t.col + 1).toNat = t.col.toNat + 1 := toNat_add_one (by omega)
  unfold terminalWriteOrdinary terminalPutchar vgaWidth
  simp only [UInt16.le_iff_toNat_le, hcol]
  by_cases h79 : t.col.toNat = 79
  · simp [h79]
  · have : ¬ 79 ≤ t.col.toNat := by omega
    simp [h79, this]

theorem terminalWriteOrdinary_line (h : t.col.toNat < 80) (c colour : UInt8) :
    (terminalWriteOrdinary t c colour).col.toNat < 80 := by
  rw [(terminalWriteOrdinary_eq h c colour).2]
  split
  · exact zero_line
  · rw [toNat_add_one (by omega)]
    omega

/-- A backspace behind column 0 writes its space in this line, with a step back before and after. -/
theorem terminalBackspace_eq (hc : t.col ≠ 0) : terminalBackspace t =
    { terminalWriteOrdinary { t with col := t.col - 1 } 0x20 15 with
      col := (terminalWriteOrdinary { t with col := t.col - 1 } 0x20 15).col - 1 } := by
  unfold terminalBackspace
  simp [hc]

/-- A backspace with a character before it in its line: this one's cell, and the cursor on it. -/
theorem terminalBackspace_inline (h : t.col.toNat < 80) (hc : t.col ≠ 0) :
    (terminalBackspace t).written = (t.row.toNat * 80 + (t.col.toNat - 1)) :: t.written ∧
    (terminalBackspace t).col.toNat = t.col.toNat - 1 := by
  have hpos := toNat_ne_zero hc
  have hsub : (t.col - 1).toNat = t.col.toNat - 1 := UInt16.toNat_sub_of_le _ _ hpos
  obtain ⟨hw, hcol⟩ := terminalWriteOrdinary_eq (t := { t with col := t.col - 1 })
    (by rw [hsub]; omega) 0x20 15
  dsimp only at hw hcol
  rw [hsub] at hw hcol
  rw [if_neg (by omega)] at hcol
  refine ⟨by rw [terminalBackspace_eq hc, hw], ?_⟩
  rw [terminalBackspace_eq hc, hcol, UInt16.add_sub_cancel, hsub]

/-- **A backspace in column 0 of a later line** leaves the cursor far behind its line. -/
theorem terminalBackspace_start (hr : t.row ≠ 0) (hc : t.col = 0) :
    (terminalBackspace t).written = ((t.row - 1).toNat * 80 + 79) :: t.written ∧
    (terminalBackspace t).col = 65535 := by
  have h79 : (79 : UInt16).toNat < 80 := by decide
  obtain ⟨hw, hcol⟩ := terminalWriteOrdinary_eq (t := { t with row := t.row - 1, col := 79 })
    h79 0x20 15
  have heq : terminalBackspace t =
      { terminalWriteOrdinary { t with row := t.row - 1, col := 79 } 0x20 15 with
        col := (terminalWriteOrdinary { t with row := t.row - 1, col := 79 }
          0x20 15).col - 1 } := by
    unfold terminalBackspace
    rw [if_neg fun h => hr h.1]
    simp only [if_pos hc]
    rfl
  refine ⟨by rw [heq, hw]; rfl, ?_⟩
  rw [heq, hcol]
  rfl

/-- **One character** keeps the screen intact exactly when it fits. -/
theorem terminalWritechar_keeps_iff (h : t.Inside) (c colour : UInt8) :
    (terminalWritechar t c colour).Inside ↔ t.Fits c := by
  unfold terminalWritechar
  by_cases hn : c = 0x0A
  · rw [if_pos hn]
    exact ⟨fun _ => Or.inl hn, fun _ => ⟨h.cells, zero_line⟩⟩
  by_cases hb : c = 0x08
  · rw [if_neg hn, if_pos hb]
    have hfits : t.Fits c ↔ (t.row = 0 ∧ t.col = 0) ∨ (t.row.toNat < 20 ∧ t.col ≠ 0) := by
      unfold Terminal.Fits
      simp [hb]
    rw [hfits]
    by_cases hc : t.col = 0
    · by_cases hr : t.row = 0
      · unfold terminalBackspace
        rw [if_pos ⟨hr, hc⟩]
        exact ⟨fun _ => Or.inl ⟨hr, hc⟩, fun _ => h⟩
      · -- the column runs below 0
        obtain ⟨-, hcol⟩ := terminalBackspace_start hr hc
        refine ⟨fun h' => absurd h'.line ?_, fun hf => ?_⟩
        · rw [hcol]
          decide
        · exact hf.elim (fun e => absurd e.1 hr) fun e => absurd hc e.2
    · obtain ⟨hw, hcol⟩ := terminalBackspace_inline h.line hc
      have hline := h.line
      constructor
      · intro h'
        have := h'.cells (t.row.toNat * 80 + (t.col.toNat - 1))
          (by rw [hw]; exact List.mem_cons_self)
        exact Or.inr ⟨by omega, hc⟩
      · intro hf
        have hrow : t.row.toNat < 20 := (hf.resolve_left fun e => hc e.2).1
        refine ⟨fun i hi => ?_, by rw [hcol]; omega⟩
        rw [hw] at hi
        rcases List.mem_cons.mp hi with rfl | hi
        · omega
        · exact h.cells i hi
  · rw [if_neg hn, if_neg hb]
    obtain ⟨hw, -⟩ := terminalWriteOrdinary_eq h.line c colour
    have hline := h.line
    have hfits : t.Fits c ↔ t.row.toNat < 20 := by
      unfold Terminal.Fits
      simp [hn, hb]
    rw [hfits]
    constructor
    · intro h'
      have := h'.cells (t.row.toNat * 80 + t.col.toNat) (by rw [hw]; exact List.mem_cons_self)
      omega
    · intro hrow
      refine ⟨fun i hi => ?_, ?_⟩
      · rw [hw] at hi
        rcases List.mem_cons.mp hi with rfl | hi
        · omega
        · exact h.cells i hi
      · exact terminalWriteOrdinary_line h.line c colour

end Character

/-! ## 3. Runs -/

/-- The cells of the screen, one after the other. -/
theorem clearLine_spec (y : Nat) (columns : List Nat) : ∀ t : Terminal,
    (clearLine y t columns).row = t.row ∧ (clearLine y t columns).col = t.col ∧
    ∀ i ∈ (clearLine y t columns).written, i ∈ t.written ∨ ∃ x ∈ columns, i = y * 80 + x := by
  induction columns with
  | nil => exact fun t => ⟨rfl, rfl, fun i hi => Or.inl hi⟩
  | cons x columns ih =>
    intro t
    obtain ⟨hrow, hcol, hw⟩ := ih (terminalPutchar t x y 0x20 0)
    refine ⟨hrow, hcol, fun i hi => ?_⟩
    rcases hw i hi with h | ⟨x', hx', e⟩
    · rcases List.mem_cons.mp h with e | h
      · exact Or.inr ⟨x, List.mem_cons_self, e⟩
      · exact Or.inl h
    · exact Or.inr ⟨x', List.mem_cons_of_mem _ hx', e⟩

/-- **`terminal_initialize`** writes the cells of the screen, and leaves the cursor at its start. -/
theorem clearLines_spec (lines : List Nat) (hl : ∀ y ∈ lines, y < 20) : ∀ t : Terminal, t.Inside →
    (lines.foldl (fun t y => clearLine y t (List.range 80)) t).row = t.row ∧
    (lines.foldl (fun t y => clearLine y t (List.range 80)) t).col = t.col ∧
    (lines.foldl (fun t y => clearLine y t (List.range 80)) t).Inside := by
  induction lines with
  | nil => exact fun t h => ⟨rfl, rfl, h⟩
  | cons y lines ih =>
    intro t h
    obtain ⟨hrow, hcol, hw⟩ := clearLine_spec y (List.range 80) t
    have hy := hl y List.mem_cons_self
    have hin : (clearLine y t (List.range 80)).Inside := by
      refine ⟨fun i hi => ?_, by rw [hcol]; exact h.line⟩
      rcases hw i hi with hi | ⟨x, hx, rfl⟩
      · exact h.cells i hi
      · have := List.mem_range.mp hx
        omega
    obtain ⟨hrow', hcol', hin'⟩ := ih (fun y hy => hl y (List.mem_cons_of_mem _ hy)) _ hin
    exact ⟨hrow'.trans hrow, hcol'.trans hcol, hin'⟩

theorem terminalInitialize_spec (videoMem : Nat → BitVec 16) :
    (terminalInitialize videoMem).row = 0 ∧ (terminalInitialize videoMem).col = 0 ∧
      (terminalInitialize videoMem).Inside := by
  unfold terminalInitialize
  refine clearLines_spec _ (fun y hy => List.mem_range.mp hy) _ ⟨fun i hi => ?_, zero_line⟩
  exact absurd hi List.not_mem_nil

/-- The characters that were written, each with its colour. -/
def terminalRun (t : Terminal) (calls : List (UInt8 × UInt8)) : Terminal :=
  calls.foldl (fun t call => terminalWritechar t call.1 call.2) t

/-- Printing a string is such a run. -/
theorem print_eq_terminalRun (t : Terminal) (str : List UInt8) :
    print t str = terminalRun t (str.map fun c => (c, 15)) := by
  unfold print terminalRun
  rw [List.foldl_map]

/-- Every character fits when its turn comes. -/
def AllFit : Terminal → List (UInt8 × UInt8) → Prop
  | _, [] => True
  | t, call :: calls => t.Fits call.1 ∧ AllFit (terminalWritechar t call.1 call.2) calls

theorem terminalRun_keeps (calls : List (UInt8 × UInt8)) : ∀ {t : Terminal}, t.Inside →
    AllFit t calls → (terminalRun t calls).Inside := by
  induction calls with
  | nil => exact fun h _ => h
  | cons call calls ih =>
    intro t h hf
    exact ih ((terminalWritechar_keeps_iff h call.1 call.2).mpr hf.1) hf.2

/-- **Characters that fit are written inside the buffer**, any number of them; and in every state
    they lead to, the next one keeps it so exactly when it fits. -/
theorem terminalRun_inside (videoMem : Nat → BitVec 16) (calls : List (UInt8 × UInt8))
    (hf : AllFit (terminalInitialize videoMem) calls) :
    (∀ i ∈ (terminalRun (terminalInitialize videoMem) calls).written, i < 80 * 20) ∧
    ∀ c colour, (terminalWritechar (terminalRun (terminalInitialize videoMem) calls)
      c colour).Inside ↔ (terminalRun (terminalInitialize videoMem) calls).Fits c := by
  have h := terminalRun_keeps calls (terminalInitialize_spec videoMem).2.2 hf
  exact ⟨h.cells, fun c colour => terminalWritechar_keeps_iff h c colour⟩

theorem terminalInitialize_eq (v : Nat → BitVec 16) :
    ∃ videoMem written, terminalInitialize v = ⟨videoMem, 0, 0, written⟩ := by
  obtain ⟨hrow, hcol, -⟩ := terminalInitialize_spec v
  refine ⟨(terminalInitialize v).videoMem, (terminalInitialize v).written, ?_⟩
  generalize terminalInitialize v = t at hrow hcol
  obtain ⟨videoMem, row, col, written⟩ := t
  dsimp only at hrow hcol
  rw [hrow, hcol]

/-- A character, a backspace and a newline on the cleared screen. -/
theorem terminalRun_inside_three : ¬ ∃ i, i ∈ (terminalRun (terminalInitialize fun _ => 0)
    [(0x41, 15), (0x08, 15), (0x0A, 15)]).written ∧ 80 * 20 ≤ i := by
  rintro ⟨i, hi, hle⟩
  refine absurd ((terminalRun_inside _ _ ?_).1 i hi) (Nat.not_lt.mpr hle)
  obtain ⟨videoMem, written, e⟩ := terminalInitialize_eq fun _ => 0
  rw [e]
  have h0 : (0 : UInt16).toNat < 20 := by decide
  have h1 : (0 + 1 : UInt16) ≠ 0 := by decide
  exact ⟨Or.inr (Or.inr ⟨by decide, by decide, h0⟩), Or.inr (Or.inl ⟨rfl, Or.inr ⟨h0, h1⟩⟩),
    Or.inl rfl, trivial⟩

/-- **A newline, a backspace and a character**: the column of the character is 65535. -/
theorem terminalRun_outside : ¬ ∀ i ∈ (terminalRun (terminalInitialize fun _ => 0)
    [(0x0A, 15), (0x08, 15), (0x41, 15)]).written, i < 80 * 20 := by
  intro h
  obtain ⟨videoMem, written, e⟩ := terminalInitialize_eq fun _ => 0
  rw [e] at h
  have h1 : (0 + 1 : UInt16) ≠ 0 := by decide
  have hcol := (terminalBackspace_start (t := ⟨videoMem, 0 + 1, 0, written⟩) h1 rfl).2
  have hcell := h _
    (terminalWriteOrdinary_cell (terminalBackspace ⟨videoMem, 0 + 1, 0, written⟩) 0x41 15)
  rw [hcol, show (65535 : UInt16).toNat = 65535 from rfl] at hcell
  omega

end PeachKernel
