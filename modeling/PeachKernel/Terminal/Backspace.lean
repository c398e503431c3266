/-
  File:      PeachKernel/Terminal/Backspace.lean
  Subject:   Backspaces on the text screen: when one undoes the character before it, and when the
             column stays on its line.

  A backspace steps back, writes a space as any character is written, and steps back again. In the
  last column the space ends the line, and the second step back starts from column 0 of the next
  one.

  * `Undoes` -- a character and a backspace: the cursor is where it was, and its cell is blank;
  * `terminalWritechar_undoes_iff` -- in a line they do exactly where the column is not the last
    one;
  * `StepsBackInLine` -- no backspace of a run steps back over the start of a line;
  * `terminalRun_column_iff` -- the column stays below `VGA_WIDTH` in every state of a run exactly
    then.
-/
import PeachKernel.Terminal.Terminal

namespace PeachKernel

/-! ## 1. A character and a backspace -/

/-- **A backspace undoes the character before it**: the cursor returns, and the cell is blank. -/
structure Undoes (t : Terminal) (c colour colour' : UInt8) : Prop where
  row : (terminalWritechar (terminalWritechar t c colour) 0x08 colour').row = t.row
  col : (terminalWritechar (terminalWritechar t c colour) 0x08 colour').col = t.col
  blank : (terminalWritechar (terminalWritechar t c colour) 0x08 colour').videoMem
    (t.row.toNat * 80 + t.col.toNat) = terminalMakeChar 0x20 15

section Undo

variable {t : Terminal} {c : UInt8}

/-- An ordinary character before the last column: its cell, and one column on. -/
theorem terminalWriteOrdinary_inside (h : t.col.toNat < 79) (c colour : UInt8) :
    terminalWriteOrdinary t c colour =
      { terminalPutchar t t.col.toNat t.row.toNat c colour with col := t.col + 1 } := by
  have hcol : (t.col + 1).toNat = t.col.toNat + 1 := toNat_add_one (by omega)
  have hno : ¬ vgaWidth ≤ t.col + 1 := by
    rw [UInt16.le_iff_toNat_le, hcol]
    show ¬ 80 ≤ t.col.toNat + 1
    omega
  unfold terminalWriteOrdinary
  exact if_neg hno

/-- ... and in the last column: the start of the next line. -/
theorem terminalWriteOrdinary_end (h : t.col.toNat = 79) (c colour : UInt8) :
    terminalWriteOrdinary t c colour =
      { terminalPutchar t t.col.toNat t.row.toNat c colour with col := 0, row := t.row + 1 } := by
  have hcol : t.col = 79 := UInt16.toNat_inj.mp h
  have hyes : vgaWidth ≤ t.col + 1 := by
    rw [hcol]
    decide
  unfold terminalWriteOrdinary
  exact if_pos hyes

theorem terminalWritechar_ordinary (hn : c ≠ 0x0A) (hb : c ≠ 0x08) (colour : UInt8) :
    terminalWritechar t c colour = terminalWriteOrdinary t c colour := by
  unfold terminalWritechar
  rw [if_neg hn, if_neg hb]

theorem terminalWritechar_backspace (colour : UInt8) :
    terminalWritechar t 0x08 colour = terminalBackspace t := rfl

/-- A backspace with a character before it in its line blanks this one. -/
theorem terminalBackspace_before (h : t.col.toNat < 80) (hc : t.col ≠ 0) :
    terminalBackspace t =
      { terminalPutchar t (t.col - 1).toNat t.row.toNat 0x20 15 with col := t.col - 1 } := by
  have hpos := toNat_ne_zero hc
  have hsub : (t.col - 1).toNat = t.col.toNat - 1 := UInt16.toNat_sub_of_le _ _ hpos
  have hlt : (t.col - 1).toNat < 79 := by omega
  have hin := terminalWriteOrdinary_inside (t := { t with col := t.col - 1 }) hlt 0x20 15
  rw [terminalBackspace_eq hc, hin]
  simp only [UInt16.add_sub_cancel]
  rfl

/-- **A backspace behind an ordinary character that is not in the last column.** -/
theorem undoes_inside (h : t.col.toNat < 79) (hn : c ≠ 0x0A) (hb : c ≠ 0x08)
    (colour colour' : UInt8) : Undoes t c colour colour' := by
  have hcol : (t.col + 1).toNat = t.col.toNat + 1 := toNat_add_one (by omega)
  have hlt : (t.col + 1).toNat < 80 := by omega
  have hne : t.col + 1 ≠ 0 := by
    intro e
    rw [e] at hcol
    exact absurd hcol (Nat.succ_ne_zero _).symm
  have heq : terminalWritechar (terminalWritechar t c colour) 0x08 colour' =
      { terminalPutchar (terminalPutchar t t.col.toNat t.row.toNat c colour) t.col.toNat t.row.toNat
          0x20 15 with col := t.col } := by
    rw [terminalWritechar_backspace, terminalWritechar_ordinary hn hb,
      terminalWriteOrdinary_inside h, terminalBackspace_before hlt hne]
    simp only [UInt16.add_sub_cancel]
    rfl
  refine ⟨by rw [heq]; rfl, by rw [heq], ?_⟩
  rw [heq]
  exact if_pos rfl

/-- **In the last column** the cursor ends far behind its line. -/
theorem not_undoes_end (h : t.col.toNat = 79) (hr : t.row.toNat < 20) (hn : c ≠ 0x0A)
    (hb : c ≠ 0x08) (colour colour' : UInt8) : ¬ Undoes t c colour colour' := by
  intro hu
  have hcol := hu.col
  have hrow : t.row + 1 ≠ 0 := by
    intro e
    have hval := congrArg UInt16.toNat e
    rw [toNat_add_one (by omega)] at hval
    exact absurd hval (Nat.succ_ne_zero _)
  rw [terminalWritechar_backspace, terminalWritechar_ordinary hn hb,
    terminalWriteOrdinary_end h] at hcol
  rw [(terminalBackspace_start hrow rfl).2] at hcol
  rw [← hcol] at h
  exact absurd h (by decide)

/-- **On the screen** a backspace undoes an ordinary character exactly before the last column. -/
theorem terminalWritechar_undoes_iff (hr : t.row.toNat < 20) (hc : t.col.toNat < 80) (hn : c ≠ 0x0A)
    (hb : c ≠ 0x08) (colour colour' : UInt8) : Undoes t c colour colour' ↔ t.col.toNat ≠ 79 := by
  constructor
  · exact fun hu h => not_undoes_end h hr hn hb colour colour' hu
  · exact fun h => undoes_inside (by omega) hn hb colour colour'

end Undo

/-! ## 2. The column in a run -/

section Column

/-- No backspace is written in column 0 of a later line. -/
def StepsBackInLine : Terminal → List (UInt8 × UInt8) → Prop
  | _, [] => True
  | t, call :: calls => (call.1 = 0x08 → t.col = 0 → t.row = 0) ∧
      StepsBackInLine (terminalWritechar t call.1 call.2) calls

/-- **One character** keeps the column on its line, unless it is such a backspace. -/
theorem terminalWritechar_column_iff {t : Terminal} (h : t.col.toNat < 80) (c colour : UInt8) :
    (terminalWritechar t c colour).col.toNat < 80 ↔ (c = 0x08 → t.col = 0 → t.row = 0) := by
  by_cases hn : c = 0x0A
  · subst hn
    exact ⟨fun _ e => absurd e (by decide), fun _ => zero_line⟩
  by_cases hb : c = 0x08
  · subst hb
    rw [terminalWritechar_backspace]
    by_cases hc : t.col = 0
    · by_cases hr : t.row = 0
      · unfold terminalBackspace
        rw [if_pos ⟨hr, hc⟩]
        exact ⟨fun _ _ _ => hr, fun _ => h⟩
      · rw [(terminalBackspace_start hr hc).2]
        exact ⟨fun hlt => absurd hlt (by decide), fun hno => absurd (hno rfl hc) hr⟩
    · rw [(terminalBackspace_inline h hc).2]
      exact ⟨fun _ _ e => absurd e hc, fun _ => by omega⟩
  · rw [terminalWritechar_ordinary hn hb]
    exact ⟨fun _ e => absurd e hb, fun _ => terminalWriteOrdinary_line h c colour⟩

/-- The column is on its line in every state of a run. -/
def ColumnsInside (t : Terminal) (calls : List (UInt8 × UInt8)) : Prop :=
  ∀ n, (terminalRun t (calls.take n)).col.toNat < 80

theorem columnsInside_cons {t : Terminal} (call : UInt8 × UInt8) (calls : List (UInt8 × UInt8)) :
    ColumnsInside t (call :: calls) ↔
      t.col.toNat < 80 ∧ ColumnsInside (terminalWritechar t call.1 call.2) calls := by
  constructor
  · exact fun h => ⟨h 0, fun n => h (n + 1)⟩
  · rintro ⟨h0, h⟩ n
    cases n with
    | zero => exact h0
    | succ n => exact h n

/-- **A run**: the column is on its line in every state exactly where no backspace steps back over
    the start of a line. -/
theorem terminalRun_column_iff (calls : List (UInt8 × UInt8)) : ∀ {t : Terminal}, t.col.toNat < 80 →
    (ColumnsInside t calls ↔ StepsBackInLine t calls) := by
  induction calls with
  | nil => exact fun h => ⟨fun _ => trivial, fun _ n => by rw [List.take_nil]; exact h⟩
  | cons call calls ih =>
    intro t h
    have hstep := terminalWritechar_column_iff h call.1 call.2
    rw [columnsInside_cons, StepsBackInLine, ← hstep]
    constructor
    · rintro ⟨-, hrest⟩
      have hnext := hrest 0
      exact ⟨hnext, (ih hnext).mp hrest⟩
    · rintro ⟨hnext, hrest⟩
      exact ⟨h, (ih hnext).mpr hrest⟩

end Column

/-- **From the cleared screen**: wherever a run has led the cursor, a backspace undoes an ordinary
    character on the screen exactly where this is not in the last column; and the column stays below
    `VGA_WIDTH` exactly in the runs without a backspace in column 0 of a later line. -/
theorem terminalBackspace_iff (videoMem : Nat → BitVec 16) (calls : List (UInt8 × UInt8)) :
    ((terminalRun (terminalInitialize videoMem) calls).row.toNat < 20 →
      (terminalRun (terminalInitialize videoMem) calls).col.toNat < 80 →
      ∀ c colour colour' : UInt8, c ≠ 0x0A → c ≠ 0x08 →
        (Undoes (terminalRun (terminalInitialize videoMem) calls) c colour colour' ↔
          (terminalRun (terminalInitialize videoMem) calls).col.toNat ≠ 79)) ∧
    (ColumnsInside (terminalInitialize videoMem) calls ↔
      StepsBackInLine (terminalInitialize videoMem) calls) := by
  refine ⟨fun hr hc c colour colour' hn hb => terminalWritechar_undoes_iff hr hc hn hb colour
    colour', terminalRun_column_iff calls ?_⟩
  rw [(terminalInitialize_spec videoMem).2.1]
  exact zero_line

/-- Characters within one line. -/
theorem terminalRun_letters (n : Nat) : ∀ {t : Terminal}, t.col.toNat + n < 80 →
    (terminalRun t (List.replicate n (0x41, 15))).row = t.row ∧
      (terminalRun t (List.replicate n (0x41, 15))).col.toNat = t.col.toNat + n := by
  induction n with
  | zero => exact fun _ => ⟨rfl, rfl⟩
  | succ n ih =>
    intro t h
    have hput := terminalWriteOrdinary_inside (t := t) (by omega) 0x41 15
    have hcol : (terminalWritechar t 0x41 15).col.toNat = t.col.toNat + 1 := by
      rw [terminalWritechar_ordinary (by decide) (by decide), hput]
      exact toNat_add_one (by omega)
    have hrow : (terminalWritechar t 0x41 15).row = t.row := by
      rw [terminalWritechar_ordinary (by decide) (by decide), hput]
      rfl
    obtain ⟨h1, h2⟩ := @ih (terminalWritechar t 0x41 15) (by omega)
    exact ⟨h1.trans hrow, by
      show (terminalRun (terminalWritechar t 0x41 15) (List.replicate n (0x41, 15))).col.toNat = _
      omega⟩

/-- A backspace behind 40 letters and one more undoes this one, and a run with backspaces in two
    lines keeps the column inside. -/
theorem terminalBackspace_iff_lines :
    Undoes (terminalRun (terminalInitialize fun _ => 0) (List.replicate 40 (0x41, 15))) 0x42 15 15 ∧
    ColumnsInside (terminalInitialize fun _ => 0)
      [(0x41, 15), (0x08, 15), (0x0A, 15), (0x42, 15), (0x08, 15)] := by
  obtain ⟨hrow0, hcol0, -⟩ := terminalInitialize_spec fun _ => 0
  have hstart : (terminalInitialize fun _ => 0).col.toNat = 0 := by
    rw [hcol0]
    rfl
  obtain ⟨hrow, hcol⟩ := @terminalRun_letters 40 (terminalInitialize fun _ => 0) (by omega)
  rw [hstart] at hcol
  rw [hrow0] at hrow
  constructor
  · refine ((terminalBackspace_iff (fun _ => 0) (List.replicate 40 (0x41, 15))).1 ?_
      (by omega) 0x42 15 15 (by decide) (by decide)).mpr (by omega)
    rw [hrow]
    decide
  · exact (terminalBackspace_iff (fun _ => 0) _).2.mpr ⟨by decide +kernel, by decide +kernel,
      by decide +kernel, by decide +kernel, by decide +kernel, trivial⟩

/-- **79 letters, and then a character and a backspace** in the last column; and a newline and a
    backspace. -/
theorem terminalBackspace_astray :
    ((terminalRun (terminalInitialize fun _ => 0) (List.replicate 79 (0x41, 15))).row = 0 ∧
      (terminalRun (terminalInitialize fun _ => 0) (List.replicate 79 (0x41, 15))).col.toNat = 79 ∧
      ¬ Undoes (terminalRun (terminalInitialize fun _ => 0) (List.replicate 79 (0x41, 15)))
        0x42 15 15) ∧
    (terminalRun (terminalInitialize fun _ => 0) [(0x0A, 15), (0x08, 15)]).col = 65535 := by
  obtain ⟨hrow0, hcol0, -⟩ := terminalInitialize_spec fun _ => 0
  have hstart : (terminalInitialize fun _ => 0).col.toNat = 0 := by
    rw [hcol0]
    rfl
  obtain ⟨hrow, hcol⟩ := @terminalRun_letters 79 (terminalInitialize fun _ => 0) (by omega)
  rw [hstart] at hcol
  rw [hrow0] at hrow
  refine ⟨⟨hrow, hcol, not_undoes_end hcol ?_ (by decide) (by decide) 15 15⟩, ?_⟩
  · rw [hrow]
    decide
  · obtain ⟨videoMem, written, e⟩ := terminalInitialize_eq fun _ => 0
    rw [e]
    have h1 : (0 + 1 : UInt16) ≠ 0 := by decide
    exact (terminalBackspace_start (t := ⟨videoMem, 0 + 1, 0, written⟩) h1 rfl).2

end PeachKernel
