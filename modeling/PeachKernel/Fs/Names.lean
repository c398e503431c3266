/-
  File:      PeachKernel/Fs/Names.lean
  Subject:   The names of directory items: how the FAT32 driver writes them, and the FAT16 driver
             reads them.

  An item has 8 bytes for the name and 3 for the extension, filled up with spaces; the dot is not
  stored. `transform_filename_to_fat` packs a name of a path into these 11 bytes, in capitals;
  `fat16_get_full_relative_filename` unpacks an item into a name with a dot, which is then compared
  without regard to case. A field that is full has no space behind it: the reader stops by counting.

  * `fat16ToProperString`, `fat16GetFullRelativeFilename` -- the reading side;
  * `Name83` -- a name of 1 to 8 characters with an extension of up to 3;
  * `transformFilenameToFat_name` -- what the writer stores;
  * `DirectoryItem.name83`, `fullRelativeFilename_text` -- what the reader makes of any item, and
    `istrncmp_name83_iff` -- the names that it finds equal to it;
  * `fat16_reads_fat32_name` -- the reader gives the name in capitals, which compares equal to it.
-/
import PeachKernel.Fs.Fat32
import Mathlib.Data.List.TakeWhile

namespace PeachKernel

/-! ## 1. The reading side -/

/-- The loop of `fat16_to_proper_string`: `buf` is the buffer that `*out` points into, at `pos`. -/
def properStringLoop (size : Nat) : (i : Nat) → (input buf : List UInt8) → (pos : Nat) →
    List UInt8 × Nat
  | _, [], buf, pos => (buf, pos)
  | i, c :: input, buf, pos =>
    if c = 0x00 ∨ c = 0x20 then (buf, pos)
    else
      let buf := buf.set pos c
      if size - 1 ≤ i then (buf, pos + 1) else properStringLoop size (i + 1) input buf (pos + 1)

/-- `fat16_to_proper_string`: the buffer, and where its string ends. -/
def fat16ToProperString (buf : List UInt8) (pos : Nat) (input : List UInt8) (size : Nat) :
    List UInt8 × Nat :=
  match properStringLoop size 0 input buf pos with
  | (buf, pos) => (buf.set pos 0x00, pos)

/-- `fat16_get_full_relative_filename`, into a buffer of `maxLen` bytes. -/
def fat16GetFullRelativeFilename (item : DirectoryItem) (maxLen : Nat) : List UInt8 :=
  let ext := item.filename.drop 8
  match fat16ToProperString (List.replicate maxLen 0x00) 0 item.filename 8 with
  | (out, pos) =>
    if ext.headD 0 ≠ 0x00 ∧ ext.headD 0 ≠ 0x20 then
      (fat16ToProperString (out.set pos 0x2E) (pos + 1) ext 3).1
    else out

/-! ## 2. Names -/

/-- A character that a part of a name can have. -/
def NameChar (c : UInt8) : Prop := c ≠ 0x20 ∧ c ≠ 0x2E ∧ c ≠ 0x2F ∧ c ≠ 0

instance (c : UInt8) : Decidable (NameChar c) := inferInstanceAs (Decidable (_ ∧ _))

/-- **A valid 8.3 name.** -/
structure Name83 where
  base : List UInt8
  ext : List UInt8
  base_pos : 1 ≤ base.length
  base_le : base.length ≤ 8
  ext_le : ext.length ≤ 3
  base_chars : ∀ c ∈ base, NameChar c
  ext_chars : ∀ c ∈ ext, NameChar c

/-- The name in a path; the dot comes with the extension. -/
def Name83.text (n : Name83) : List UInt8 := n.base ++ if n.ext = [] then [] else 0x2E :: n.ext

theorem NameChar.toupper {c : UInt8} (h : NameChar c) : NameChar (toupper c) := by
  unfold NameChar PeachKernel.toupper at *
  grind

theorem tolower_toupper (c : UInt8) : tolower (toupper c) = tolower c := by
  unfold tolower toupper
  grind

/-! ## 3. Packing -/

theorem set_fill {α : Type} (pre : List α) (x y : α) (k : Nat) :
    (pre ++ List.replicate (k + 1) x).set pre.length y = pre ++ [y] ++ List.replicate k x := by
  rw [List.set_append_right _ _ (Nat.le_refl _), Nat.sub_self, List.replicate_succ,
    List.set_cons_zero, List.append_assoc, List.singleton_append]

/-- A run of characters of a name goes into the field, in capitals. -/
theorem transformFilenameLoop_run (cs : List UInt8) : ∀ (pre src : List UInt8) (k : Nat)
    (seen : Bool), (∀ c ∈ cs, NameChar c) → pre.length + cs.length ≤ 11 →
    transformFilenameLoop (cs ++ src) (pre ++ List.replicate (cs.length + k) 0x20) pre.length seen =
      transformFilenameLoop src (pre ++ cs.map toupper ++ List.replicate k 0x20)
        (pre.length + cs.length) seen := by
  induction cs with
  | nil => simp
  | cons c cs ih =>
    intro pre src k seen hc hlen
    obtain ⟨-, hdot, -, h0⟩ := hc c List.mem_cons_self
    rw [List.length_cons] at hlen
    have hstep := ih (pre ++ [toupper c]) src k seen (fun c' h => hc c' (List.mem_cons_of_mem _ h))
      (by simp; omega)
    rw [List.cons_append, transformFilenameLoop, if_neg (by omega), if_neg h0, if_neg hdot,
      List.length_cons, show cs.length + 1 + k = cs.length + k + 1 by omega, set_fill]
    simpa [Nat.add_assoc, Nat.add_comm 1] using hstep

/-- The bytes of a field: the characters in capitals, filled up with spaces. -/
def field (cs : List UInt8) (size : Nat) : List UInt8 :=
  cs.map toupper ++ List.replicate (size - cs.length) 0x20

theorem field_length {cs : List UInt8} {size : Nat} (h : cs.length ≤ size) :
    (field cs size).length = size := by
  simp [field]
  omega

/-- **What the FAT32 driver stores for a name**: both fields. -/
theorem transformFilenameToFat_name (n : Name83) :
    transformFilenameToFat n.text = field n.base 8 ++ field n.ext 3 := by
  have hb := n.base_le
  have he := n.ext_le
  unfold transformFilenameToFat Name83.text
  have hbase := transformFilenameLoop_run n.base [] (if n.ext = [] then [] else 0x2E :: n.ext)
    (11 - n.base.length) false n.base_chars (by simp; omega)
  rw [show n.base.length + (11 - n.base.length) = 11 by omega] at hbase
  simp only [List.nil_append, List.length_nil, Nat.zero_add] at hbase
  rw [hbase]
  have hpad : n.base.map toupper ++ List.replicate (11 - n.base.length) (0x20 : UInt8) =
      field n.base 8 ++ List.replicate 3 0x20 := by
    unfold field
    rw [List.append_assoc, List.replicate_append_replicate]
    congr 2
    omega
  rw [hpad]
  split
  · rename_i h
    rw [h, transformFilenameLoop]
    rfl
  · -- the dot moves on to the second field
    have hext := transformFilenameLoop_run n.ext (field n.base 8) [] (3 - n.ext.length) true
      n.ext_chars (by rw [field_length hb]; omega)
    rw [show n.ext.length + (3 - n.ext.length) =
      3 by omega, field_length hb, List.append_nil] at hext
    rw [transformFilenameLoop, if_neg (by omega), if_neg (by decide), if_pos rfl,
      if_neg (by decide), hext, transformFilenameLoop, List.append_assoc]
    rfl

/-! ## 4. Unpacking -/

/-- The characters of a field, before a NUL or a space. -/
def fieldText (cs : List UInt8) : List UInt8 := cs.takeWhile fun c => c ≠ 0x00 ∧ c ≠ 0x20

/-- The 8.3 name of an item; the dot comes with the extension. -/
def DirectoryItem.name83 (item : DirectoryItem) : List UInt8 :=
  let ext := fieldText ((item.filename.drop 8).take 3)
  fieldText (item.filename.take 8) ++ if ext = [] then [] else 0x2E :: ext

/-- A string is the name, without regard to case; it ends at its NUL. -/
def SpelledBy (name str : List UInt8) : Prop :=
  name.map tolower = (str.takeWhile (· ≠ 0)).map tolower

instance (name str : List UInt8) : Decidable (SpelledBy name str) :=
  inferInstanceAs (Decidable (_ = _))

theorem fieldText_cons {c : UInt8} {cs : List UInt8} (h : ¬ (c = 0x00 ∨ c = 0x20)) :
    fieldText (c :: cs) = c :: fieldText cs :=
  List.takeWhile_cons_of_pos (by simpa using h)

theorem fieldText_stop {c : UInt8} {cs : List UInt8} (h : c = 0x00 ∨ c = 0x20) :
    fieldText (c :: cs) = [] :=
  List.takeWhile_cons_of_neg (by simpa [or_iff_not_imp_left] using h)

theorem fieldText_length (cs : List UInt8) (n : Nat) : (fieldText (cs.take n)).length ≤ n :=
  Nat.le_trans (List.takeWhile_sublist _).length_le (List.length_take_le _ _)

/-- **The loop**: the characters of the field go into a buffer of zeros; it ends at a NUL or a
    space, or where the field is full. -/
theorem properStringLoop_text (size : Nat) (input : List UInt8) : ∀ (pre : List UInt8) (i k : Nat),
    i < size → (fieldText (input.take (size - i))).length ≤ k →
    properStringLoop size i input (pre ++ List.replicate k 0x00) pre.length =
      (pre ++ fieldText (input.take (size - i)) ++
          List.replicate (k - (fieldText (input.take (size - i))).length) 0x00,
        pre.length + (fieldText (input.take (size - i))).length) := by
  induction input with
  | nil =>
    intro pre i k _ _
    simp [properStringLoop, fieldText]
  | cons c input ih =>
    intro pre i k hi hk
    obtain ⟨left, hleft⟩ : ∃ left, size - i = left + 1 := ⟨size - i - 1, by omega⟩
    rw [hleft, List.take_succ_cons] at hk ⊢
    rw [properStringLoop]
    by_cases hc : c = 0x00 ∨ c = 0x20
    · rw [if_pos hc, fieldText_stop hc]
      simp
    · rw [fieldText_cons hc, List.length_cons] at hk ⊢
      obtain ⟨k, rfl⟩ : ∃ k', k = k' + 1 := ⟨k - 1, by omega⟩
      rw [if_neg hc, set_fill]
      dsimp only
      split
      · -- the last byte of the field
        have h0 : left = 0 := by omega
        rw [h0]
        simp [fieldText]
      · have hstep := ih (pre ++ [c]) (i + 1) k (by omega)
          (by rw [show size - (i + 1) = left by omega]; omega)
        rw [show size - (i + 1) = left by omega, List.length_append, List.length_singleton] at hstep
        rw [hstep]
        simp [Nat.add_assoc, Nat.add_comm 1]

/-- **A field is read**, and a NUL stands behind it. -/
theorem fat16ToProperString_text {size : Nat} (hs : 0 < size) (pre input : List UInt8) {k : Nat}
    (hk : size ≤ k) :
    fat16ToProperString (pre ++ List.replicate k 0x00) pre.length input size =
      (pre ++ fieldText (input.take size) ++
          List.replicate (k - (fieldText (input.take size)).length) 0x00,
        pre.length + (fieldText (input.take size)).length) := by
  have hlen := fieldText_length input size
  have hloop := properStringLoop_text size input pre 0 k hs (by rw [Nat.sub_zero]; omega)
  rw [Nat.sub_zero] at hloop
  unfold fat16ToProperString
  rw [hloop]
  dsimp only
  generalize fieldText (input.take size) = text at hlen ⊢
  congr 1
  have hset : ∀ n, (pre ++ text ++ List.replicate n 0x00).set (pre.length + text.length)
      (0x00 : UInt8) = pre ++ text ++ List.replicate n 0x00 := by
    intro n
    cases n with
    | zero => exact List.set_eq_of_length_le (by simp)
    | succ n =>
      rw [← List.length_append, set_fill, List.replicate_succ, List.append_assoc _ [_],
        List.singleton_append]
  exact hset _

/-- **What the FAT16 driver makes of an item**: its name, with zeros behind. -/
theorem fullRelativeFilename_text (item : DirectoryItem) {maxLen : Nat} (h : 12 ≤ maxLen) :
    fat16GetFullRelativeFilename item maxLen =
      item.name83 ++ List.replicate (maxLen - item.name83.length) 0x00 := by
  have hbase := fat16ToProperString_text (show 0 < 8 by decide) [] item.filename (k := maxLen)
    (by omega)
  have hlen := fieldText_length item.filename 8
  rw [List.nil_append, List.nil_append, List.length_nil, Nat.zero_add] at hbase
  unfold fat16GetFullRelativeFilename DirectoryItem.name83
  simp only [hbase]
  generalize fieldText (item.filename.take 8) = base at hlen
  generalize item.filename.drop 8 = ext
  have hext : ext.headD 0 ≠ 0x00 ∧ ext.headD 0 ≠ 0x20 ↔ fieldText (ext.take 3) ≠ [] := by
    cases ext with
    | nil => simp [fieldText]
    | cons c ext =>
      rw [List.take_succ_cons, List.headD_cons, ← not_or]
      by_cases hc : c = 0x00 ∨ c = 0x20
      · simp [fieldText_stop hc, hc]
      · simp [fieldText_cons hc, hc]
  by_cases he : fieldText (ext.take 3) = []
  · rw [if_neg (by rw [hext]; simpa using he), if_pos he, List.append_nil]
  · have hk : maxLen - base.length = maxLen - (base.length + 1) + 1 := by omega
    have hdot := set_fill base (0x00 : UInt8) 0x2E (maxLen - (base.length + 1))
    have hrest := fat16ToProperString_text (show 0 < 3 by decide) (base ++ [0x2E]) ext
      (k := maxLen - (base.length + 1)) (by omega)
    rw [List.length_append, List.length_singleton] at hrest
    rw [if_pos (hext.mpr he), if_neg he, hk, hdot, hrest]
    simp [Nat.sub_sub, Nat.add_assoc, Nat.add_comm 1]

theorem name83_length (item : DirectoryItem) : item.name83.length ≤ 12 := by
  have hbase := fieldText_length item.filename 8
  have hext := fieldText_length (item.filename.drop 8) 3
  unfold DirectoryItem.name83
  dsimp only
  rw [List.length_append]
  split
  · rw [List.length_nil]
    omega
  · rw [List.length_cons]
    omega

theorem name83_ne_zero (item : DirectoryItem) : ∀ c ∈ item.name83, c ≠ 0 := by
  have htext : ∀ cs : List UInt8, ∀ c ∈ fieldText cs, c ≠ 0 := fun cs c hc => by
    have := List.mem_takeWhile_imp hc
    simp_all
  intro c hc
  unfold DirectoryItem.name83 at hc
  dsimp only at hc
  rcases List.mem_append.mp hc with hc | hc
  · exact htext _ c hc
  · split at hc
    · exact absurd hc List.not_mem_nil
    · rcases List.mem_cons.mp hc with rfl | hc
      · decide
      · exact htext _ c hc

theorem tolower_eq_zero {c : UInt8} : tolower c = 0 ↔ c = 0 := by
  unfold tolower
  grind

/-- **The comparison** finds a string of fewer characters than it looks at equal to the names that
    are the same. -/
theorem istrncmp_eq_zero_iff (cs : List UInt8) :
    ∀ {n k : Nat} {str : List UInt8}, (∀ c ∈ cs, c ≠ 0) → cs.length < n →
    (istrncmp n (cs ++ List.replicate k 0x00) str = 0 ↔ SpelledBy cs str) := by
  induction cs with
  | nil =>
    intro n k str _ hn
    obtain ⟨n, rfl⟩ : ∃ m, n = m + 1 := ⟨n - 1, by simp at hn; omega⟩
    have hhead : (List.replicate k (0x00 : UInt8)).headD 0 = 0 := by cases k <;> rfl
    rw [List.nil_append, istrncmp, hhead]
    unfold SpelledBy
    cases str with
    | nil => simp
    | cons d str =>
      by_cases hd : d = 0
      · simp [hd]
      · have hlow : tolower 0 ≠ tolower d := fun h => hd (tolower_eq_zero.mp h.symm)
        have hnat : d.toNat ≠ 0 := fun h => hd (UInt8.toNat_inj.mp h)
        simp [hd, hlow, Ne.symm hd, hnat]
  | cons c cs ih =>
    intro n k str hcs hn
    obtain ⟨n, rfl⟩ : ∃ m, n = m + 1 := ⟨n - 1, by simp at hn; omega⟩
    have hc : c ≠ 0 := hcs c List.mem_cons_self
    rw [List.cons_append, istrncmp, List.headD_cons, List.tail_cons]
    have hrest := @ih n k str.tail (fun c' h => hcs c' (List.mem_cons_of_mem _ h))
      (Nat.lt_of_succ_lt_succ hn)
    unfold SpelledBy at hrest ⊢
    cases str with
    | nil =>
      have hlow : tolower c ≠ tolower 0 := fun h => hc (tolower_eq_zero.mp h)
      have hnat : c.toNat ≠ 0 := fun h => hc (UInt8.toNat_inj.mp h)
      simp [hc, hlow, hnat]
    | cons d str =>
      by_cases hd : d = 0
      · have hlow : tolower c ≠ tolower 0 := fun h => hc (tolower_eq_zero.mp h)
        have hnat : c.toNat ≠ 0 := fun h => hc (UInt8.toNat_inj.mp h)
        simp [hd, hc, hlow, hnat]
      · by_cases hlow : tolower c = tolower d
        · simpa [hd, hc, hlow] using hrest
        · have hne : c ≠ d := fun h => hlow (by rw [h])
          have hnat : (c.toNat : Int) - d.toNat ≠ 0 := fun h =>
            hne (UInt8.toNat_inj.mp (by omega))
          simp [hd, hlow, hne, hnat]

/-- The names that the driver finds equal. -/
theorem istrncmp_name83_iff (item : DirectoryItem) (name : List UInt8) :
    istrncmp 108 (fat16GetFullRelativeFilename item 108) name = 0 ↔ SpelledBy item.name83 name := by
  rw [fullRelativeFilename_text item (by decide)]
  exact istrncmp_eq_zero_iff _ (name83_ne_zero item)
    (Nat.lt_of_le_of_lt (name83_length item) (by decide))

/-! ## 5. The two drivers -/

theorem Name83.text_ne_zero (n : Name83) : ∀ c ∈ n.text, c ≠ 0 := by
  intro c h
  unfold Name83.text at h
  rcases List.mem_append.mp h with h | h
  · exact (n.base_chars c h).2.2.2
  · split at h
    · exact absurd h List.not_mem_nil
    · rcases List.mem_cons.mp h with rfl | h
      · decide
      · exact (n.ext_chars c h).2.2.2

/-- The characters of a packed field, in capitals. -/
theorem fieldText_field {cs : List UInt8} (hc : ∀ c ∈ cs, NameChar c) (size : Nat) :
    fieldText (field cs size) = cs.map toupper := by
  have hall : ∀ c ∈ cs.map toupper, decide (c ≠ 0x00 ∧ c ≠ 0x20) = true := by
    intro c h
    obtain ⟨c', h', rfl⟩ := List.mem_map.mp h
    obtain ⟨hsp, -, -, h0⟩ := (hc c' h').toupper
    exact decide_eq_true ⟨h0, hsp⟩
  unfold fieldText field
  rw [List.takeWhile_append_of_pos hall]
  cases size - cs.length with
  | zero => simp
  | succ n => simp [List.replicate_succ]

/-- **The name of a packed item.** -/
theorem name83_packed (n : Name83) (item : DirectoryItem) :
    { item with filename := transformFilenameToFat n.text }.name83 = n.text.map toupper := by
  have hbase := field_length n.base_le
  have hext := field_length n.ext_le
  unfold DirectoryItem.name83
  dsimp only
  rw [transformFilenameToFat_name, List.take_left' hbase, List.drop_left' hbase,
    List.take_of_length_le (Nat.le_of_eq hext), fieldText_field n.base_chars,
    fieldText_field n.ext_chars]
  unfold Name83.text
  by_cases he : n.ext = []
  · simp [he]
  · simp [he, toupper]

/-- A name in capitals is the name, without regard to case. -/
theorem spelledBy_toupper (n : Name83) : SpelledBy (n.text.map toupper) n.text := by
  unfold SpelledBy
  rw [List.takeWhile_eq_self_iff.mpr fun c hc => decide_eq_true (n.text_ne_zero c hc), List.map_map]
  exact List.map_congr_left fun c _ => tolower_toupper c

/-- **The two drivers agree on names**: what the FAT32 driver packs, the FAT16 driver unpacks as the
    name in capitals, which compares equal to the name over the whole buffer. -/
theorem fat16_reads_fat32_name (n : Name83) (item : DirectoryItem) :
    fat16GetFullRelativeFilename { item with filename := transformFilenameToFat n.text } 108 =
      n.text.map toupper ++ List.replicate (108 - n.text.length) 0x00 ∧
    istrncmp 108 (fat16GetFullRelativeFilename
      { item with filename := transformFilenameToFat n.text } 108) n.text = 0 := by
  have hname := name83_packed n item
  constructor
  · rw [fullRelativeFilename_text _ (by decide), hname, List.length_map]
  · rw [istrncmp_name83_iff, hname]
    exact spelledBy_toupper n

/-- The name `kernel32.elf`, which fills both parts. -/
def kernelElf : Name83 where
  base := [0x6B, 0x65, 0x72, 0x6E, 0x65, 0x6C, 0x33, 0x32]
  ext := [0x65, 0x6C, 0x66]
  base_pos := by decide
  base_le := by decide
  ext_le := by decide
  base_chars := by decide +kernel
  ext_chars := by decide +kernel

/-- It is read as `KERNEL32.ELF`. -/
theorem fat16_reads_fat32_name_full :
    fat16GetFullRelativeFilename
        { DirectoryItem.zero with filename := transformFilenameToFat kernelElf.text } 108 =
      [0x4B, 0x45, 0x52, 0x4E, 0x45, 0x4C, 0x33, 0x32, 0x2E, 0x45, 0x4C, 0x46] ++
        List.replicate 96 0x00 ∧
    istrncmp 108 (fat16GetFullRelativeFilename
      { DirectoryItem.zero with filename := transformFilenameToFat kernelElf.text } 108)
        kernelElf.text = 0 :=
  fat16_reads_fat32_name kernelElf DirectoryItem.zero

end PeachKernel
