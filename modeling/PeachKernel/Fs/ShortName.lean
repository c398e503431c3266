/-
  File:      PeachKernel/Fs/ShortName.lean
  Subject:   Which directory entries a component of a path opens on FAT32.

  The component is packed into 11 bytes and compared with the entry's. Packing cuts a component that
  is too long, lets a base of more than 8 characters run into the extension, and drops every dot but
  the first; the attributes of the entry are not looked at. So an entry is opened under many names.

  * `putAt`, `shortName` -- the packed form in one piece; `transformFilenameToFat_eq` -- the loop
    computes it;
  * `displayName`, `SameName`, `Live` -- what an entry is called, and that it is there;
  * `Shaped` -- components that lose nothing by packing: `displayName_shortName`,
    `shaped_of_sameName`;
  * `lookupMatches_iff` -- when the lookup matches an entry exactly where it should.
-/
import PeachKernel.Fs.Names
import Mathlib.Data.List.DropRight

namespace PeachKernel

/-! ## 1. The packed form -/

/-- The list with `cs` written over it from `pos` on, as far as it goes. -/
def putAt (pos : Nat) (cs dest : List UInt8) : List UInt8 :=
  dest.take pos ++ cs.take (dest.length - pos) ++ dest.drop (pos + cs.length)

/-- The characters before the first dot. -/
def beforeDot (src : List UInt8) : List UInt8 := src.takeWhile (· ≠ 0x2E)

/-- The characters behind it, further dots among them. -/
def behindDot (src : List UInt8) : List UInt8 := (src.dropWhile (· ≠ 0x2E)).tail

/-- **The packed form of a component**: what stands before the first dot, over 11 spaces; and over
    that, from the extension on, what stands behind it without its dots. A base of 11 characters
    leaves no room for more. -/
def shortName (src : List UInt8) : List UInt8 :=
  let base := putAt 0 ((beforeDot src).map toupper) (List.replicate 11 0x20)
  if 11 ≤ (beforeDot src).length then base
  else putAt 8 (((behindDot src).filter (· ≠ 0x2E)).map toupper) base

section Packing

variable {pos : Nat} {c : UInt8} {cs dest : List UInt8}

theorem putAt_length (h : pos ≤ dest.length) : (putAt pos cs dest).length = dest.length := by
  simp [putAt]
  omega

theorem putAt_nil : putAt pos [] dest = dest := by simp [putAt]

/-- Behind the end nothing is written. -/
theorem putAt_end (h : pos = dest.length) : putAt pos cs dest = dest := by
  subst h
  simp [putAt]

/-- One character, then the rest. -/
theorem putAt_cons (h : pos < dest.length) :
    putAt (pos + 1) cs (dest.set pos c) = putAt pos (c :: cs) dest := by
  obtain ⟨room, hroom⟩ : ∃ room, dest.length - pos = room + 1 := ⟨dest.length - pos - 1, by omega⟩
  have htake : (dest.set pos c).take (pos + 1) = dest.take pos ++ [c] := by
    rw [List.take_add_one, List.take_set_of_le (Nat.le_refl pos), List.getElem?_set_self h]
    rfl
  have hdrop : (dest.set pos c).drop (pos + 1 + cs.length) = dest.drop
      (pos + (c :: cs).length) := by
    rw [List.drop_set_of_lt (by omega), List.length_cons]
    congr 1
    omega
  unfold putAt
  rw [htake, hdrop, List.length_set, hroom, show dest.length - (pos + 1) = room by omega,
    List.take_succ_cons]
  simp

theorem mem_putAt {x : UInt8} (h : x ∈ putAt pos cs dest) : x ∈ cs ∨ x ∈ dest := by
  simp only [putAt, List.mem_append] at h
  rcases h with (h | h) | h
  · exact Or.inr (List.mem_of_mem_take h)
  · exact Or.inl (List.mem_of_mem_take h)
  · exact Or.inr (List.mem_of_mem_drop h)

end Packing

/-- Behind the first dot: every character is written but the dots. -/
theorem transformFilenameLoop_behind (src : List UInt8) :
    ∀ {dest : List UInt8} {pos : Nat}, 0 ∉ src → dest.length = 11 → pos ≤ 11 →
    transformFilenameLoop src dest pos true =
      putAt pos ((src.filter (· ≠ 0x2E)).map toupper) dest := by
  induction src with
  | nil =>
    intro dest pos _ _ _
    exact putAt_nil.symm
  | cons c src ih =>
    intro dest pos h0 hlen hpos
    obtain ⟨hc, hsrc⟩ := not_or.mp (fun h => h0 (List.mem_cons.mpr h))
    rw [transformFilenameLoop]
    by_cases hend : 11 ≤ pos
    · rw [if_pos hend, putAt_end (by omega)]
    rw [if_neg hend, if_neg (Ne.symm hc)]
    by_cases hdot : c = 0x2E
    · rw [if_pos hdot, if_pos rfl, ih hsrc hlen hpos, List.filter_cons_of_neg (by simp [hdot])]
    · rw [if_neg hdot, ih hsrc (by simpa using hlen) (by omega),
        List.filter_cons_of_pos (by simp [hdot]), List.map_cons, putAt_cons (by omega)]

/-- **The loop from its start**, up to the first dot and behind it. -/
theorem transformFilenameLoop_before (src : List UInt8) :
    ∀ {dest : List UInt8} {pos : Nat}, 0 ∉ src → dest.length = 11 → pos ≤ 11 →
    transformFilenameLoop src dest pos false =
      if 11 ≤ pos + (beforeDot src).length then putAt pos ((beforeDot src).map toupper) dest
      else putAt 8 (((behindDot src).filter (· ≠ 0x2E)).map toupper)
        (putAt pos ((beforeDot src).map toupper) dest) := by
  induction src with
  | nil =>
    intro dest pos _ _ _
    simp [transformFilenameLoop, beforeDot, behindDot, putAt_nil]
  | cons c src ih =>
    intro dest pos h0 hlen hpos
    obtain ⟨hc, hsrc⟩ := not_or.mp (fun h => h0 (List.mem_cons.mpr h))
    rw [transformFilenameLoop]
    by_cases hend : 11 ≤ pos
    · rw [if_pos hend, if_pos (by omega), putAt_end (by omega)]
    rw [if_neg hend, if_neg (Ne.symm hc)]
    by_cases hdot : c = 0x2E
    · have hbefore : beforeDot (c :: src) = [] := List.takeWhile_cons_of_neg (by simp [hdot])
      have hbehind : behindDot (c :: src) = src := by
        unfold behindDot
        rw [List.dropWhile_cons_of_neg (by simp [hdot]), List.tail_cons]
      rw [if_pos hdot, if_neg (by decide), hbefore, hbehind, List.length_nil, if_neg (by omega),
        transformFilenameLoop_behind src hsrc hlen (by decide), List.map_nil, putAt_nil]
    · have hbefore : beforeDot (c :: src) = c :: beforeDot src :=
        List.takeWhile_cons_of_pos (by simp [hdot])
      have hbehind : behindDot (c :: src) = behindDot src := by
        unfold behindDot
        rw [List.dropWhile_cons_of_pos (by simp [hdot])]
      have hcount : pos + 1 + (beforeDot src).length = pos + (beforeDot src).length.succ := by omega
      rw [if_neg hdot, ih hsrc (by simpa using hlen) (by omega), hbefore, hbehind, List.length_cons,
        List.map_cons, putAt_cons (by omega), hcount]

/-- **What the driver packs a component into.** -/
theorem transformFilenameToFat_eq {src : List UInt8} (h0 : 0 ∉ src) :
    transformFilenameToFat src = shortName src := by
  unfold transformFilenameToFat shortName
  rw [transformFilenameLoop_before src h0 (List.length_replicate ..) (Nat.zero_le _), Nat.zero_add]

theorem shortName_length (src : List UInt8) : (shortName src).length = 11 := by
  have hbase : (putAt 0 ((beforeDot src).map toupper) (List.replicate 11 0x20)).length = 11 := by
    rw [putAt_length (Nat.zero_le _), List.length_replicate]
  unfold shortName
  split
  · exact hbase
  · rw [putAt_length (by rw [hbase]; decide), hbase]

/-- The packed form has capitals, no dot, and no NUL. -/
theorem mem_shortName {src : List UInt8} (h0 : 0 ∉ src) {c : UInt8} (h : c ∈ shortName src) :
    toupper c = c ∧ c ≠ 0x2E ∧ c ≠ 0 := by
  have hupper : ∀ b ∈ src, b ≠ 0x2E → toupper (toupper b) = toupper b ∧ toupper b ≠ 0x2E ∧
      toupper b ≠ 0 := by
    intro b hb hdot
    have hb0 : b ≠ 0 := fun e => h0 (e ▸ hb)
    unfold toupper
    grind
  have hbase : ∀ c ∈ putAt 0 ((beforeDot src).map toupper) (List.replicate 11 0x20),
      toupper c = c ∧ c ≠ 0x2E ∧ c ≠ 0 := by
    intro c hc
    rcases mem_putAt hc with hc | hc
    · obtain ⟨b, hb, rfl⟩ := List.mem_map.mp hc
      exact hupper b (List.takeWhile_subset _ hb) (by simpa using List.mem_takeWhile_imp hb)
    · rw [List.eq_of_mem_replicate hc]
      decide
  unfold shortName at h
  split at h
  · exact hbase c h
  · rcases mem_putAt h with hc | hc
    · obtain ⟨b, hb, rfl⟩ := List.mem_map.mp hc
      obtain ⟨hmem, hdot⟩ := List.mem_filter.mp hb
      exact hupper b ((List.dropWhile_sublist _).subset (List.mem_of_mem_tail hmem))
        (by simpa using hdot)
    · exact hbase c hc

/-! ## 2. Names of entries -/

/-- The bytes without the spaces at the end. -/
def trimEnd (cs : List UInt8) : List UInt8 := cs.rdropWhile (· = 0x20)

/-- **The 8.3 display name** of 11 bytes: name and extension without their padding, a dot
    between. -/
def displayName (filename : List UInt8) : List UInt8 :=
  trimEnd (filename.take 8) ++
    if trimEnd (filename.drop 8) = [] then [] else 0x2E :: trimEnd (filename.drop 8)

/-- Equal but for the case of ASCII letters. -/
def SameName (a b : List UInt8) : Prop := a.map tolower = b.map tolower

instance (a b : List UInt8) : Decidable (SameName a b) := inferInstanceAs (Decidable (_ = _))

/-- An entry of a file or a directory: neither deleted nor the label of the volume. -/
def Live (item : DirectoryItem) : Prop := item.filename.headD 0 ≠ 0xE5 ∧ item.attr &&& 0x08 = 0

instance (item : DirectoryItem) : Decidable (Live item) := inferInstanceAs (Decidable (_ ∧ _))

/-- Name and extension as the format has them: in capitals, without a dot. -/
def Plain (filename : List UInt8) : Prop := ∀ c ∈ filename, toupper c = c ∧ c ≠ 0x2E

instance (filename : List UInt8) : Decidable (Plain filename) :=
  inferInstanceAs (Decidable (∀ c ∈ filename, _))

/-- **Components that lose nothing by packing**: at most 8 characters, then nothing, or one dot and
    1 to 3 characters; and no space at the end of either. -/
def Shaped (src : List UInt8) : Prop :=
  (beforeDot src).length ≤ 8 ∧ trimEnd (beforeDot src) = beforeDot src ∧
    (0x2E ∈ src → behindDot src ≠ [] ∧ (behindDot src).length ≤ 3 ∧ 0x2E ∉ behindDot src ∧
      trimEnd (behindDot src) = behindDot src)

instance (src : List UInt8) : Decidable (Shaped src) := inferInstanceAs (Decidable (_ ∧ _ ∧ _))

section Names

variable {src filename : List UInt8}

theorem split_dot (src : List UInt8) :
    src = beforeDot src ++ if 0x2E ∈ src then 0x2E :: behindDot src else [] := by
  induction src with
  | nil => rfl
  | cons c src ih =>
    by_cases hdot : c = 0x2E
    · subst hdot
      simp [beforeDot, behindDot]
    · have hbefore : beforeDot (c :: src) = c :: beforeDot src :=
        List.takeWhile_cons_of_pos (by simp [hdot])
      have hbehind : behindDot (c :: src) = behindDot src := by
        unfold behindDot
        rw [List.dropWhile_cons_of_pos (by simp [hdot])]
      have hmem : (0x2E ∈ c :: src) = (0x2E ∈ src) := by simp [Ne.symm hdot]
      rw [hbefore, hbehind, List.cons_append]
      simp only [hmem]
      rw [← ih]

/-- A name without a dot, and one with a first dot. -/
theorem beforeDot_append {cs rest : List UInt8} (h : 0x2E ∉ cs)
    (hrest : rest = [] ∨ rest.headD 0 = 0x2E) :
    beforeDot (cs ++ rest) = cs ∧ behindDot (cs ++ rest) = rest.tail := by
  have hcs : ∀ c ∈ cs, (c ≠ 0x2E) := fun c hc e => h (e ▸ hc)
  unfold beforeDot behindDot
  rw [List.takeWhile_append_of_pos (by simpa using hcs),
    List.dropWhile_append_of_pos (by simpa using hcs)]
  rcases hrest with rfl | hrest
  · simp
  · cases rest with
    | nil => simp
    | cons c rest =>
      rw [List.headD_cons] at hrest
      simp [hrest]

/-- Spaces behind a name are trimmed. -/
theorem trimEnd_append_spaces (cs : List UInt8) (n : Nat) :
    trimEnd (cs ++ List.replicate n 0x20) = trimEnd cs := by
  induction n with
  | zero => simp
  | succ n ih =>
    unfold trimEnd at ih ⊢
    rw [List.replicate_succ', ← List.append_assoc, List.rdropWhile_concat_pos _ _ _ (by simp), ih]

/-- A trimmed name with its padding. -/
theorem trimEnd_padded (cs : List UInt8) :
    cs = trimEnd cs ++ List.replicate (cs.length - (trimEnd cs).length) 0x20 := by
  have hsplit := List.rdropWhile_append_rtakeWhile (p := fun c : UInt8 => decide (c = 0x20))
    (l := cs)
  have hspaces : cs.rtakeWhile (· = 0x20) =
      List.replicate (cs.rtakeWhile (· = 0x20)).length 0x20 :=
    List.eq_replicate_of_mem fun c hc => by simpa using List.mem_rtakeWhile_imp hc
  have hlen := congrArg List.length hsplit
  rw [List.length_append] at hlen
  have hcount : cs.length - (trimEnd cs).length = (cs.rtakeWhile (· = 0x20)).length := by
    unfold trimEnd
    omega
  rw [hcount, ← hspaces]
  exact hsplit.symm

theorem trimEnd_map {f : UInt8 → UInt8} (hf : ∀ c, f c = 0x20 ↔ c = 0x20) (cs : List UInt8) :
    trimEnd (cs.map f) = (trimEnd cs).map f := by
  unfold trimEnd List.rdropWhile
  rw [← List.map_reverse, List.dropWhile_map, ← List.map_reverse]
  congr 3
  funext c
  simp [hf]

theorem toupper_space (c : UInt8) : toupper c = 0x20 ↔ c = 0x20 := by
  unfold toupper
  grind

theorem tolower_space (c : UInt8) : tolower c = 0x20 ↔ c = 0x20 := by
  unfold tolower
  grind

theorem tolower_dot (c : UInt8) : tolower c = 0x2E ↔ c = 0x2E := by
  unfold tolower
  grind

theorem toupper_of_tolower {b c : UInt8} (h : tolower b = tolower c) (hc : toupper c = c) :
    toupper b = c := by
  unfold toupper tolower at *
  grind

/-- **The packed form of such a component**: both fields. -/
theorem shortName_shaped (h : Shaped src) : shortName src = field (beforeDot src) 8 ++
    field (if 0x2E ∈ src then behindDot src else []) 3 := by
  obtain ⟨hbase, -, hext⟩ := h
  have hpad : putAt 0 ((beforeDot src).map toupper) (List.replicate 11 0x20) =
      field (beforeDot src) 8 ++ List.replicate 3 0x20 := by
    unfold putAt field
    rw [List.take_zero, List.nil_append, List.take_of_length_le (by simp; omega),
      List.drop_replicate, List.length_map, List.append_assoc, List.replicate_append_replicate]
    congr 2
    omega
  have hlen : (field (beforeDot src) 8).length = 8 := field_length hbase
  unfold shortName
  dsimp only
  rw [if_neg (by omega), hpad]
  by_cases hdot : 0x2E ∈ src
  · obtain ⟨-, hle, hno, -⟩ := hext hdot
    have hfilter : (behindDot src).filter (· ≠ 0x2E) = behindDot src :=
      List.filter_eq_self.mpr fun c hc => by simpa using fun e : c = 0x2E => hno (e ▸ hc)
    rw [hfilter, if_pos hdot]
    unfold putAt
    rw [List.take_append_of_le_length (by omega), List.take_of_length_le (by omega),
      List.take_of_length_le (by simp [hlen]; omega), List.drop_append, hlen,
      List.drop_of_length_le (by omega), List.nil_append, List.drop_replicate, List.append_assoc]
    unfold field
    rw [show 8 + ((behindDot src).map toupper).length - 8 = (behindDot src).length by simp]
  · have hnone : behindDot src = [] := by
      have hall : src.dropWhile (· ≠ 0x2E) = [] :=
        List.dropWhile_eq_nil_iff.mpr fun c hc => by simpa using fun e : c = 0x2E => hdot (e ▸ hc)
      unfold behindDot
      rw [hall, List.tail_nil]
    rw [hnone, if_neg hdot]
    exact putAt_nil

/-- **Nothing is lost**: the name of the packed form is the component in capitals. -/
theorem displayName_shortName (h : Shaped src) : displayName (shortName src) = src.map toupper := by
  have hshort := shortName_shaped h
  obtain ⟨hbase, htrim, hext⟩ := h
  have hlen : (field (beforeDot src) 8).length = 8 := field_length hbase
  have hfield : ∀ (cs : List UInt8) (n : Nat), trimEnd cs = cs →
      trimEnd (field cs n) = cs.map toupper := by
    intro cs n hcs
    unfold field
    rw [trimEnd_append_spaces, trimEnd_map toupper_space, hcs]
  unfold displayName
  rw [hshort, List.take_append_of_le_length (by omega), List.take_of_length_le (by omega),
    List.drop_append_of_le_length (by omega), List.drop_of_length_le (by omega), List.nil_append,
    hfield _ 8 htrim]
  by_cases hdot : 0x2E ∈ src
  · obtain ⟨hne, -, -, htrim'⟩ := hext hdot
    rw [if_pos hdot, hfield _ 3 htrim', if_neg (by simpa using hne)]
    conv_rhs => rw [split_dot src, if_pos hdot]
    rw [List.map_append, List.map_cons]
    rfl
  · rw [if_neg hdot, hfield [] 3 rfl, List.map_nil, if_pos rfl]
    conv_rhs => rw [split_dot src, if_neg hdot]
    rw [List.map_append, List.map_nil]

/-- Two parts of a component that are called like the name and the extension of an entry. -/
theorem sameName_parts (hdots : 0x2E ∉ filename) (h : SameName src (displayName filename)) :
    (beforeDot src).map tolower = (trimEnd (filename.take 8)).map tolower ∧
      (0x2E ∈ src → trimEnd (filename.drop 8) ≠ []) ∧
      (trimEnd (filename.drop 8) ≠ [] → 0x2E ∈ src) ∧
      (behindDot src).map tolower = (trimEnd (filename.drop 8)).map tolower := by
  have hsub : ∀ cs : List UInt8, (∀ c ∈ cs, c ∈ filename) → 0x2E ∉ trimEnd cs := fun cs hcs hmem =>
    hdots (hcs _ ((List.rdropWhile_prefix _ _).subset hmem))
  have hbase := hsub (filename.take 8) fun c hc => List.mem_of_mem_take hc
  have hext := hsub (filename.drop 8) fun c hc => List.mem_of_mem_drop hc
  have hmapped : ∀ cs : List UInt8, 0x2E ∉ cs → 0x2E ∉ cs.map tolower := fun cs hcs hmem => by
    obtain ⟨c, hc, e⟩ := List.mem_map.mp hmem
    exact hcs ((tolower_dot c).mp e ▸ hc)
  have hlower : ∀ cs : List UInt8, beforeDot (cs.map tolower) = (beforeDot cs).map tolower ∧
      behindDot (cs.map tolower) = (behindDot cs).map tolower := by
    intro cs
    have hp : ((fun c : UInt8 => decide (c ≠ 0x2E)) ∘ tolower) = fun c => decide (c ≠ 0x2E) := by
      funext c
      simp [tolower_dot]
    unfold beforeDot behindDot
    rw [List.takeWhile_map, List.dropWhile_map, hp, List.map_tail]
    exact ⟨rfl, rfl⟩
  have hdot : 0x2E ∈ src ↔ 0x2E ∈ src.map tolower := by
    rw [List.mem_map]
    constructor
    · exact fun hmem => ⟨_, hmem, rfl⟩
    · rintro ⟨c, hc, e⟩
      exact (tolower_dot c).mp e ▸ hc
  have hsplit : src.map tolower = (trimEnd (filename.take 8)).map tolower ++
      (if trimEnd (filename.drop 8) = [] then []
        else 0x2E :: (trimEnd (filename.drop 8)).map tolower) := by
    unfold SameName displayName at h
    rw [h, List.map_append]
    split
    · rfl
    · rfl
  have hparts := @beforeDot_append _ (if trimEnd (filename.drop 8) = [] then []
    else 0x2E :: (trimEnd (filename.drop 8)).map tolower) (hmapped _ hbase) (by
      split
      · exact Or.inl rfl
      · exact Or.inr rfl)
  rw [← hsplit, (hlower src).1, (hlower src).2] at hparts
  refine ⟨hparts.1, ?_, ?_, ?_⟩
  · intro hmem hnil
    rw [hdot, hsplit, if_pos hnil, List.append_nil] at hmem
    exact hmapped _ hbase hmem
  · intro hne
    rw [hdot, hsplit, if_neg hne]
    exact List.mem_append_right _ List.mem_cons_self
  · rw [hparts.2]
    split
    · rename_i hnil
      rw [hnil]
      rfl
    · rfl

/-- A part that is called like a trimmed one is trimmed. -/
theorem trimEnd_of_sameName {a b : List UInt8} (h : a.map tolower = (trimEnd b).map tolower) :
    trimEnd a = a := by
  have hidem : trimEnd (trimEnd b) = trimEnd b := List.rdropWhile_idempotent _ _
  have hlower : (trimEnd a).map tolower = a.map tolower := by
    rw [← trimEnd_map tolower_space, h, trimEnd_map tolower_space, hidem]
  have hlen := congrArg List.length hlower
  rw [List.length_map, List.length_map] at hlen
  exact (List.rdropWhile_prefix _ _).eq_of_length hlen

/-- **What is called like an entry loses nothing.** -/
theorem shaped_of_sameName (hlen : filename.length = 11) (hdots : 0x2E ∉ filename)
    (h : SameName src (displayName filename)) : Shaped src := by
  obtain ⟨hbase, hdot, -, hext⟩ := sameName_parts hdots h
  have hle : ∀ {a b : List UInt8}, a.map tolower = (trimEnd b).map tolower →
      a.length ≤ b.length := by
    intro a b e
    have hab := congrArg List.length e
    rw [List.length_map, List.length_map] at hab
    rw [hab]
    exact (List.rdropWhile_prefix _ _).length_le
  have h1 := hle hbase
  have h2 := hle hext
  rw [List.length_take] at h1
  rw [List.length_drop] at h2
  refine ⟨by omega, trimEnd_of_sameName hbase,
    fun hmem => ⟨?_, by omega, ?_, trimEnd_of_sameName hext⟩⟩
  · intro hnil
    rw [hnil] at hext
    exact hdot hmem (List.map_eq_nil_iff.mp hext.symm)
  · intro hin
    have hin' : 0x2E ∈ (trimEnd (filename.drop 8)).map tolower := by
      rw [← hext]
      exact List.mem_map.mpr ⟨_, hin, rfl⟩
    obtain ⟨c, hc, e⟩ := List.mem_map.mp hin'
    exact hdots ((tolower_dot c).mp e ▸ List.mem_of_mem_drop
      ((List.rdropWhile_prefix _ _).subset hc))

/-- **... and is packed into the bytes of the entry**, where these are in capitals. -/
theorem shortName_of_sameName (hlen : filename.length = 11) (hplain : Plain filename)
    (h : SameName src (displayName filename)) : shortName src = filename := by
  have hdots : 0x2E ∉ filename := fun hmem => (hplain _ hmem).2 rfl
  obtain ⟨hbase, -, hdot, hext⟩ := sameName_parts hdots h
  have hshaped := shaped_of_sameName hlen hdots h
  have hfield : ∀ {cs part : List UInt8} {n : Nat}, part.length = n → (∀ c ∈ part, c ∈ filename) →
      cs.map tolower = (trimEnd part).map tolower → field cs n = part := by
    intro cs part n hn hpart e
    have hcaps : cs.map toupper = trimEnd part := by
      have hel : ∀ (as bs : List UInt8), (∀ b ∈ bs, toupper b = b) →
          as.map tolower = bs.map tolower → as.map toupper = bs := by
        intro as
        induction as with
        | nil =>
          intro bs _ e
          exact (List.map_eq_nil_iff.mp e.symm).symm
        | cons a as ih =>
          intro bs hbs e
          cases bs with
          | nil => exact absurd e (by simp)
          | cons b bs =>
            rw [List.map_cons, List.map_cons, List.cons.injEq] at e
            rw [List.map_cons, toupper_of_tolower e.1 (hbs b List.mem_cons_self),
              ih bs (fun b' hb => hbs b' (List.mem_cons_of_mem _ hb)) e.2]
      exact hel _ _ (fun b hb => (hplain b (hpart b ((List.rdropWhile_prefix _ _).subset hb))).1) e
    have hcount : cs.length = (trimEnd part).length := by
      rw [← hcaps, List.length_map]
    unfold field
    rw [hcaps, hcount, ← hn]
    exact (trimEnd_padded part).symm
  have h8 : field (beforeDot src) 8 = filename.take 8 :=
    hfield (by rw [List.length_take]; omega) (fun c hc => List.mem_of_mem_take hc) hbase
  have h3 : field (if 0x2E ∈ src then behindDot src else []) 3 = filename.drop 8 := by
    refine hfield (by rw [List.length_drop]; omega) (fun c hc => List.mem_of_mem_drop hc) ?_
    split
    · exact hext
    · rename_i hnot
      have hnil : trimEnd (filename.drop 8) = [] := by
        by_contra hne
        exact hnot (hdot hne)
      rw [hnil]
  rw [shortName_shaped hshaped, h8, h3, List.take_append_drop]

end Names

/-! ## 3. The lookup -/

/-- The comparison of `get_path_directory_item`. -/
def LookupMatches (item : DirectoryItem) (component : List UInt8) : Prop :=
  strncmp 11 item.filename (transformFilenameToFat component) = 0

/-- **The lookup matches an entry exactly where it should.** -/
def LookupRight (item : DirectoryItem) (component : List UInt8) : Prop :=
  LookupMatches item component ↔ Live item ∧ SameName component (displayName item.filename)

/-- Where it does. An entry with small letters or a dot in its bytes is never matched. -/
def LookupFits (item : DirectoryItem) (component : List UInt8) : Prop :=
  if Plain item.filename then
    shortName component = item.filename → Live item ∧ Shaped component
  else ¬ (Live item ∧ SameName component (displayName item.filename))

instance (item : DirectoryItem) (component : List UInt8) :
    Decidable (LookupFits item component) := by
  unfold LookupFits
  infer_instance

/-- Comparing as many bytes as both have. -/
theorem strncmp_zero_iff (b : List UInt8) : ∀ {a : List UInt8}, a.length = b.length → 0 ∉ b →
    (strncmp b.length a b = 0 ↔ a = b) := by
  induction b with
  | nil =>
    intro a hlen _
    simp [strncmp, List.eq_nil_of_length_eq_zero hlen]
  | cons c b ih =>
    intro a hlen h0
    obtain ⟨hc, hb⟩ := not_or.mp (fun h => h0 (List.mem_cons.mpr h))
    cases a with
    | nil => simp at hlen
    | cons c' a =>
      rw [List.length_cons, List.length_cons, Nat.succ_inj] at hlen
      have hstep : strncmp (b.length + 1) (c' :: a) (c :: b) =
          if c' ≠ c then (c'.toNat : Int) - c.toNat else if c' = 0 then 0 else
              strncmp b.length a b := by
        simp [strncmp]
      rw [List.length_cons, hstep, List.cons.injEq]
      by_cases e : c' = c
      · subst e
        rw [if_neg (by simp), if_neg (Ne.symm hc), ih hlen hb]
        simp
      · have hne : c'.toNat ≠ c.toNat := fun h => e (UInt8.toNat_inj.mp h)
        rw [if_pos e]
        simp only [e, false_and, iff_false]
        omega

/-- **What is matched**: the packed form of the component is what the entry has. -/
theorem lookupMatches_iff {item : DirectoryItem} {component : List UInt8}
    (hlen : item.filename.length = 11) (h0 : 0 ∉ component) :
    LookupMatches item component ↔ shortName component = item.filename := by
  unfold LookupMatches
  rw [transformFilenameToFat_eq h0]
  have hzero : 0 ∉ shortName component := fun h => (mem_shortName h0 h).2.2 rfl
  have hiff := strncmp_zero_iff (shortName component)
    (hlen.trans (shortName_length component).symm) hzero
  rw [shortName_length] at hiff
  rw [hiff]
  exact eq_comm

/-- **The lookup is right exactly where** an entry whose bytes the component is packed into is there
    and the component loses nothing; and an entry that is not plain is not there, or is called
    otherwise. -/
theorem lookupRight_iff {item : DirectoryItem} {component : List UInt8}
    (hlen : item.filename.length = 11) (h0 : 0 ∉ component) :
    LookupRight item component ↔ LookupFits item component := by
  unfold LookupRight LookupFits
  rw [lookupMatches_iff hlen h0]
  by_cases hplain : Plain item.filename
  · rw [if_pos hplain]
    have hdots : 0x2E ∉ item.filename := fun hmem => (hplain _ hmem).2 rfl
    constructor
    · intro h hshort
      obtain ⟨hlive, hsame⟩ := h.mp hshort
      exact ⟨hlive, shaped_of_sameName hlen hdots hsame⟩
    · intro h
      constructor
      · intro hshort
        obtain ⟨hlive, hshaped⟩ := h hshort
        refine ⟨hlive, ?_⟩
        unfold SameName
        rw [← hshort, displayName_shortName hshaped, List.map_map]
        exact List.map_congr_left fun c _ => (tolower_toupper c).symm
      · exact fun h => shortName_of_sameName hlen hplain h.2
  · rw [if_neg hplain]
    -- the packed form is plain
    have hno : shortName component ≠ item.filename := fun e => hplain fun c hc => by
      rw [← e] at hc
      exact ⟨(mem_shortName h0 hc).1, (mem_shortName h0 hc).2.1⟩
    simp [hno]

/-- A component of eight characters with an extension, and its entry. -/
theorem lookupRight_iff_readme :
    LookupRight ⟨[0x52, 0x45, 0x41, 0x44, 0x4D, 0x45, 0x20, 0x20, 0x54, 0x58, 0x54], 0x20, 0, 3,
      700⟩ [0x72, 0x65, 0x61, 0x64, 0x6D, 0x65, 0x2E, 0x74, 0x78, 0x74] :=
  (lookupRight_iff rfl (by decide)).mpr (by decide +kernel)

/-- **The component `abcdefghi` opens the file `ABCDEFGH.I`.** -/
theorem lookup_takes_long_base :
    ¬ ∀ (item : DirectoryItem) (component : List UInt8), item.filename.length = 11 → 0 ∉ component →
      LookupRight item component := by
  intro h
  have hright := h ⟨[0x41, 0x42, 0x43, 0x44, 0x45, 0x46, 0x47, 0x48, 0x49, 0x20, 0x20], 0x20, 0, 3,
    700⟩ [0x61, 0x62, 0x63, 0x64, 0x65, 0x66, 0x67, 0x68, 0x69] rfl (by decide)
  have hsame := (hright.mp (by unfold LookupMatches; decide)).2
  exact absurd hsame (by decide)

end PeachKernel
