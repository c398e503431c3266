/-
  File:      PeachKernel/Fs/PathParser.lean
  Subject:   The path parser `fs/pparser.c`: from a string to a drive number and a list of parts.

  The cursor `*path` is the rest of the string. The objects the parser builds (root, parts, their
  texts) are values that know the address of their block; the heap is state, as every one of them is
  an allocation. A part's text is written into a block of 108 cleared bytes.

  * `pathparserParse` -- the source function (`pathparser_free` is in `Fs/PathFree.lean`);
  * `pathComponents` -- the grammar: what stands between slashes, up to the first empty component;
  * `partsLoop_components` -- while blocks are free, the parts are these components;
  * `pathparserParse_inverts` -- parsing a rendered path gives back drive and components, and null
    is answered exactly for strings that are too long or do not start with a drive.
-/
import PeachKernel.Heap.Grow
import PeachKernel.Status
import PeachKernel.Strings

namespace PeachKernel

open CInt Mem

/-! ## 1. The source functions -/

/-- `'/'`. -/
def slash : UInt8 := 0x2F

/-- `struct path_part`: its address, the address of its text and the text. -/
structure PathPart where
  address : Nat
  part : Nat
  text : List UInt8
  deriving DecidableEq

/-- `struct path_root`; the linked list from `first` on is a list here. -/
structure PathRoot where
  address : Nat
  driveNo : Int
  first : List PathPart
  deriving DecidableEq

def pathparserPathValidFormat (filename : List UInt8) : Bool :=
  let len := strnlen 108 filename
  3 ≤ len && isdigit (filename.headD 0) && memcmp 2 (filename.drop 1) [0x3A, 0x2F] == 0

/-- `pathparser_get_drive_by_path`: the drive number or an error, and the cursor. -/
def pathparserGetDriveByPath (path : List UInt8) : Int × List UInt8 :=
  if !pathparserPathValidFormat path then (-EBADPATH, path)
  else
    let driveNo := tonumericdigit (path.headD 0)
    (driveNo, path.drop 3)

/-- The loop of `pathparser_get_path_part`: the characters it writes, and the cursor behind them. -/
def pathPartLoop : (path : List UInt8) → List UInt8 × List UInt8
  | [] => ([], [])
  | c :: path =>
    if c ≠ slash ∧ c ≠ 0x00 then
      match pathPartLoop path with
      | (resultPathPart, path) => (c :: resultPathPart, path)
    else ([], c :: path)

/-- `pathparser_get_path_part`: the address of the text (`0`: none), the text, the cursor. -/
def pathparserGetPathPart (k : Kernel) (path : List UInt8) :
    Nat × List UInt8 × List UInt8 × Kernel :=
  match kzalloc k 108 with
  | (resultPathPart, k) =>
    match pathPartLoop path with
    | (text, path) =>
      let path := if path.headD 0 = slash then path.tail else path
      if text.length = 0 then (0, text, path, kfree k resultPathPart)
      else (resultPathPart, text, path, k)

/-- `pathparser_parse_path_part`: the part (`none`: 0), and the cursor. A part whose block was not
    granted is the null pointer to the caller, too. -/
def pathparserParsePathPart (k : Kernel) (path : List UInt8) :
    Option PathPart × List UInt8 × Kernel :=
  match pathparserGetPathPart k path with
  | (pathPartStr, text, path, k) =>
    if pathPartStr = 0 then (none, path, k)
    else
      match kzalloc k 8 with
      | (part, k) => if part = 0 then (none, path, k) else (some ⟨part, pathPartStr, text⟩, path, k)

/-- The loop of `pathparser_parse`, the parts from the cursor on. A part takes at least one
    character, so a `fuel` above the length of the rest is never used up. -/
def partsLoop : (fuel : Nat) → Kernel → (path : List UInt8) → List PathPart × Kernel
  | 0, k, _ => ([], k)
  | fuel + 1, k, path =>
    match pathparserParsePathPart k path with
    | (none, _, k) => ([], k)
    | (some part, path, k) =>
      match partsLoop fuel k path with
      | (parts, k) => (part :: parts, k)

/-- `pathparser_parse`: the root (`none`: 0). The root's block is asked for first. -/
def pathparserParse (k : Kernel) (path : List UInt8) : Option PathRoot × Kernel :=
  if 108 < strlen path then (none, k)
  else
    match pathparserGetDriveByPath path with
    | (res, tmpPath) =>
      if res < 0 then (none, k)
      else
        match kzalloc k 8 with
        | (pathRoot, k) =>
          if pathRoot = 0 then (none, k)
          else
            match pathparserParsePathPart k tmpPath with
            | (none, _, k) => (some ⟨pathRoot, res, []⟩, k)
            | (some firstPart, tmpPath, k) =>
              match partsLoop (tmpPath.length + 1) k tmpPath with
              | (parts, k) => (some ⟨pathRoot, res, firstPart :: parts⟩, k)

/-! ## 2. The grammar -/

/-- The components of the rest of a path: what stands between slashes, up to the first empty one. -/
def componentsFrom : (fuel : Nat) → (path : List UInt8) → List (List UInt8)
  | 0, _ => []
  | fuel + 1, path =>
    match pathPartLoop path with
    | ([], _) => []
    | (text, path) => text :: componentsFrom fuel (if path.headD 0 = slash then path.tail else path)

/-- The components of a path behind its drive. -/
def pathComponents (path : List UInt8) : List (List UInt8) :=
  componentsFrom (path.length + 1) (path.drop 3)

/-- A digit, a colon and a slash at the start. -/
def StartsWithDrive (path : List UInt8) : Prop :=
  isdigit (path.headD 0) = true ∧ path.getD 1 0 = 0x3A ∧ path.getD 2 0 = slash

instance (path : List UInt8) : Decidable (StartsWithDrive path) :=
  inferInstanceAs (Decidable (_ ∧ _))

/-- The text of the components, a slash between them. -/
def joinComponents : List (List UInt8) → List UInt8
  | [] => []
  | [c] => c
  | c :: cs => c ++ slash :: joinComponents cs

/-- `"d:/"`, the components joined, and a last slash where `last` says so. -/
def renderPath (d : UInt8) (components : List (List UInt8)) (last : Bool) : List UInt8 :=
  [48 + d, 0x3A, slash] ++ joinComponents components ++ if last then [slash] else []

/-- A component: not empty, and without slash and NUL. -/
def IsComponent (c : List UInt8) : Prop := c ≠ [] ∧ slash ∉ c ∧ 0 ∉ c

instance (c : List UInt8) : Decidable (IsComponent c) :=
  inferInstanceAs (Decidable (c ≠ [] ∧ slash ∉ c ∧ 0 ∉ c))

/-! ## 3. One component -/

/-- The loop splits the string at the cursor it leaves. -/
theorem pathPartLoop_split (path : List UInt8) :
    path = (pathPartLoop path).1 ++ (pathPartLoop path).2 := by
  induction path with
  | nil => rfl
  | cons c path ih =>
    unfold pathPartLoop
    split
    · exact congrArg (c :: ·) ih
    · rfl

/-- A component, with the end of the path, a slash or a NUL behind it. -/
theorem pathPartLoop_component {c rest : List UInt8} (hs : slash ∉ c) (h0 : 0 ∉ c)
    (hr : rest.headD 0 = 0 ∨ rest.headD 0 = slash) : pathPartLoop (c ++ rest) = (c, rest) := by
  induction c with
  | nil =>
    cases rest with
    | nil => rfl
    | cons r rest =>
      have hstop : ¬ (r ≠ slash ∧ r ≠ 0x00) := fun h => hr.elim h.2 h.1
      show pathPartLoop (r :: rest) = _
      rw [pathPartLoop, if_neg hstop]
  | cons x c ih =>
    have hx : x ≠ slash ∧ x ≠ 0x00 :=
      ⟨fun e => hs (e ▸ List.mem_cons_self), fun e => h0 (e ▸ List.mem_cons_self)⟩
    show pathPartLoop (x :: (c ++ rest)) = _
    rw [pathPartLoop, if_pos hx, ih (fun h => hs (List.mem_cons_of_mem _ h))
      (fun h => h0 (List.mem_cons_of_mem _ h))]

/-- The cursor behind a slash. -/
def skipSlash (path : List UInt8) : List UInt8 := if path.headD 0 = slash then path.tail else path

theorem skipSlash_length (path : List UInt8) : (skipSlash path).length ≤ path.length := by
  unfold skipSlash
  split
  · rw [List.length_tail]
    omega
  · exact Nat.le_refl _

/-- The components, by the first of them. -/
theorem componentsFrom_succ (fuel : Nat) (path : List UInt8) :
    componentsFrom (fuel + 1) path = if (pathPartLoop path).1 = [] then []
      else (pathPartLoop path).1 :: componentsFrom fuel (skipSlash (pathPartLoop path).2) := by
  rw [componentsFrom]
  split
  · rename_i h
    rw [h, if_pos rfl]
  · rename_i text rest hne h
    rw [h, if_neg (fun e => hne e)]
    rfl

/-- **Joined components are read back**, with or without a last slash. -/
theorem componentsFrom_join (cs : List (List UInt8)) (h : ∀ c ∈ cs, IsComponent c) (last : Bool) :
    ∀ {fuel : Nat}, cs.length < fuel →
      componentsFrom fuel (joinComponents cs ++ if last then [slash] else []) = cs := by
  induction cs with
  | nil =>
    intro fuel hf
    obtain ⟨fuel, rfl⟩ := Nat.exists_eq_succ_of_ne_zero (Nat.ne_of_gt hf)
    cases last <;> rfl
  | cons c cs ih =>
    intro fuel hf
    obtain ⟨fuel, rfl⟩ := Nat.exists_eq_succ_of_ne_zero (Nat.ne_of_gt (Nat.zero_lt_of_lt hf))
    obtain ⟨hne, hs, h0⟩ := h c List.mem_cons_self
    have hrec := ih (fun x hx => h x (List.mem_cons_of_mem _ hx)) (Nat.lt_of_succ_lt_succ hf)
    rw [componentsFrom_succ]
    cases cs with
    | nil =>
      -- the last component: the end of the path or the last slash is behind it
      have e : skipSlash (if last then [slash] else []) = [] := by cases last <;> rfl
      rw [joinComponents, pathPartLoop_component hs h0 (by cases last <;> decide), if_neg hne, e]
      cases last <;> cases fuel <;> rfl
    | cons c' cs =>
      have e : joinComponents (c :: c' :: cs) ++ (if last then [slash] else []) =
          c ++ (slash :: (joinComponents (c' :: cs) ++ if last then [slash] else [])) := by
        show c ++ slash :: joinComponents (c' :: cs) ++ _ = _
        rw [List.append_assoc, List.cons_append]
      rw [e, pathPartLoop_component hs h0 (Or.inr rfl), if_neg hne]
      show c :: componentsFrom fuel (joinComponents (c' :: cs) ++ if last then [slash] else []) = _
      rw [hrec]

/-! ## 4. Parts -/

section Parts

variable {k : Kernel} {path : List UInt8}

/-- What the parser does to the kernel keeps `P`: it asks for objects of at most a page, and gives
    back a text that stays empty. -/
structure ParserKeeps (P : Kernel → Prop) : Prop where
  alloc : ∀ {k : Kernel} (size : Nat), 1 ≤ size → size ≤ 4096 → P k → P (kzalloc k size).2
  giveBack : ∀ {k : Kernel}, P k → P (kfree (kzalloc k 108).2 (kzalloc k 108).1)

/-- Where the heap lies. -/
theorem parserKeeps_placed : ParserKeeps fun k => k.heap.Placed where
  alloc {k} size _ _ h := by
    rw [kzalloc_heap]
    exact h.malloc size
  giveBack {k} h := by
    have h' : (kzalloc k 108).2.heap.Placed := by
      rw [kzalloc_heap]
      exact h.malloc 108
    exact h'.free _

theorem ParserKeeps.part {P : Kernel → Prop} (hP : ParserKeeps P) (path : List UInt8) (h : P k) :
    P (pathparserParsePathPart k path).2.2 := by
  have h108 : P (kzalloc k 108).2 := hP.alloc 108 (by decide) (by decide) h
  unfold pathparserParsePathPart pathparserGetPathPart
  dsimp only
  by_cases ht : (pathPartLoop path).1.length = 0
  · rw [if_pos ht]
    exact hP.giveBack h
  · rw [if_neg ht]
    dsimp only
    split
    · exact h108
    · have h8 : P (kzalloc (kzalloc k 108).2 8).2 := hP.alloc 8 (by decide) (by decide) h108
      split
      · exact h8
      · exact h8

theorem ParserKeeps.parts {P : Kernel → Prop} (hP : ParserKeeps P) (fuel : Nat) :
    ∀ {k : Kernel} {path : List UInt8}, P k → P (partsLoop fuel k path).2 := by
  induction fuel with
  | zero => exact fun h => h
  | succ fuel ih =>
    intro k path h
    have hpart := hP.part path h
    unfold partsLoop
    generalize pathparserParsePathPart k path = r at hpart ⊢
    obtain ⟨part, rest, k'⟩ := r
    cases part with
    | none => exact hpart
    | some part => exact ih hpart

/-- A part with an empty text is none. -/
theorem pathparserParsePathPart_empty (h : (pathPartLoop path).1 = []) :
    pathparserParsePathPart k path = (none, skipSlash (pathPartLoop path).2,
      kfree (kzalloc k 108).2 (kzalloc k 108).1) := by
  unfold pathparserParsePathPart pathparserGetPathPart
  dsimp only
  rw [h, if_pos (show ([] : List UInt8).length = 0 from rfl)]
  rfl

/-- **A part takes two blocks**, its text and itself. -/
theorem pathparserParsePathPart_component (hp : k.heap.Placed) (hf : 2 ≤ freeBlocks k.heap)
    (h : (pathPartLoop path).1 ≠ []) :
    ∃ part k', pathparserParsePathPart k path = (some part, skipSlash (pathPartLoop path).2, k') ∧
      part.text = (pathPartLoop path).1 ∧ k'.heap.Placed ∧
      freeBlocks k'.heap + 2 = freeBlocks k.heap := by
  obtain ⟨str, k₁, e₁, hne₁, hp₁, hf₁⟩ :=
    kzalloc_one hp (Nat.lt_of_lt_of_le (by decide) hf) 108 (by decide) (by decide)
  obtain ⟨part, k₂, e₂, hne₂, hp₂, hf₂⟩ :=
    kzalloc_one hp₁ (by omega) 8 (by decide) (by decide)
  refine ⟨⟨part, str, (pathPartLoop path).1⟩, k₂, ?_, rfl, hp₂, by omega⟩
  have hlen : ¬ (pathPartLoop path).1.length = 0 := fun e => h (List.length_eq_zero_iff.mp e)
  unfold pathparserParsePathPart pathparserGetPathPart
  rw [e₁]
  dsimp only
  rw [if_neg hlen]
  dsimp only
  rw [if_neg hne₁, e₂]
  dsimp only
  rw [if_neg hne₂]
  rfl

/-- **What a part is**: nothing, or the text up to the next slash; the cursor is behind it. -/
theorem pathparserParsePathPart_cases (k : Kernel) (path : List UInt8) :
    (∃ k', pathparserParsePathPart k path = (none, skipSlash (pathPartLoop path).2, k')) ∨
    ((pathPartLoop path).1 ≠ [] ∧ ∃ part k',
      pathparserParsePathPart k path = (some part, skipSlash (pathPartLoop path).2, k') ∧
        part.text = (pathPartLoop path).1) := by
  by_cases ht : (pathPartLoop path).1 = []
  · exact Or.inl ⟨_, pathparserParsePathPart_empty ht⟩
  have hlen : ¬ (pathPartLoop path).1.length = 0 := fun e => ht (List.length_eq_zero_iff.mp e)
  unfold pathparserParsePathPart pathparserGetPathPart
  dsimp only
  rw [if_neg hlen]
  dsimp only
  split
  · exact Or.inl ⟨_, rfl⟩
  · split
    · exact Or.inl ⟨_, rfl⟩
    · exact Or.inr ⟨ht, _, _, rfl, rfl⟩

/-- More fuel than characters changes nothing. -/
theorem partsLoop_fuel (fuel : Nat) : ∀ {fuel' : Nat} {k : Kernel} {path : List UInt8},
    path.length < fuel → path.length < fuel' → partsLoop fuel k path = partsLoop fuel' k path := by
  induction fuel with
  | zero => exact fun h => absurd h (Nat.not_lt_zero _)
  | succ fuel ih =>
    intro fuel' k path h h'
    obtain ⟨fuel', rfl⟩ := Nat.exists_eq_succ_of_ne_zero (Nat.ne_of_gt (Nat.zero_lt_of_lt h'))
    rw [partsLoop, partsLoop]
    rcases pathparserParsePathPart_cases k path with ⟨k', e⟩ | ⟨ht, part, k', e, -⟩
    · rw [e]
    · have hsplit := congrArg List.length (pathPartLoop_split path)
      have hskip := skipSlash_length (pathPartLoop path).2
      have hpos := List.length_pos_of_ne_nil ht
      rw [List.length_append] at hsplit
      rw [e]
      dsimp only
      rw [@ih fuel' k' (skipSlash (pathPartLoop path).2) (by omega) (by omega)]

/-- **The loop over the parts**: they are the components, and take two blocks each. -/
theorem partsLoop_components (fuel : Nat) : ∀ {k : Kernel} {path : List UInt8}, k.heap.Placed →
    2 * (componentsFrom fuel path).length + 1 ≤ freeBlocks k.heap →
    ((partsLoop fuel k path).1.map PathPart.text = componentsFrom fuel path ∧
      (partsLoop fuel k path).2.heap.Placed ∧
      freeBlocks (partsLoop fuel k path).2.heap + 2 * (componentsFrom fuel path).length =
        freeBlocks k.heap) := by
  induction fuel with
  | zero => exact fun hp _ => ⟨rfl, hp, rfl⟩
  | succ fuel ih =>
    intro k path hp hf
    rw [componentsFrom_succ] at hf ⊢
    by_cases ht : (pathPartLoop path).1 = []
    · rw [if_pos ht] at hf ⊢
      obtain ⟨hp', hf'⟩ := kfree_kzalloc hp (Nat.lt_of_lt_of_le (by decide) hf) 108
        (by decide) (by decide)
      rw [partsLoop, pathparserParsePathPart_empty ht]
      exact ⟨rfl, hp', hf'⟩
    · rw [if_neg ht, List.length_cons] at hf
      obtain ⟨part, k', e, htext, hp', hf'⟩ :=
        pathparserParsePathPart_component hp (by omega) ht
      obtain ⟨h1, h2, h3⟩ := @ih k' (skipSlash (pathPartLoop path).2) hp' (by omega)
      rw [if_neg ht, partsLoop, e]
      dsimp only
      refine ⟨?_, h2, ?_⟩
      · rw [List.map_cons, htext, h1]
      · rw [List.length_cons]
        omega

end Parts

/-! ## 5. The whole path -/

theorem strlen_le (path : List UInt8) : strlen path ≤ path.length := by
  induction path with
  | nil => exact Nat.le_refl _
  | cons c path ih =>
    unfold strlen
    split
    · exact Nat.succ_le_succ ih
    · exact Nat.zero_le _

theorem memcmp_two (s : List UInt8) (a b : UInt8) :
    memcmp 2 s [a, b] = 0 ↔ s.headD 0 = a ∧ s.tail.headD 0 = b := by
  have hsign : ∀ x y : UInt8, ¬ (if x.toInt8 < y.toInt8 then (-1 : Int) else 1) = 0 := by
    intro x y
    split <;> decide
  show (if s.headD 0 ≠ a then (if (s.headD 0).toInt8 < a.toInt8 then (-1 : Int) else 1)
    else if s.tail.headD 0 ≠ b then (if (s.tail.headD 0).toInt8 < b.toInt8 then -1 else 1)
    else 0) = 0 ↔ _
  by_cases ha : s.headD 0 = a
  · by_cases hb : s.tail.headD 0 = b
    · rw [if_neg (not_not.mpr ha), if_neg (not_not.mpr hb)]
      exact ⟨fun _ => ⟨ha, hb⟩, fun _ => rfl⟩
    · rw [if_neg (not_not.mpr ha), if_pos hb]
      exact ⟨fun h => absurd h (hsign _ _), fun h => absurd h.2 hb⟩
  · rw [if_pos ha]
    exact ⟨fun h => absurd h (hsign _ _), fun h => absurd h.1 ha⟩

theorem strnlen_three {path : List UInt8} (h1 : path.headD 0 ≠ 0) (h2 : path.tail.headD 0 ≠ 0)
    (h3 : path.tail.tail.headD 0 ≠ 0) : 3 ≤ strnlen 108 path := by
  show 3 ≤ strnlen (105 + 1 + 1 + 1) path
  rw [strnlen, if_neg h1, strnlen, if_neg h2, strnlen, if_neg h3]
  exact Nat.le_add_left 3 _

/-- The format check of the source. -/
theorem pathparserPathValidFormat_iff (path : List UInt8) :
    pathparserPathValidFormat path = true ↔ StartsWithDrive path := by
  have e1 : path.getD 1 0 = path.tail.headD 0 := by rcases path with _ | ⟨_, _ | ⟨_, _⟩⟩ <;> rfl
  have e2 : path.getD 2 0 = path.tail.tail.headD 0 := by
    rcases path with _ | ⟨_, _ | ⟨_, _ | ⟨_, _⟩⟩⟩ <;> rfl
  unfold pathparserPathValidFormat StartsWithDrive slash
  rw [Bool.and_eq_true, Bool.and_eq_true, decide_eq_true_eq, beq_iff_eq, memcmp_two, List.drop_one,
    e1, e2]
  refine ⟨fun h => ⟨h.1.2, h.2⟩, fun ⟨hd, hc, hs⟩ => ⟨⟨strnlen_three ?_ ?_ ?_, hd⟩, hc, hs⟩⟩
  · intro e
    rw [e] at hd
    exact absurd hd (by decide)
  · rw [hc]
    decide
  · rw [hs]
    decide

/-- The drive and the cursor behind it. -/
theorem pathparserGetDriveByPath_starts {path : List UInt8} (h : StartsWithDrive path) :
    pathparserGetDriveByPath path = (tonumericdigit (path.headD 0), path.drop 3) ∧
      0 ≤ tonumericdigit (path.headD 0) := by
  have hd := h.1
  unfold isdigit at hd
  rw [Bool.and_eq_true, decide_eq_true_eq, decide_eq_true_eq, UInt8.le_iff_toNat_le] at hd
  have h48 : (48 : UInt8).toNat = 48 := rfl
  unfold pathparserGetDriveByPath
  rw [(pathparserPathValidFormat_iff path).mpr h]
  refine ⟨rfl, ?_⟩
  unfold tonumericdigit
  omega

theorem pathparserGetDriveByPath_else {path : List UInt8} (h : ¬ StartsWithDrive path) :
    (pathparserGetDriveByPath path).1 < 0 := by
  have hv : pathparserPathValidFormat path = false :=
    Bool.eq_false_iff.mpr fun e => h ((pathparserPathValidFormat_iff path).mp e)
  unfold pathparserGetDriveByPath
  rw [hv]
  show -EBADPATH < 0
  decide

/-- **A path that starts with a drive**, and a block for the root: the first part is one more turn
    of the loop over the parts. -/
theorem pathparserParse_loop {k : Kernel} {path : List UInt8} (hp : k.heap.Placed)
    (hl : strlen path ≤ 108) (hd : StartsWithDrive path) (hf : 0 < freeBlocks k.heap) :
    ∃ address k₁, kzalloc k 8 = (address, k₁) ∧ k₁.heap.Placed ∧
      freeBlocks k₁.heap + 1 = freeBlocks k.heap ∧
      pathparserParse k path = (some ⟨address, tonumericdigit (path.headD 0),
        (partsLoop (path.length + 1) k₁ (path.drop 3)).1⟩,
        (partsLoop (path.length + 1) k₁ (path.drop 3)).2) := by
  obtain ⟨hdrive, hpos⟩ := pathparserGetDriveByPath_starts hd
  obtain ⟨r, k₁, e₁, hne₁, hp₁, hf₁⟩ := kzalloc_one hp hf 8 (by decide) (by decide)
  refine ⟨r, k₁, e₁, hp₁, hf₁, ?_⟩
  unfold pathparserParse
  rw [if_neg (Nat.not_lt.mpr hl), hdrive]
  dsimp only
  rw [if_neg (Int.not_lt.mpr hpos), e₁]
  dsimp only
  rw [if_neg hne₁, partsLoop]
  rcases pathparserParsePathPart_cases k₁ (path.drop 3) with ⟨k', e⟩ | ⟨ht, part, k', e, -⟩
  · rw [e]
  · have hsplit := congrArg List.length (pathPartLoop_split (path.drop 3))
    have hskip := skipSlash_length (pathPartLoop (path.drop 3)).2
    have hlt := List.length_pos_of_ne_nil ht
    rw [List.length_append, List.length_drop] at hsplit
    rw [e]
    dsimp only
    rw [partsLoop_fuel _ (Nat.lt_succ_self _) (show _ < path.length by omega)]

/-- ... and with blocks for the parts and the one text that stays empty, the root carries the
    components. -/
theorem pathparserParse_components {k : Kernel} {path : List UInt8} (hp : k.heap.Placed)
    (hl : strlen path ≤ 108) (hd : StartsWithDrive path)
    (hf : 2 * (pathComponents path).length + 2 ≤ freeBlocks k.heap) :
    ∃ root k', pathparserParse k path = (some root, k') ∧
      root.driveNo = tonumericdigit (path.headD 0) ∧
      root.first.map PathPart.text = pathComponents path ∧ k'.heap.Placed ∧
      freeBlocks k'.heap + (2 * (pathComponents path).length + 1) = freeBlocks k.heap := by
  obtain ⟨r, k₁, -, hp₁, hf₁, e⟩ := pathparserParse_loop hp hl hd (by omega)
  have hroom : 2 * (componentsFrom (path.length + 1) (path.drop 3)).length + 1 ≤
      freeBlocks k₁.heap := by
    rw [← hf₁] at hf
    exact Nat.le_of_succ_le_succ hf
  obtain ⟨h1, h2, h3⟩ := partsLoop_components (path.length + 1) hp₁ hroom
  refine ⟨_, _, e, rfl, h1, h2, ?_⟩
  unfold pathComponents
  omega

/-- **The ways through `pathparser_parse`**: a path that is refused, a root that gets no block, and
    a root, behind whose block only parts are allocated. -/
theorem pathparserParse_cases (k : Kernel) (path : List UInt8) :
    ((108 < strlen path ∨ ¬ StartsWithDrive path) ∧ pathparserParse k path = (none, k)) ∨
    (strlen path ≤ 108 ∧ StartsWithDrive path ∧
      (((kzalloc k 8).1 = 0 ∧ pathparserParse k path = (none, (kzalloc k 8).2)) ∨
        ((kzalloc k 8).1 ≠ 0 ∧ ∃ root k', pathparserParse k path = (some root, k') ∧
          root.address = (kzalloc k 8).1 ∧
          ∀ {P : Kernel → Prop}, ParserKeeps P → P (kzalloc k 8).2 → P k'))) := by
  unfold pathparserParse
  by_cases hl : 108 < strlen path
  · exact Or.inl ⟨Or.inl hl, if_pos hl⟩
  rw [if_neg hl]
  by_cases hd : StartsWithDrive path
  · obtain ⟨hdrive, hpos⟩ := pathparserGetDriveByPath_starts hd
    refine Or.inr ⟨Nat.not_lt.mp hl, hd, ?_⟩
    rw [hdrive]
    dsimp only
    rw [if_neg (Int.not_lt.mpr hpos)]
    by_cases h0 : (kzalloc k 8).1 = 0
    · exact Or.inl ⟨h0, if_pos h0⟩
    · refine Or.inr ⟨h0, ?_⟩
      rw [if_neg h0]
      have hpart : ∀ {P : Kernel → Prop}, ParserKeeps P → P (kzalloc k 8).2 →
          P (pathparserParsePathPart (kzalloc k 8).2 (path.drop 3)).2.2 :=
        fun hP h => hP.part _ h
      generalize pathparserParsePathPart (kzalloc k 8).2 (path.drop 3) = r at hpart ⊢
      obtain ⟨firstPart, rest, k₁⟩ := r
      cases firstPart with
      | none => exact ⟨_, _, rfl, rfl, hpart⟩
      | some firstPart => exact ⟨_, _, rfl, rfl, fun hP h => hP.parts _ (hpart hP h)⟩
  · have hneg := pathparserGetDriveByPath_else hd
    generalize pathparserGetDriveByPath path = res at hneg
    exact Or.inl ⟨Or.inr hd, if_pos hneg⟩

/-- **What requests and the text given back keep is kept by the parser.** -/
theorem pathparserParse_keeps {P : Kernel → Prop} (hP : ParserKeeps P) {k : Kernel} (h : P k)
    (path : List UInt8) : P (pathparserParse k path).2 := by
  have h8 : P (kzalloc k 8).2 := hP.alloc 8 (by decide) (by decide) h
  rcases pathparserParse_cases k path with ⟨-, e⟩ | ⟨-, -, ⟨-, e⟩ | ⟨-, root, k', e, -, hkeep⟩⟩
  · rw [e]
    exact h
  · rw [e]
    exact h8
  · rw [e]
    exact hkeep hP h8

/-- **Null**, where the root's block is granted. -/
theorem pathparserParse_none_iff {k : Kernel} (hp : k.heap.Placed) (hf : 0 < freeBlocks k.heap)
    (path : List UInt8) :
    (pathparserParse k path).1 = none ↔ 108 < strlen path ∨ ¬ StartsWithDrive path := by
  obtain ⟨r, k₁, e₁, hne₁, -⟩ := kzalloc_one hp hf 8 (by decide) (by decide)
  rcases pathparserParse_cases k path with
    ⟨h, e⟩ | ⟨hl, hd, ⟨h0, -⟩ | ⟨-, root, k', e, -⟩⟩
  · rw [e]
    exact ⟨fun _ => h, fun _ => rfl⟩
  · rw [e₁] at h0
    exact absurd h0 hne₁
  · rw [e]
    exact ⟨fun h => absurd h (Option.some_ne_none _),
      fun h => absurd h (not_or.mpr ⟨Nat.not_lt.mpr hl, not_not.mpr hd⟩)⟩

/-! ## 6. Rendering -/

theorem joinComponents_length {cs : List (List UInt8)} (h : ∀ c ∈ cs, IsComponent c) :
    cs.length ≤ (joinComponents cs).length := by
  induction cs with
  | nil => exact Nat.le_refl _
  | cons c cs ih =>
    have hc := List.length_pos_of_ne_nil (h c List.mem_cons_self).1
    have hcs := ih fun x hx => h x (List.mem_cons_of_mem _ hx)
    cases cs with
    | nil => exact hc
    | cons c' cs =>
      show (c' :: cs).length + 1 ≤ (c ++ slash :: joinComponents (c' :: cs)).length
      rw [List.length_append, List.length_cons (a := slash)]
      omega

section Render

variable {d : UInt8} {cs : List (List UInt8)} {last : Bool}

theorem renderPath_startsWithDrive (hd : d < 10) : StartsWithDrive (renderPath d cs last) := by
  refine ⟨?_, rfl, rfl⟩
  have hd' : d.toNat < 10 := UInt8.lt_iff_toNat_lt.mp hd
  have e : (48 + d).toNat = 48 + d.toNat := by
    rw [UInt8.toNat_add]
    exact Nat.mod_eq_of_lt (by show 48 + _ < 256; omega)
  show isdigit (48 + d) = true
  unfold isdigit
  rw [Bool.and_eq_true, decide_eq_true_eq, decide_eq_true_eq, UInt8.le_iff_toNat_le,
    UInt8.le_iff_toNat_le, e]
  exact ⟨Nat.le_add_right 48 _, by show _ ≤ 57; omega⟩

theorem renderPath_drive (hd : d < 10) :
    tonumericdigit ((renderPath d cs last).headD 0) = d.toNat := by
  have hd' : d.toNat < 10 := UInt8.lt_iff_toNat_lt.mp hd
  have e : (48 + d).toNat = 48 + d.toNat := by
    rw [UInt8.toNat_add]
    exact Nat.mod_eq_of_lt (by show 48 + _ < 256; omega)
  show ((48 + d).toNat : Int) - 48 = _
  rw [e]
  omega

theorem pathComponents_render (h : ∀ c ∈ cs, IsComponent c) :
    pathComponents (renderPath d cs last) = cs := by
  have hlen := joinComponents_length h
  refine componentsFrom_join cs h last ?_
  unfold renderPath
  rw [List.length_append, List.length_append]
  omega

end Render

/-- **Parsing inverts rendering.** Of a drive digit and components whose path, a last slash or not,
    has at most 108 characters, the parser gives the drive and the components back, as long as the
    root, every part and its text, and the text it tries last get their block. And where the root's
    block is granted, null is the answer to exactly the strings that are too long or do not start
    with a drive. -/
theorem pathparserParse_inverts {k : Kernel} (hp : k.heap.Placed) :
    (∀ (d : UInt8) (cs : List (List UInt8)) (last : Bool), d < 10 → cs ≠ [] →
      (∀ c ∈ cs, IsComponent c) → (renderPath d cs last).length ≤ 108 →
      2 * cs.length + 2 ≤ freeBlocks k.heap →
      ∃ root k', pathparserParse k (renderPath d cs last) = (some root, k') ∧
        root.driveNo = d.toNat ∧ root.first.map PathPart.text = cs) ∧
    (0 < freeBlocks k.heap → ∀ path : List UInt8,
      ((pathparserParse k path).1 = none ↔ 108 < strlen path ∨ ¬ StartsWithDrive path)) := by
  refine ⟨fun d cs last hd _ hcs hlen hf => ?_, fun hf path => pathparserParse_none_iff hp hf path⟩
  have hpc : pathComponents (renderPath d cs last) = cs := pathComponents_render hcs
  obtain ⟨root, k', e, hdrive, hparts, -⟩ := pathparserParse_components hp
    (Nat.le_trans (strlen_le _) hlen) (renderPath_startsWithDrive hd) (by rw [hpc]; exact hf)
  exact ⟨root, k', e, hdrive.trans (renderPath_drive hd), hparts.trans hpc⟩

/-- `"0:/ab/c/"` on the fresh heap, and `"ab"`, which has no drive. -/
theorem pathparserParse_inverts_two :
    (∃ root k', pathparserParse ⟨kernelHeap fun _ => 0, fun _ => 0⟩
      [0x30, 0x3A, 0x2F, 0x61, 0x62, 0x2F, 0x63, 0x2F] = (some root, k') ∧
      root.driveNo = 0 ∧ root.first.map PathPart.text = [[0x61, 0x62], [0x63]]) ∧
    (pathparserParse ⟨kernelHeap fun _ => 0, fun _ => 0⟩ [0x61, 0x62]).1 = none := by
  obtain ⟨h1, h2⟩ := pathparserParse_inverts (k := ⟨kernelHeap fun _ => 0, fun _ => 0⟩)
    (kernelHeap_placed _)
  have hf : freeBlocks (kernelHeap fun _ => 0) = 25600 := kernelHeap_freeBlocks _
  constructor
  · refine h1 0 [[0x61, 0x62], [0x63]] true (by decide) (by decide) ?_ (by decide) ?_
    · decide
    · show 6 ≤ freeBlocks (kernelHeap fun _ => 0)
      omega
  · refine (h2 ?_ [0x61, 0x62]).mpr (Or.inr ?_)
    · show 0 < freeBlocks (kernelHeap fun _ => 0)
      omega
    · exact fun h => absurd h.1 (by decide)

end PeachKernel
