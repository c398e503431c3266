/-
  File:      PeachKernel/Fs/PathMemory.lean
  Subject:   The path parser in memory: the string, its cursor, and the buffers of the parts.

  `Fs/PathParser.lean` has the parser over the list of characters. Here the string stands in memory,
  the cursor is an address, and a part's text, the parts and their root are bytes of their blocks.
  What `pathparser_get_path_part` does to its buffer and its cursor is recorded, call by call.

  * the source functions, in the namespace `PathMemory`; `fuel` bounds their loops;
  * `Readable` -- a string in memory off the free blocks, and off those of the parser;
  * `copyPartLoop_run` -- the loop that copies a component;
  * `pathparserGetPathPart_run`, `pathparserParsePathPart_run` -- one component, and one part, which
    is the part that the parser over the characters makes.
-/
import PeachKernel.Fs.PathParser
import PeachKernel.Lib.CString
import PeachKernel.Lib.Slice

namespace PeachKernel

open CInt Mem

namespace PathMemory

/-! ## 1. The source functions -/

/-- A call of `pathparser_get_path_part`: its buffer (`0`: none), the indexes it wrote at, the
    values of its cursor, and the byte of the buffer behind the component. -/
structure PathPartCall where
  result : Nat
  indexes : List Nat
  cursors : List Nat
  behind : UInt8

/-- The kernel, the cursor, and the calls of `pathparser_get_path_part` so far. -/
structure ParserState where
  kernel : Kernel
  path : Nat
  calls : List PathPartCall

/-- The loop of `pathparser_get_path_part`: index, cursor, memory, and what was recorded. -/
structure PartCopy where
  i : Nat
  path : Nat
  mem : Mem
  indexes : List Nat
  cursors : List Nat

def strlen (m : Mem) : (fuel ptr : Nat) → Option Nat
  | 0, _ => none
  | fuel + 1, ptr => if m ptr ≠ 0 then (strlen m fuel (ptr + 1)).map (· + 1) else some 0

/-- `pathparser_get_drive_by_path`; its check looks at no more than 108 characters. -/
def pathparserGetDriveByPath (m : Mem) (path : Nat) : Int × Nat :=
  if !pathparserPathValidFormat (slice m path 108) then (-EBADPATH, path)
  else (tonumericdigit (m path), path + 3)

/-- `pathparser_create_root`: it writes its fields also where it got no block. -/
def pathparserCreateRoot (k : Kernel) (driveNumber : Int) : Nat × Kernel :=
  match kzalloc k 8 with
  | (pathR, k) =>
    (pathR, { k with mem := store32 (store32 k.mem pathR (u32 driveNumber)) (pathR + 4) 0 })

/-- `result_path_part[i] = **path`, and one on with both. -/
def PartCopy.turn (c : PartCopy) (resultPathPart : Nat) : PartCopy where
  i := c.i + 1
  path := c.path + 1
  mem := Function.update c.mem (resultPathPart + c.i) (c.mem c.path)
  indexes := c.indexes ++ [c.i]
  cursors := c.cursors ++ [c.path + 1]

/-- The turns of the loop, until a slash or a NUL. -/
def copyPartLoop (resultPathPart : Nat) : (fuel : Nat) → PartCopy → Option PartCopy
  | 0, _ => none
  | fuel + 1, c =>
    if c.mem c.path ≠ slash ∧ c.mem c.path ≠ 0x00 then
      copyPartLoop resultPathPart fuel (c.turn resultPathPart)
    else some c

/-- `pathparser_get_path_part`: the address of the text (`0`: none). -/
def pathparserGetPathPart (fuel : Nat) (s : ParserState) : Option (Nat × ParserState) :=
  match kzalloc s.kernel 108 with
  | (resultPathPart, k) =>
    match copyPartLoop resultPathPart fuel ⟨0, s.path, k.mem, [], [s.path]⟩ with
    | none => none
    | some c =>
      let path := if c.mem c.path = slash then c.path + 1 else c.path
      let calls := s.calls ++
        [⟨resultPathPart, c.indexes, c.cursors ++ [path], c.mem (resultPathPart + c.i)⟩]
      if c.i = 0 then some (0, ⟨kfree ⟨k.heap, c.mem⟩ resultPathPart, path, calls⟩)
      else some (resultPathPart, ⟨⟨k.heap, c.mem⟩, path, calls⟩)

/-- `pathparser_parse_path_part`: the part (`0`: none), linked behind the last one. -/
def pathparserParsePathPart (fuel lastPart : Nat) (s : ParserState) : Option (Nat × ParserState) :=
  match pathparserGetPathPart fuel s with
  | none => none
  | some (pathPartStr, s) =>
    if pathPartStr = 0 then some (0, s)
    else
      match kzalloc s.kernel 8 with
      | (part, k) =>
        let m := store32 (store32 k.mem part pathPartStr) (part + 4) 0
        let m := if lastPart ≠ 0 then store32 m (lastPart + 4) part else m
        some (part, { s with kernel := ⟨k.heap, m⟩ })

/-- The loop of `pathparser_parse`, behind the part `part`. -/
def partsLoop (fuel : Nat) : (turns part : Nat) → ParserState → Option ParserState
  | 0, _, _ => none
  | turns + 1, part, s =>
    if part = 0 then some s
    else
      match pathparserParsePathPart fuel part s with
      | none => none
      | some (part, s) => partsLoop fuel turns part s

/-- `pathparser_parse` behind its root. -/
def parseParts (fuel pathRoot : Nat) (s : ParserState) : Option (Nat × ParserState) :=
  match pathparserParsePathPart fuel 0 s with
  | none => none
  | some (firstPart, s) =>
    if firstPart = 0 then some (pathRoot, s)
    else
      -- `path_root->first = first_part`
      let m := store32 s.kernel.mem (pathRoot + 4) firstPart
      match pathparserParsePathPart fuel firstPart { s with kernel := ⟨s.kernel.heap, m⟩ } with
      | none => none
      | some (part, s) => (partsLoop fuel fuel part s).map fun s => (pathRoot, s)

/-- `pathparser_parse`: the root (`0`: none). -/
def pathparserParse (fuel : Nat) (k : Kernel) (path : Nat) : Option (Nat × ParserState) :=
  match strlen k.mem fuel path with
  | none => none
  | some len =>
    if 108 < len then some (0, ⟨k, path, []⟩)
    else
      match pathparserGetDriveByPath k.mem path with
      | (res, tmpPath) =>
        if res < 0 then some (0, ⟨k, tmpPath, []⟩)
        else
          match pathparserCreateRoot k res with
          | (pathRoot, k) =>
            if pathRoot = 0 then some (0, ⟨k, tmpPath, []⟩) else
              parseParts fuel pathRoot ⟨k, tmpPath, []⟩

/-! ## 2. The string -/

section String

variable {k k' : Kernel} {own new : List Allocation} {p : Nat} {cs : List UInt8}

/-- The address lies in no free block. -/
def OffFree (heap : Heap) (a : Nat) : Prop :=
  a < 4294967296 ∧ ∀ b, b < heap.table.total → heap.IsFree b → OffBlock a (heap.saddr + b * 4096)

/-- **A string that can be read** at `p`: its bytes lie in no free block, off what the parser
    owns. -/
structure Readable (k : Kernel) (own : List Allocation) (p : Nat) (cs : List UInt8) : Prop where
  string : CString k.mem p cs
  offFree : ∀ a, p ≤ a → a ≤ p + cs.length → OffFree k.heap a
  apart : ∀ a, p ≤ a → a ≤ p + cs.length → ∀ x ∈ own, OffBlock a x.ptr

/-- A block that was taken was free. -/
theorem OffFree.off_new {a : Nat} (ha : OffFree k.heap a) (hg : Grows k k' own new) :
    ∀ x ∈ new, OffBlock a x.ptr := by
  intro x hx
  have hmem : x ∈ new ++ own := List.mem_append_left _ hx
  have haddr := hg.inv.addr x hmem
  have hin := hg.inv.inside hmem
  have hpos := hg.inv.pos hmem
  have hfree := hg.wasFree x hx (x.extent k'.heap.saddr).start ⟨Nat.le_refl _, by omega⟩
  rw [hg.total] at hin
  rw [haddr, hg.saddr]
  rw [hg.saddr] at hin hfree hpos
  exact ha.2 _ (by omega) hfree

/-- Memory off the free blocks keeps its bytes, -/
theorem OffFree.mem {a : Nat} (ha : OffFree k.heap a) (hg : Grows k k' own new) :
    k'.mem a = k.mem a :=
  hg.mem a ha.1 (ha.off_new hg)

/-- ... and is off them behind requests. -/
theorem OffFree.grows {a : Nat} (ha : OffFree k.heap a) (hg : Grows k k' own new) :
    OffFree k'.heap a := by
  refine ⟨ha.1, fun b hb hfree => ?_⟩
  rw [hg.total] at hb
  rw [hg.saddr]
  refine ha.2 b hb ?_
  have hno : ∀ x ∈ new, ¬ (x.extent k'.heap.saddr).HasInt b := fun x hx hxb =>
    hg.inv.not_isFree (List.mem_append_left _ hx) ((Extent.hasInt_natCast _ _).mp hxb) hfree
  unfold Heap.IsFree at hfree ⊢
  rwa [← hg.off b hno]

/-- An owned block is not free. -/
theorem own_offFree {heap : Heap} (h : HeapInv heap own) {x : Allocation} (hx : x ∈ own) {a : Nat}
    (h1 : x.ptr ≤ a) (h2 : a < x.ptr + 4096) : OffFree heap a := by
  have haddr := h.addr x hx
  have hin := h.inside hx
  have hpos := h.pos hx
  have hbound := h.placed.bound
  refine ⟨by omega, fun b hb hfree => ?_⟩
  by_contra hcon
  unfold OffBlock at hcon
  refine h.not_isFree hx (i := b) ?_ hfree
  unfold Extent.Has
  omega

theorem Readable.grows (h : Readable k own p cs) (hg : Grows k k' own new) :
    Readable k' (new ++ own) p cs where
  string := h.string.congr cs fun a h1 h2 => (h.offFree a h1 h2).mem hg
  offFree a h1 h2 := (h.offFree a h1 h2).grows hg
  apart a h1 h2 x hx := by
    rcases List.mem_append.mp hx with hx | hx
    · exact (h.offFree a h1 h2).off_new hg x hx
    · exact h.apart a h1 h2 x hx

/-- Bytes that are not the string's may change. -/
theorem Readable.with_mem (h : Readable k own p cs) {m : Mem}
    (hm : ∀ a, p ≤ a → a ≤ p + cs.length → m a = k.mem a) : Readable ⟨k.heap, m⟩ own p cs where
  string := h.string.congr cs hm
  offFree := h.offFree
  apart := h.apart

/-- The string behind its first characters. -/
theorem Readable.drop {ds : List UInt8} (h : Readable k own p (ds ++ cs)) :
    Readable k own (p + ds.length) cs where
  string := h.string.drop
  offFree a h1 h2 := h.offFree a (by omega) (by rw [List.length_append]; omega)
  apart a h1 h2 := h.apart a (by omega) (by rw [List.length_append]; omega)

/-- A block lies behind the string, or in front of it. -/
theorem Readable.off (h : Readable k own p cs) {x : Allocation} (hx : x ∈ own) :
    x.ptr + 4096 ≤ p ∨ p + cs.length < x.ptr := by
  by_contra hno
  have hfirst := h.apart p (Nat.le_refl _) (Nat.le_add_right _ _) x hx
  unfold OffBlock at hfirst
  -- the string would go from in front of the block into it
  have hin := h.apart x.ptr (by omega) (by omega) x hx
  unfold OffBlock at hin
  omega

end String

/-! ## 3. The copy of a component -/

/-- **Behind the copy**: `text` stands in the buffer from the index on where the copy began, nothing
    else was written, and the cursor is at what follows. -/
structure Copied (result : Nat) (c : PartCopy) (text rest : List UInt8) (c' : PartCopy) : Prop where
  i : c'.i = c.i + text.length
  path : c'.path = c.path + text.length
  string : CString c'.mem c'.path rest
  bytes : ∀ (t : Nat) (h : t < text.length), c'.mem (result + c.i + t) = text[t]
  others : ∀ a, a < result + c.i ∨ result + c.i + text.length ≤ a → c'.mem a = c.mem a
  indexes : c'.indexes = c.indexes ++ List.range' c.i text.length
  cursors : c'.cursors = c.cursors ++ List.range' (c.path + 1) text.length

/-- **The loop copies a component**, as long as it does not write in front of its cursor into the
    string. -/
theorem copyPartLoop_run {result : Nat} (cs : List UInt8) : ∀ {c : PartCopy} {fuel : Nat},
    CString c.mem c.path cs → cs.length < fuel →
    (result + c.i ≤ c.path ∨ c.path + cs.length < result + c.i) →
    ∃ c', copyPartLoop result fuel c = some c' ∧
      Copied result c (pathPartLoop cs).1 (pathPartLoop cs).2 c' := by
  induction cs with
  | nil =>
    intro c fuel h hf _
    obtain ⟨fuel, rfl⟩ := Nat.exists_eq_succ_of_ne_zero (Nat.ne_of_gt hf)
    have hnul : c.mem c.path = 0 := h
    refine ⟨c, if_neg fun hgo => hgo.2 hnul, ⟨rfl, rfl, h, ?_, fun _ _ => rfl, ?_, ?_⟩⟩
    · exact fun t ht => absurd ht (Nat.not_lt_zero t)
    · exact (List.append_nil _).symm
    · exact (List.append_nil _).symm
  | cons x cs ih =>
    intro c fuel h hf hoff
    obtain ⟨fuel, rfl⟩ := Nat.exists_eq_succ_of_ne_zero (Nat.ne_of_gt (Nat.zero_lt_of_lt hf))
    obtain ⟨hx, hx0, hrest⟩ := h
    rw [List.length_cons] at hf hoff
    by_cases hgo : x ≠ slash ∧ x ≠ 0
    · have hmem : CString (c.turn result).mem (c.turn result).path cs :=
        hrest.congr cs fun a h1 h2 => Function.update_of_ne (by omega) _ _
      have hoff' : result + (c.i + 1) ≤ c.path + 1 ∨
          c.path + 1 + cs.length < result + (c.i + 1) := by
        omega
      obtain ⟨c', hrun, hc⟩ := @ih _ fuel hmem (by omega) hoff'
      have htext : pathPartLoop (x :: cs) = (x :: (pathPartLoop cs).1, (pathPartLoop cs).2) :=
        if_pos hgo
      have hi : c'.i = c.i + 1 + (pathPartLoop cs).1.length := hc.i
      have hpath : c'.path = c.path + 1 + (pathPartLoop cs).1.length := hc.path
      have hothers : ∀ a, a < result + (c.i + 1) ∨ result + (c.i + 1) + (pathPartLoop cs).1.length ≤
        a → c'.mem a = Function.update c.mem (result + c.i) (c.mem c.path) a := hc.others
      rw [htext]
      refine ⟨c', ?_, ⟨?_, ?_, hc.string, fun t ht => ?_, fun a ha => ?_, ?_, ?_⟩⟩
      · rw [copyPartLoop, if_pos (by rw [hx]; exact hgo)]
        exact hrun
      · rw [List.length_cons]
        omega
      · rw [List.length_cons]
        omega
      · rw [List.length_cons] at ht
        cases t with
        | zero =>
          show c'.mem (result + c.i) = x
          rw [hothers _ (Or.inl (by omega)), Function.update_self, hx]
        | succ t =>
          have hb : c'.mem (result + (c.i + 1) + t) = (pathPartLoop cs).1[t] :=
            hc.bytes t (by omega)
          rw [show result + c.i + (t + 1) = result + (c.i + 1) + t by omega, hb]
          rfl
      · rw [List.length_cons] at ha
        rw [hothers a (by omega), Function.update_of_ne (by omega)]
      · rw [hc.indexes, List.length_cons, List.range'_succ]
        exact List.append_assoc _ [c.i] _
      · rw [hc.cursors, List.length_cons, List.range'_succ]
        exact List.append_assoc _ [c.path + 1] _
    · have htext : pathPartLoop (x :: cs) = ([], x :: cs) := if_neg hgo
      rw [htext]
      refine ⟨c, if_neg (by rw [hx]; exact hgo),
        ⟨rfl, rfl, ⟨hx, hx0, hrest⟩, ?_, fun _ _ => rfl, ?_, ?_⟩⟩
      · exact fun t ht => absurd ht (Nat.not_lt_zero t)
      · exact (List.append_nil _).symm
      · exact (List.append_nil _).symm

/-! ## 4. One component -/

section Part

variable {s : ParserState} {own : List Allocation} {cs : List UInt8}

/-- **A call that fits**, on a string from `lo` up to its NUL at `hi`: its indexes lie in the
    buffer, a NUL is left behind the component, and the cursor stays on the string. -/
structure CallFits (lo hi : Nat) (call : PathPartCall) : Prop where
  indexes : ∀ i ∈ call.indexes, i < 108
  nul : call.result ≠ 0 → call.indexes.length < 108 ∧ call.behind = 0
  cursors : ∀ c ∈ call.cursors, lo ≤ c ∧ c ≤ hi

theorem CallFits.mono {lo hi lo' : Nat} {call : PathPartCall} (h : CallFits lo hi call)
    (hlo : lo' ≤ lo) : CallFits lo' hi call :=
  { h with cursors := fun c hc => ⟨Nat.le_trans hlo (h.cursors c hc).1, (h.cursors c hc).2⟩ }

/-- The cursor skips a slash. -/
theorem skipSlash_string {m : Mem} {p : Nat} {rest : List UInt8} (h : CString m p rest) :
    CString m (if m p = slash then p + 1 else p) (skipSlash rest) ∧
      (if m p = slash then p + 1 else p) + (skipSlash rest).length = p + rest.length := by
  cases rest with
  | nil =>
    have hnul : m p = 0 := h
    rw [if_neg (by rw [hnul]; decide)]
    exact ⟨h, rfl⟩
  | cons c rest =>
    have hc : m p = c := h.1
    rw [hc]
    by_cases hs : c = slash
    · have hskip : skipSlash (c :: rest) = rest := if_pos hs
      rw [if_pos hs, hskip, List.length_cons]
      exact ⟨h.2.2, by omega⟩
    · have hskip : skipSlash (c :: rest) = c :: rest := if_neg hs
      rw [if_neg hs, hskip]
      exact ⟨h, rfl⟩

/-- **What a call of `pathparser_get_path_part` leaves**: an empty component gives no text, and its
    buffer back; any other one stands in the buffer, if there is one. -/
structure PartRead (s : ParserState) (own : List Allocation) (cs : List UInt8) (str : Nat)
    (s' : ParserState) : Prop where
  calls : ∃ call, s'.calls = s.calls ++ [call] ∧ CallFits s.path (s.path + cs.length) call
  empty : (pathPartLoop cs).1 = [] → str = 0
  refused : str = 0 → 0 < freeBlocks s.kernel.heap → (pathPartLoop cs).1 = []
  givenBack : str = 0 → 0 < freeBlocks s.kernel.heap → s.kernel.heap.Clean →
    s'.kernel.heap = s.kernel.heap ∧ ∀ a, OffFree s.kernel.heap a → s'.kernel.mem a = s.kernel.mem a
  asked : str ≠ 0 → (kzalloc s.kernel 108).1 = str ∧ (kzalloc s.kernel 108).2.heap = s'.kernel.heap
  grows : str ≠ 0 → Grows s.kernel s'.kernel own [⟨str, 108⟩]
  text : str ≠ 0 → CString s'.kernel.mem str (pathPartLoop cs).1
  length : str ≠ 0 → s'.path + (skipSlash (pathPartLoop cs).2).length = s.path + cs.length
  readable : str ≠ 0 →
    Readable s'.kernel (⟨str, 108⟩ :: own) s'.path (skipSlash (pathPartLoop cs).2)

/-- The record of a copy that fits. -/
theorem Copied.fits {result : Nat} {m : Mem} {c : PartCopy} (hlen : cs.length ≤ 105)
    (hc : Copied result ⟨0, s.path, m, [], [s.path]⟩ (pathPartLoop cs).1 (pathPartLoop cs).2 c)
    (hz : result ≠ 0 → ∀ a, result ≤ a → a < result + 108 → m a = 0) :
    CallFits s.path (s.path + cs.length) ⟨result, c.indexes,
      c.cursors ++ [if c.mem c.path = slash then c.path + 1 else c.path],
        c.mem (result + c.i)⟩ := by
  have hsplit := congrArg List.length (pathPartLoop_split cs)
  rw [List.length_append] at hsplit
  have hi : c.i = 0 + (pathPartLoop cs).1.length := hc.i
  have hpath : c.path = s.path + (pathPartLoop cs).1.length := hc.path
  have hindexes : c.indexes = [] ++ List.range' 0 (pathPartLoop cs).1.length := hc.indexes
  have hcursors : c.cursors = [s.path] ++ List.range' (s.path + 1) (pathPartLoop cs).1.length :=
    hc.cursors
  have hskip := (skipSlash_string hc.string).2
  refine ⟨fun i hmem => ?_, fun h0 => ?_, fun p hp => ?_⟩
  · have hmem : i ∈ c.indexes := hmem
    rw [hindexes, List.nil_append, List.mem_range'_1] at hmem
    omega
  · show c.indexes.length < 108 ∧ c.mem (result + c.i) = 0
    rw [hindexes, List.nil_append, List.length_range', hc.others _ (Or.inr (by dsimp only; omega))]
    exact ⟨by omega, hz h0 _ (by omega) (by omega)⟩
  · have hp : p ∈ c.cursors ++ [if c.mem c.path = slash then c.path + 1 else c.path] := hp
    rw [hcursors, List.append_assoc, List.mem_append, List.mem_append, List.mem_singleton,
      List.mem_range'_1, List.mem_singleton] at hp
    rcases hp with hp | hp | hp
    · omega
    · omega
    · rw [← hp] at hskip
      split at hp <;> omega

/-- The text of a component, in a buffer that was cleared. -/
theorem Copied.text {result : Nat} {m : Mem} {c : PartCopy} (hlen : cs.length ≤ 105)
    (h0 : ∀ x ∈ cs, x ≠ 0)
    (hc : Copied result ⟨0, s.path, m, [], [s.path]⟩ (pathPartLoop cs).1 (pathPartLoop cs).2 c)
    (hz : ∀ a, result ≤ a → a < result + 108 → m a = 0) :
    CString c.mem result (pathPartLoop cs).1 := by
  have hsplit := pathPartLoop_split cs
  have hle := congrArg List.length hsplit
  rw [List.length_append] at hle
  refine cString_of_bytes _ (fun x hx => h0 x ?_) fun i hi => ?_
  · rw [hsplit]
    exact List.mem_append_left _ hx
  · rw [List.length_append, List.length_singleton] at hi
    rcases Nat.lt_succ_iff_lt_or_eq.mp hi with hi | rfl
    · have hb : c.mem (result + 0 + i) = (pathPartLoop cs).1[i] := hc.bytes i hi
      rw [Nat.add_zero] at hb
      rw [hb, List.getD_eq_getElem?_getD, List.getElem?_append_left hi, List.getElem?_eq_getElem hi]
      rfl
    · have hnul : c.mem (result + (pathPartLoop cs).1.length) =
          m (result + (pathPartLoop cs).1.length) :=
        hc.others _ (Or.inr (by dsimp only; omega))
      rw [hnul, hz _ (by omega) (by omega)]
      simp

/-- A call that gives no text. -/
theorem PartRead.none {s' : ParserState} {call : PathPartCall}
    (hcall : s'.calls = s.calls ++ [call]) (hfits : CallFits s.path (s.path + cs.length) call)
    (hrefused : 0 < freeBlocks s.kernel.heap → (pathPartLoop cs).1 = [])
    (hback : 0 < freeBlocks s.kernel.heap → s.kernel.heap.Clean →
      s'.kernel.heap = s.kernel.heap ∧ ∀ a, OffFree s.kernel.heap a →
        s'.kernel.mem a = s.kernel.mem a) :
    PartRead s own cs 0 s' where
  calls := ⟨call, hcall, hfits⟩
  empty _ := rfl
  refused _ := hrefused
  givenBack _ := hback
  asked h := absurd rfl h
  grows h := absurd rfl h
  text h := absurd rfl h
  length h := absurd rfl h
  readable h := absurd rfl h

/-- **One call of `pathparser_get_path_part`.** -/
theorem pathparserGetPathPart_run (hinv : HeapInv s.kernel.heap own)
    (hr : Readable s.kernel own s.path cs) (hlen : cs.length ≤ 105) {fuel : Nat}
    (hf : cs.length < fuel) :
    ∃ str s', pathparserGetPathPart fuel s = some (str, s') ∧ PartRead s own cs str s' := by
  have hsplit := congrArg List.length (pathPartLoop_split cs)
  rw [List.length_append] at hsplit
  by_cases hfree : freeBlocks s.kernel.heap = 0
  · -- no buffer: what is written stays behind the cursor
    have hnofree : ¬ 0 < freeBlocks s.kernel.heap := by omega
    have hnone := kzalloc_full hinv.placed hfree (show 1 ≤ 108 by decide)
      (show 108 ≤ 4096 by decide)
    obtain ⟨c, hrun, hc⟩ := @copyPartLoop_run 0 cs ⟨0, s.path, s.kernel.mem, [], [s.path]⟩ fuel
      hr.string hf (Or.inl (Nat.zero_le _))
    have hfits := hc.fits hlen fun h => absurd rfl h
    unfold pathparserGetPathPart
    rw [hnone]
    dsimp only
    rw [hrun]
    dsimp only
    split
    · exact ⟨0, _, rfl, .none rfl hfits (fun h => absurd h hnofree) fun h => absurd h hnofree⟩
    · exact ⟨0, _, rfl, .none rfl hfits (fun h => absurd h hnofree) fun h => absurd h hnofree⟩
  · obtain ⟨ptr, k₁, e, hg, hne, -, -, hz⟩ := kzalloc_grows hinv (Nat.pos_of_ne_zero hfree) 108
      (by decide) (by decide)
    have hr₁ := hr.grows hg
    have hoff := hr₁.off (List.mem_append_left _ List.mem_cons_self)
    dsimp only at hoff
    obtain ⟨c, hrun, hc⟩ :=
      @copyPartLoop_run ptr cs ⟨0, s.path, k₁.mem, [], [s.path]⟩ fuel hr₁.string hf
      (by dsimp only; omega)
    have hfits := hc.fits hlen fun _ => hz
    have hi : c.i = 0 + (pathPartLoop cs).1.length := hc.i
    have hpath : c.path = s.path + (pathPartLoop cs).1.length := hc.path
    have hothers : ∀ a, a < ptr + 0 ∨ ptr + 0 + (pathPartLoop cs).1.length ≤ a →
        c.mem a = k₁.mem a :=
      hc.others
    unfold pathparserGetPathPart
    rw [e]
    dsimp only
    rw [hrun]
    dsimp only
    by_cases ht : (pathPartLoop cs).1 = []
    · -- an empty component: nothing was written, and the buffer is given back
      rw [ht, List.length_nil] at hi hothers
      rw [if_pos hi]
      refine ⟨0, _, rfl, .none rfl hfits (fun _ => ht) fun _ hclean => ⟨?_, fun a ha => ?_⟩⟩
      · exact hg.forget_live.release hclean
      · show c.mem a = s.kernel.mem a
        rw [hothers a (by omega)]
        exact ha.mem hg
    · have hpos := List.length_pos_of_ne_nil ht
      rw [if_neg (by omega)]
      obtain ⟨hstring, hskip⟩ := skipSlash_string hc.string
      have hg' : Grows s.kernel ⟨k₁.heap, c.mem⟩ own [⟨ptr, 108⟩] := hg.with_mem fun a _ ha => by
        have := ha _ List.mem_cons_self
        unfold OffBlock at this
        dsimp only at this
        exact hothers a (by omega)
      have hr' := hr.grows hg'
      have hcursor : s.path ≤ if c.mem c.path = slash then c.path + 1 else c.path := by
        split <;> omega
      exact ⟨ptr, _, rfl,
        { calls := ⟨_, rfl, hfits⟩
          empty := fun h => absurd h ht
          refused := fun h => absurd h hne
          givenBack := fun h => absurd h hne
          asked := fun _ => by
            rw [e]
            exact ⟨rfl, rfl⟩
          grows := fun _ => hg'
          text := fun _ => hc.text hlen (hr.string.ne_zero cs) hz
          length := fun _ => hskip.trans (by omega)
          readable := fun _ =>
            { string := hstring
              offFree := fun a h1 h2 =>
                hr'.offFree a (Nat.le_trans hcursor h1) (by dsimp only at h2; omega)
              apart := fun a h1 h2 =>
                hr'.apart a (Nat.le_trans hcursor h1) (by dsimp only at h2; omega) } }⟩

end Part

/-! ## 5. One part -/

section Made

variable {s : ParserState} {own : List Allocation} {cs : List UInt8}

/-- **A part that was made**, with its text at `str`, behind `last` (`0`: nothing): two blocks are
    taken, and off the free blocks only the link of `last` is written. -/
structure PartMade (s : ParserState) (own : List Allocation) (cs : List UInt8) (last part str : Nat)
    (s' : ParserState) : Prop where
  ne : part ≠ 0
  component : (pathPartLoop cs).1 ≠ []
  text_le : (pathPartLoop cs).1.length ≤ 105
  grows : ∀ m, Grows ⟨s.kernel.heap, m⟩ ⟨s'.kernel.heap, m⟩ own [⟨part, 8⟩, ⟨str, 108⟩]
  clean : s.kernel.heap.Clean → s'.kernel.heap.Clean
  frame : ∀ a, OffFree s.kernel.heap a → (last ≠ 0 → a < last + 4 ∨ last + 8 ≤ a) →
    s'.kernel.mem a = s.kernel.mem a
  textAt : load32 s'.kernel.mem part = str
  next : load32 s'.kernel.mem (part + 4) = 0
  link : last ≠ 0 → load32 s'.kernel.mem (last + 4) = part
  text : CString s'.kernel.mem str (pathPartLoop cs).1
  length : s'.path + (skipSlash (pathPartLoop cs).2).length = s.path + cs.length
  readable : Readable s'.kernel (⟨part, 8⟩ :: ⟨str, 108⟩ :: own) s'.path
    (skipSlash (pathPartLoop cs).2)
  refines : ∀ m, ∃ m', PeachKernel.pathparserParsePathPart ⟨s.kernel.heap, m⟩ cs =
    (some ⟨part, str, (pathPartLoop cs).1⟩, skipSlash (pathPartLoop cs).2, ⟨s'.kernel.heap, m'⟩)

/-- **What a call of `pathparser_parse_path_part` leaves**: a part that was made; or null, which
    with two free blocks means that the component was empty. Then everything is as before. -/
structure PartParsed (s : ParserState) (own : List Allocation) (cs : List UInt8) (last part : Nat)
    (s' : ParserState) : Prop where
  calls : ∃ call, s'.calls = s.calls ++ [call] ∧ CallFits s.path (s.path + cs.length) call
  made : part ≠ 0 → ∃ str, PartMade s own cs last part str s'
  empty : part = 0 → 2 ≤ freeBlocks s.kernel.heap → (pathPartLoop cs).1 = []
  asBefore : (pathPartLoop cs).1 = [] → 0 < freeBlocks s.kernel.heap → s.kernel.heap.Clean →
    part = 0 ∧ s'.kernel.heap = s.kernel.heap ∧
      ∀ a, OffFree s.kernel.heap a → s'.kernel.mem a = s.kernel.mem a

/-- A word of a block lies off a block that was taken later. -/
theorem word_off_new {k k' : Kernel} {own new : List Allocation} (hinv : HeapInv k.heap own)
    (hg : Grows k k' own new) {x y : Allocation} (hx : x ∈ own) (hy : y ∈ new) :
    x.ptr + 8 ≤ y.ptr ∨ y.ptr + 4096 ≤ x.ptr := by
  have h1 := (own_offFree hinv hx (Nat.le_refl _) (by omega)).off_new hg y hy
  have h2 := (own_offFree hinv hx (show x.ptr ≤ x.ptr + 7 by omega) (by omega)).off_new hg y hy
  unfold OffBlock at h1 h2
  omega

/-- What lies off the free blocks lies off the new part, -/
theorem PartMade.off_part {last part str : Nat} {s' : ParserState}
    (h : PartMade s own cs last part str s') {a : Nat} (ha : OffFree s.kernel.heap a) :
    a < part ∨ part + 4096 ≤ a :=
  @OffFree.off_new ⟨s.kernel.heap, fun _ => 0⟩ ⟨s'.kernel.heap, fun _ => 0⟩ own _ a ha (h.grows _) _
    List.mem_cons_self

/-- ... and off the free blocks that are left. -/
theorem PartMade.offFree {last part str : Nat} {s' : ParserState}
    (h : PartMade s own cs last part str s') {a : Nat} (ha : OffFree s.kernel.heap a) :
    OffFree s'.kernel.heap a :=
  @OffFree.grows ⟨s.kernel.heap, fun _ => 0⟩ ⟨s'.kernel.heap, fun _ => 0⟩ own _ a ha (h.grows _)

/-- The link of the part before is written last, -/
def linkLast (m : Mem) (lastPart part : Nat) : Mem :=
  if lastPart ≠ 0 then store32 m (lastPart + 4) part else m

/-- ... and nothing else. -/
theorem linkLast_other {m : Mem} {lastPart part a : Nat}
    (h : lastPart ≠ 0 → a < lastPart + 4 ∨ lastPart + 8 ≤ a) :
    linkLast m lastPart part a = m a := by
  unfold linkLast
  split
  · rename_i hne
    have := h hne
    exact store32_other (by omega)
  · rfl

/-- A request is answered by the heap, whatever the memory. -/
theorem kzalloc_of_heap (k : Kernel) (m : Mem) (size : Nat) :
    ∃ m', kzalloc ⟨k.heap, m⟩ size = ((kzalloc k size).1, ⟨(kzalloc k size).2.heap, m'⟩) := by
  refine ⟨(kzalloc ⟨k.heap, m⟩ size).2.mem, Prod.ext ?_ (Kernel.ext ?_ rfl)⟩
  · rw [kzalloc_ptr, kzalloc_ptr]
  · rw [kzalloc_heap, kzalloc_heap]

/-- **One call of `pathparser_parse_path_part`.** -/
theorem pathparserParsePathPart_run (hinv : HeapInv s.kernel.heap own)
    (hr : Readable s.kernel own s.path cs) (hlen : cs.length ≤ 105) {fuel : Nat}
    (hf : cs.length < fuel) (last : Nat) (hlast : last ≠ 0 → ⟨last, 8⟩ ∈ own) :
    ∃ part s', pathparserParsePathPart fuel last s = some (part, s') ∧
      PartParsed s own cs last part s' := by
  obtain ⟨str, s₁, hget, h₁⟩ := pathparserGetPathPart_run hinv hr hlen hf
  unfold pathparserParsePathPart
  rw [hget]
  dsimp only
  by_cases h0 : str = 0
  · rw [if_pos h0]
    exact ⟨0, s₁, rfl, h₁.calls, fun h => absurd rfl h, fun _ hfree => h₁.refused h0 (by omega),
      fun _ hfree hclean => ⟨rfl, h₁.givenBack h0 hfree hclean⟩⟩
  rw [if_neg h0]
  have hg₁ := h₁.grows h0
  have hcount : freeBlocks s₁.kernel.heap + 1 = freeBlocks s.kernel.heap := hg₁.free
  by_cases hfree : freeBlocks s₁.kernel.heap = 0
  · -- the text has a block, the part has none
    rw [kzalloc_full hg₁.inv.placed hfree (by decide) (by decide)]
    exact ⟨0, _, rfl, h₁.calls, fun h => absurd rfl h, fun _ h => by omega,
      fun h => absurd (h₁.empty h) h0⟩
  obtain ⟨part, k₂, e, hg₂, hne, -, hbound, -⟩ := kzalloc_grows hg₁.inv (Nat.pos_of_ne_zero hfree) 8
    (by decide) (by decide)
  rw [e]
  refine ⟨part, _, rfl, h₁.calls, fun _ => ⟨str, ?_⟩, fun h => absurd h hne,
    fun h => absurd (h₁.empty h) h0⟩
  have hstr : str < 4294967296 :=
    Nat.lt_of_le_of_lt (Nat.le_add_right _ _) (hg₁.inv.end_lt List.mem_cons_self).2
  -- the blocks of the last part, of the text and of the new part lie apart
  have hstrPart : ∀ a, str ≤ a → a < str + 4096 → a < part ∨ part + 4096 ≤ a := fun a h1 h2 =>
    (own_offFree hg₁.inv List.mem_cons_self h1 h2).off_new hg₂ _ List.mem_cons_self
  have hlastPart : last ≠ 0 → last + 8 ≤ part ∨ part + 4096 ≤ last := fun h =>
    word_off_new hg₁.inv hg₂ (List.mem_cons_of_mem _ (hlast h)) List.mem_cons_self
  have hlastStr : last ≠ 0 → last + 8 ≤ str ∨ str + 4096 ≤ last := fun h =>
    word_off_new hinv hg₁ (hlast h) List.mem_cons_self
  have hsplit := congrArg List.length (pathPartLoop_split cs)
  rw [List.length_append] at hsplit
  have hparts : ∀ a, a < part ∨ part + 4096 ≤ a →
      store32 (store32 k₂.mem part str) (part + 4) 0 a = k₂.mem a := by
    intro a ha
    rw [store32_other (by omega), store32_other (by omega)]
  have hr₂ := (h₁.readable h0).grows hg₂
  exact
    { ne := hne
      component := fun h => h0 (h₁.empty h)
      text_le := by omega
      grows := fun m => (hg₁.heap_only m).trans (hg₂.heap_only m)
      clean := fun hclean => by
        have h₂ : k₂.heap = (heapMalloc s₁.kernel.heap 8).2 := by rw [← kzalloc_heap, e]
        rw [h₂, ← (h₁.asked h0).2, kzalloc_heap]
        exact (hclean.malloc 108).malloc 8
      frame := fun a ha hlink => by
        show linkLast _ last part a = _
        have hoff := (ha.grows hg₁).off_new hg₂ _ List.mem_cons_self
        rw [linkLast_other hlink, hparts a hoff, ha.grows hg₁ |>.mem hg₂, ha.mem hg₁]
      textAt := by
        show load32 (linkLast _ last part) part = str
        rw [load32_congr fun a h1 h2 => linkLast_other fun h => by have := hlastPart h; omega,
          load32_store32_other (by omega), load32_store32_same hstr]
      next := by
        show load32 (linkLast _ last part) (part + 4) = 0
        rw [load32_congr fun a h1 h2 => linkLast_other fun h => by have := hlastPart h; omega,
          load32_store32_same (by decide)]
      link := fun h => by
        show load32 (linkLast _ last part) (last + 4) = part
        unfold linkLast
        rw [if_pos h, load32_store32_same (by omega)]
      text := (h₁.text h0).congr _ fun a h1 h2 => by
        show linkLast _ last part a = _
        have ha := own_offFree hg₁.inv List.mem_cons_self h1 (show a < str + 4096 by omega)
        rw [linkLast_other
          fun h => by have := hlastStr h; omega, hparts a (hstrPart a h1 (by omega)), ha.mem hg₂]
      length := h₁.length h0
      readable := hr₂.with_mem fun a h1 h2 => by
        show linkLast _ last part a = _
        have hoff := hr₂.apart a h1 h2 ⟨part, 8⟩ List.mem_cons_self
        have hlastOff : last ≠ 0 → OffBlock a last := fun h =>
          hr₂.apart a h1 h2 ⟨last, 8⟩ (List.mem_cons_of_mem _ (List.mem_cons_of_mem _ (hlast h)))
        unfold OffBlock at hlastOff
        rw [linkLast_other fun h => by have := hlastOff h; omega, hparts a hoff]
      refines := fun m => by
        obtain ⟨hask, hheap⟩ := h₁.asked h0
        obtain ⟨m₁, e₁⟩ := kzalloc_of_heap s.kernel m 108
        obtain ⟨m₂, e₂⟩ := kzalloc_of_heap s₁.kernel m₁ 8
        have htext : ¬ (pathPartLoop cs).1.length = 0 := fun h =>
          h0 (h₁.empty (List.length_eq_zero_iff.mp h))
        rw [e] at e₂
        rw [hask, hheap] at e₁
        unfold PeachKernel.pathparserParsePathPart PeachKernel.pathparserGetPathPart
        rw [e₁]
        dsimp only
        rw [if_neg htext]
        dsimp only
        rw [if_neg h0, e₂]
        dsimp only
        rw [if_neg hne]
        exact ⟨m₂, rfl⟩ }

end Made

end PathMemory

end PeachKernel
