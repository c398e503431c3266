/-
  File:      PeachKernel/Fs/PathFree.lean
  Subject:   A parsed path is given back: `pathparser_free` behind `pathparser_parse`.

  The parts are a linked list in memory. `pathparser_free` walks it and gives back each text and
  each part, and the root at last; the pointers it is given back with are recorded.

  * `freePartsLoop`, `pathparserFree` -- the source function;
  * `PartList` -- the list in memory; `partsLoop_list` -- the loop of `pathparser_parse` makes it,
    and is the loop over the characters (`Fs/PathParser.lean`) with the same blocks;
  * `ParsedPath`, `pathparserParse_parsed` -- a path that was parsed, with blocks for everything;
  * `pathparserFree_restores` -- freed, it leaves the heap as it was before.
-/
import PeachKernel.Fs.PathCalls

namespace PeachKernel

open CInt Mem

namespace PathMemory

/-! ## 1. The source function -/

/-- The loop of `pathparser_free`: the next part is read before the part is given back. -/
def freePartsLoop : (fuel part : Nat) → Kernel → Option (Kernel × List Nat)
  | 0, _, _ => none
  | fuel + 1, part, k =>
    if part = 0 then some (k, [])
    else
      let nextPart := load32 k.mem (part + 4)
      let partStr := load32 k.mem part
      (freePartsLoop fuel nextPart (kfree (kfree k partStr) part)).map fun r =>
        (r.1, partStr :: part :: r.2)

/-- `pathparser_free`, and the pointers that it gives back. -/
def pathparserFree (fuel : Nat) (k : Kernel) (root : Nat) : Option (Kernel × List Nat) :=
  (freePartsLoop fuel (load32 k.mem (root + 4)) k).map fun r => (kfree r.1 root, r.2 ++ [root])

/-! ## 2. The list in memory -/

/-- **The parts from `p` on**, linked in memory. -/
def PartList (m : Mem) : (p : Nat) → List PathPart → Prop
  | p, [] => p = 0
  | p, part :: parts => p ≠ 0 ∧ part.address = p ∧ load32 m p = part.part ∧
      CString m part.part part.text ∧ PartList m (load32 m (p + 4)) parts

/-- What the parts have allocated, in the order in which it is given back. -/
def partAllocations (parts : List PathPart) : List Allocation :=
  parts.flatMap fun part => [⟨part.part, 108⟩, ⟨part.address, 8⟩]

/-- **The loop gives back the parts of the list.** -/
theorem freePartsLoop_run (parts : List PathPart) : ∀ {fuel p : Nat} {k : Kernel},
    PartList k.mem p parts → parts.length < fuel → freePartsLoop fuel p k =
      some (⟨(partAllocations parts).foldl (fun h a => heapFree h a.ptr) k.heap, k.mem⟩,
        (partAllocations parts).map Allocation.ptr) := by
  induction parts with
  | nil =>
    intro fuel p k h hf
    obtain ⟨fuel, rfl⟩ := Nat.exists_eq_succ_of_ne_zero (Nat.ne_of_gt hf)
    exact if_pos h
  | cons part parts ih =>
    intro fuel p k h hf
    obtain ⟨fuel, rfl⟩ := Nat.exists_eq_succ_of_ne_zero (Nat.ne_of_gt (Nat.zero_lt_of_lt hf))
    obtain ⟨h0, haddr, hpart, -, hrest⟩ := h
    rw [freePartsLoop, if_neg h0]
    dsimp only
    -- a release leaves memory alone
    have hrest' : PartList (kfree (kfree k part.part) p).mem (load32 k.mem (p + 4)) parts := hrest
    rw [hpart, ih hrest' (Nat.lt_of_succ_lt_succ hf), ← haddr]
    rfl

/-- **The loop of `pathparser_parse` behind the part (or the root) `last`** made the list of parts
    that hangs there; the loop over the characters makes the same list, with the same heap. -/
structure PartsLinked (s : ParserState) (own : List Allocation) (cs : List UInt8) (f last : Nat)
    (parts : List PathPart) (s' : ParserState) : Prop where
  grows : ∀ m, Grows ⟨s.kernel.heap, m⟩ ⟨s'.kernel.heap, m⟩ own (partAllocations parts)
  frame : ∀ a, OffFree s.kernel.heap a → a < last + 4 ∨ last + 8 ≤ a →
    s'.kernel.mem a = s.kernel.mem a
  list : PartList s'.kernel.mem (load32 s'.kernel.mem (last + 4)) parts
  refines : ∀ m, ∃ m', PeachKernel.partsLoop f ⟨s.kernel.heap, m⟩ cs = (parts, ⟨s'.kernel.heap, m'⟩)

section Linked

variable {s s₁ s' : ParserState} {own : List Allocation} {cs : List UInt8} {f last : Nat}

/-- A buffer that is taken and given back. -/
theorem kfree_kzalloc_heap {k : Kernel} (hp : k.heap.Placed) (hfree : 0 < freeBlocks k.heap)
    (hclean : k.heap.Clean) :
    (kfree (kzalloc k 108).2 (kzalloc k 108).1).heap = k.heap := by
  obtain ⟨ptr, k', e, hg, -⟩ := kzalloc_grows (HeapInv.nil hp) hfree 108 (by decide) (by decide)
  rw [e]
  exact hg.release hclean

/-- **Behind an empty component** no part hangs. -/
theorem PartsLinked.nil (hinv : HeapInv s.kernel.heap own) (hlast : ⟨last, 8⟩ ∈ own)
    (h0 : load32 s.kernel.mem (last + 4) = 0) (ht : (pathPartLoop cs).1 = [])
    (hfree : 0 < freeBlocks s.kernel.heap) (hclean : s.kernel.heap.Clean)
    (hheap : s'.kernel.heap = s.kernel.heap)
    (hframe : ∀ a, OffFree s.kernel.heap a → s'.kernel.mem a = s.kernel.mem a) :
    PartsLinked s own cs (f + 1) last [] s' where
  grows m := by
    rw [hheap]
    exact .refl hinv
  frame a ha _ := hframe a ha
  list := by
    rw [load32_congr fun a h1 h2 => hframe a (own_offFree hinv hlast (by dsimp only; omega)
      (by dsimp only; omega)), h0]
    rfl
  refines m := by
    have hback := kfree_kzalloc_heap (k := ⟨s.kernel.heap, m⟩) hinv.placed hfree hclean
    rw [PeachKernel.partsLoop, pathparserParsePathPart_empty ht, hheap]
    exact ⟨(kzalloc ⟨s.kernel.heap, m⟩ 108).2.mem, Prod.ext rfl (Kernel.ext hback rfl)⟩

/-- **Behind a part that was made** hang the parts that were made behind it. -/
theorem PartsLinked.cons {part str : Nat} {parts : List PathPart} (hinv : HeapInv s.kernel.heap own)
    (hlast : ⟨last, 8⟩ ∈ own) (hne : last ≠ 0) (hmade : PartMade s own cs last part str s₁)
    (h : PartsLinked s₁ (⟨part, 8⟩ :: ⟨str, 108⟩ :: own)
        (skipSlash (pathPartLoop cs).2) f part parts
      s') :
    PartsLinked s own cs (f + 1) last (⟨part, str, (pathPartLoop cs).1⟩ :: parts) s' := by
  have hinv₁ : HeapInv s₁.kernel.heap (⟨part, 8⟩ :: ⟨str, 108⟩ :: own) :=
    (hmade.grows fun _ => 0).inv
  have hpart : (⟨part, 8⟩ : Allocation) ∈ (⟨part, 8⟩ :: ⟨str, 108⟩ :: own : List Allocation) :=
    List.mem_cons_self
  have hstr : (⟨str, 108⟩ : Allocation) ∈ (⟨part, 8⟩ :: ⟨str, 108⟩ :: own : List Allocation) :=
    List.mem_cons_of_mem _ List.mem_cons_self
  have hlen := hmade.text_le
  have h108 : blocksFor 108 = 1 := by decide
  have h8 : blocksFor 8 = 1 := by decide
  refine ⟨fun m => ?_, fun a ha hoff => ?_, ?_, fun m => ?_⟩
  · refine ((hmade.grows m).trans (h.grows m)).perm ?_
    have hcomm : ([(⟨part, 8⟩ : Allocation), ⟨str, 108⟩] ++ partAllocations parts).Perm
        (partAllocations parts ++ [⟨part, 8⟩, ⟨str, 108⟩]) := List.perm_append_comm
    exact (List.Perm.swap _ _ _).trans hcomm
  · have hnew := hmade.off_part ha
    rw [h.frame a (hmade.offFree ha) (by omega), hmade.frame a ha fun _ => hoff]
  · -- the bytes that later parts leave alone
    have hkeep : ∀ {x : Allocation}, x ∈ (⟨part, 8⟩ :: ⟨str, 108⟩ :: own : List Allocation) →
        ∀ a, x.ptr ≤ a → a < x.ptr + 4096 → a < part + 4 ∨ part + 8 ≤ a →
          s'.kernel.mem a = s₁.kernel.mem a :=
      fun hx a h1 h2 => h.frame a (own_offFree hinv₁ hx h1 h2)
    have hlink : load32 s'.kernel.mem (last + 4) = part := by
      rw [load32_congr fun a h1 h2 => ?_, hmade.link hne]
      have hoff := hmade.off_part (own_offFree hinv hlast (a := a) (by dsimp only; omega)
        (by dsimp only; omega))
      exact hkeep (List.mem_cons_of_mem _ (List.mem_cons_of_mem _ hlast)) a (by dsimp only; omega)
        (by dsimp only; omega) (by omega)
    have htextAt : load32 s'.kernel.mem part = str := by
      rw [load32_congr fun a h1 h2 => ?_, hmade.textAt]
      exact hkeep hpart a h1 (by dsimp only; omega) (by omega)
    have htext : CString s'.kernel.mem str (pathPartLoop cs).1 := by
      refine hmade.text.congr _ fun a h1 h2 => hkeep hstr a h1 (by dsimp only; omega) ?_
      have hoff : OffBlock a part :=
        hinv₁.off_of_ne hstr hpart (by simp) h108 h8 h1 (by dsimp only; omega)
      unfold OffBlock at hoff
      omega
    rw [hlink]
    exact ⟨hmade.ne, rfl, htextAt, htext, h.list⟩
  · obtain ⟨m₁, e₁⟩ := hmade.refines m
    obtain ⟨m₂, e₂⟩ := h.refines m₁
    rw [PeachKernel.partsLoop, e₁]
    dsimp only
    rw [e₂]
    exact ⟨m₂, rfl⟩

/-- **The loop of `pathparser_parse`**, with blocks for every component and the buffer that stays
    empty. -/
theorem partsLoop_list (fuel turns : Nat) :
    ∀ {s : ParserState} {own : List Allocation} {cs : List UInt8} {f part : Nat},
    HeapInv s.kernel.heap own → Readable s.kernel own s.path cs → cs.length ≤ 105 →
    cs.length < fuel → ⟨part, 8⟩ ∈ own → part ≠ 0 → load32 s.kernel.mem (part + 4) = 0 →
    s.kernel.heap.Clean → cs.length < f →
    2 * (componentsFrom f cs).length + 1 ≤ freeBlocks s.kernel.heap → cs.length + 1 < turns →
    ∃ s' parts, partsLoop fuel turns part s = some s' ∧ PartsLinked s own cs f part parts s' := by
  induction turns with
  | zero =>
    intro s own cs f part _ _ _ _ _ _ _ _ _ _ ht
    exact absurd ht (Nat.not_lt_zero _)
  | succ turns ih =>
    intro s own cs f part hinv hr hlen hf hmem hne hnext hclean hcs hfree ht
    obtain ⟨f, rfl⟩ := Nat.exists_eq_succ_of_ne_zero (Nat.ne_of_gt (Nat.zero_lt_of_lt hcs))
    obtain ⟨part', s₁, hrun, h₁⟩ := pathparserParsePathPart_run hinv hr hlen hf part fun _ => hmem
    rw [partsLoop, if_neg hne, hrun]
    dsimp only
    rw [componentsFrom_succ] at hfree
    by_cases htext : (pathPartLoop cs).1 = []
    · -- the end of the list
      obtain ⟨h0, hheap, hframe⟩ := h₁.asBefore htext (by omega) hclean
      obtain ⟨turns, rfl⟩ : ∃ n, turns = n + 1 := ⟨turns - 1, by omega⟩
      exact ⟨s₁, [], if_pos h0, .nil hinv hmem hnext htext (by omega) hclean hheap hframe⟩
    · rw [if_neg htext, List.length_cons] at hfree
      have hne' : part' ≠ 0 := fun h0 => htext (h₁.empty h0 (by omega))
      obtain ⟨str, hmade⟩ := h₁.made hne'
      have hlt := skipSlash_lt htext
      have hcount : freeBlocks s₁.kernel.heap + 2 = freeBlocks s.kernel.heap :=
        (hmade.grows fun _ => 0).free
      obtain ⟨s', parts, hloop, hlinked⟩ :=
        @ih s₁ _ _ f part' (hmade.grows fun _ => 0).inv hmade.readable
        (by omega) (by omega) List.mem_cons_self hne' hmade.next (hmade.clean hclean) (by omega)
        (by omega) (by omega)
      exact ⟨s', _, hloop, .cons hinv hmem hne hmade hlinked⟩

end Linked

/-! ## 3. A path that was parsed -/

section Parsed

variable {k : Kernel} {path root : Nat} {cs : List UInt8} {parts : List PathPart} {s : ParserState}

/-- What a parsed path has allocated, in the order in which it is given back. -/
def pathAllocations (root : Nat) (parts : List PathPart) : List Allocation :=
  partAllocations parts ++ [⟨root, 8⟩]

/-- **A path that was parsed**, from the kernel `k`: its components are the list of parts at the
    root; and of the heap table, texts, parts and root have been taken, and nothing else. -/
structure ParsedPath (k : Kernel) (cs : List UInt8) (root : Nat) (parts : List PathPart)
    (s : ParserState) : Prop where
  ne : root ≠ 0
  list : PartList s.kernel.mem (load32 s.kernel.mem (root + 4)) parts
  texts : parts.map PathPart.text = pathComponents cs
  inv : HeapInv s.kernel.heap (pathAllocations root parts)
  others : OffLive k.heap s.kernel.heap (pathAllocations root parts)
  grows : ∀ m, Grows ⟨k.heap, m⟩ ⟨s.kernel.heap, m⟩ [] (pathAllocations root parts)

/-- `strlen` counts the characters of a string. -/
theorem strlen_some {m : Mem} (cs : List UInt8) : ∀ {p fuel len : Nat}, CString m p cs →
    strlen m fuel p = some len → len = cs.length := by
  induction cs with
  | nil =>
    intro p fuel len h hlen
    have hnul : m p = 0 := h
    cases fuel with
    | zero => cases hlen
    | succ fuel => exact (Option.some.inj ((if_neg (not_not.mpr hnul)).symm.trans hlen)).symm
  | cons c cs ih =>
    intro p fuel len h hlen
    obtain ⟨hc, h0, hrest⟩ := h
    cases fuel with
    | zero => cases hlen
    | succ fuel =>
      rw [strlen, if_pos (by rwa [hc])] at hlen
      obtain ⟨len', hlen', rfl⟩ := Option.map_eq_some_iff.mp hlen
      rw [ih hrest hlen', List.length_cons]

/-- **The path is accepted**: `pathparser_parse` gives a root for it. -/
def PathAccepted (k : Kernel) (path : Nat) : Prop :=
  ∃ fuel root s, pathparserParse fuel k path = some (root, s) ∧ root ≠ 0

theorem PathAccepted.starts (h : PathAccepted k path) (hcs : CString k.mem path cs) :
    cs.length ≤ 108 ∧ StartsWithDrive cs := by
  obtain ⟨fuel, root, s, hrun, hne⟩ := h
  unfold pathparserParse at hrun
  split at hrun
  · cases hrun
  · rename_i len hlen
    obtain rfl := strlen_some cs hcs hlen
    by_cases hl : 108 < cs.length
    · rw [if_pos hl] at hrun
      cases hrun
      exact absurd rfl hne
    · refine ⟨Nat.not_lt.mp hl, ?_⟩
      by_contra hd
      dsimp only at hrun
      rw [if_neg hl, if_pos ((pathparserGetDriveByPath_run hcs).2 hd)] at hrun
      cases hrun
      exact absurd rfl hne

theorem componentsFrom_length_le (fuel : Nat) : ∀ {cs : List UInt8}, cs.length < fuel →
    (componentsFrom fuel cs).length ≤ cs.length := by
  induction fuel with
  | zero => exact fun h => absurd h (Nat.not_lt_zero _)
  | succ fuel ih =>
    intro cs h
    rw [componentsFrom_succ]
    by_cases ht : (pathPartLoop cs).1 = []
    · rw [if_pos ht]
      exact Nat.zero_le _
    · have hlt := skipSlash_lt ht
      have := @ih (skipSlash (pathPartLoop cs).2) (by omega)
      rw [if_neg ht, List.length_cons]
      omega

/-- **An accepted path is parsed**, when there are blocks for everything. The parser over the
    characters gives the same root, the same parts and the same heap. -/
theorem pathparserParse_parsed (hp : k.heap.Placed) (hclean : k.heap.Clean)
    (hr : Readable k [] path cs) (hl : cs.length ≤ 108) (hd : StartsWithDrive cs)
    (hfree : 2 * (pathComponents cs).length + 2 ≤ freeBlocks k.heap) {fuel : Nat}
    (hf : cs.length + 1 < fuel) :
    ∃ root s parts, pathparserParse fuel k path = some (root, s) ∧ ParsedPath k cs root parts s ∧
      ∀ m, ∃ m', PeachKernel.pathparserParse ⟨k.heap, m⟩ cs =
        (some ⟨root, tonumericdigit (cs.headD 0), parts⟩, ⟨s.kernel.heap, m'⟩) := by
  obtain ⟨root, k₁, hroot⟩ :=
    pathparserParse_root hp hr hl hd (by omega) (show cs.length < fuel by omega)
  have hlen := startsWithDrive_length hd
  have hdrop : (cs.drop 3).length = cs.length - 3 := List.length_drop
  have hinv₁ : HeapInv k₁.heap [⟨root, 8⟩] := (hroot.grows fun _ => 0).inv
  have hmem : (⟨root, 8⟩ : Allocation) ∈ ([⟨root, 8⟩] : List Allocation) := List.mem_cons_self
  have hclean₁ : k₁.heap.Clean := by
    rw [← hroot.asked.2, kzalloc_heap]
    exact hclean.malloc 8
  have hcount : freeBlocks k₁.heap + 1 = freeBlocks k.heap := (hroot.grows fun _ => 0).free
  have hfree₁ : 2 * (componentsFrom (cs.length + 1) (cs.drop 3)).length + 1 ≤
      freeBlocks k₁.heap := by
    unfold pathComponents at hfree
    omega
  have hways := @parseParts_ways (cs.drop 3) ⟨k₁, path + 3, []⟩ root fuel hinv₁ hroot.readable
    (by omega) (by omega) hroot.ne
  rw [← hroot.run] at hways
  -- the parts hang at the root as they hang at a part
  have hlinked : ∃ s parts, pathparserParse fuel k path = some (root, s) ∧
      PartsLinked ⟨k₁, path + 3, []⟩ [⟨root, 8⟩] (cs.drop 3) (cs.length + 1) root parts s := by
    by_cases htext : (pathPartLoop (cs.drop 3)).1 = []
    · rcases hways with ⟨s₁, hrun, h₁⟩ | ⟨part, s₂, hne, h₂, -⟩
      · obtain ⟨-, hheap, hframe⟩ :=
          h₁.asBefore htext (show 0 < freeBlocks k₁.heap by omega) hclean₁
        exact ⟨s₁, [], hrun,
          .nil hinv₁ hmem hroot.first htext (show 0 < freeBlocks k₁.heap by omega) hclean₁ hheap
            hframe⟩
      · exact absurd (h₂.asBefore htext (show 0 < freeBlocks k₁.heap by omega) hclean₁).1 hne
    · have hsucc := componentsFrom_succ cs.length (cs.drop 3)
      rw [if_neg htext] at hsucc
      rw [hsucc, List.length_cons] at hfree₁
      rcases hways with ⟨s₁, -, h₁⟩ | ⟨part, s₂, hne, h₂, hrun⟩
      · exact absurd (h₁.empty rfl (show 2 ≤ freeBlocks k₁.heap by omega)) htext
      · obtain ⟨str, hmade⟩ := h₂.made hne
        have hlt := skipSlash_lt htext
        have hcount₂ : freeBlocks s₂.kernel.heap + 2 = freeBlocks k₁.heap :=
          (hmade.grows fun _ => 0).free
        obtain ⟨s, parts, hloop, hparts⟩ := @partsLoop_list fuel (fuel + 1) s₂ _ _ cs.length part
          (hmade.grows fun _ => 0).inv hmade.readable (by omega) (by omega) List.mem_cons_self hne
          hmade.next (hmade.clean hclean₁) (by omega) (by omega) (by omega)
        rw [hloop] at hrun
        exact ⟨s, _, hrun, .cons hinv₁ hmem hroot.ne hmade hparts⟩
  obtain ⟨s, parts, hrun, hparts⟩ := hlinked
  have hgrows : ∀ m, Grows ⟨k.heap, m⟩ ⟨s.kernel.heap, m⟩ [] (pathAllocations root parts) :=
    fun m => (hroot.grows m).trans (hparts.grows m)
  have hinv : HeapInv s.kernel.heap (pathAllocations root parts ++ []) := (hgrows fun _ => 0).inv
  rw [List.append_nil] at hinv
  refine ⟨root, s, parts, hrun,
    ⟨hroot.ne, hparts.list, ?_, hinv, (hgrows fun _ => 0).off, hgrows⟩, fun m => ?_⟩
  · obtain ⟨m', e⟩ := hparts.refines fun _ => 0
    have htexts :=
      (partsLoop_components (k := ⟨k₁.heap, fun _ => 0⟩) (cs.length + 1) hinv₁.placed hfree₁).1
    have e' : PeachKernel.partsLoop (cs.length + 1) ⟨k₁.heap, fun _ => 0⟩ (cs.drop 3) =
      (parts, ⟨s.kernel.heap, m'⟩) := e
    rw [e'] at htexts
    exact htexts
  · have hlen' : PeachKernel.strlen cs ≤ 108 := Nat.le_trans (strlen_le cs) hl
    obtain ⟨address, k₂, e₂, -, -, e⟩ := pathparserParse_loop (k := ⟨k.heap, m⟩) hp hlen' hd
      (show 0 < freeBlocks k.heap by omega)
    obtain ⟨m₁, e₁⟩ := kzalloc_of_heap k m 8
    rw [hroot.asked.1, hroot.asked.2] at e₁
    obtain ⟨rfl, rfl⟩ := Prod.mk.inj (e₂.symm.trans e₁)
    obtain ⟨m', e'⟩ := hparts.refines m₁
    have e'' : PeachKernel.partsLoop (cs.length + 1) ⟨k₁.heap, m₁⟩ (cs.drop 3) =
      (parts, ⟨s.kernel.heap, m'⟩) := e'
    rw [e, e'']
    exact ⟨m', rfl⟩

/-! ## 4. Freeing it -/

/-- **Freeing a parsed path** gives each of its allocations back once, and with them the heap of
    before. -/
theorem ParsedPath.free (h : ParsedPath k cs root parts s) (hclean : k.heap.Clean) {fuel : Nat}
    (hf : parts.length < fuel) : ∃ k', pathparserFree fuel s.kernel root =
      some (k', (pathAllocations root parts).map Allocation.ptr) ∧
      ((pathAllocations root parts).map Allocation.ptr).Nodup ∧ k'.heap = k.heap := by
  unfold pathparserFree
  rw [freePartsLoop_run parts h.list hf]
  refine ⟨_, congrArg some (Prod.ext rfl ?_), ?_, ?_⟩
  · show (partAllocations parts).map Allocation.ptr ++ [root] =
      (pathAllocations root parts).map Allocation.ptr
    unfold pathAllocations
    rw [List.map_append]
    rfl
  · exact h.inv.nodup.map_on fun a ha b hb e => h.inv.eq_of_ptr ha hb e
  · have hrelease := (h.grows fun _ => 0).release hclean
    unfold pathAllocations at hrelease
    rw [List.foldl_append] at hrelease
    exact hrelease

/-- **Parsing an accepted path and freeing it leaves the heap as it was**, on every heap the kernel
    can have, with blocks for the root, two for each component and one for the buffer that stays
    empty: every text, every part and the root are given back, each once. -/
theorem pathparserFree_restores (hk : HeapReachable k.heap) (h : CString k.mem path cs)
    (hu : ∀ a, path ≤ a → a ≤ path + cs.length → OffFree k.heap a) (ha : PathAccepted k path)
    (hfree : 2 * (pathComponents cs).length + 2 ≤ freeBlocks k.heap) {fuel : Nat}
    (hf : cs.length + 1 < fuel) :
    ∃ root s parts k', pathparserParse fuel k path = some (root, s) ∧ ParsedPath k cs root parts s ∧
      pathparserFree fuel s.kernel root =
        some (k', (pathAllocations root parts).map Allocation.ptr) ∧
      ((pathAllocations root parts).map Allocation.ptr).Nodup ∧ k'.heap = k.heap := by
  obtain ⟨hp, hclean⟩ := hk.placed_clean
  obtain ⟨hl, hd⟩ := ha.starts h
  have hr : Readable k [] path cs := ⟨h, hu, fun _ _ _ _ hx => absurd hx List.not_mem_nil⟩
  obtain ⟨root, s, parts, hrun, hparsed, -⟩ := pathparserParse_parsed hp hclean hr hl hd hfree hf
  have hcount : parts.length < fuel := by
    have h1 := congrArg List.length hparsed.texts
    have h2 := @componentsFrom_length_le (cs.length + 1) (cs.drop 3)
      (by rw [List.length_drop]; omega)
    rw [List.length_drop] at h2
    rw [List.length_map] at h1
    unfold pathComponents at h1
    omega
  obtain ⟨k', hfreed, hnodup, hheap⟩ := hparsed.free hclean hcount
  exact ⟨root, s, parts, k', hrun, hparsed, hfreed, hnodup, hheap⟩

end Parsed

/-- `"0:/ab/c/"`, parsed on the fresh heap and freed again. -/
theorem pathparserFree_restores_two : ∃ root s parts k',
    pathparserParse 20 pathKernel 0x8000 = some (root, s) ∧
    parts.map PathPart.text = [[0x61, 0x62], [0x63]] ∧
    pathparserFree 20 s.kernel root = some (k', (pathAllocations root parts).map Allocation.ptr) ∧
    k'.heap = pathKernel.heap := by
  have hcomponents : pathComponents twoParts = [[0x61, 0x62], [0x63]] := by decide
  have hfree : 2 * (pathComponents twoParts).length + 2 ≤ freeBlocks pathKernel.heap := by
    rw [hcomponents]
    exact emptyKernel_room (by decide)
  have haccepted : PathAccepted pathKernel 0x8000 := by
    have hr : Readable pathKernel [] 0x8000 twoParts :=
      ⟨pathKernel_string, fun a _ h => pathKernel_offFree a h,
        fun _ _ _ _ hx => absurd hx List.not_mem_nil⟩
    have hp : pathKernel.heap.Placed := emptyKernel_placed
    obtain ⟨root, s, parts, hrun, hparsed, -⟩ := pathparserParse_parsed hp emptyKernel_clean hr
      (by decide) (by decide) hfree (show twoParts.length + 1 < 20 by decide)
    exact ⟨20, root, s, hrun, hparsed.ne⟩
  have hk : HeapReachable pathKernel.heap := kernelHeap_reachable _
  obtain ⟨root, s, parts, k', hrun, hparsed, hfreed, -, hheap⟩ := pathparserFree_restores hk
    pathKernel_string (fun a _ h => pathKernel_offFree a h) haccepted hfree
    (show twoParts.length + 1 < 20 by decide)
  exact ⟨root, s, parts, k', hrun, hparsed.texts.trans hcomponents, hfreed, hheap⟩

end PathMemory

end PeachKernel
