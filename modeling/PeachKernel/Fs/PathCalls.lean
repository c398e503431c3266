/-
  File:      PeachKernel/Fs/PathCalls.lean
  Subject:   All the calls of `pathparser_get_path_part` that one `pathparser_parse` makes.

  The copy of a component has no bound of its own. The string has no more than 108 characters, of
  which three are the drive, and each call begins where the one before has left the cursor.

  * `partsLoop_fits` -- the calls of the loop;
  * `pathparserParse_refused`, `pathparserParse_noRoot`, `pathparserParse_root` -- the ways into it;
  * `pathparserParse_fits` -- every call writes inside its buffer, leaves a NUL in it, and does not
    take the cursor behind the NUL of the string; and the loop over the parts ends.
-/
import PeachKernel.Fs.PathMemory

namespace PeachKernel

open CInt Mem

namespace PathMemory

/-! ## 1. The loop over the parts -/

section Loop

variable {cs : List UInt8}

/-- A component takes characters off the string. -/
theorem skipSlash_lt (h : (pathPartLoop cs).1 ≠ []) :
    (skipSlash (pathPartLoop cs).2).length < cs.length := by
  have hsplit := congrArg List.length (pathPartLoop_split cs)
  have hskip := skipSlash_length (pathPartLoop cs).2
  have hpos := List.length_pos_of_ne_nil h
  rw [List.length_append] at hsplit
  omega

/-- **The loop ends, and all its calls fit.** -/
theorem partsLoop_fits (fuel lo hi turns : Nat) : ∀ {s : ParserState} {own : List Allocation}
    {cs : List UInt8} {part : Nat}, HeapInv s.kernel.heap own → Readable s.kernel own s.path cs →
    s.path + cs.length = hi → lo ≤ s.path → cs.length ≤ 105 → cs.length < fuel →
    (part ≠ 0 → ⟨part, 8⟩ ∈ own) → cs.length + 1 < turns → (∀ call ∈ s.calls, CallFits lo hi call) →
    ∃ s', partsLoop fuel turns part s = some s' ∧ ∀ call ∈ s'.calls, CallFits lo hi call := by
  induction turns with
  | zero =>
    intro s own cs part _ _ _ _ _ _ _ ht
    exact absurd ht (Nat.not_lt_zero _)
  | succ turns ih =>
    intro s own cs part hinv hr hhi hlo hlen hf hpart ht hcalls
    rw [partsLoop]
    by_cases h0 : part = 0
    · exact ⟨s, if_pos h0, hcalls⟩
    rw [if_neg h0]
    obtain ⟨part', s', hrun, h'⟩ := pathparserParsePathPart_run hinv hr hlen hf part hpart
    obtain ⟨call, hcall, hfits⟩ := h'.calls
    have hcalls' : ∀ call ∈ s'.calls, CallFits lo hi call := by
      intro x hx
      rw [hcall] at hx
      rcases List.mem_append.mp hx with hx | hx
      · exact hcalls x hx
      · rw [List.mem_singleton.mp hx, ← hhi]
        exact hfits.mono hlo
    rw [hrun]
    dsimp only
    by_cases h0' : part' = 0
    · obtain ⟨turns, rfl⟩ : ∃ n, turns = n + 1 := ⟨turns - 1, by omega⟩
      exact ⟨s', if_pos h0', hcalls'⟩
    · obtain ⟨str, hmade⟩ := h'.made h0'
      have hlt := skipSlash_lt hmade.component
      have hlength := hmade.length
      refine ih (hmade.grows fun _ => 0).inv hmade.readable (by omega) (by omega) (by omega)
        (by omega) ?_ (by omega) hcalls'
      exact fun _ => List.mem_cons_self

end Loop

/-! ## 2. The whole path -/

section Parse

variable {k : Kernel} {path : Nat} {cs : List UInt8}

theorem strlen_run {m : Mem} (cs : List UInt8) :
    ∀ {p fuel : Nat}, CString m p cs → cs.length < fuel → strlen m fuel p = some cs.length := by
  induction cs with
  | nil =>
    intro p fuel h hf
    obtain ⟨fuel, rfl⟩ := Nat.exists_eq_succ_of_ne_zero (Nat.ne_of_gt hf)
    have hnul : m p = 0 := h
    exact if_neg (not_not.mpr hnul)
  | cons c cs ih =>
    intro p fuel h hf
    obtain ⟨fuel, rfl⟩ := Nat.exists_eq_succ_of_ne_zero (Nat.ne_of_gt (Nat.zero_lt_of_lt hf))
    obtain ⟨hc, h0, hrest⟩ := h
    rw [strlen, if_pos (by rwa [hc]), ih hrest (Nat.lt_of_succ_lt_succ hf)]
    rfl

/-- The check of the drive looks at the characters of the string. -/
theorem startsWithDrive_slice (h : CString k.mem path cs) :
    StartsWithDrive (slice k.mem path 108) ↔ StartsWithDrive cs := by
  have e0 : (slice k.mem path 108).headD 0 = k.mem path := rfl
  have e1 : (slice k.mem path 108).getD 1 0 = k.mem (path + 1) := slice_getD path 0 (by decide)
  have e2 : (slice k.mem path 108).getD 2 0 = k.mem (path + 2) := slice_getD path 0 (by decide)
  unfold StartsWithDrive
  rw [e0, e1, e2]
  rcases cs with _ | ⟨a, _ | ⟨b, cs⟩⟩
  · have hnul : k.mem path = 0 := h
    rw [hnul]
    exact ⟨fun h => absurd h.1 (by decide), fun h => absurd h.1 (by decide)⟩
  · have hnul : k.mem (path + 1) = 0 := h.2.2
    rw [hnul]
    have hcolon : ¬ (0 : UInt8) = 0x3A := by decide
    exact ⟨fun h => absurd h.2.1 hcolon, fun h => absurd h.2.1 hcolon⟩
  · obtain ⟨ha, -, hb, -, hrest⟩ := h
    have hc : k.mem (path + 2) = cs.headD 0 := by
      cases cs with
      | nil => exact hrest
      | cons c cs => exact hrest.1
    rw [ha, hb, hc]
    cases cs <;> exact Iff.rfl

theorem pathparserGetDriveByPath_run (h : CString k.mem path cs) :
    (StartsWithDrive cs → pathparserGetDriveByPath k.mem path =
      (tonumericdigit (cs.headD 0), path + 3) ∧ 0 ≤ tonumericdigit (cs.headD 0)) ∧
    (¬ StartsWithDrive cs → (pathparserGetDriveByPath k.mem path).1 < 0) := by
  have hvalid := (pathparserPathValidFormat_iff (slice k.mem path 108)).trans
    (startsWithDrive_slice h)
  unfold pathparserGetDriveByPath
  refine ⟨fun hd => ?_, fun hd => ?_⟩
  · have hc : k.mem path = cs.headD 0 := by
      cases cs with
      | nil => exact h
      | cons c cs => exact h.1
    rw [hvalid.mpr hd, ← hc]
    exact ⟨rfl, hc ▸ (PeachKernel.pathparserGetDriveByPath_starts hd).2⟩
  · have hv : pathparserPathValidFormat (slice k.mem path 108) = false :=
      Bool.eq_false_iff.mpr fun e => hd (hvalid.mp e)
    rw [hv]
    show -EBADPATH < 0
    decide

/-- A path that is refused. -/
theorem pathparserParse_refused (h : CString k.mem path cs)
    (hno : 108 < cs.length ∨ ¬ StartsWithDrive cs) {fuel : Nat} (hf : cs.length < fuel) :
    ∃ s, pathparserParse fuel k path = some (0, s) ∧ s.kernel = k ∧ s.calls = [] := by
  unfold pathparserParse
  rw [strlen_run cs h hf]
  dsimp only
  by_cases hl : 108 < cs.length
  · exact ⟨_, if_pos hl, rfl, rfl⟩
  · rw [if_neg hl, if_pos ((pathparserGetDriveByPath_run h).2 (hno.resolve_left hl))]
    exact ⟨_, rfl, rfl, rfl⟩

/-- A root that gets no block. -/
theorem pathparserParse_noRoot (hp : k.heap.Placed) (h : CString k.mem path cs)
    (hfree : freeBlocks k.heap = 0) {fuel : Nat} (hf : cs.length < fuel) :
    ∃ s, pathparserParse fuel k path = some (0, s) ∧ s.calls = [] := by
  by_cases hno : 108 < cs.length ∨ ¬ StartsWithDrive cs
  · obtain ⟨s, hrun, -, hcalls⟩ := pathparserParse_refused h hno hf
    exact ⟨s, hrun, hcalls⟩
  obtain ⟨hl, hd⟩ := not_or.mp hno
  obtain ⟨hdrive, hpos⟩ := (pathparserGetDriveByPath_run h).1 (not_not.mp hd)
  unfold pathparserParse pathparserCreateRoot
  rw [strlen_run cs h hf]
  dsimp only
  rw [if_neg hl, hdrive, kzalloc_full hp hfree (by decide) (by decide)]
  dsimp only
  rw [if_neg (Int.not_lt.mpr hpos)]
  exact ⟨_, rfl, rfl⟩

/-- The link of the root is that of a part. -/
theorem pathparserParsePathPart_link {root fuel part : Nat} {s s₁ : ParserState} (hroot : root ≠ 0)
    (h : pathparserParsePathPart fuel 0 s = some (part, s₁)) (hne : part ≠ 0) :
    pathparserParsePathPart fuel root s = some (part,
      { s₁ with kernel := ⟨s₁.kernel.heap, store32 s₁.kernel.mem (root + 4) part⟩ }) := by
  unfold pathparserParsePathPart at h ⊢
  cases hget : pathparserGetPathPart fuel s with
  | none =>
    rw [hget] at h
    cases h
  | some r =>
    obtain ⟨str, s'⟩ := r
    rw [hget] at h
    dsimp only at h ⊢
    by_cases h0 : str = 0
    · rw [if_pos h0] at h
      cases h
      exact absurd rfl hne
    · rw [if_neg h0] at h ⊢
      cases h
      dsimp only
      rw [if_pos hroot]
      rfl

/-- **Behind a root** no part was made, or the loop goes on behind the first one. -/
theorem parseParts_ways {s : ParserState} {root fuel : Nat}
    (hinv : HeapInv s.kernel.heap [⟨root, 8⟩]) (hr : Readable s.kernel [⟨root, 8⟩] s.path cs)
    (hlen : cs.length ≤ 105) (hf : cs.length < fuel) (hne : root ≠ 0) :
    (∃ s₁, parseParts fuel root s = some (root, s₁) ∧ PartParsed s [⟨root, 8⟩] cs 0 0 s₁) ∨
    ∃ part s₂, part ≠ 0 ∧ PartParsed s [⟨root, 8⟩] cs root part s₂ ∧
      parseParts fuel root s = (partsLoop fuel (fuel + 1) part s₂).map fun s => (root, s) := by
  unfold parseParts
  obtain ⟨part, s₁, hfirst, h₁⟩ := pathparserParsePathPart_run hinv hr hlen hf 0 fun h =>
    absurd rfl h
  rw [hfirst]
  dsimp only
  by_cases h0 : part = 0
  · left
    rw [if_pos h0]
    exact ⟨s₁, rfl, h0 ▸ h₁⟩
  · -- the root is linked as a part is
    right
    rw [if_neg h0]
    obtain ⟨part', s₂, hlink, h₂⟩ := pathparserParsePathPart_run hinv hr hlen hf root fun _ =>
      List.mem_cons_self
    rw [pathparserParsePathPart_link hne hfirst h0] at hlink
    cases hlink
    refine ⟨part, _, h0, h₂, ?_⟩
    rw [partsLoop, if_neg h0]
    generalize pathparserParsePathPart fuel part _ = r
    cases r <;> rfl

/-- **A path whose root was made**, at `root`: `k₁` is the kernel behind it, and the string goes on
    behind the drive. -/
structure RootMade (fuel : Nat) (k : Kernel) (path : Nat) (cs : List UInt8) (root : Nat)
    (k₁ : Kernel) : Prop where
  ne : root ≠ 0
  asked : (kzalloc k 8).1 = root ∧ (kzalloc k 8).2.heap = k₁.heap
  grows : ∀ m, Grows ⟨k.heap, m⟩ ⟨k₁.heap, m⟩ [] [⟨root, 8⟩]
  first : load32 k₁.mem (root + 4) = 0
  readable : Readable k₁ [⟨root, 8⟩] (path + 3) (cs.drop 3)
  run : pathparserParse fuel k path = parseParts fuel root ⟨k₁, path + 3, []⟩

theorem startsWithDrive_length (hd : StartsWithDrive cs) : 3 ≤ cs.length := by
  obtain ⟨h0, h1, h2⟩ := hd
  rcases cs with _ | ⟨a, _ | ⟨b, _ | ⟨c, cs⟩⟩⟩
  · exact absurd h0 (by decide)
  · exact absurd (show (0 : UInt8) = 0x3A from h1) (by decide)
  · exact absurd (show (0 : UInt8) = slash from h2) (by decide)
  · simp

/-- **A path that is accepted.** -/
theorem pathparserParse_root (hp : k.heap.Placed) (hr : Readable k [] path cs)
    (hl : cs.length ≤ 108) (hd : StartsWithDrive cs) (hfree : 0 < freeBlocks k.heap) {fuel : Nat}
    (hf : cs.length < fuel) : ∃ root k₁, RootMade fuel k path cs root k₁ := by
  obtain ⟨hdrive, hpos⟩ := (pathparserGetDriveByPath_run hr.string).1 hd
  obtain ⟨root, k', e, hg, hne, -, hbound, -⟩ := kzalloc_grows (HeapInv.nil hp) hfree 8 (by decide)
    (by decide)
  have hlen := startsWithDrive_length hd
  let k₁ : Kernel :=
    ⟨k'.heap, store32 (store32 k'.mem root (u32 (tonumericdigit (cs.headD 0)))) (root + 4) 0⟩
  have hcreate : pathparserCreateRoot k (tonumericdigit (cs.headD 0)) = (root, k₁) := by
    unfold pathparserCreateRoot
    rw [e]
  have hr₁ : Readable k₁ [⟨root, 8⟩] (path + 3) (cs.drop 3) := by
    have hr' := hr.grows hg
    have hall : Readable k₁ [⟨root, 8⟩] path cs := hr'.with_mem fun a h1 h2 => by
      have hoff := hr'.apart a h1 h2 _ List.mem_cons_self
      unfold OffBlock at hoff
      dsimp only at hoff
      rw [store32_other (by omega), store32_other (by omega)]
    have hdrop : (cs.take 3).length = 3 := by
      rw [List.length_take]
      omega
    rw [← List.take_append_drop 3 cs] at hall
    have := hall.drop
    rwa [hdrop] at this
  exact ⟨root, k₁,
    { ne := hne
      asked := by
        rw [e]
        exact ⟨rfl, rfl⟩
      grows := fun m => hg.heap_only m
      first := load32_store32_same (by decide)
      readable := hr₁
      run := by
        unfold pathparserParse
        rw [strlen_run cs hr.string hf]
        dsimp only
        rw [if_neg (Nat.not_lt.mpr hl), hdrive]
        dsimp only
        rw [if_neg (Int.not_lt.mpr hpos), hcreate]
        exact if_neg hne }⟩

/-- **Whatever the string and the heap are**, the parser comes back, and every call of
    `pathparser_get_path_part` fits. -/
theorem pathparserParse_fits (hp : k.heap.Placed) (h : CString k.mem path cs)
    (hu : ∀ a, path ≤ a → a ≤ path + cs.length → OffFree k.heap a) {fuel : Nat}
    (hf : cs.length + 1 < fuel) :
    ∃ root s, pathparserParse fuel k path = some (root, s) ∧
      ∀ call ∈ s.calls, CallFits path (path + cs.length) call := by
  have hr : Readable k [] path cs := ⟨h, hu, fun _ _ _ _ hx => absurd hx List.not_mem_nil⟩
  by_cases hno : 108 < cs.length ∨ ¬ StartsWithDrive cs
  · obtain ⟨s, hrun, -, hcalls⟩ := pathparserParse_refused h hno (show cs.length < fuel by omega)
    exact ⟨0, s, hrun, fun call hc => by rw [hcalls] at hc; exact absurd hc List.not_mem_nil⟩
  obtain ⟨hl, hd⟩ := not_or.mp hno
  have hd := not_not.mp hd
  by_cases hfree : freeBlocks k.heap = 0
  · obtain ⟨s, hrun, hcalls⟩ := pathparserParse_noRoot hp h hfree (show cs.length < fuel by omega)
    exact ⟨0, s, hrun, fun call hc => by rw [hcalls] at hc; exact absurd hc List.not_mem_nil⟩
  obtain ⟨root, k₁, hroot⟩ :=
    pathparserParse_root hp hr (Nat.not_lt.mp hl) hd (Nat.pos_of_ne_zero hfree)
    (show cs.length < fuel by omega)
  have hlen := startsWithDrive_length hd
  have hdrop : (cs.drop 3).length = cs.length - 3 := List.length_drop
  -- the calls of the first part
  have hone : ∀ {last part : Nat} {s₁ : ParserState},
      PartParsed ⟨k₁, path + 3, []⟩ [⟨root, 8⟩] (cs.drop 3) last part s₁ →
      ∀ call ∈ s₁.calls, CallFits path (path + cs.length) call := by
    intro last part s₁ h₁ x hx
    obtain ⟨call, hcall, hfits⟩ := h₁.calls
    rw [hcall, List.nil_append] at hx
    rw [List.mem_singleton.mp hx]
    dsimp only at hfits
    rw [hdrop, show path + 3 + (cs.length - 3) = path + cs.length by omega] at hfits
    exact hfits.mono (Nat.le_add_right _ _)
  rw [hroot.run]
  rcases @parseParts_ways (cs.drop 3) ⟨k₁, path + 3, []⟩ root fuel (hroot.grows fun _ => 0).inv
    hroot.readable (by omega) (by omega) hroot.ne with ⟨s₁, hrun, h₁⟩ | ⟨part, s₂, hne, h₂, hrun⟩
  · exact ⟨root, s₁, hrun, hone h₁⟩
  · obtain ⟨str, hmade⟩ := h₂.made hne
    have hlt := skipSlash_lt hmade.component
    have hlength : s₂.path + (skipSlash (pathPartLoop (cs.drop 3)).2).length =
      path + 3 + (cs.drop 3).length := hmade.length
    obtain ⟨s, hloop, hcalls⟩ := partsLoop_fits fuel path (path + cs.length) (fuel + 1)
      (hmade.grows fun _ => 0).inv hmade.readable (by omega) (by omega) (by omega) (by omega)
      (fun _ => List.mem_cons_self) (by omega) (hone h₂)
    rw [hloop] at hrun
    exact ⟨root, s, hrun, hcalls⟩

end Parse

/-- `"0:/ab/c/"`. -/
def twoParts : List UInt8 := [0x30, 0x3A, 0x2F, 0x61, 0x62, 0x2F, 0x63, 0x2F]

/-- The kernel at the start, with this path on its stack. -/
def pathKernel : Kernel := ⟨emptyKernel.heap, copyIn (fun _ => 0) 0x8000 (twoParts ++ [0])⟩

theorem pathKernel_string : CString pathKernel.mem 0x8000 twoParts :=
  copyIn_cString _ (by simp [twoParts]) (by decide)

/-- The heap begins behind it. -/
theorem pathKernel_offFree (a : Nat) (h : a ≤ 0x8000 + twoParts.length) :
    OffFree pathKernel.heap a := by
  have hlen : twoParts.length = 8 := rfl
  have hsaddr : pathKernel.heap.saddr = 0x01000000 := rfl
  refine ⟨by omega, fun b _ _ => ?_⟩
  unfold OffBlock
  omega

/-- Its parser comes back, with calls that fit. -/
theorem pathparserParse_fits_two : ∃ root s, pathparserParse 20 pathKernel 0x8000 = some (root, s) ∧
    ∀ call ∈ s.calls, CallFits 0x8000 0x8008 call := by
  have hp : pathKernel.heap.Placed := emptyKernel_placed
  exact pathparserParse_fits hp pathKernel_string (fun a _ h => pathKernel_offFree a h)
    (show twoParts.length + 1 < 20 by decide)

end PathMemory

end PeachKernel
