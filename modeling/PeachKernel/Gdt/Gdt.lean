/-
  File:      PeachKernel/Gdt/Gdt.lean
  Subject:   The segment descriptors of `gdt.c`: what the processor reads back from the eight bytes.

  A descriptor spreads its base over four bytes and its limit over three, the last of which it
  shares with the flags. The limit has 20 bits; with the granularity flag it counts pages.

  * `encodeGdtEntry`, `gdtStructuredToGdt` -- the source functions; `none` is the call that does not
    come back, as `panic` does not;
  * `segmentBase`, `segmentLimit`, `segmentAccess`, `segmentIs32Bit` -- the layout of the processor;
  * `Describes` -- the eight bytes mean the segment that was given;
  * `encodeGdtEntry_eq`, `encodeGdtEntry_spec` -- one descriptor;
  * `gdtStructuredToGdt_describes` -- a table of them.
-/
import PeachKernel.Lib.ByteMem
import Mathlib.Tactic.IntervalCases

namespace PeachKernel

open Mem

/-! ## 1. The source functions -/

/-- `struct gdt_structured`. -/
structure GdtStructured where
  base : UInt32
  limit : UInt32
  type : UInt8

/-- `encodeGdtEntry`: memory behind the call (`none`: `panic`). -/
def encodeGdtEntry (m : Mem) (target : Nat) (source : GdtStructured) : Option Mem :=
  if 65536 < source.limit ∧ source.limit &&& 0xFFF ≠ 0xFFF then none
  else
    let m := Function.update m (target + 6) 0x40
    let limit := if 65536 < source.limit then source.limit >>> 12 else source.limit
    let m := if 65536 < source.limit then Function.update m (target + 6) 0xC0 else m
    let m := Function.update m target (limit &&& 0xFF).toUInt8
    let m := Function.update m (target + 1) ((limit >>> 8) &&& 0xFF).toUInt8
    let m := Function.update m (target + 6) (m (target + 6) ||| ((limit >>> 16) &&& 0x0F).toUInt8)
    let m := Function.update m (target + 2) (source.base &&& 0xFF).toUInt8
    let m := Function.update m (target + 3) ((source.base >>> 8) &&& 0xFF).toUInt8
    let m := Function.update m (target + 4) ((source.base >>> 16) &&& 0xFF).toUInt8
    let m := Function.update m (target + 7) ((source.base >>> 24) &&& 0xFF).toUInt8
    some (Function.update m (target + 5) source.type)

/-- The loop of `gdt_structured_to_gdt` over the last `left` entries, from entry `i`; `struct gdt`
    has eight bytes. -/
def gdtStructuredLoop (gdt : Nat) (structuredGdt : Nat → GdtStructured) :
    (left i : Nat) → Mem → Option Mem
  | 0, _, m => some m
  | left + 1, i, m =>
    match encodeGdtEntry m (gdt + 8 * i) (structuredGdt i) with
    | none => none
    | some m => gdtStructuredLoop gdt structuredGdt left (i + 1) m

/-- `gdt_structured_to_gdt`. -/
def gdtStructuredToGdt (m : Mem) (gdt : Nat) (structuredGdt : Nat → GdtStructured)
    (totalEntries : Int) : Option Mem :=
  gdtStructuredLoop gdt structuredGdt totalEntries.toNat 0 m

/-- `gdt_structured` of `kernel.c`, for the address of `tss`, which has 100 bytes. -/
def kernelSegments (tss : UInt32) : List GdtStructured :=
  [⟨0x00, 0x00, 0x00⟩, ⟨0x00, 0xFFFFFFFF, 0x9A⟩, ⟨0x00, 0xFFFFFFFF, 0x92⟩, ⟨0x00, 0xFFFFFFFF, 0xF8⟩,
    ⟨0x00, 0xFFFFFFFF, 0xF2⟩, ⟨tss, 100, 0xE9⟩]

/-! ## 2. The layout -/

/-- The base of the descriptor at `a`: bytes 2, 3, 4 and 7. -/
def segmentBase (m : Mem) (a : Nat) : Nat :=
  (m (a + 2)).toNat + 256 * (m (a + 3)).toNat + 65536 * (m (a + 4)).toNat + 16777216 *
    (m (a + 7)).toNat

/-- Its limit of 20 bits: bytes 0 and 1, and the low half of byte 6. -/
def segmentRawLimit (m : Mem) (a : Nat) : Nat :=
  (m a).toNat + 256 * (m (a + 1)).toNat + 65536 * ((m (a + 6)).toNat % 16)

/-- The granularity flag, bit 7 of byte 6. -/
def segmentGranular (m : Mem) (a : Nat) : Prop := (m (a + 6)).toNat / 128 % 2 = 1

instance (m : Mem) (a : Nat) : Decidable (segmentGranular m a) :=
  inferInstanceAs (Decidable (_ = _))

/-- The size flag, bit 6 of byte 6: a segment of 32 bits. -/
def segmentIs32Bit (m : Mem) (a : Nat) : Prop := (m (a + 6)).toNat / 64 % 2 = 1

/-- **The last byte of the segment**, which the limit stands for. -/
def segmentLimit (m : Mem) (a : Nat) : Nat :=
  if segmentGranular m a then segmentRawLimit m a * 4096 + 4095 else segmentRawLimit m a

def segmentAccess (m : Mem) (a : Nat) : UInt8 := m (a + 5)

/-- **The descriptor at `a` means the segment** `source`. -/
structure Describes (m : Mem) (a : Nat) (source : GdtStructured) : Prop where
  base : segmentBase m a = source.base.toNat
  limit : segmentLimit m a = source.limit.toNat
  access : segmentAccess m a = source.type
  is32Bit : segmentIs32Bit m a

/-- A descriptor is a matter of its own bytes. -/
theorem Describes.congr {m m' : Mem} {a : Nat} {source : GdtStructured} (h : Describes m a source)
    (hm : ∀ b, a ≤ b → b < a + 8 → m' b = m b) : Describes m' a source := by
  have h0 : m' a = m a := hm a (by omega) (by omega)
  have hb : ∀ k, k < 8 → m' (a + k) = m (a + k) := fun k hk => hm (a + k) (by omega) (by omega)
  have h6 := hb 6 (by decide)
  have hlow : segmentRawLimit m' a = segmentRawLimit m a := by
    unfold segmentRawLimit
    rw [h0, hb 1 (by decide), h6]
  refine ⟨?_, ?_, ?_, ?_⟩
  · rw [← h.base]
    unfold segmentBase
    rw [hb 2 (by decide), hb 3 (by decide), hb 4 (by decide), hb 7 (by decide)]
  · have hgran : segmentGranular m' a ↔ segmentGranular m a := by
      unfold segmentGranular
      rw [h6]
    rw [← h.limit]
    unfold segmentLimit
    simp only [hgran, hlow]
  · exact (hb 5 (by decide)).trans h.access
  · have h32 := h.is32Bit
    unfold segmentIs32Bit at h32 ⊢
    rwa [h6]

/-! ## 3. One descriptor -/

section Descriptor

variable {m m' : Mem} {target : Nat} {source : GdtStructured}

/-- The limit that is written, and the flags above its top half byte. -/
def writtenLimit (source : GdtStructured) : UInt32 :=
  if 65536 < source.limit then source.limit >>> 12 else source.limit

def writtenFlags (source : GdtStructured) : UInt8 := if 65536 < source.limit then 0xC0 else 0x40

/-- The eight bytes of a descriptor. -/
def descriptorByte (source : GdtStructured) : Nat → UInt8
  | 0 => (writtenLimit source &&& 0xFF).toUInt8
  | 1 => ((writtenLimit source >>> 8) &&& 0xFF).toUInt8
  | 2 => (source.base &&& 0xFF).toUInt8
  | 3 => ((source.base >>> 8) &&& 0xFF).toUInt8
  | 4 => ((source.base >>> 16) &&& 0xFF).toUInt8
  | 5 => source.type
  | 6 => writtenFlags source ||| ((writtenLimit source >>> 16) &&& 0x0F).toUInt8
  | _ => ((source.base >>> 24) &&& 0xFF).toUInt8

/-- **What a call that comes back has written**: the eight bytes, and no other. -/
theorem encodeGdtEntry_eq (h : encodeGdtEntry m target source = some m') :
    (65536 < source.limit → source.limit &&& 0xFFF = 0xFFF) ∧
    (∀ k, k < 8 → m' (target + k) = descriptorByte source k) ∧
    ∀ a, a < target ∨ target + 8 ≤ a → m' a = m a := by
  unfold encodeGdtEntry at h
  split at h
  · cases h
  · rename_i hno
    obtain rfl := Option.some.inj h
    refine ⟨fun hlt => by_contra fun hne => hno ⟨hlt, hne⟩, fun k hk => ?_, fun a ha => ?_⟩
    · unfold descriptorByte writtenFlags writtenLimit
      interval_cases k <;> simp
      split <;> simp
    · simp only [Function.update_apply]
      grind

/-- A byte of a word. -/
theorem byteOf_toNat (x : UInt32) {k : UInt32} (hk : k.toNat < 32) :
    ((x >>> k) &&& 0xFF).toUInt8.toNat = x.toNat / 2 ^ k.toNat % 256 := by
  rw [UInt32.toNat_toUInt8, UInt32.toNat_and, UInt32.toNat_shiftRight, Nat.mod_eq_of_lt hk,
    Nat.shiftRight_eq_div_pow]
  have hmask : (0xFF : UInt32).toNat = 2 ^ 8 - 1 := rfl
  rw [hmask, Nat.and_two_pow_sub_one_eq_mod]
  omega

theorem lowByte_toNat (x : UInt32) : (x &&& 0xFF).toUInt8.toNat = x.toNat % 256 := by
  have h := byteOf_toNat x (k := 0) (by decide)
  have hz : x >>> 0 = x := UInt32.shiftRight_zero
  rw [hz] at h
  simpa using h

/-- The byte that the limit shares with the flags. -/
theorem flagsByte_toNat (x : UInt32) {flags : UInt8} {high : Nat} (hf : flags.toNat = 16 * high) :
    (flags ||| ((x >>> 16) &&& 0x0F).toUInt8).toNat = 16 * high + x.toNat / 65536 % 16 := by
  have hmask : (0x0F : UInt32).toNat = 2 ^ 4 - 1 := rfl
  have hshift : (16 : UInt32).toNat % 32 = 16 := rfl
  have hlow : ((x >>> 16) &&& 0x0F).toUInt8.toNat = x.toNat / 65536 % 16 := by
    rw [UInt32.toNat_toUInt8, UInt32.toNat_and, UInt32.toNat_shiftRight, hshift, hmask,
      Nat.and_two_pow_sub_one_eq_mod, Nat.shiftRight_eq_div_pow]
    omega
  rw [UInt8.toNat_or, hlow, hf]
  exact (Nat.two_pow_add_eq_or_of_lt (i := 4) (by omega) high).symm

/-- The limit of 20 bits, and the flags, as they are read back. -/
theorem encodeGdtEntry_limit (h : encodeGdtEntry m target source = some m') :
    (m' (target + 6)).toNat / 16 = (if 65536 < source.limit then 12 else 4) ∧
    segmentRawLimit m' target =
      if 65536 < source.limit then source.limit.toNat / 4096 else source.limit.toNat := by
  obtain ⟨-, hbyte, -⟩ := encodeGdtEntry_eq h
  have hlimit := source.limit.toNat_lt
  have h0 := congrArg UInt8.toNat (hbyte 0 (by decide))
  have h1 := congrArg UInt8.toNat (hbyte 1 (by decide))
  have h6 := congrArg UInt8.toNat (hbyte 6 (by decide))
  simp only [descriptorByte, writtenFlags, writtenLimit, Nat.add_zero] at h0 h1 h6
  have h8 : (8 : UInt32).toNat = 8 := rfl
  unfold segmentRawLimit
  by_cases hl : 65536 < source.limit
  · have hpages : (source.limit >>> 12).toNat = source.limit.toNat / 4096 := by
      rw [UInt32.toNat_shiftRight, Nat.shiftRight_eq_div_pow]
      rfl
    simp only [if_pos hl] at h0 h1 h6 ⊢
    rw [lowByte_toNat, hpages] at h0
    rw [byteOf_toNat _ (by decide), hpages] at h1
    rw [flagsByte_toNat _ (show (0xC0 : UInt8).toNat = 16 * 12 from rfl), hpages] at h6
    rw [h0, h1, h6, h8]
    omega
  · have hle : source.limit.toNat ≤ 65536 := UInt32.le_iff_toNat_le.mp (UInt32.not_lt.mp hl)
    simp only [if_neg hl] at h0 h1 h6 ⊢
    rw [lowByte_toNat] at h0
    rw [byteOf_toNat _ (by decide)] at h1
    rw [flagsByte_toNat _ (show (0x40 : UInt8).toNat = 16 * 4 from rfl)] at h6
    rw [h0, h1, h6, h8]
    omega

/-- **One descriptor** means the segment that it was made from. -/
theorem encodeGdtEntry_spec (h : encodeGdtEntry m target source = some m') :
    Describes m' target source := by
  obtain ⟨hok, hbyte, -⟩ := encodeGdtEntry_eq h
  obtain ⟨hflags, hraw⟩ := encodeGdtEntry_limit h
  refine ⟨?_, ?_, hbyte 5 (by decide), ?_⟩
  · have h2 := congrArg UInt8.toNat (hbyte 2 (by decide))
    have h3 := congrArg UInt8.toNat (hbyte 3 (by decide))
    have h4 := congrArg UInt8.toNat (hbyte 4 (by decide))
    have h7 := congrArg UInt8.toNat (hbyte 7 (by decide))
    simp only [descriptorByte] at h2 h3 h4 h7
    rw [lowByte_toNat] at h2
    rw [byteOf_toNat _ (by decide)] at h3 h4 h7
    have hbase := source.base.toNat_lt
    unfold segmentBase
    rw [h2, h3, h4, h7]
    simp only [UInt32.reduceToNat, Nat.reducePow]
    omega
  · unfold segmentLimit
    by_cases hl : 65536 < source.limit
    · -- the last page of the segment is a whole one
      have hpages : source.limit.toNat % 4096 = 4095 := by
        have hmask := congrArg UInt32.toNat (hok hl)
        rw [UInt32.toNat_and, show (0xFFF : UInt32).toNat = 2 ^ 12 - 1 from rfl,
          Nat.and_two_pow_sub_one_eq_mod] at hmask
        exact hmask
      rw [if_pos hl] at hflags hraw
      have hgran : segmentGranular m' target := by
        unfold segmentGranular
        omega
      rw [if_pos hgran, hraw]
      omega
    · rw [if_neg hl] at hflags hraw
      have hgran : ¬ segmentGranular m' target := by
        unfold segmentGranular
        omega
      rw [if_neg hgran, hraw]
  · unfold segmentIs32Bit
    split at hflags <;> omega

end Descriptor

/-! ## 4. A table -/

section Table

variable {m m' : Mem} {gdt : Nat} {structuredGdt : Nat → GdtStructured}

/-- **The loop**: the entries ahead of it are described, and nothing else has changed. -/
theorem gdtStructuredLoop_spec (left : Nat) : ∀ {i : Nat} {m : Mem},
    gdtStructuredLoop gdt structuredGdt left i m = some m' →
    (∀ j, i ≤ j → j < i + left → Describes m' (gdt + 8 * j) (structuredGdt j)) ∧
    ∀ a, a < gdt + 8 * i ∨ gdt + 8 * (i + left) ≤ a → m' a = m a := by
  induction left with
  | zero =>
    intro i m h
    obtain rfl := Option.some.inj h
    exact ⟨fun j h1 h2 => absurd h1 (by omega), fun _ _ => rfl⟩
  | succ left ih =>
    intro i m h
    rw [gdtStructuredLoop] at h
    cases he : encodeGdtEntry m (gdt + 8 * i) (structuredGdt i) with
    | none =>
      rw [he] at h
      cases h
    | some m₁ =>
      rw [he] at h
      obtain ⟨hbehind, hother⟩ := ih h
      have hframe := (encodeGdtEntry_eq he).2.2
      refine ⟨fun j h1 h2 => ?_, fun a ha => ?_⟩
      · by_cases hj : j = i
        · -- the entries behind it lie off this one
          rw [hj]
          exact (encodeGdtEntry_spec he).congr fun b hb1 hb2 => hother b (Or.inl (by omega))
        · exact hbehind j (by omega) (by omega)
      · exact (hother a (by omega)).trans (hframe a (by omega))

/-- The loop comes back where no entry makes `encodeGdtEntry` panic. -/
theorem gdtStructuredLoop_returns (left : Nat) : ∀ {i : Nat} {m : Mem},
    (∀ j, i ≤ j → j < i + left → ¬ (65536 < (structuredGdt j).limit ∧
      (structuredGdt j).limit &&& 0xFFF ≠ 0xFFF)) →
    ∃ m', gdtStructuredLoop gdt structuredGdt left i m = some m' := by
  induction left with
  | zero => exact fun _ => ⟨_, rfl⟩
  | succ left ih =>
    intro i m h
    rw [gdtStructuredLoop, encodeGdtEntry, if_neg (h i (Nat.le_refl i) (by omega))]
    exact ih fun j h1 h2 => h j (by omega) (by omega)

/-- **Descriptors mean the segments they were made from**: one of them, wherever it is written, and
    every one of a table, of any length; nothing is written beside them. -/
theorem gdtStructuredToGdt_describes :
    (∀ (m m' : Mem) (target : Nat) (source : GdtStructured),
        encodeGdtEntry m target source = some m' →
      Describes m' target source ∧ ∀ a, a < target ∨ target + 8 ≤ a → m' a = m a) ∧
    ∀ (m m' : Mem) (gdt : Nat) (structuredGdt : Nat → GdtStructured) (totalEntries : Int),
      gdtStructuredToGdt m gdt structuredGdt totalEntries = some m' →
      (∀ j : Nat, j < totalEntries → Describes m' (gdt + 8 * j) (structuredGdt j)) ∧
      ∀ a, a < gdt ∨ gdt + 8 * totalEntries.toNat ≤ a → m' a = m a := by
  refine ⟨fun m m' target source h => ⟨encodeGdtEntry_spec h, (encodeGdtEntry_eq h).2.2⟩,
    fun m m' gdt structuredGdt totalEntries h => ?_⟩
  obtain ⟨hentry, hother⟩ := gdtStructuredLoop_spec totalEntries.toNat h
  refine ⟨fun j hj => hentry j (Nat.zero_le j) (by omega), fun a ha => hother a (by omega)⟩

/-- **The table of the kernel** is written, wherever the task state segment lies. -/
theorem kernelSegments_written (m : Mem) (gdt : Nat) (tss : UInt32) :
    ∃ m', gdtStructuredToGdt m gdt (fun i => (kernelSegments tss).getD i ⟨0, 0, 0⟩) 6 =
      some m' := by
  refine gdtStructuredLoop_returns 6 fun j _ hj => ?_
  have hwhole : (0xFFFFFFFF : UInt32) &&& 0xFFF = 0xFFF := by decide
  rintro ⟨hlimit, hmask⟩
  interval_cases j
  · exact absurd (show 65536 < (0 : UInt32) from hlimit) (by decide)
  · exact hmask hwhole
  · exact hmask hwhole
  · exact hmask hwhole
  · exact hmask hwhole
  · exact absurd (show 65536 < (100 : UInt32) from hlimit) (by decide)

/-- Its six descriptors, with the task state segment at `0x8000`. -/
theorem gdtStructuredToGdt_describes_kernel : ∃ m',
    gdtStructuredToGdt (fun _ => 0) 0x1000 (fun i => (kernelSegments 0x8000).getD i ⟨0, 0, 0⟩) 6 =
      some m' ∧
    ∀ j : Nat, j < 6 → Describes m' (0x1000 + 8 * j)
        ((kernelSegments 0x8000).getD j ⟨0, 0, 0⟩) := by
  obtain ⟨m', h⟩ := kernelSegments_written (fun _ => 0) 0x1000 0x8000
  obtain ⟨hentry, -⟩ := gdtStructuredToGdt_describes.2 _ _ _ _ _ h
  exact ⟨m', h, fun j hj => hentry j (by omega)⟩

end Table

end PeachKernel
