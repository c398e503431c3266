/-
  File:      PeachKernel/Disk/Requests.lean
  Subject:   A whole `diskstreamer_read`: it comes back, and which sectors it asks for.

  A call fetches one sector, copies out of it, and calls itself where the range does not end inside
  that sector. The test for this is `offset + total >= 512`, which holds for a range that ends with
  its sector, too: then the last call has nothing left to read and still fetches the sector behind.

  * `StreamCall` -- a call that comes back, with its calls of itself; `streamCall_iff` -- every call
    does, and `diskstreamerRead` is what it leaves;
  * `diskstreamerRead_delivers` -- the bytes of the range, in one read or in two;
  * `streamRead_sectors` -- the sectors of a read, one after the other;
  * `diskstreamerRead_needed_iff` -- when every one of them has a byte of the range.
-/
import PeachKernel.Disk.Streamer

namespace PeachKernel

open CInt

/-! ## 1. Calls -/

/-- How much of the range the first call takes: `total_to_read`. -/
def firstPiece (pos total : Int) : Int :=
  if 512 ≤ pos.tmod 512 + total then total - (pos.tmod 512 + total - 512) else total

/-- The bytes that a call writes itself. -/
def pieceOut (d : Disk) (pos total : Int) : List UInt8 :=
  (List.range (firstPiece pos total).toNat).map fun i : Nat =>
    diskReadBlock d (u32 (pos.tdiv 512)) (pos.tmod 512 + i)

/-- **A call of `diskstreamer_read` comes back** with the status `res`, having left `r`: its range
    ends inside the sector, or behind it, and then the call for the rest has come back. The status
    is that of `disk_read_block`, 0 for every sector. -/
inductive StreamCall (d : Disk) : (pos total res : Int) → (r : StreamRead) → Prop where
  | inside {pos total : Int} (h : ¬ 512 ≤ pos.tmod 512 + total) :
    StreamCall d pos total 0
      ⟨pieceOut d pos total, i32 (pos + firstPiece pos total), [u32 (pos.tdiv 512)]⟩
  | across {pos total res : Int} {rest : StreamRead} (h : 512 ≤ pos.tmod 512 + total)
    (hrest : StreamCall d (i32 (pos + firstPiece pos total))
        (total - firstPiece pos total) res rest) :
    StreamCall d pos total res
      ⟨pieceOut d pos total ++ rest.out, rest.pos, u32 (pos.tdiv 512) :: rest.sectors⟩

section Calls

variable {d : Disk}

/-- A call that goes on takes at least one byte. -/
theorem firstPiece_pos {pos total : Int} (h : 512 ≤ pos.tmod 512 + total) :
    1 ≤ firstPiece pos total ∧ firstPiece pos total ≤ total := by
  have hoffset : pos.tmod 512 < 512 := Int.tmod_lt_of_pos pos (by decide)
  unfold firstPiece
  rw [if_pos h]
  omega

/-- **Every call comes back**, however deep: induction on the number of calls. -/
theorem streamCall_streamRead (fuel : Nat) : ∀ {pos total : Int}, total.toNat < fuel →
    StreamCall d pos total 0 (streamRead d fuel pos total) := by
  induction fuel with
  | zero => exact fun h => absurd h (Nat.not_lt_zero _)
  | succ fuel ih =>
    intro pos total h
    by_cases ho : 512 ≤ pos.tmod 512 + total
    · have hpos := firstPiece_pos ho
      have hrest := @ih (i32 (pos + firstPiece pos total)) (total - firstPiece pos total) (by omega)
      have hcall := StreamCall.across ho hrest
      unfold streamRead
      unfold firstPiece pieceOut firstPiece at hcall
      simp only [if_pos ho] at hcall ⊢
      exact hcall
    · have hcall := StreamCall.inside (d := d) ho
      unfold streamRead
      unfold firstPiece pieceOut firstPiece at hcall
      simp only [if_neg ho] at hcall ⊢
      exact hcall

/-- What a call leaves is determined: induction on its calls of itself. -/
theorem StreamCall.unique {pos total res : Int} {r : StreamRead}
    (h : StreamCall d pos total res r) :
    ∀ {res' : Int} {r' : StreamRead}, StreamCall d pos total res' r' → res' = res ∧ r' = r := by
  induction h with
  | inside ho =>
    intro res' r' h'
    cases h' with
    | inside => exact ⟨rfl, rfl⟩
    | across ho' => exact absurd ho' ho
  | across ho _ ih =>
    intro res' r' h'
    cases h' with
    | inside ho' => exact absurd ho ho'
    | across _ hrest' =>
      obtain ⟨rfl, rfl⟩ := ih hrest'
      exact ⟨rfl, rfl⟩

/-- **A call comes back with 0**, and leaves what `diskstreamerRead` says. -/
theorem streamCall_iff {pos total res : Int} {r : StreamRead} :
    StreamCall d pos total res r ↔ res = 0 ∧ r = diskstreamerRead d pos total := by
  have hcall : StreamCall d pos total 0 (diskstreamerRead d pos total) :=
    streamCall_streamRead _ (Nat.lt_succ_self _)
  constructor
  · exact fun h => hcall.unique h
  · rintro ⟨rfl, rfl⟩
    exact hcall

end Calls

/-- **A read delivers the range**: it comes back with 0, the bytes of the disk from `p` on are
    written, `n` of them, and the stream stands behind them; two reads one after the other write the
    same. -/
theorem diskstreamerRead_delivers (d : Disk) (p n : Nat) (h : p + n < 2147483648) :
    ∃ r, (∀ res r', StreamCall d p n res r' ↔ res = 0 ∧ r' = r) ∧
      r.out = slice d.byte p n ∧ r.pos = ((p + n : Nat) : Int) ∧
      ∀ a b : Nat, a + b = n → ∃ r₁ r₂, StreamCall d p a 0 r₁ ∧ StreamCall d r₁.pos b 0 r₂ ∧
        r₁.out ++ r₂.out = r.out ∧ r₂.pos = r.pos := by
  obtain ⟨hout, hpos⟩ := diskstreamerRead_spec d h
  refine ⟨diskstreamerRead d p n, fun res r' => streamCall_iff, hout, hpos, fun a b hab => ?_⟩
  obtain ⟨hout₁, hpos₁⟩ := diskstreamerRead_spec d (p := p) (n := a) (by omega)
  obtain ⟨hout₂, hpos₂⟩ := diskstreamerRead_spec d (p := p + a) (n := b) (by omega)
  refine ⟨diskstreamerRead d p a, diskstreamerRead d ((p + a : Nat) : Int) b,
    streamCall_iff.mpr ⟨rfl, rfl⟩, ?_, ?_, ?_⟩
  · rw [hpos₁]
    exact streamCall_iff.mpr ⟨rfl, rfl⟩
  · rw [hout₁, hout₂, hout, slice_append, hab]
  · rw [hpos₂, hpos, ← hab, Nat.add_assoc]

/-- Two bytes of the first sector and one of the second. -/
theorem diskstreamerRead_delivers_three :
    ∃ r, (∀ res r', StreamCall ⟨fun i => UInt8.ofNat i, fun _ => 0⟩ (510 : Nat) (3 : Nat) res r' ↔
        res = 0 ∧ r' = r) ∧
      r.out = [254, 255, 0] ∧ r.pos = 513 := by
  obtain ⟨r, hcalls, hout, hpos, -⟩ :=
    diskstreamerRead_delivers ⟨fun i => UInt8.ofNat i, fun _ => 0⟩ 510 3 (by decide)
  exact ⟨r, hcalls, hout, hpos⟩

/-! ## 2. Sectors -/

/-- **Every sector that is asked for has a byte of the range**, and none is asked for twice: they
    come in increasing order. -/
def SectorsNeeded (p n : Nat) (sectors : List Nat) : Prop :=
  (∀ sector ∈ sectors, ∃ byte, p ≤ byte ∧ byte < p + n ∧ byte / 512 = sector) ∧
    sectors.Pairwise (· < ·)

/-- **The sectors of a read** are those from the one of its position up to the one where it ends,
    the last one with nothing to read where that is a boundary. Induction on the calls. -/
theorem streamRead_sectors (d : Disk) (fuel : Nat) : ∀ {p n : Nat}, n < fuel → p + n < 2147483648 →
    (streamRead d fuel p n).sectors = List.range' (p / 512) ((p % 512 + n) / 512 + 1) := by
  induction fuel with
  | zero => exact fun h => absurd h (Nat.not_lt_zero _)
  | succ fuel ih =>
    intro p n hn hp
    have eo : (p : Int).tmod 512 = ((p % 512 : Nat) : Int) := rfl
    have es : u32 ((p : Int).tdiv 512) = p / 512 := by
      rw [show (p : Int).tdiv 512 = ((p / 512 : Nat) : Int) from rfl, u32_natCast_of_lt (by omega)]
    unfold streamRead
    dsimp only
    by_cases ho : 512 ≤ p % 512 + n
    · have ho' : (512 : Int) ≤ (p : Int).tmod 512 + n := by
        rw [eo]
        omega
      obtain ⟨m, hm⟩ : ∃ m, m + p % 512 = 512 := ⟨512 - p % 512, by omega⟩
      have em : (n : Int) - ((p : Int).tmod 512 + n - 512) = (m : Int) := by
        rw [eo]
        omega
      have er : (n : Int) - m = ((n - m : Nat) : Int) := by omega
      have ep : i32 ((p : Int) + m) = ((p + m : Nat) : Int) := i32_add_of_lt (by omega)
      rw [if_pos ho', if_pos ho', em, er, ep, es, ih (by omega) (by omega)]
      have e1 : (p + m) / 512 = p / 512 + 1 := by omega
      have e2 : ((p + m) % 512 + (n - m)) / 512 + 1 = (p % 512 + n) / 512 := by omega
      rw [e1, e2, List.range'_succ]
    · have ho' : ¬ (512 : Int) ≤ (p : Int).tmod 512 + n := by
        rw [eo]
        omega
      have e : (p % 512 + n) / 512 = 0 := by omega
      rw [if_neg ho', es, e]
      rfl

/-- The sector that is asked for at the position `INT_MIN`. -/
def wrappedSector : Nat := 4290772992

/-- **A range that ends behind the last `int`**: the position wraps at a boundary, and the call
    behind it asks for a sector far away. Induction on the calls up to there. -/
theorem streamRead_wraps (d : Disk) (fuel : Nat) : ∀ {p n : Nat}, n < fuel → p < 2147483648 →
    2147483648 ≤ p + n → wrappedSector ∈ (streamRead d fuel p n).sectors := by
  induction fuel with
  | zero => exact fun h => absurd h (Nat.not_lt_zero _)
  | succ fuel ih =>
    intro p n hn hp hwrap
    have eo : (p : Int).tmod 512 = ((p % 512 : Nat) : Int) := rfl
    have ho' : (512 : Int) ≤ (p : Int).tmod 512 + n := by
      rw [eo]
      omega
    obtain ⟨m, hm⟩ : ∃ m, m + p % 512 = 512 := ⟨512 - p % 512, by omega⟩
    have em : (n : Int) - ((p : Int).tmod 512 + n - 512) = (m : Int) := by
      rw [eo]
      omega
    have er : (n : Int) - m = ((n - m : Nat) : Int) := by omega
    unfold streamRead
    dsimp only
    rw [if_pos ho', if_pos ho', em, er]
    refine List.mem_cons_of_mem _ ?_
    by_cases hend : p + m < 2147483648
    · rw [show i32 ((p : Int) + m) = ((p + m : Nat) : Int) from i32_add_of_lt hend]
      exact ih (by omega) hend (by omega)
    · -- the rest of the range starts at `INT_MIN`
      have ep : i32 ((p : Int) + m) = -2147483648 := by
        have : (p : Int) + m = 2147483648 := by omega
        rw [this]
        rfl
      obtain ⟨fuel, rfl⟩ : ∃ left, fuel = left + 1 := ⟨fuel - 1, by omega⟩
      rw [ep]
      unfold streamRead
      dsimp only
      split
      · exact List.mem_cons_self
      · exact List.mem_cons_self

/-- **A read asks only for sectors of its range exactly when** the range is not empty, does not end
    at a boundary, and ends where an `int` can stand. (`offset + total` is an `int`, too.) -/
theorem diskstreamerRead_needed_iff (d : Disk) {p n : Nat} (hp : p < 2147483648)
    (hn : p % 512 + n < 2147483648) :
    SectorsNeeded p n (diskstreamerRead d p n).sectors ↔
      n ≠ 0 ∧ (p + n) % 512 ≠ 0 ∧ p + n < 2147483648 := by
  have hread : diskstreamerRead d p n = streamRead d (n + 1) p n := by
    unfold diskstreamerRead
    rw [Int.toNat_natCast]
  rw [hread]
  by_cases hend : p + n < 2147483648
  · rw [streamRead_sectors d (n + 1) (Nat.lt_succ_self n) hend]
    constructor
    · rintro ⟨hbyte, -⟩
      -- the last sector, where the range ends
      have hlast : p / 512 + (p % 512 + n) / 512 ∈
          List.range' (p / 512) ((p % 512 + n) / 512 + 1) := by
        rw [List.mem_range'_1]
        omega
      obtain ⟨byte, h1, h2, h3⟩ := hbyte _ hlast
      omega
    · rintro ⟨h0, hb, -⟩
      refine ⟨fun sector hs => ?_, ?_⟩
      · rw [List.mem_range'_1] at hs
        by_cases hfirst : sector = p / 512
        · exact ⟨p, by omega, by omega, by omega⟩
        · exact ⟨sector * 512, by omega, by omega, by omega⟩
      · exact List.pairwise_lt_range'
  · constructor
    · rintro ⟨hbyte, -⟩
      obtain ⟨byte, h1, h2, h3⟩ := hbyte _
        (streamRead_wraps d (n + 1) (Nat.lt_succ_self n) hp (by omega))
      unfold wrappedSector at h3
      omega
    · exact fun h => absurd h.2.2 hend

/-- Three bytes across a boundary. -/
theorem diskstreamerRead_needed_iff_three : SectorsNeeded 510 3
    (diskstreamerRead ⟨fun _ => 0, fun _ => 0⟩ (510 : Nat) (3 : Nat)).sectors :=
  (diskstreamerRead_needed_iff _ (by decide) (by decide)).mpr (by decide)

/-- **A read of one whole sector** asks for the next one, too. -/
theorem diskstreamerRead_next_sector :
    ¬ ∀ (d : Disk) (p n : Nat), p + n < 2147483648 →
      SectorsNeeded p n (diskstreamerRead d p n).sectors := by
  intro h
  have hneeded := h ⟨fun _ => 0, fun _ => 0⟩ 0 512 (by decide)
  obtain ⟨byte, -, h2, h3⟩ := hneeded.1 1 (by decide)
  omega

end PeachKernel
