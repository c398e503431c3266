/-
  File:      PeachKernel/Disk/Streamer.lean
  Subject:   The byte stream over the disk, `disk/streamer.c`.

  A stream is a position (`int`). A read fetches the sector of the position into a 512-byte buffer,
  copies out of it, and calls itself for what lies behind the sector. C divides towards zero, so a
  negative position gives a negative offset into the buffer: such a read finds bytes that do not
  belong to the buffer (`Disk.beside`).

  * `diskReadBlock` -- `disk_read_block` for one sector; it fills the buffer with that sector;
  * `diskstreamerRead` -- `diskstreamer_read`: the bytes written, the position left behind and the
    sectors asked for. It answers 0 always, as `disk_read_block` does for the kernel's only disk;
  * `diskstreamerRead_spec` -- a read at a position that fits an `int` delivers the disk's bytes.
-/
import PeachKernel.Lib.CInt
import PeachKernel.Lib.Slice

namespace PeachKernel

open CInt

/-! ## 1. The source functions -/

/-- The disk: its bytes, and what stands before and behind the sector buffer on the stack. -/
structure Disk where
  byte : Nat → UInt8
  beside : Int → UInt8

/-- `disk_read_block(disk, lba, 1, buf)`: what `buf[i]` is afterwards. -/
def diskReadBlock (d : Disk) (lba : Nat) (i : Int) : UInt8 :=
  if 0 ≤ i ∧ i < 512 then d.byte (lba * 512 + i.toNat) else d.beside i

/-- What a read leaves: the bytes written to `out`, `stream->pos`, and the sectors requested. -/
structure StreamRead where
  out : List UInt8
  pos : Int
  sectors : List Nat
  deriving DecidableEq

/-- The recursion of `diskstreamer_read`, at most `fuel` calls deep. -/
def streamRead (d : Disk) : (fuel : Nat) → (pos total : Int) → StreamRead
  | 0, pos, _ => ⟨[], pos, []⟩
  | fuel + 1, pos, total =>
    let sector := pos.tdiv 512
    let offset := pos.tmod 512
    let overflow := 512 ≤ offset + total
    let totalToRead := if overflow then total - (offset + total - 512) else total
    let buf := diskReadBlock d (u32 sector)
    let out := (List.range totalToRead.toNat).map fun i : Nat => buf (offset + i)
    let pos := i32 (pos + totalToRead)
    if overflow then
      let rest := streamRead d fuel pos (total - totalToRead)
      ⟨out ++ rest.out, rest.pos, u32 sector :: rest.sectors⟩
    else ⟨out, pos, [u32 sector]⟩

/-- `diskstreamer_read` for a stream at `pos`. Every call but the last takes at least one byte, so
    `total + 1` calls are enough. -/
def diskstreamerRead (d : Disk) (pos total : Int) : StreamRead :=
  streamRead d (total.toNat + 1) pos total

/-- The bytes that `diskstreamer_seek` to `pos` and then `diskstreamer_read` write. -/
def readAt (d : Disk) (pos total : Int) : List UInt8 := (diskstreamerRead d pos total).out

/-- The same for the file systems, which hand `uint32_t` values to these `int` parameters. -/
def seekRead (d : Disk) (pos total : Nat) : List UInt8 := readAt d (i32 pos) (i32 total)

/-! ## 2. What a read delivers -/

/-- The bytes of one sector, from an offset inside it. -/
theorem sector_slice (d : Disk) {p n : Nat} (h : p % 512 + n ≤ 512) (hp : p < 2147483648) :
    (List.range n).map (fun i : Nat => diskReadBlock d (u32 ((p : Int).tdiv 512))
      ((p : Int).tmod 512 + i)) = slice d.byte p n := by
  refine List.map_congr_left fun i hi => ?_
  have hi := List.mem_range.mp hi
  have e1 : (p : Int).tdiv 512 = ((p / 512 : Nat) : Int) := rfl
  have e2 : (p : Int).tmod 512 + i = ((p % 512 + i : Nat) : Int) := rfl
  have e3 : p / 512 * 512 + (p % 512 + i) = p + i := by omega
  rw [e1, e2, u32_natCast_of_lt (by omega)]
  unfold diskReadBlock
  rw [if_pos (by omega), Int.toNat_natCast, e3]

theorem streamRead_spec (d : Disk) (fuel : Nat) : ∀ (p n : Nat), n < fuel → p + n < 2147483648 →
    (streamRead d fuel p n).out = slice d.byte p n ∧
      (streamRead d fuel p n).pos = ((p + n : Nat) : Int) := by
  induction fuel with
  | zero =>
    intro p n h
    omega
  | succ fuel ih =>
    intro p n hn hp
    have eo : (p : Int).tmod 512 = ((p % 512 : Nat) : Int) := rfl
    unfold streamRead
    dsimp only
    by_cases ho : 512 ≤ p % 512 + n
    · -- the sector ends inside the range: its rest, and the rest of the range
      have ho' : (512 : Int) ≤ (p : Int).tmod 512 + n := by
        rw [eo]
        omega
      obtain ⟨m, hm⟩ : ∃ m, m + p % 512 = 512 := ⟨512 - p % 512, by omega⟩
      have em : (n : Int) - ((p : Int).tmod 512 + n - 512) = (m : Int) := by
        rw [eo]
        omega
      have er : (n : Int) - m = ((n - m : Nat) : Int) := by omega
      have ep : i32 ((p : Int) + m) = ((p + m : Nat) : Int) := i32_add_of_lt (by omega)
      have hr := ih (p + m) (n - m) (by omega) (by omega)
      have es := sector_slice d (p := p) (n := m) (by omega) (by omega)
      rw [if_pos ho', if_pos ho', em, er, ep, Int.toNat_natCast, es, hr.1, hr.2, slice_append]
      have e : m + (n - m) = n := by omega
      have e' : p + m + (n - m) = p + n := by omega
      rw [e, e']
      exact ⟨rfl, rfl⟩
    · have ho' : ¬ (512 : Int) ≤ (p : Int).tmod 512 + n := by
        rw [eo]
        omega
      have es := sector_slice d (p := p) (n := n) (by omega) (by omega)
      rw [if_neg ho', if_neg ho', Int.toNat_natCast, es, i32_add_of_lt hp]
      exact ⟨rfl, rfl⟩

/-- **A read delivers the bytes at its position** and leaves the stream behind them. -/
theorem diskstreamerRead_spec (d : Disk) {p n : Nat} (h : p + n < 2147483648) :
    (diskstreamerRead d p n).out = slice d.byte p n ∧
      (diskstreamerRead d p n).pos = ((p + n : Nat) : Int) := by
  unfold diskstreamerRead
  rw [Int.toNat_natCast]
  exact streamRead_spec d (n + 1) p n (Nat.lt_succ_self n) h

/-- The bytes at a position that an `int` holds. -/
theorem readAt_eq (d : Disk) {p n : Nat} (h : p + n < 2147483648) :
    readAt d p n = slice d.byte p n :=
  (diskstreamerRead_spec d h).1

theorem seekRead_eq (d : Disk) {p n : Nat} (h : p + n < 2147483648) :
    seekRead d p n = slice d.byte p n := by
  have ep : i32 (p : Int) = p := i32_natCast_of_lt (by omega)
  have en : i32 (n : Int) = n := i32_natCast_of_lt (by omega)
  unfold seekRead
  rw [ep, en, readAt_eq d h]

theorem readAt_zero (d : Disk) (pos : Int) : readAt d pos 0 = [] := by
  have hm : pos.tmod 512 < 512 := Int.tmod_lt_of_pos _ (by decide)
  have ho : ¬ (512 : Int) ≤ pos.tmod 512 + 0 := by omega
  show (streamRead d 1 pos 0).out = []
  simp only [streamRead, if_neg ho]
  rfl

/-- A read of 0 bytes delivers none, wherever the stream stands. -/
theorem seekRead_zero (d : Disk) (p : Nat) : seekRead d p 0 = [] := by
  have e : i32 ((0 : Nat) : Int) = 0 := i32_natCast_of_lt (by decide)
  unfold seekRead
  rw [e]
  exact readAt_zero d _

/-- A read delivers as many bytes as were asked for, wherever it starts: every call but the last
    takes at least one. -/
theorem streamRead_length (d : Disk) (fuel : Nat) :
    ∀ (pos total : Int), total.toNat < fuel →
    (streamRead d fuel pos total).out.length = total.toNat := by
  induction fuel with
  | zero => exact fun _ _ h => absurd h (Nat.not_lt_zero _)
  | succ fuel ih =>
    intro pos total h
    have hoffset : pos.tmod 512 < 512 := Int.tmod_lt_of_pos pos (by decide)
    unfold streamRead
    dsimp only
    by_cases ho : 512 ≤ pos.tmod 512 + total
    · simp only [if_pos ho]
      rw [List.length_append, List.length_map, List.length_range, ih _ _ (by omega)]
      omega
    · simp only [if_neg ho]
      rw [List.length_map, List.length_range]

theorem readAt_length (d : Disk) (pos total : Int) : (readAt d pos total).length = total.toNat :=
  streamRead_length d _ pos total (Nat.lt_succ_self _)

theorem seekRead_length (d : Disk) (pos n : Nat) : (seekRead d pos n).length ≤ n := by
  have hi : (i32 n).toNat ≤ n := by
    unfold i32
    omega
  unfold seekRead
  rw [readAt_length]
  exact hi

/-- ... as long as the number is an `int`. -/
theorem seekRead_length_of_lt (d : Disk) (pos : Nat) {n : Nat} (hn : n < 2147483648) :
    (seekRead d pos n).length = n := by
  unfold seekRead
  rw [readAt_length, i32_natCast_of_lt hn, Int.toNat_natCast]

/-- Wherever a read starts, it leaves the stream as many bytes further. -/
theorem streamRead_pos (d : Disk) (fuel : Nat) :
    ∀ (pos total : Int), 0 ≤ total → total.toNat < fuel →
    (streamRead d fuel pos total).pos = i32 (pos + total) := by
  induction fuel with
  | zero => exact fun _ _ _ h => absurd h (Nat.not_lt_zero _)
  | succ fuel ih =>
    intro pos total h0 h
    have hoffset : pos.tmod 512 < 512 := Int.tmod_lt_of_pos pos (by decide)
    unfold streamRead
    dsimp only
    by_cases ho : 512 ≤ pos.tmod 512 + total
    · simp only [if_pos ho]
      rw [ih _ _ (by omega) (by omega), i32_i32_add]
      congr 1
      omega
    · simp only [if_neg ho]

theorem diskstreamerRead_pos (d : Disk) (pos : Int) (n : Nat) :
    (diskstreamerRead d pos n).pos = i32 (pos + n) :=
  streamRead_pos d _ pos n (Int.natCast_nonneg n) (Nat.lt_succ_self _)

end PeachKernel
