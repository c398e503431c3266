/-
  File:      PeachKernel/Fs/ByteFiles.lean
  Subject:   What the file layer is for: a table of byte strings with a place in each.

  A volume says which text names which bytes. An open file is its bytes, a place in them, and
  whether the bytes read next are those at the place: a `fseek` that answers 0 moves the driver's
  cluster and not its place, so what is read behind it is not said here. A read never leaves the
  file.

  * `VolumeStep` -- the calls, as they are answered from such a table;
  * `volumeRun_inOrder` -- the reads of one file, whatever is called between them.
-/
import Mathlib.Logic.Function.Basic
import PeachKernel.Fs.File
import PeachKernel.Lib.Simulation

namespace PeachKernel

open CInt

/-! ## 1. A volume of byte strings -/

/-- Which text names which bytes. -/
def Volume : Type := List UInt8 → List UInt8 → Prop

/-- An open file. -/
structure OpenBytes where
  bytes : List UInt8
  pos : Nat
  placed : Bool
  deriving DecidableEq

/-- The file descriptors. -/
abbrev OpenTable : Type := Int → Option OpenBytes

/-- The bytes that a request gets. -/
def OpenBytes.count (f : OpenBytes) (size nmemb : Nat) : Nat :=
  min (size * nmemb) (f.bytes.length - f.pos)

/-- What a seek answers, and the file behind it. A place inside the file is refused. -/
def OpenBytes.seek (f : OpenBytes) (offset whence : Nat) : Int × OpenBytes :=
  if whence = SEEK_SET then
    if offset < f.bytes.length then (-EINVARG, f)
    else (0, { f with pos := 0, placed := offset == 0 })
  else if whence = SEEK_END then (-EUNIMP, f)
  else if whence = SEEK_CUR then
    if u32 ((f.pos : Int) + offset) < f.bytes.length then (-EINVARG, f)
    else (0, { f with placed := f.placed && offset == 0 })
  else (-EINVARG, f)

/-- The least file descriptor that is not open, and below the last slot. -/
structure FirstFree (t : OpenTable) (fd : Int) : Prop where
  pos : 1 ≤ fd
  lt : fd < 512
  free : t fd = none
  least : ∀ fd', 1 ≤ fd' → fd' < fd → t fd' ≠ none

/-- A call of the file layer, with what it answers. -/
inductive FileCall where
  | opens (filename modeStr : List UInt8) (fd : Int)
  | reads (size nmemb : Nat) (fd res : Int) (out : List UInt8)
  | seeks (fd offset : Int) (whence : Nat) (res : Int)
  | stats (fd res : Int) (stat : Option FileStat)
  | closes (fd res : Int)

/-- **The calls on a volume.** -/
inductive VolumeStep (V : Volume) : OpenTable → FileCall → OpenTable → Prop where
  | opens {t : OpenTable} {filename modeStr bytes : List UInt8} {fd : Int}
    (hmode : fileGetModeByString modeStr = .read) (hv : V filename bytes) (hfree : FirstFree t fd) :
    VolumeStep V t (.opens filename modeStr fd) (Function.update t fd (some ⟨bytes, 0, true⟩))
  | refused {t : OpenTable} {filename modeStr : List UInt8}
    (hno : fileGetModeByString modeStr = .read → ∀ bytes, ¬ V filename bytes) :
    VolumeStep V t (.opens filename modeStr 0) t
  | reads {t : OpenTable} {f : OpenBytes} {fd : Int} {size nmemb : Nat} (hfd : t fd = some f)
    (hs : size ≠ 0) (hn : nmemb ≠ 0) (hp : f.placed = true) :
    VolumeStep V t
      (.reads size nmemb fd (i32 ((f.count size nmemb / size : Nat) : Int))
        ((f.bytes.drop f.pos).take (f.count size nmemb)))
      (Function.update t fd (some { f with pos := f.pos + f.count size nmemb }))
  | strays {t : OpenTable} {f : OpenBytes} {fd res : Int} {size nmemb n : Nat} {out : List UInt8}
    (hfd : t fd = some f) (hs : size ≠ 0) (hn : nmemb ≠ 0) (hp : f.placed = false)
    (hle : f.pos + n ≤ f.bytes.length) :
    VolumeStep V t (.reads size nmemb fd res out)
      (Function.update t fd (some { f with pos := f.pos + n }))
  | badRead {t : OpenTable} {fd : Int} {size nmemb : Nat}
    (h : size = 0 ∨ nmemb = 0 ∨ t fd = none) : VolumeStep V t (.reads size nmemb fd (-EINVARG) []) t
  | seeks {t : OpenTable} {f : OpenBytes} {fd offset : Int} {whence : Nat} (hfd : t fd = some f) :
    VolumeStep V t (.seeks fd offset whence (f.seek (u32 offset) whence).1)
      (Function.update t fd (some (f.seek (u32 offset) whence).2))
  | badSeek {t : OpenTable} {fd offset : Int} {whence : Nat} (hfd : t fd = none) :
    VolumeStep V t (.seeks fd offset whence (- EIO)) t
  | stats {t : OpenTable} {f : OpenBytes} {fd : Int} (hfd : t fd = some f) :
    VolumeStep V t (.stats fd 0 (some ⟨FILE_STAT_READ_ONLY, f.bytes.length⟩)) t
  | badStat {t : OpenTable} {fd : Int} (hfd : t fd = none) :
      VolumeStep V t (.stats fd (- EIO) none) t
  | closes {t : OpenTable} {f : OpenBytes} {fd : Int} (hfd : t fd = some f) :
    VolumeStep V t (.closes fd 0) (Function.update t fd none)
  | badClose {t : OpenTable} {fd : Int} (hfd : t fd = none) : VolumeStep V t (.closes fd (- EIO)) t

/-! ## 2. The reads of one file -/

/-- What a call delivers from a file descriptor, and the bytes it asks for. -/
def FileCall.delivered (fd : Int) : FileCall → List UInt8
  | .reads _ _ fd' _ out => if fd' = fd then out else []
  | _ => []

def FileCall.asked (fd : Int) : FileCall → Nat
  | .reads size nmemb fd' _ _ => if fd' = fd then size * nmemb else 0
  | _ => 0

/-- A call that neither seeks in a file nor closes it. -/
def FileCall.Keeps (fd : Int) : FileCall → Prop
  | .seeks fd' _ _ _ => fd' ≠ fd
  | .closes fd' _ => fd' ≠ fd
  | _ => True

section InOrder

variable {V : Volume} {t t' : OpenTable} {fd : Int} {f : OpenBytes}

/-- **One call leaves an open file behind the bytes it delivers from it.** -/
theorem VolumeStep.delivers {c : FileCall} (h : VolumeStep V t c t') (hf : t fd = some f)
    (hp : f.placed = true) (hk : c.Keeps fd) :
    c.delivered fd = (f.bytes.drop f.pos).take (c.asked fd) ∧
      t' fd = some { f with pos := f.pos + min (c.asked fd) (f.bytes.length - f.pos) } := by
  have hsame : t fd = some { f with pos := f.pos + min 0 (f.bytes.length - f.pos) } := by
    rw [Nat.zero_min, Nat.add_zero]
    exact hf
  cases h with
  | opens hmode hv hfree =>
    refine ⟨rfl, ?_⟩
    rw [Function.update_of_ne fun e => ?_]
    · exact hsame
    · rw [e, hfree.free] at hf
      cases hf
  | refused _ => exact ⟨rfl, hsame⟩
  | @reads g fd' size nmemb hfd hs hn hpl =>
    by_cases he : fd' = fd
    · subst he
      obtain rfl := Option.some.inj (hfd.symm.trans hf)
      unfold FileCall.delivered FileCall.asked
      dsimp only
      rw [if_pos rfl, if_pos rfl, Function.update_self]
      refine ⟨?_, rfl⟩
      unfold OpenBytes.count
      rw [← List.length_drop, ← List.take_eq_take_min]
    · unfold FileCall.delivered FileCall.asked
      dsimp only
      rw [if_neg he, if_neg he, Function.update_of_ne (Ne.symm he)]
      exact ⟨rfl, hsame⟩
  | @strays g fd' res size nmemb n out hfd hs hn hpl hle =>
    have he : fd' ≠ fd := by
      rintro rfl
      obtain rfl := Option.some.inj (hfd.symm.trans hf)
      rw [hp] at hpl
      cases hpl
    unfold FileCall.delivered FileCall.asked
    dsimp only
    rw [if_neg he, if_neg he, Function.update_of_ne (Ne.symm he)]
    exact ⟨rfl, hsame⟩
  | @badRead fd' size nmemb hbad =>
    have hasked : (FileCall.reads size nmemb fd' (-EINVARG) []).asked fd = 0 := by
      unfold FileCall.asked
      dsimp only
      split
      · next he =>
        subst he
        rcases hbad with rfl | rfl | hnone
        · exact Nat.zero_mul _
        · exact Nat.mul_zero _
        · rw [hnone] at hf
          cases hf
      · rfl
    rw [hasked]
    refine ⟨?_, hsame⟩
    unfold FileCall.delivered
    dsimp only
    rw [ite_self, List.take_zero]
  | @seeks g fd' offset whence hfd =>
    rw [Function.update_of_ne (Ne.symm hk)]
    exact ⟨rfl, hsame⟩
  | badSeek _ => exact ⟨rfl, hsame⟩
  | stats _ => exact ⟨rfl, hsame⟩
  | badStat _ => exact ⟨rfl, hsame⟩
  | @closes g fd' hfd =>
    rw [Function.update_of_ne (Ne.symm hk)]
    exact ⟨rfl, hsame⟩
  | badClose _ => exact ⟨rfl, hsame⟩

/-- **The reads of one file deliver it in order**, as long as no call seeks in it or closes it. -/
theorem volumeRun_inOrder {calls : List FileCall} (h : LabelledRun (VolumeStep V) t calls t') :
    ∀ {f : OpenBytes}, t fd = some f → f.placed = true → (∀ c ∈ calls, c.Keeps fd) →
      calls.flatMap (FileCall.delivered fd) =
        (f.bytes.drop f.pos).take (calls.map (FileCall.asked fd)).sum ∧
      t' fd = some { f with
        pos := f.pos + min (calls.map (FileCall.asked fd)).sum (f.bytes.length - f.pos) } := by
  induction h with
  | nil t =>
    intro f hf _ _
    refine ⟨rfl, ?_⟩
    rw [List.map_nil, List.sum_nil, Nat.zero_min, Nat.add_zero]
    exact hf
  | @cons t t₁ t₂ c calls hs hr ih =>
    intro f hf hp hk
    obtain ⟨hout, hf₁⟩ := hs.delivers hf hp (hk c List.mem_cons_self)
    obtain ⟨houts, hf₂⟩ := ih hf₁ hp fun c' hc => hk c' (List.mem_cons_of_mem _ hc)
    dsimp only at houts hf₂
    rw [List.flatMap_cons, List.map_cons, List.sum_cons, hout, houts]
    constructor
    · rw [List.take_add, ← List.drop_drop, ← List.length_drop, ← List.drop_eq_drop_min]
    · have e : ∀ a b n p : Nat, p + min a (n - p) + min b (n - (p + min a (n - p))) =
          p + min (a + b) (n - p) := by omega
      rw [hf₂, e]

end InOrder

end PeachKernel
