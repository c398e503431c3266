/-
  File:      PeachKernel/Lib/Extents.lean
  Subject:   Extents of a linear space, layouts of pairwise apart extents, and runs of a predicate.

  An allocator of a linear space `0 .. n-1` hands out EXTENTS (a start and a length). What it may
  hold at one time is a LAYOUT: non-empty extents inside the space, no two of which share a cell.

  * `Extent`, `Extent.Has`, `Extent.Apart` -- the extent, its cells, and two extents apart;
  * `Layout` -- the invariant of a list of extents, with its rules: an extent apart from all others
    may be added (`Layout.cons`), extents may be dropped (`Layout.sublist`), the order is
    irrelevant (`Layout.perm`);
  * `IsRun`, `HasRun`, `FirstRun`, `TailRun` -- runs of consecutive cells on which a predicate
    holds: some run of a length, the lowest one, and the maximal run that ends the space.
-/
import Mathlib.Data.List.Pairwise
import Mathlib.Data.List.Perm.Basic
import Mathlib.Data.List.Nodup
import Mathlib.Order.Basic

/-! ## 1. Extents -/

/-- `len` consecutive cells from `start`. -/
structure Extent where
  start : Nat
  len : Nat
  deriving DecidableEq, Repr

namespace Extent

/-- The cell `i` belongs to the extent. -/
def Has (a : Extent) (i : Nat) : Prop := a.start ≤ i ∧ i < a.start + a.len

instance (a : Extent) (i : Nat) : Decidable (a.Has i) :=
  inferInstanceAs (Decidable (_ ∧ _))

/-- `Has` for an index that may lie outside the space. -/
def HasInt (a : Extent) (j : Int) : Prop := (a.start : Int) ≤ j ∧ j < a.start + a.len

instance (a : Extent) (j : Int) : Decidable (a.HasInt j) :=
  inferInstanceAs (Decidable (_ ∧ _))

theorem not_hasInt_neg (a : Extent) {j : Int} (hj : j < 0) : ¬ a.HasInt j := by
  unfold HasInt
  omega

@[simp] theorem hasInt_natCast (a : Extent) (i : Nat) : a.HasInt (i : Int) ↔ a.Has i := by
  unfold HasInt Has
  omega

/-- Two extents without a common cell. -/
def Apart (a b : Extent) : Prop := a.start + a.len ≤ b.start ∨ b.start + b.len ≤ a.start

theorem Apart.symm {a b : Extent} (h : a.Apart b) : b.Apart a := Or.symm h

instance : Std.Symm Extent.Apart := ⟨fun _ _ h => h.symm⟩

theorem Apart.not_has {a b : Extent} (h : a.Apart b) {i : Nat} (ha : a.Has i) : ¬ b.Has i := by
  intro hb
  unfold Apart at h
  unfold Has at ha hb
  omega

/-- Extents whose cells are disjoint are apart (both non-empty). -/
theorem apart_of_disjoint {a b : Extent} (ha : 0 < a.len) (hb : 0 < b.len)
    (h : ∀ i, a.Has i → ¬ b.Has i) : a.Apart b := by
  unfold Apart
  by_cases h1 : a.start ≤ b.start
  · have h2 := h b.start
    unfold Has at h2
    omega
  · have h2 := h a.start
    unfold Has at h2
    omega

theorem not_apart_self {a : Extent} (ha : 0 < a.len) : ¬ a.Apart a := by
  unfold Apart
  omega

end Extent

/-! ## 2. Layouts -/

/-- **A layout of `0 .. n-1`**: non-empty extents inside the space, pairwise apart. -/
structure Layout (n : Nat) (L : List Extent) : Prop where
  pos : ∀ a ∈ L, 0 < a.len
  inside : ∀ a ∈ L, a.start + a.len ≤ n
  apart : L.Pairwise Extent.Apart

namespace Layout

variable {n : Nat} {L : List Extent}

theorem nil (n : Nat) : Layout n [] where
  pos _ h := absurd h List.not_mem_nil
  inside _ h := absurd h List.not_mem_nil
  apart := .nil

/-- An extent apart from every extent of the layout may be added. -/
theorem cons (h : Layout n L) {a : Extent} (hp : 0 < a.len) (hi : a.start + a.len ≤ n)
    (ha : ∀ b ∈ L, a.Apart b) : Layout n (a :: L) where
  pos b hb := by
    rcases List.mem_cons.mp hb with rfl | hb
    · exact hp
    · exact h.pos b hb
  inside b hb := by
    rcases List.mem_cons.mp hb with rfl | hb
    · exact hi
    · exact h.inside b hb
  apart := List.pairwise_cons.mpr ⟨ha, h.apart⟩

theorem sublist (h : Layout n L) {L' : List Extent} (hs : L'.Sublist L) : Layout n L' where
  pos a ha := h.pos a (hs.subset ha)
  inside a ha := h.inside a (hs.subset ha)
  apart := h.apart.sublist hs

theorem perm (h : Layout n L) {L' : List Extent} (hp : L'.Perm L) : Layout n L' where
  pos a ha := h.pos a (hp.subset ha)
  inside a ha := h.inside a (hp.subset ha)
  apart := (hp.pairwise_iff Extent.Apart.symm).mpr h.apart

/-- Two different extents of a layout are apart. -/
theorem apart_of_ne (h : Layout n L) {a b : Extent} (ha : a ∈ L) (hb : b ∈ L) (hne : a ≠ b) :
    a.Apart b :=
  h.apart.forall ha hb hne

theorem nodup (h : Layout n L) : L.Nodup := by
  refine h.apart.imp_of_mem fun {a b} ha _ hab e => ?_
  subst e
  exact Extent.not_apart_self (h.pos a ha) hab

end Layout

/-! ## 3. Runs of a predicate -/

/-- The predicate holds on the `n` cells from `s`. -/
def IsRun (p : Nat → Prop) (s n : Nat) : Prop := ∀ i, s ≤ i → i < s + n → p i

/-- Some run of `n` cells inside `0 .. total-1`. -/
def HasRun (p : Nat → Prop) (total n : Nat) : Prop := ∃ s, s + n ≤ total ∧ IsRun p s n

/-- `s` starts the lowest run of `n` cells inside `0 .. total-1`. -/
def FirstRun (p : Nat → Prop) (total n s : Nat) : Prop :=
  s + n ≤ total ∧ IsRun p s n ∧ ∀ s', s' + n ≤ total → IsRun p s' n → s ≤ s'

/-- `s` starts the maximal run that ends the space, and this run is not empty. -/
def TailRun (p : Nat → Prop) (total s : Nat) : Prop :=
  s < total ∧ IsRun p s (total - s) ∧ (s = 0 ∨ ¬ p (s - 1))

theorem TailRun.last {p : Nat → Prop} {total s : Nat} (h : TailRun p total s) : p (total - 1) := by
  obtain ⟨hs, hr, -⟩ := h
  exact hr (total - 1) (by omega) (by omega)
