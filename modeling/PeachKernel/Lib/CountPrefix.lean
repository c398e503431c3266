/-
  File:      PeachKernel/Lib/CountPrefix.lean
  Subject:   A sequence that is counted in one pass and indexed with the count in another.

  Of the elements before an end, those with a property are counted. A second pass that takes the
  count for the number of elements sees the first so many, with the property or without.

  * `EndsAt` -- the first element that ends the sequence;
  * `prefix_iff` -- the second pass sees only elements with the property exactly when none without
    it stands before one with it;
  * `prefix_all` -- and then it sees all of them;
  * `count_behind_iff` -- the count exceeds a place where the sequence should end by as many
    elements as stand behind the place, less those that were passed over before it.
-/
import Mathlib.Data.Nat.Count

variable {p stop : Nat → Prop}

/-- `n` is the first element that ends the sequence. -/
def EndsAt (stop : Nat → Prop) (n : Nat) : Prop := stop n ∧ ∀ i < n, ¬ stop i

theorem EndsAt.unique {n m : Nat} (hn : EndsAt stop n) (hm : EndsAt stop m) : n = m := by
  rcases Nat.lt_trichotomy n m with h | h | h
  · exact absurd hn.1 (hm.2 n h)
  · exact h
  · exact absurd hm.1 (hn.2 m h)

theorem endsAt_zero : EndsAt stop 0 ↔ stop 0 :=
  ⟨fun h => h.1, fun h => ⟨h, fun i hi => absurd hi (Nat.not_lt_zero i)⟩⟩

theorem endsAt_succ {n : Nat} :
    EndsAt stop (n + 1) ↔ ¬ stop 0 ∧ EndsAt (fun i => stop (i + 1)) n := by
  constructor
  · exact fun h => ⟨h.2 0 (Nat.succ_pos n), h.1, fun i hi => h.2 (i + 1) (Nat.succ_lt_succ hi)⟩
  · rintro ⟨h0, h, hbefore⟩
    refine ⟨h, fun i hi => ?_⟩
    cases i with
    | zero => exact h0
    | succ i => exact hbefore i (Nat.lt_of_succ_lt_succ hi)

variable [DecidablePred p] {n : Nat}

/-- The count is a matter of the elements that are passed. -/
theorem count_congr {q : Nat → Prop} [DecidablePred q] (h : ∀ i < n, p i ↔ q i) :
    Nat.count p n = Nat.count q n :=
  Nat.le_antisymm (Nat.count_mono_left fun i hi => (h i hi).mp)
    (Nat.count_mono_left fun i hi => (h i hi).mpr)

/-- Every element with the property lies in the prefix, where the prefix has no others. -/
theorem prefix_all (h : ∀ i < Nat.count p n, p i) {j : Nat} (hj : j < n) (hp : p j) :
    j < Nat.count p n := by
  by_contra hge
  have hall : Nat.count p (Nat.count p n) = Nat.count p n := Nat.count_iff_forall.mpr h
  have hmono : Nat.count p (Nat.count p n) ≤ Nat.count p j :=
    Nat.count_monotone p (Nat.not_lt.mp hge)
  have hle : Nat.count p (j + 1) ≤ Nat.count p n := Nat.count_monotone p hj
  rw [Nat.count_succ, if_pos hp] at hle
  omega

/-- **The prefix has only elements with the property** exactly when these stand before all
    others. -/
theorem prefix_iff : (∀ i < Nat.count p n, p i) ↔ ∀ j < n, p j → ∀ i < j, p i := by
  constructor
  · intro h j hj hp i hi
    exact h i (Nat.lt_trans hi (prefix_all h hj hp))
  · intro h i hi
    by_contra hno
    -- behind an element without the property none is counted
    have hlt : i < n := Nat.lt_of_lt_of_le hi (Nat.count_le p)
    obtain ⟨r, rfl⟩ := Nat.exists_eq_add_of_le (Nat.le_of_lt hlt)
    have hnone : Nat.count (fun k => p (i + k)) r = 0 :=
      Nat.count_iff_forall_not.mpr fun k hk hp => by
        rcases Nat.eq_zero_or_pos k with rfl | hpos
        · exact hno hp
        · exact hno (h (i + k) (by omega) hp i (by omega))
    rw [Nat.count_add, hnone] at hi
    have hle : Nat.count p i ≤ i := Nat.count_le p
    omega

/-- The elements without the property. -/
theorem count_not (n : Nat) : Nat.count p n + Nat.count (fun i => ¬ p i) n = n := by
  induction n with
  | zero => simp
  | succ n ih =>
    rw [Nat.count_succ, Nat.count_succ]
    by_cases hp : p n
    · rw [if_pos hp, if_neg (not_not.mpr hp)]
      omega
    · rw [if_neg hp, if_pos hp]
      omega

/-- **Counting on behind a place**: the count does not exceed the place exactly when the elements
    that are counted behind it are no more than those passed over before. -/
theorem count_behind_iff {r : Nat} (h : r ≤ n) : Nat.count p n ≤ r ↔
    Nat.count (fun k => p (r + k)) (n - r) ≤ Nat.count (fun i => ¬ p i) r := by
  obtain ⟨m, rfl⟩ := Nat.exists_eq_add_of_le h
  have hsum := count_not (p := p) r
  rw [Nat.count_add, Nat.add_sub_cancel_left]
  omega
