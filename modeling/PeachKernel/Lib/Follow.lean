/-
  File:      PeachKernel/Lib/Follow.lean
  Subject:   Following links: the sequence that starts somewhere and goes on as long as there is a
             next element.

  * `follow` -- the `k`-th element met, `none` once the links have ended;
  * `follow_head` -- the first link, then the rest;
  * `follow_agree_iff` -- two link functions give the same sequence exactly when they agree on the
    elements of one of them; `follow_agree_upto` -- the same for its first elements.
-/
import Mathlib.Data.Option.Basic
import Mathlib.Order.Basic
import Mathlib.Algebra.Order.Group.Nat

variable {α : Type}

/-- The element met after `k` links from `s`. -/
def follow (next : α → Option α) (s : α) : Nat → Option α
  | 0 => some s
  | k + 1 => (follow next s k).bind next

theorem follow_succ (next : α → Option α) (s : α) (k : Nat) :
    follow next s (k + 1) = (follow next s k).bind next := rfl

@[simp] theorem follow_one (next : α → Option α) (s : α) : follow next s 1 = next s := rfl

theorem follow_next {next : α → Option α} {s c : α} {k : Nat} (h : follow next s k = some c) :
    follow next s (k + 1) = next c := by
  rw [follow_succ, h, Option.bind_some]

/-- The links taken from the `i`-th element on. -/
theorem follow_add {next : α → Option α} {s c : α} {i : Nat} (h : follow next s i = some c)
    (k : Nat) : follow next s (i + k) = follow next c k := by
  induction k with
  | zero => exact h
  | succ k ih =>
    rw [follow_succ, ← ih]
    rfl

/-- Past its end a sequence has no elements. -/
theorem follow_past {next : α → Option α} {s : α} {i k : Nat} (h : follow next s i = none)
    (hk : i ≤ k) : follow next s k = none := by
  induction k, hk using Nat.le_induction with
  | base => exact h
  | succ k _ ih => rw [follow_succ, ih, Option.bind_none]

/-- The first link, then the rest. -/
theorem follow_head (next : α → Option α) (s : α) (k : Nat) :
    follow next s (k + 1) = (next s).bind fun c => follow next c k := by
  cases h : next s with
  | none => exact follow_past (i := 1) h (Nat.le_add_left 1 k)
  | some c =>
    have h1 : follow next s 1 = some c := h
    rw [Nat.add_comm, follow_add h1, Option.bind_some]

/-- **Two ways of linking meet the same elements** over `n` links if and only if they agree on every
    element that one of them meets before. -/
theorem follow_agree_upto (f g : α → Option α) (s : α) (n : Nat) :
    (∀ k ≤ n, follow f s k = follow g s k) ↔ ∀ k < n, ∀ c, follow g s k = some c → f c = g c := by
  constructor
  · intro h k hk c hc
    have hf : follow f s k = some c := (h k (Nat.le_of_lt hk)).trans hc
    rw [← follow_next hf, ← follow_next hc]
    exact h (k + 1) hk
  · intro h k
    induction k with
    | zero => exact fun _ => rfl
    | succ k ih =>
      intro hk
      rw [follow_succ, follow_succ, ih (Nat.le_of_lt hk)]
      cases hg : follow g s k with
      | none => rfl
      | some c => exact h k hk c hg

/-- ... over any number of links. -/
theorem follow_agree_iff (f g : α → Option α) (s : α) :
    (∀ k, follow f s k = follow g s k) ↔ ∀ k c, follow g s k = some c → f c = g c := by
  constructor
  · exact fun h k => (follow_agree_upto f g s (k + 1)).mp (fun j _ => h j) k (Nat.lt_succ_self k)
  · exact fun h k => (follow_agree_upto f g s k).mpr (fun j _ => h j) k (Nat.le_refl k)
