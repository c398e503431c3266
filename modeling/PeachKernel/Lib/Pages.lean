/-
  File:      PeachKernel/Lib/Pages.lean
  Subject:   Looking for an entry in a chain of pages.

  The pages are linked like the elements of a sequence, and each holds entries. A search goes
  through one page after the other and stops at the first entry that it looks for (`hit`) or that
  marks the end (`last`). The chain need not end.

  * `Clear`, `FirstOf` -- what it meets in one page;
  * `FirstEntry` -- the entry that it finds in the chain; `FirstEntry.unique`;
  * `SearchEndsAt` -- a page at which it has stopped, or there is none;
  * `firstEntry_here`, `firstEntry_next` and those of `SearchEndsAt` -- one page, then the rest.
-/
import PeachKernel.Lib.Follow

variable {κ α : Type}

/-! ## 1. One page -/

/-- Nothing to stop at. -/
def Clear (hit last : α → Prop) (entries : List α) : Prop := ∀ b ∈ entries, ¬ hit b ∧ ¬ last b

/-- **The entry that is found**: nothing before it stops the search, and it does not mark the
    end. -/
def FirstOf (hit last : α → Prop) (entries : List α) (a : α) : Prop :=
  ∃ before after, entries = before ++ a :: after ∧ Clear hit last before ∧ hit a ∧ ¬ last a

section Page

variable {hit last : α → Prop} {entries : List α} {a b : α}

theorem clear_nil : Clear hit last [] := fun _ hb => nomatch hb

theorem clear_cons :
    Clear hit last (b :: entries) ↔ (¬ hit b ∧ ¬ last b) ∧ Clear hit last entries :=
  List.forall_mem_cons

theorem FirstOf.not_clear (h : FirstOf hit last entries a) : ¬ Clear hit last entries := by
  obtain ⟨before, after, rfl, -, ha, -⟩ := h
  exact fun hclear => (hclear a (List.mem_append_right _ List.mem_cons_self)).1 ha

/-- An entry to pass. -/
theorem firstOf_cons_pass (hb : ¬ hit b ∧ ¬ last b) :
    FirstOf hit last (b :: entries) a ↔ FirstOf hit last entries a := by
  constructor
  · rintro ⟨before, after, he, hclear, ha, hl⟩
    cases before with
    | nil =>
      rw [List.nil_append, List.cons.injEq] at he
      exact absurd (he.1 ▸ ha) hb.1
    | cons b' before =>
      rw [List.cons_append, List.cons.injEq] at he
      exact ⟨before, after, he.2, (clear_cons.mp hclear).2, ha, hl⟩
  · rintro ⟨before, after, rfl, hclear, ha, hl⟩
    exact ⟨b :: before, after, rfl, clear_cons.mpr ⟨hb, hclear⟩, ha, hl⟩

/-- An entry to stop at. -/
theorem firstOf_cons_stop (hb : hit b ∨ last b) :
    FirstOf hit last (b :: entries) a ↔ a = b ∧ hit b ∧ ¬ last b := by
  constructor
  · rintro ⟨before, after, he, hclear, ha, hl⟩
    cases before with
    | nil =>
      rw [List.nil_append, List.cons.injEq] at he
      rw [he.1]
      exact ⟨rfl, ha, hl⟩
    | cons b' before =>
      rw [List.cons_append, List.cons.injEq] at he
      rw [he.1] at hb
      have hpass := (clear_cons.mp hclear).1
      exact absurd hb (not_or.mpr hpass)
  · rintro ⟨rfl, ha, hl⟩
    exact ⟨[], entries, rfl, clear_nil, ha, hl⟩

theorem FirstOf.unique (ha : FirstOf hit last entries a) (hb : FirstOf hit last entries b) :
    a = b := by
  induction entries with
  | nil => exact absurd clear_nil ha.not_clear
  | cons c entries ih =>
    by_cases hc : hit c ∨ last c
    · rw [((firstOf_cons_stop hc).mp ha).1, ((firstOf_cons_stop hc).mp hb).1]
    · have hpass := not_or.mp hc
      exact ih ((firstOf_cons_pass hpass).mp ha) ((firstOf_cons_pass hpass).mp hb)

end Page

/-! ## 2. A chain of pages -/

section Chain

variable {next : κ → Option κ} {page : κ → List α} {hit last : α → Prop}

/-- **The entry that a search from `s` finds**, behind pages that do not stop it. -/
def FirstEntry (next : κ → Option κ) (page : κ → List α) (hit last : α → Prop) (s : κ) (a : α) :
    Prop :=
  ∃ n c, follow next s n = some c ∧
    (∀ j < n, ∀ b, follow next s j = some b → Clear hit last (page b)) ∧ FirstOf hit last (page c) a

/-- By page `n` a search from `s` has come to an end, one way or the other. -/
def SearchEndsAt (next : κ → Option κ) (page : κ → List α) (hit last : α → Prop) (s : κ) (n : Nat) :
    Prop :=
  ∀ c, follow next s n = some c → ¬ Clear hit last (page c)

variable {s s' : κ} {a b : α} {n : Nat}

theorem FirstEntry.unique (ha : FirstEntry next page hit last s a)
    (hb : FirstEntry next page hit last s b) : a = b := by
  obtain ⟨n, c, hc, hbefore, ha⟩ := ha
  obtain ⟨m, c', hc', hbefore', hb⟩ := hb
  rcases Nat.lt_trichotomy n m with hlt | rfl | hlt
  · exact absurd (hbefore' n hlt c hc) ha.not_clear
  · cases hc.symm.trans hc'
    exact ha.unique hb
  · exact absurd (hbefore m hlt c' hc') hb.not_clear

/-- The search stops in its first page. -/
theorem firstEntry_here (h : ¬ Clear hit last (page s)) :
    FirstEntry next page hit last s a ↔ FirstOf hit last (page s) a := by
  constructor
  · rintro ⟨n, c, hc, hbefore, ha⟩
    cases n with
    | zero =>
      cases hc
      exact ha
    | succ n => exact absurd (hbefore 0 (Nat.succ_pos n) s rfl) h
  · exact fun ha => ⟨0, s, rfl, fun j hj => absurd hj (Nat.not_lt_zero j), ha⟩

/-- It goes on with the next one. -/
theorem firstEntry_next (h : Clear hit last (page s)) (hs : next s = some s') :
    FirstEntry next page hit last s a ↔ FirstEntry next page hit last s' a := by
  have hone : follow next s 1 = some s' := hs
  have hfollow : ∀ j, follow next s (j + 1) = follow next s' j := by
    intro j
    rw [Nat.add_comm, follow_add hone]
  constructor
  · rintro ⟨n, c, hc, hbefore, ha⟩
    cases n with
    | zero =>
      cases hc
      exact absurd h ha.not_clear
    | succ n =>
      rw [hfollow] at hc
      refine ⟨n, c, hc, fun j hj b hb => hbefore (j + 1) (Nat.succ_lt_succ hj) b ?_, ha⟩
      rw [hfollow, hb]
  · rintro ⟨n, c, hc, hbefore, ha⟩
    refine ⟨n + 1, c, (hfollow n).trans hc, fun j hj b hb => ?_, ha⟩
    cases j with
    | zero =>
      cases hb
      exact h
    | succ j => exact hbefore j (Nat.lt_of_succ_lt_succ hj) b ((hfollow j).symm.trans hb)

/-- There is none. -/
theorem not_firstEntry_end (h : Clear hit last (page s)) (hs : next s = none) :
    ¬ FirstEntry next page hit last s a := by
  rintro ⟨n, c, hc, -, ha⟩
  cases n with
  | zero =>
    cases hc
    exact ha.not_clear h
  | succ n =>
    have hone : follow next s 1 = none := hs
    rw [follow_past hone (Nat.le_add_left 1 n)] at hc
    cases hc

theorem searchEndsAt_here (h : ¬ Clear hit last (page s)) :
    SearchEndsAt next page hit last s 0 := by
  intro c hc
  cases hc
  exact h

theorem searchEndsAt_end (hs : next s = none) : SearchEndsAt next page hit last s 1 := by
  intro c hc
  have hone : follow next s 1 = none := hs
  rw [hone] at hc
  cases hc

theorem searchEndsAt_next (hs : next s = some s') :
    SearchEndsAt next page hit last s (n + 1) ↔ SearchEndsAt next page hit last s' n := by
  have hone : follow next s 1 = some s' := hs
  unfold SearchEndsAt
  rw [Nat.add_comm, follow_add hone]

end Chain
