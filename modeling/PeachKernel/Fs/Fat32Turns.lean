/-
  File:      PeachKernel/Fs/Fat32Turns.lean
  Subject:   The turns of a `fat32_read`: each one takes a byte or is the last of its item, and
             where the bytes come from.

  A turn reads from the cluster the handle stands in. That the chain has ended is a cluster number
  0, and the loop looks for it behind a turn that ends neither the item nor the file: an item that
  ends with the last cluster leaves the 0 to whoever reads next.

  * `Turn`, `fat32ReadTurns` -- the heads of the turns of a call; `fat32Read_out` -- what they
    deliver;
  * `fat32Read_progress` -- every call comes back, after turns that take a byte each;
  * `ChainReach` -- how much of a file lies on its chain; `readItems_reach`, `readItems_beyond` -- a
    call that stays on it, and one that does not;
  * `fat32Reads_onChain_iff` -- when a sequence of calls does.
-/
import PeachKernel.Fs.Fat32Seek

namespace PeachKernel

open CInt

/-! ## 1. Turns -/

/-- A turn of the loop of `fat32_read_internal`: the handle at its head, and what is still to
    read. -/
structure Turn where
  head : FileHandle
  bytesLeftToRead : Nat

/-- The bytes it takes. -/
def Turn.count (fs : Fat32Private) (t : Turn) : Nat := howManyToRead fs t.head t.bytesLeftToRead

/-- The handle behind it. -/
def Turn.next (d : Disk) (fs : Fat32Private) (t : Turn) : FileHandle :=
  t.head.advance d fs (t.count fs)

/-- What it writes to `out`. -/
def Turn.out (d : Disk) (fs : Fat32Private) (t : Turn) : List UInt8 :=
  seekRead d (u32
    ((getClusterDataDiskPos fs t.head.currentCluster : Int) + t.head.positionInCluster))
    (t.count fs)

/-- The three exits of the loop. -/
def Turn.Returns (d : Disk) (fs : Fat32Private) (t : Turn) : Prop :=
  t.bytesLeftToRead - t.count fs = 0 ∨ (t.next d fs).filePos = (t.next d fs).fileSize ∨
    (t.next d fs).currentCluster = 0

instance (d : Disk) (fs : Fat32Private) (t : Turn) : Decidable (t.Returns d fs) :=
  inferInstanceAs (Decidable (_ ∨ _ ∨ _))

/-- The turns of a call of `fat32_read_internal`. -/
def itemTurns (d : Disk) (fs : Fat32Private) : (fuel bytesLeftToRead : Nat) → FileHandle → List Turn
  | 0, _, _ => []
  | fuel + 1, bytesLeftToRead, h =>
    let t : Turn := ⟨h, bytesLeftToRead⟩
    t :: if t.Returns d fs then [] else itemTurns d fs fuel (bytesLeftToRead - t.count fs)
      (t.next d fs)

/-- The turns of the loop of `fat32_read` over the last `left` items. -/
def readTurns (d : Disk) (fs : Fat32Private) (fuel size : Nat) :
    (left : Nat) → FileHandle → List Turn
  | 0, _ => []
  | left + 1, h =>
    itemTurns d fs fuel size h ++
      match fat32ReadInternal d fs fuel size h with
      | none => []
      | some block => if block.status = 0 then [] else readTurns d fs fuel size left block.handle

/-- The turns of a call of `fat32_read`. -/
def fat32ReadTurns (d : Disk) (fs : Fat32Private) (fuel : Nat) (h : FileHandle) (size nmemb : Nat) :
    List Turn :=
  readTurns d fs fuel size nmemb h

section Turns

variable {d : Disk} {fs : Fat32Private} {h : FileHandle}

/-- **A turn, as `fat32_read_internal` makes it.** -/
theorem fat32ReadInternal_turn (fuel left : Nat) (h : FileHandle) :
    fat32ReadInternal d fs (fuel + 1) left h =
      if Turn.Returns d fs ⟨h, left⟩ then
        some ⟨if left - Turn.count fs ⟨h, left⟩ = 0 then 1 else 0, Turn.out d fs ⟨h, left⟩,
          Turn.next d fs ⟨h, left⟩⟩
      else
        (fat32ReadInternal d fs fuel (left - Turn.count fs ⟨h, left⟩)
          (Turn.next d fs ⟨h, left⟩)).map fun r =>
            { r with out := Turn.out d fs ⟨h, left⟩ ++ r.out } := by
  rw [fat32ReadInternal]
  by_cases h1 : left - Turn.count fs ⟨h, left⟩ = 0
  · have hret : Turn.Returns d fs ⟨h, left⟩ := Or.inl h1
    rw [if_pos hret, if_pos h1]
    exact if_pos h1
  by_cases h2 : (Turn.next d fs ⟨h, left⟩).filePos = (Turn.next d fs ⟨h, left⟩).fileSize
  · have hret : Turn.Returns d fs ⟨h, left⟩ := Or.inr (Or.inl h2)
    rw [if_pos hret, if_neg h1]
    exact (if_neg h1).trans (if_pos h2)
  by_cases h3 : (Turn.next d fs ⟨h, left⟩).currentCluster = 0
  · have hret : Turn.Returns d fs ⟨h, left⟩ := Or.inr (Or.inr h3)
    rw [if_pos hret, if_neg h1]
    exact (if_neg h1).trans ((if_neg h2).trans (if_pos h3))
  · have hret : ¬ Turn.Returns d fs ⟨h, left⟩ := not_or.mpr ⟨h1, not_or.mpr ⟨h2, h3⟩⟩
    rw [if_neg hret]
    exact (if_neg h1).trans ((if_neg h2).trans (if_neg h3))

/-- What an item delivers is what its turns do. -/
theorem fat32ReadInternal_turns (fuel : Nat) : ∀ {left : Nat} {h : FileHandle} {r : ReadResult},
    fat32ReadInternal d fs fuel left h = some r →
      r.out = (itemTurns d fs fuel left h).flatMap (Turn.out d fs) := by
  induction fuel with
  | zero => exact fun hr => nomatch hr
  | succ fuel ih =>
    intro left h r hr
    rw [fat32ReadInternal_turn] at hr
    rw [itemTurns]
    by_cases hret : Turn.Returns d fs ⟨h, left⟩
    · rw [if_pos hret] at hr ⊢
      cases hr
      simp
    · rw [if_neg hret] at hr ⊢
      obtain ⟨r', hr', rfl⟩ := Option.map_eq_some_iff.mp hr
      rw [List.flatMap_cons, ← ih hr']

/-- **What a call delivers is what its turns do.** -/
theorem fat32Read_out {fuel size nmemb : Nat} {r : ReadResult}
    (hr : fat32Read d fs fuel h size nmemb = some r) :
    r.out = (fat32ReadTurns d fs fuel h size nmemb).flatMap (Turn.out d fs) := by
  unfold fat32Read at hr
  unfold fat32ReadTurns
  generalize (0 : Int) = done at hr
  induction nmemb generalizing h done r with
  | zero =>
    cases hr
    rfl
  | succ left ih =>
    rw [readItems] at hr
    rw [readTurns]
    cases hb : fat32ReadInternal d fs fuel size h with
    | none =>
      rw [hb] at hr
      cases hr
    | some block =>
      rw [hb] at hr
      dsimp only at hr ⊢
      rw [List.flatMap_append, ← fat32ReadInternal_turns fuel hb]
      by_cases hz : block.status = 0
      · rw [if_pos hz] at hr ⊢
        cases hr
        simp
      · rw [if_neg hz] at hr ⊢
        obtain ⟨r', hr', rfl⟩ := Option.map_eq_some_iff.mp hr
        rw [← ih _ hr']

/-! ## 2. Progress -/

/-- A turn of a cursor: it stands inside its cluster, stays inside it, and takes a byte or is the
    last. -/
theorem turn_progress (hc : Cursor fs h) (left : Nat) :
    Turn.Returns d fs ⟨h, left⟩ ∨ 1 ≤ Turn.count fs ⟨h, left⟩ := by
  obtain ⟨-, h2, h3⟩ := turnLength_le hc left
  unfold Turn.Returns Turn.next Turn.count
  dsimp only
  rw [howManyToRead_eq hc, advance_eq_moved hc h3 h2, moved_filePos, moved_fileSize]
  by_cases hl : left = 0
  · exact Or.inl (Or.inl (by omega))
  by_cases hf : h.filePos = h.fileSize
  · exact Or.inl (Or.inr (Or.inl (by omega)))
  · exact Or.inr (turnLength_pos hc (by omega) hf)

theorem turn_next_cursor (hc : Cursor fs h) (left : Nat) :
    Cursor fs (Turn.next d fs ⟨h, left⟩) := by
  obtain ⟨-, h2, h3⟩ := turnLength_le hc left
  unfold Turn.next Turn.count
  rw [howManyToRead_eq hc, advance_eq_moved hc h3 h2]
  exact hc.moved h2

/-- Every turn of an item starts at a cursor. -/
theorem itemTurns_cursor (fuel : Nat) : ∀ {left : Nat} {h : FileHandle}, Cursor fs h →
    ∀ t ∈ itemTurns d fs fuel left h, Cursor fs t.head := by
  induction fuel with
  | zero => exact fun _ t ht => nomatch ht
  | succ fuel ih =>
    intro left h hc t ht
    rw [itemTurns] at ht
    rcases List.mem_cons.mp ht with rfl | ht
    · exact hc
    · split at ht
      · exact nomatch ht
      · exact ih (turn_next_cursor hc left) t ht

/-- Every turn of a call does. -/
theorem readTurns_cursor {fuel size : Nat} (left : Nat) : ∀ {h : FileHandle}, Cursor fs h →
    ∀ t ∈ readTurns d fs fuel size left h, Cursor fs t.head := by
  induction left with
  | zero => exact fun _ t ht => nomatch ht
  | succ left ih =>
    intro h hc t ht
    rw [readTurns] at ht
    rcases List.mem_append.mp ht with ht | ht
    · exact itemTurns_cursor fuel hc t ht
    · cases hb : fat32ReadInternal d fs fuel size h with
      | none =>
        rw [hb] at ht
        exact nomatch ht
      | some block =>
        rw [hb] at ht
        dsimp only at ht
        split at ht
        · exact nomatch ht
        · obtain ⟨n, -, -, hn, hm, -⟩ := fat32ReadInternal_moved hc hb
          exact ih (hm ▸ hc.moved hn) t ht

end Turns

/-- **Every `fat32_read` of an open file comes back**, whatever the FAT holds: a turn stands inside
    its cluster, and takes a byte or is the last of its item. As many turns as an item has bytes
    suffice for each item. -/
theorem fat32Read_progress {k : Kernel} {d : Disk} {fs : Fat32Private} {h : FileHandle}
    (hr : (fat32Resolve k d).2.1 = some fs) (hh : OpenFile d fs h) (size nmemb : Nat) :
    (∀ fuel, 0 < fuel → size ≤ fuel → (fat32Read d fs fuel h size nmemb).isSome) ∧
    ∀ fuel, ∀ t ∈ fat32ReadTurns d fs fuel h size nmemb,
      t.head.positionInCluster < fs.clusterSizeBytes ∧ (t.Returns d fs ∨ 1 ≤ t.count fs) := by
  have hc := openFile_cursor hr hh
  refine ⟨fun fuel h0 hl => readItems_isSome nmemb hc h0 hl, fun fuel t ht => ?_⟩
  have ht := readTurns_cursor nmemb hc t ht
  exact ⟨ht.inCluster, turn_progress ht t.bytesLeftToRead⟩

/-- Reading the whole of a file of two clusters. -/
theorem fat32Read_progress_small :
    (fat32Read oneFileVolume smallPrivate 700 oneFileHandle 700 1).isSome := by
  obtain ⟨k, hopen⟩ := oneFileVolume_open
  exact (fat32Read_progress oneFileVolume_resolve (.opened hopen) 700 1).1 700 (by decide)
    (by decide)

/-! ## 3. The chain of a file -/

/-- A cluster on the chain from `start`, before its end. -/
def OnChain (d : Disk) (fs : Fat32Private) (start clusterId : Nat) : Prop :=
  ∃ k, chainCluster d fs start k = clusterId ∧ ∀ j ≤ k, chainCluster d fs start j ≠ 0

/-- A turn that reads out of a cluster on the chain, and not behind its data. -/
structure Turn.InChain (d : Disk) (fs : Fat32Private) (start : Nat) (t : Turn) : Prop where
  onChain : OnChain d fs start t.head.currentCluster
  inCluster : t.head.positionInCluster + t.count fs ≤ fs.clusterSizeBytes

/-- **A sequence of calls stays on the chain**: every turn that takes a byte takes it from there;
    and a call behind the end of the chain, before the end of the file, delivers nothing and, if it
    is asked for a byte, returns 0. -/
def ReadsOnChain (d : Disk) (fs : Fat32Private) (fuel start : Nat) :
    (requests : List (Nat × Nat)) → FileHandle → Prop
  | [], _ => True
  | (size, nmemb) :: requests, h =>
    (∀ t ∈ fat32ReadTurns d fs fuel h size nmemb, 1 ≤ t.count fs → t.InChain d fs start) ∧
    ∀ r, fat32Read d fs fuel h size nmemb = some r →
      (h.currentCluster = 0 → h.filePos < h.fileSize →
        r.out = [] ∧ (1 ≤ size → 1 ≤ nmemb → r.status = 0)) ∧
      ReadsOnChain d fs fuel start requests r.handle

/-- The chain from `start` has `count` clusters. -/
def ChainEnds (d : Disk) (fs : Fat32Private) (start count : Nat) : Prop :=
  chainCluster d fs start count = 0 ∧ ∀ j < count, chainCluster d fs start j ≠ 0

/-- **Requests that end with a chain of `bytes` bytes, or inside it**, from the place `pos` on: the
    first that goes beyond has an item that the end of the chain cuts in two, and nothing is asked
    for behind it. -/
def StopsAtEnd (bytes : Nat) : (requests : List (Nat × Nat)) → (pos : Nat) → Prop
  | [], _ => True
  | (size, nmemb) :: requests, pos =>
    if size * nmemb ≤ bytes - pos then StopsAtEnd bytes requests (pos + size * nmemb)
    else ¬ size ∣ bytes - pos ∧ StopsAtEnd bytes requests bytes

/-- **The bytes of a file that lie on its chain**: all, or as many as the clusters have that there
    are. -/
structure ChainReach (d : Disk) (fs : Fat32Private) (start fileSize bytes : Nat) : Prop where
  le : bytes ≤ fileSize
  inside : ∀ k, k * fs.clusterSizeBytes < bytes → chainCluster d fs start k ≠ 0
  ends : bytes < fileSize → fs.clusterSizeBytes ∣ bytes ∧
    chainCluster d fs start (bytes / fs.clusterSizeBytes) = 0

section Reach

variable {d : Disk} {fs : Fat32Private} {h : FileHandle} {bytes : Nat}

/-- A place on the chain is in a cluster. -/
theorem ChainReach.onChain {start fileSize p : Nat} (hb : ChainReach d fs start fileSize bytes)
    (hp : p < bytes) : OnChain d fs start (chainCluster d fs start (p / fs.clusterSizeBytes)) := by
  refine ⟨p / fs.clusterSizeBytes, rfl, fun j hj => hb.inside j ?_⟩
  calc j * fs.clusterSizeBytes
      ≤ p / fs.clusterSizeBytes * fs.clusterSizeBytes := Nat.mul_le_mul_right _ hj
    _ ≤ p := Nat.div_mul_le_self _ _
    _ < bytes := hp

/-- A step inside a cluster does not pass the end of the chain. -/
theorem ChainReach.step_le {start fileSize p n : Nat} (hb : ChainReach d fs start fileSize bytes)
    (hp : p < bytes) (hn : p % fs.clusterSizeBytes + n ≤ fs.clusterSizeBytes)
    (hf : p + n ≤ fileSize) : p + n ≤ bytes := by
  by_cases hfull : bytes = fileSize
  · omega
  · have hle := hb.le
    obtain ⟨c, rfl⟩ := (hb.ends (by omega)).1
    have hlt : p / fs.clusterSizeBytes < c := Nat.div_lt_of_lt_mul hp
    have hmul : fs.clusterSizeBytes * (p / fs.clusterSizeBytes + 1) ≤ fs.clusterSizeBytes * c :=
      Nat.mul_le_mul_left _ hlt
    have hsplit := Nat.div_add_mod p fs.clusterSizeBytes
    rw [Nat.mul_succ] at hmul
    omega

/-- Only its end has no cluster. -/
theorem ChainReach.cluster_ne {start fileSize p : Nat} (hb : ChainReach d fs start fileSize bytes)
    (hp : p < bytes) : chainCluster d fs start (p / fs.clusterSizeBytes) ≠ 0 :=
  hb.inside _ (lt_of_le_of_lt (Nat.div_mul_le_self _ _) hp)

/-- **A turn at place `p` of the file** takes `n` bytes: no more than are asked for, than the file
    has, or than are left of the cluster. -/
structure TurnAt (d : Disk) (fs : Fat32Private) (h : FileHandle) (p left n : Nat) : Prop where
  count : Turn.count fs ⟨h.moved d fs p, left⟩ = n
  next : Turn.next d fs ⟨h.moved d fs p, left⟩ = h.moved d fs (p + n)
  out : (Turn.out d fs ⟨h.moved d fs p, left⟩).length ≤ n
  le_left : n ≤ left
  le_file : p + n ≤ h.fileSize
  le_cluster : p % fs.clusterSizeBytes + n ≤ fs.clusterSizeBytes
  pos : 0 < left → p ≠ h.fileSize → 0 < n
  returns : Turn.Returns d fs ⟨h.moved d fs p, left⟩ ↔ left - n = 0 ∨ p + n = h.fileSize ∨
    chainCluster d fs h.currentCluster ((p + n) / fs.clusterSizeBytes) = 0

theorem turnAt (hc : Cursor fs h) (h0 : h.filePos = 0) (h1 : h.positionInCluster = 0) {p : Nat}
    (hp : p ≤ h.fileSize) (left : Nat) : ∃ n, TurnAt d fs h p left n := by
  have hcp : Cursor fs (h.moved d fs p) := hc.moved (by omega)
  obtain ⟨t1, t2, t3⟩ := turnLength_le hcp left
  have hcount : Turn.count fs ⟨h.moved d fs p, left⟩ = turnLength fs (h.moved d fs p) left :=
    howManyToRead_eq hcp left
  have hnext : Turn.next d fs ⟨h.moved d fs p, left⟩ =
      h.moved d fs (p + turnLength fs (h.moved d fs p) left) := by
    unfold Turn.next
    rw [hcount, advance_eq_moved hcp t3 t2, moved_moved]
  rw [moved_filePos, moved_fileSize, h0, Nat.zero_add] at t2
  rw [moved_positionInCluster, h1, Nat.zero_add] at t3
  refine ⟨_, hcount, hnext, ?_, t1, t2, t3, fun hl hpf => ?_, ?_⟩
  · unfold Turn.out
    rw [hcount]
    exact seekRead_length _ _ _
  · refine turnLength_pos hcp hl ?_
    rw [moved_filePos, moved_fileSize, h0]
    omega
  · unfold Turn.Returns
    rw [hcount, hnext, moved_currentCluster h1, moved_filePos, moved_fileSize, h0, Nat.zero_add]

/-- Before the end of the chain such a turn stays on it. -/
theorem TurnAt.inChain {p left n : Nat} (ht : TurnAt d fs h p left n) (h1 : h.positionInCluster = 0)
    (hb : ChainReach d fs h.currentCluster h.fileSize bytes) (hn : p + n ≤ bytes)
    (hpos : 1 ≤ Turn.count fs ⟨h.moved d fs p, left⟩) :
    Turn.InChain d fs h.currentCluster ⟨h.moved d fs p, left⟩ := by
  have hhead : (Turn.mk (h.moved d fs p) left).head = h.moved d fs p := rfl
  have hcluster := ht.le_cluster
  rw [ht.count] at hpos
  refine ⟨?_, ?_⟩
  · rw [hhead, moved_currentCluster h1]
    exact hb.onChain (by omega)
  · rw [ht.count, hhead, moved_positionInCluster, h1, Nat.zero_add]
    exact hcluster

/-- **An item on the chain**: it takes what there is, and all of its bytes come from the chain. -/
theorem fat32ReadInternal_reach (hc : Cursor fs h) (h0 : h.filePos = 0)
    (h1 : h.positionInCluster = 0) (hb : ChainReach d fs h.currentCluster h.fileSize bytes)
    (fuel : Nat) : ∀ {left p : Nat}, 0 < fuel → left ≤ fuel → p ≤ bytes →
      (p < bytes ∨ bytes = h.fileSize ∨ left = 0) →
      (∃ r, fat32ReadInternal d fs fuel left (h.moved d fs p) = some r ∧
        r.status = (if left ≤ bytes - p then 1 else 0) ∧ r.out.length ≤ min left (bytes - p) ∧
        r.handle = h.moved d fs (p + min left (bytes - p))) ∧
      ∀ t ∈ itemTurns d fs fuel left (h.moved d fs p), 1 ≤ t.count fs →
        t.InChain d fs h.currentCluster := by
  induction fuel with
  | zero => exact fun hfuel => absurd hfuel (Nat.lt_irrefl 0)
  | succ fuel ih =>
    intro left p _ hl hp hgo
    have hle := hb.le
    obtain ⟨n, ht⟩ := turnAt (d := d) hc h0 h1 (show p ≤ h.fileSize by omega) left
    have hout := ht.out
    have hleft := ht.le_left
    have hfile := ht.le_file
    have hn : p + n ≤ bytes := by
      rcases hgo with hlt | hfull | hnone
      · exact hb.step_le hlt ht.le_cluster hfile
      · omega
      · omega
    have hturn := ht.inChain h1 hb hn
    rw [fat32ReadInternal_turn, itemTurns, ht.count, ht.next]
    by_cases hdone : Turn.Returns d fs ⟨h.moved d fs p, left⟩
    · rw [if_pos hdone, if_pos hdone]
      have hmin : n = min left (bytes - p) := by
        rcases ht.returns.mp hdone with he | he | he
        · omega
        · omega
        · have hend : ¬ p + n < bytes := fun hlt => hb.cluster_ne hlt he
          omega
      have hstatus : (left - n = 0) ↔ left ≤ bytes - p := by omega
      refine ⟨⟨_, rfl, ?_, ?_, ?_⟩, ?_⟩
      · simp only [hstatus]
      · dsimp only
        omega
      · exact congrArg (fun m => h.moved d fs (p + m)) hmin
      · intro t hmem
        rw [List.mem_singleton] at hmem
        subst hmem
        exact hturn
    · rw [if_neg hdone, if_neg hdone]
      have hgoes := hdone
      rw [ht.returns, not_or, not_or] at hgoes
      obtain ⟨hd1, hd2, hd3⟩ := hgoes
      have hlt : p + n < bytes := by
        by_contra hge
        have he : p + n = bytes := by omega
        exact hd3 (he ▸ (hb.ends (by omega)).2)
      have hpos : 0 < n := ht.pos (by omega) (by omega)
      obtain ⟨⟨r, hr, hstatus, hlen, hhandle⟩, hturns⟩ :=
        @ih (left - n) (p + n) (by omega) (by omega) (by omega) (Or.inl hlt)
      rw [hr]
      refine ⟨⟨_, rfl, ?_, ?_, ?_⟩, ?_⟩
      · have he : (left - n ≤ bytes - (p + n)) ↔ left ≤ bytes - p := by omega
        simp only [hstatus, he]
      · dsimp only
        rw [List.length_append]
        omega
      · dsimp only
        rw [hhandle]
        congr 1
        omega
      · intro t hmem
        rcases List.mem_cons.mp hmem with rfl | hmem
        · exact hturn
        · exact hturns t hmem

/-- **A call on the chain**: what it asks for ends there, or the end cuts one of its items. -/
theorem readItems_reach (hc : Cursor fs h) (h0 : h.filePos = 0) (h1 : h.positionInCluster = 0)
    (hb : ChainReach d fs h.currentCluster h.fileSize bytes) {fuel size : Nat} (hfuel : 0 < fuel)
    (hsize : size ≤ fuel) (left : Nat) : ∀ {p : Nat} (done : Int), p ≤ bytes →
      (bytes = h.fileSize ∨ size * left ≤ bytes - p ∨ ¬ size ∣ bytes - p) →
      (∃ r, readItems d fs fuel size left done (h.moved d fs p) = some r ∧
        r.out.length ≤ min (size * left) (bytes - p) ∧
        r.handle = h.moved d fs (p + min (size * left) (bytes - p))) ∧
      ∀ t ∈ readTurns d fs fuel size left (h.moved d fs p), 1 ≤ t.count fs →
        t.InChain d fs h.currentCluster := by
  induction left with
  | zero =>
    intro p done _ _
    refine ⟨⟨_, rfl, by simp, ?_⟩, fun t ht => nomatch ht⟩
    rw [Nat.mul_zero, Nat.zero_min, Nat.add_zero]
  | succ left ih =>
    intro p done hp hfit
    have hmul : size * (left + 1) = size * left + size := Nat.mul_succ size left
    have hgo : p < bytes ∨ bytes = h.fileSize ∨ size = 0 := by
      rcases hfit with hfull | hshort | hcut
      · exact Or.inr (Or.inl hfull)
      · omega
      · refine Or.inl (Nat.lt_of_le_of_ne hp fun e => hcut ?_)
        rw [e, Nat.sub_self]
        exact Nat.dvd_zero size
    obtain ⟨⟨block, hblock, hstatus, hlen, hhandle⟩, hturns⟩ :=
      fat32ReadInternal_reach hc h0 h1 hb fuel hfuel hsize hp hgo
    rw [readItems, readTurns, hblock]
    dsimp only
    by_cases hle : size ≤ bytes - p
    · rw [if_pos hle] at hstatus
      rw [Nat.min_eq_left hle] at hlen hhandle
      have hfit' : bytes = h.fileSize ∨ size * left ≤ bytes - (p + size) ∨
          ¬ size ∣ bytes - (p + size) := by
        refine hfit.imp_right fun hfit => hfit.imp (fun hshort => by omega) fun hcut hdvd => hcut ?_
        rw [show bytes - p = bytes - (p + size) + size by omega]
        exact (Nat.dvd_add_self_right).mpr hdvd
      obtain ⟨⟨r, hr, hlen', hhandle'⟩, hturns'⟩ :=
        @ih (p + size) (i32 (done + 1)) (by omega) hfit'
      rw [hstatus, if_neg (by decide), if_neg (by decide), hhandle, hr]
      refine ⟨⟨_, rfl, ?_, ?_⟩, ?_⟩
      · dsimp only
        rw [List.length_append]
        omega
      · dsimp only
        rw [hhandle']
        congr 1
        omega
      · intro t ht
        exact (List.mem_append.mp ht).elim (hturns t) (hturns' t)
    · rw [if_neg hle] at hstatus
      rw [hstatus, if_pos rfl, if_pos rfl, List.append_nil]
      refine ⟨⟨_, rfl, ?_, ?_⟩, hturns⟩
      · dsimp only
        omega
      · dsimp only
        rw [hhandle]
        congr 1
        omega

/-- **A call beyond the chain**: its items fit the clusters, so one of them starts behind the last,
    and takes a byte of the cluster 0. -/
theorem readItems_beyond (hc : Cursor fs h) (h0 : h.filePos = 0) (h1 : h.positionInCluster = 0)
    (hb : ChainReach d fs h.currentCluster h.fileSize bytes) (hshort : bytes < h.fileSize)
    {fuel size : Nat} (hfuel : 0 < fuel) (hsize : size ≤ fuel) (left : Nat) :
    ∀ {p : Nat}, p ≤ bytes →
      bytes - p < size * left → size ∣ bytes - p →
      ∃ t ∈ readTurns d fs fuel size left (h.moved d fs p), 1 ≤ t.count fs ∧
        t.head.currentCluster = 0 := by
  induction left with
  | zero => exact fun _ hlt => absurd hlt (Nat.not_lt_zero _)
  | succ left ih =>
    intro p hp hlt hdvd
    have hpos : 0 < size := by
      rcases Nat.eq_zero_or_pos size with rfl | hpos
      · rw [Nat.zero_mul] at hlt
        exact absurd hlt (Nat.not_lt_zero _)
      · exact hpos
    have hmul : size * (left + 1) = size * left + size := Nat.mul_succ size left
    rw [readTurns]
    by_cases hend : p = bytes
    · -- the first turn of the first item
      obtain ⟨more, rfl⟩ : ∃ more, fuel = more + 1 := ⟨fuel - 1, by omega⟩
      have hcp : Cursor fs (h.moved d fs p) := hc.moved (by omega)
      refine ⟨⟨h.moved d fs p, size⟩, List.mem_append_left _ ?_, ?_, ?_⟩
      · rw [itemTurns]
        exact List.mem_cons_self
      · unfold Turn.count
        rw [howManyToRead_eq hcp]
        refine turnLength_pos hcp hpos ?_
        rw [moved_filePos, moved_fileSize, h0]
        omega
      · rw [show (Turn.mk (h.moved d fs p) size).head = h.moved d fs p from rfl,
          moved_currentCluster h1, hend]
        exact (hb.ends hshort).2
    · have hle : size ≤ bytes - p := Nat.le_of_dvd (by omega) hdvd
      obtain ⟨⟨block, hblock, hstatus, -, hhandle⟩, -⟩ :=
        fat32ReadInternal_reach hc h0 h1 hb fuel hfuel hsize hp (Or.inl (by omega))
      rw [if_pos hle] at hstatus
      rw [Nat.min_eq_left hle] at hhandle
      have hdvd' : size ∣ bytes - (p + size) := by
        rw [show bytes - (p + size) = bytes - p - size by omega]
        exact Nat.dvd_sub hdvd (Nat.dvd_refl size)
      obtain ⟨t, ht, hcount, hzero⟩ := ih (p := p + size) (by omega) (by omega) hdvd'
      refine ⟨t, List.mem_append_right _ ?_, hcount, hzero⟩
      rw [hblock]
      dsimp only
      rw [hstatus, if_neg (by decide), hhandle]
      exact ht

/-- Going on behind a request is going on where its call leaves the file. -/
theorem stopsAtEnd_next {size nmemb p : Nat} {requests : List (Nat × Nat)} (hp : p ≤ bytes)
    (hfit : size * nmemb ≤ bytes - p ∨ ¬ size ∣ bytes - p) :
    StopsAtEnd bytes requests (p + min (size * nmemb) (bytes - p)) ↔
      StopsAtEnd bytes ((size, nmemb) :: requests) p := by
  rw [StopsAtEnd]
  by_cases hshort : size * nmemb ≤ bytes - p
  · rw [if_pos hshort, Nat.min_eq_left hshort]
  · have hcut : ¬ size ∣ bytes - p := hfit.resolve_left hshort
    rw [if_neg hshort, Nat.min_eq_right (by omega), Nat.add_sub_cancel' hp]
    exact (and_iff_right hcut).symm

/-- **One call on the chain**: what is left of the property is that of the calls behind it. -/
theorem readsOnChain_next (hc : Cursor fs h) (h0 : h.filePos = 0) (h1 : h.positionInCluster = 0)
    (hb : ChainReach d fs h.currentCluster h.fileSize bytes) {fuel size nmemb p : Nat}
    (hfuel : 0 < fuel) (hsize : size ≤ fuel) (requests : List (Nat × Nat)) (hp : p ≤ bytes)
    (hfit : bytes = h.fileSize ∨ size * nmemb ≤ bytes - p ∨ ¬ size ∣ bytes - p) :
    ReadsOnChain d fs fuel h.currentCluster ((size, nmemb) :: requests) (h.moved d fs p) ↔
      ReadsOnChain d fs fuel h.currentCluster requests
        (h.moved d fs (p + min (size * nmemb) (bytes - p))) := by
  obtain ⟨⟨r, hr, hlen, hhandle⟩, hturns⟩ := readItems_reach hc h0 h1 hb hfuel hsize nmemb 0 hp hfit
  have hr : fat32Read d fs fuel (h.moved d fs p) size nmemb = some r := hr
  rw [ReadsOnChain, ← hhandle]
  refine (and_iff_right hturns).trans ⟨fun hall => (hall r hr).2, fun hreads r' hr' => ?_⟩
  cases hr.symm.trans hr'
  refine ⟨fun hzero hpos => ?_, hreads⟩
  rw [moved_filePos, moved_fileSize, h0, Nat.zero_add] at hpos
  rw [moved_currentCluster h1] at hzero
  -- the handle stands at the end of the chain, and nothing is asked for
  have hend : p = bytes := by
    by_contra hne
    exact hb.cluster_ne (by omega) hzero
  have hnone : size * nmemb = 0 := by
    rcases hfit with hfull | hshort | hcut
    · omega
    · omega
    · rw [hend, Nat.sub_self] at hcut
      exact absurd (Nat.dvd_zero size) hcut
  refine ⟨List.eq_nil_of_length_eq_zero (by omega), fun hs hm => ?_⟩
  exact absurd hnone (Nat.mul_ne_zero (by omega) (by omega))

/-- **A sequence of calls stays on the chain exactly when** the file does, or the requests stop at
    its end. Induction on the requests. -/
theorem readsOnChain_iff (hc : Cursor fs h) (h0 : h.filePos = 0) (h1 : h.positionInCluster = 0)
    (hb : ChainReach d fs h.currentCluster h.fileSize bytes) {fuel : Nat} (hfuel : 0 < fuel)
    (requests : List (Nat × Nat)) : ∀ {p : Nat}, p ≤ bytes → (∀ q ∈ requests, q.1 ≤ fuel) →
      (ReadsOnChain d fs fuel h.currentCluster requests (h.moved d fs p) ↔
        bytes = h.fileSize ∨ StopsAtEnd bytes requests p) := by
  induction requests with
  | nil => exact fun _ _ => ⟨fun _ => Or.inr trivial, fun _ => trivial⟩
  | cons q requests ih =>
    intro p hp hq
    obtain ⟨size, nmemb⟩ := q
    have hsize : size ≤ fuel := hq _ List.mem_cons_self
    have hle := hb.le
    by_cases hfit : bytes = h.fileSize ∨ size * nmemb ≤ bytes - p ∨ ¬ size ∣ bytes - p
    · rw [readsOnChain_next hc h0 h1 hb hfuel hsize requests hp hfit,
        ih (by omega) fun q hm => hq q (List.mem_cons_of_mem _ hm)]
      exact or_congr_right' fun hfull => stopsAtEnd_next hp (hfit.resolve_left hfull)
    · obtain ⟨hpart, hlong, hdvd⟩ :
          bytes ≠ h.fileSize ∧ bytes - p < size * nmemb ∧ size ∣ bytes - p := by
        rw [not_or, not_or, not_not, Nat.not_le] at hfit
        exact hfit
      obtain ⟨t, ht, hcount, hzero⟩ :=
        readItems_beyond hc h0 h1 hb (by omega) hfuel hsize nmemb hp hlong hdvd
      rw [ReadsOnChain, StopsAtEnd, if_neg (by omega)]
      constructor
      · intro hreads
        obtain ⟨k, hk, hne⟩ := (hreads.1 t ht hcount).onChain
        exact absurd (hk.trans hzero) (hne k (Nat.le_refl k))
      · rintro (hfull | ⟨hcut, -⟩)
        · exact absurd hfull hpart
        · exact absurd hdvd hcut

/-- Every file has such a part. -/
theorem chainReach_of_ends {start fileSize count : Nat} (hends : ChainEnds d fs start count)
    (hs : 0 < fs.clusterSizeBytes) (hlt : count * fs.clusterSizeBytes < fileSize) :
    ChainReach d fs start fileSize (count * fs.clusterSizeBytes) where
  le := Nat.le_of_lt hlt
  inside k hk := hends.2 k (Nat.lt_of_mul_lt_mul_right hk)
  ends _ := ⟨Nat.dvd_mul_left _ _, by
    rw [Nat.mul_div_cancel _ hs]
    exact hends.1⟩

theorem chainReach_of_long {start fileSize : Nat}
    (hlong : ∀ count, ChainEnds d fs start count → fileSize ≤ count * fs.clusterSizeBytes) :
    ChainReach d fs start fileSize fileSize where
  le := Nat.le_refl _
  inside k hk hzero := by
    -- the first cluster number 0 is the end of the chain
    have hex : ∃ count, chainCluster d fs start count = 0 := ⟨k, hzero⟩
    have hends : ChainEnds d fs start (Nat.find hex) :=
      ⟨Nat.find_spec hex, fun j hj => Nat.find_min hex hj⟩
    have hle : Nat.find hex * fs.clusterSizeBytes ≤ k * fs.clusterSizeBytes :=
      Nat.mul_le_mul_right _ (Nat.find_min' hex hzero)
    exact absurd (hlong _ hends) (by omega)
  ends h := absurd h (Nat.lt_irrefl _)

end Reach

/-- **Every byte that calls on an opened file deliver comes from the chain of the file, exactly
    when** the chain has the clusters that the size needs, or the requests stop at its end. Each
    item takes at most as many turns as it has bytes. -/
theorem fat32Reads_onChain_iff {k₁ k₂ k₃ : Kernel} {d : Disk} {fs : Fat32Private} {turns ptr : Nat}
    {part : List UInt8} {next : List (List UInt8)} {mode : FileMode} {h : FileHandle}
    (hr : (fat32Resolve k₁ d).2.1 = some fs)
    (ho : fat32Open k₂ d fs turns part next mode = some (.ok (ptr, h), k₃)) {fuel : Nat}
    (hfuel : 0 < fuel) {requests : List (Nat × Nat)} (hq : ∀ q ∈ requests, q.1 ≤ fuel) :
    ReadsOnChain d fs fuel h.startingCluster requests h ↔
      ∀ count, ChainEnds d fs h.startingCluster count →
        h.fileSize ≤ count * fs.clusterSizeBytes ∨
          StopsAtEnd (count * fs.clusterSizeBytes) requests 0 := by
  have hc := cursor_of_open hr ho
  obtain ⟨hs, h0, h1, h2, -⟩ := fat32Open_ok ho
  rw [← h2]
  have hiff : ∀ {bytes : Nat}, ChainReach d fs h.currentCluster h.fileSize bytes →
      (ReadsOnChain d fs fuel h.currentCluster requests h ↔
        bytes = h.fileSize ∨ StopsAtEnd bytes requests 0) := by
    intro bytes hb
    have hiff := readsOnChain_iff hc h0 h1 hb hfuel requests (Nat.zero_le bytes) hq
    rwa [moved_zero hc] at hiff
  constructor
  · intro hreads count hends
    by_cases hlt : count * fs.clusterSizeBytes < h.fileSize
    · exact Or.inr (((hiff (chainReach_of_ends hends hs hlt)).mp hreads).resolve_left (by omega))
    · exact Or.inl (by omega)
  · intro hall
    by_cases hlong : ∀ count, ChainEnds d fs h.currentCluster count →
        h.fileSize ≤ count * fs.clusterSizeBytes
    · exact (hiff (chainReach_of_long hlong)).mpr (Or.inl rfl)
    · obtain ⟨count, hcount⟩ := not_forall.mp hlong
      obtain ⟨hends, hlt⟩ := Classical.not_imp.mp hcount
      have hstop := (hall count hends).resolve_left hlt
      exact (hiff (chainReach_of_ends hends hs (by omega))).mpr (Or.inr hstop)

/-- A file whose two clusters are there, read beyond its end. -/
theorem fat32Reads_onChain_iff_small :
    ReadsOnChain oneFileVolume smallPrivate 500 3 [(500, 1), (1, 300)] oneFileHandle := by
  obtain ⟨k, hopen⟩ := oneFileVolume_open
  refine (fat32Reads_onChain_iff oneFileVolume_resolve hopen (by decide) (by decide)).mpr ?_
  intro count hends
  left
  have h0 : chainCluster oneFileVolume smallPrivate 3 0 ≠ 0 := (oneFileVolume_chain 0 (by decide)).1
  have h1 : chainCluster oneFileVolume smallPrivate 3 1 ≠ 0 := (oneFileVolume_chain 1 (by decide)).1
  have hcount : count ≠ 0 ∧ count ≠ 1 :=
    ⟨fun e => h0 (e ▸ hends.1), fun e => h1 (e ▸ hends.1)⟩
  show 700 ≤ count * 512
  omega

/-- The chain of the file is cut behind its first cluster. -/
def cutChain : Nat → Nat
  | 3 => 0x0FFFFFF8
  | _ => 0

def cutFileVolume : Disk := smallVolume cutChain oneFile

theorem cutFileVolume_resolve :
    (fat32Resolve bootKernel cutFileVolume).2.1 = some smallPrivate := by
  decide +kernel

theorem cutFileVolume_open :
    ∃ k, fat32Open (fat32Resolve bootKernel cutFileVolume).2.2 cutFileVolume smallPrivate 1 [0x61]
      [] .read = some (.ok (0x01003000, oneFileHandle), k) := by
  have h : (fat32Open (fat32Resolve bootKernel cutFileVolume).2.2 cutFileVolume smallPrivate 1
      [0x61] [] .read).map Prod.fst = some (.ok (0x01003000, oneFileHandle)) := by
    decide +kernel
  obtain ⟨⟨res, k⟩, hopen, hfst⟩ := Option.map_eq_some_iff.mp h
  dsimp only at hfst
  subst hfst
  exact ⟨k, hopen⟩

/-- **A file of 700 bytes with one cluster of 512**: behind its 512 bytes, the next byte comes from
    the cluster 0. -/
theorem fat32Reads_leave_chain :
    ¬ ∀ (k₁ k₂ k₃ : Kernel) (d : Disk) (fs : Fat32Private) (turns ptr : Nat) (part : List UInt8)
      (next : List (List UInt8)) (mode : FileMode) (h : FileHandle),
      (fat32Resolve k₁ d).2.1 = some fs →
      fat32Open k₂ d fs turns part next mode = some (.ok (ptr, h), k₃) →
      ∀ (fuel : Nat) (requests : List (Nat × Nat)), 0 < fuel → (∀ q ∈ requests, q.1 ≤ fuel) →
        ReadsOnChain d fs fuel h.startingCluster requests h := by
  intro hall
  obtain ⟨k, hopen⟩ := cutFileVolume_open
  have hreads := hall _ _ _ _ _ _ _ _ _ _ _ cutFileVolume_resolve hopen 512 [(512, 1), (1, 1)]
    (by decide) (by decide)
  have hc := cursor_of_open cutFileVolume_resolve hopen
  have hends : ChainEnds cutFileVolume smallPrivate 3 1 := by
    refine ⟨by decide +kernel, fun j hj => ?_⟩
    rw [Nat.lt_one_iff.mp hj]
    decide
  have hb : ChainReach cutFileVolume smallPrivate 3 700 512 :=
    chainReach_of_ends hends (by decide) (by decide)
  have hiff := readsOnChain_iff hc rfl rfl hb (show 0 < 512 by decide) [(512, 1), (1, 1)]
    (Nat.zero_le 512) (by decide)
  rw [moved_zero hc] at hiff
  rcases hiff.mp hreads with hfull | hstop
  · exact absurd hfull (by decide)
  · exact hstop.1 (by decide)

end PeachKernel
