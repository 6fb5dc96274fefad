/-
  MfsMaster.Inode.Fresh
  **A NEW INODE IS NEW.**

  `Covers p P`: the bit mask of the pool marks every inode that has `P` (below: that is
  the inode of a node).  Then `fsnodes_get_next_id` returns an inode without `P`, and
  the pool covers it from then on.
-/
import MfsMaster.Inode.Pool

namespace MfsMaster.InodePool

/-! ## §1. The search. -/

theorem lowBit_clear (mask : Nat → Bool) (pos n i : Nat)
    (h : ∃ j, i ≤ j ∧ j < i + n ∧ mask (32 * pos + j) = false) :
    mask (32 * pos + lowBit mask pos n i) = false ∧ lowBit mask pos n i < i + n := by
  induction n generalizing i with
  | zero =>
    obtain ⟨j, hij, hj, _⟩ := h
    omega
  | succ n ih =>
    unfold lowBit
    split
    next hset =>
      obtain ⟨j, hij, hj, hclear⟩ := h
      have hne : j ≠ i := by
        intro heq
        rw [heq, hset] at hclear
        cases hclear
      have := ih (i + 1) ⟨j, by omega, by omega, hclear⟩
      exact ⟨this.1, by omega⟩
    next hclear =>
      exact ⟨by simpa using hclear, by omega⟩

theorem not_wordFull {mask : Nat → Bool} {pos : Nat} (h : wordFull mask pos = false) :
    ∃ j, 0 ≤ j ∧ j < 0 + 32 ∧ mask (32 * pos + j) = false := by
  obtain ⟨j, hj, hclear⟩ := List.all_eq_false.mp h
  exact ⟨j, Nat.zero_le j, by simpa using hj, by simpa using hclear⟩

/-- The word found is not full, or all words are and it is the one after them. -/
theorem firstWord_spec (mask : Nat → Bool) (n pos : Nat) :
    firstWord mask n pos ≤ pos + n
      ∧ (firstWord mask n pos < pos + n → wordFull mask (firstWord mask n pos) = false) := by
  induction n generalizing pos with
  | zero =>
    unfold firstWord
    exact ⟨by omega, fun h => by omega⟩
  | succ n ih =>
    unfold firstWord
    split
    · obtain ⟨hle, hfull⟩ := ih (pos + 1)
      exact ⟨by omega, fun h => hfull (by omega)⟩
    next hnot => exact ⟨by omega, fun _ => by simpa using hnot⟩

/-! ## §2. The invariant. -/

/-- Every inode with `P` is marked. -/
structure Covers (p : InodePool) (P : Nat → Prop) : Prop where
  search : p.searchpos ≤ p.bitmasksize
  used : ∀ i, P i → p.freebitmask i = true ∧ i < 32 * p.bitmasksize

theorem Covers.mono {p : InodePool} {P Q : Nat → Prop} (h : p.Covers P) (hQ : ∀ i, Q i → P i) :
    p.Covers Q :=
  ⟨h.search, fun i hi => h.used i (hQ i hi)⟩

variable {p : InodePool} {P : Nat → Prop}

/-- What `fsnodes_get_next_id` returns: a clear bit, inside the mask as it is afterwards. -/
theorem fsnodesGetNextId_spec (hs : p.searchpos ≤ p.bitmasksize) :
    (p.freebitmask p.fsnodesGetNextId.1 = false ∨ 32 * p.bitmasksize ≤ p.fsnodesGetNextId.1)
      ∧ p.fsnodesGetNextId.1 < 32 * p.fsnodesGetNextId.2.bitmasksize
      ∧ p.bitmasksize ≤ p.fsnodesGetNextId.2.bitmasksize
      ∧ p.fsnodesGetNextId.2.searchpos ≤ p.fsnodesGetNextId.2.bitmasksize := by
  unfold fsnodesGetNextId
  dsimp only
  generalize hpos : firstWord p.freebitmask (p.bitmasksize - p.searchpos) p.searchpos = pos
  have hword := firstWord_spec p.freebitmask (p.bitmasksize - p.searchpos) p.searchpos
  rw [hpos] at hword
  generalize hmask : (fun j => if p.bitmasksize * 32 ≤ j then false else p.freebitmask j) = mask
  -- in either case the word has a clear bit once the mask has grown
  have hclear : ∃ j, 0 ≤ j ∧ j < 0 + 32 ∧ mask (32 * pos + j) = false := by
    by_cases hlt : pos < p.bitmasksize
    · obtain ⟨j, h0, hj, hbit⟩ := not_wordFull (hword.2 (by omega))
      refine ⟨j, h0, hj, ?_⟩
      rw [← hmask]
      dsimp only
      split
      · rfl
      · exact hbit
    · refine ⟨0, by omega, by omega, ?_⟩
      rw [← hmask]
      exact if_pos (by omega)
  obtain ⟨hbit, hlow⟩ := lowBit_clear mask pos 32 0 hclear
  generalize lowBit mask pos 32 0 = b at hbit hlow
  refine ⟨?_, ?_, ?_, ?_⟩
  · rw [← hmask] at hbit
    dsimp only at hbit
    split at hbit
    · right
      omega
    left
    rw [Nat.add_comm]
    exact hbit
  · split <;> omega
  · split <;> omega
  · split <;> omega

/-- A new inode is new. -/
theorem Covers.fresh (h : p.Covers P) : ¬ P p.fsnodesGetNextId.1 := by
  intro hP
  obtain ⟨hbit, hlt⟩ := h.used _ hP
  rcases (fsnodesGetNextId_spec h.search).1 with hclear | hle
  · rw [hclear] at hbit
    cases hbit
  · omega

/-- From then on it is covered. -/
theorem Covers.next (h : p.Covers P) :
    p.fsnodesGetNextId.2.Covers fun i => P i ∨ i = p.fsnodesGetNextId.1 := by
  obtain ⟨_, hlt, hgrow, hsearch⟩ := fsnodesGetNextId_spec h.search
  refine ⟨hsearch, fun i hi => ?_⟩
  rcases hi with hP | rfl
  · obtain ⟨hbit, hi⟩ := h.used i hP
    refine ⟨?_, by omega⟩
    show (if i = _ then true else if _ then false else p.freebitmask i) = true
    split
    · rfl
    · rw [if_neg (by omega)]
      exact hbit
  · exact ⟨if_pos rfl, hlt⟩

/-- Putting an inode on the free list clears no bit. -/
theorem Covers.freeId (h : p.Covers P) (i : Nat) (ts : UInt32) :
    (p.fsnodesFreeId i ts).Covers P := by
  have hsame : (p.restamp ts).freebitmask = p.freebitmask
      ∧ (p.restamp ts).searchpos = p.searchpos ∧ (p.restamp ts).bitmasksize = p.bitmasksize := by
    unfold restamp
    split <;> exact ⟨rfl, rfl, rfl⟩
  obtain ⟨hbits, hsearch, hsize⟩ := hsame
  refine ⟨?_, fun j hj => ?_⟩
  · show (p.restamp ts).searchpos ≤ (p.restamp ts).bitmasksize
    rw [hsearch, hsize]
    exact h.search
  show (p.restamp ts).freebitmask j = true ∧ j < 32 * (p.restamp ts).bitmasksize
  rw [hbits, hsize]
  exact h.used j hj

end MfsMaster.InodePool
