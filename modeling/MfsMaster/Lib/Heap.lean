/-
  MfsMaster.Lib.Heap
  **A BINARY HEAP IN AN ARRAY**: the first `n` places of `h`, the children of place `i` at
  `2 i + 1` and `2 i + 2`, the smallest key at place 0.

  Main results:
    • `ordered_top`, `ordered_push`      — sorting from a changed top, or from a new last
      place, gives an ordered heap;
    • `filled_sortDown`, `filled_sortUp` — of the same entries;
    • `top_le`                           — the top of an ordered heap has the smallest key.
-/
import Mathlib.Data.List.Basic

namespace MfsMaster.Heap

variable {α : Type} (key : α → Nat) {h : Nat → α} {n pos i j : Nat} {x : α}

variable {fuel : Nat}

/-! ## §1. The two loops. -/

def parent (i : Nat) : Nat := (i - 1) / 2

theorem parent_lt (h0 : 0 < i) : parent i < i := by
  unfold parent
  omega

def swap (h : Nat → α) (i j : Nat) : Nat → α :=
  fun k => if k = i then h j else if k = j then h i else h k

/-- The smaller of the two children of `pos`. -/
def child (n : Nat) (h : Nat → α) (pos : Nat) : Nat :=
  if 2 * pos + 2 < n ∧ key (h (2 * pos + 2)) < key (h (2 * pos + 1)) then 2 * pos + 2
  else 2 * pos + 1

/-- The entry at `pos` goes down; `fuel` bounds the number of turns. -/
def sortDown (n : Nat) : Nat → (Nat → α) → Nat → Nat → α
  | 0, h, _ => h
  | fuel + 1, h, pos =>
    if n ≤ 2 * pos + 1 then h
    else if key (h pos) ≤ key (h (child key n h pos)) then h
    else sortDown n fuel (swap h pos (child key n h pos)) (child key n h pos)

/-- The entry at `pos` goes up. -/
def sortUp : Nat → (Nat → α) → Nat → Nat → α
  | 0, h, _ => h
  | fuel + 1, h, pos =>
    if pos = 0 then h
    else if key (h (parent pos)) ≤ key (h pos) then h
    else sortUp fuel (swap h pos (parent pos)) (parent pos)

/-! ## §2. The entries. -/

/-- `x` is an entry of the heap. -/
def Filled (n : Nat) (h : Nat → α) (x : α) : Prop := ∃ i < n, h i = x

theorem filled_swap (hi : i < n) (hj : j < n) : Filled n (swap h i j) x ↔ Filled n h x := by
  unfold Filled swap
  constructor
  · rintro ⟨k, hk, rfl⟩
    split
    · exact ⟨j, hj, rfl⟩
    split
    · exact ⟨i, hi, rfl⟩
    · exact ⟨k, hk, rfl⟩
  · rintro ⟨k, hk, rfl⟩
    by_cases hki : k = i
    · exact ⟨j, hj, by grind⟩
    by_cases hkj : k = j
    · exact ⟨i, hi, by grind⟩
    · exact ⟨k, hk, by grind⟩

theorem child_lt (hn : 2 * pos + 1 < n) : child key n h pos < n := by
  unfold child
  split <;> omega

theorem filled_sortDown (hpos : pos < n) :
    Filled n (sortDown key n fuel h pos) x ↔ Filled n h x := by
  induction fuel generalizing h pos with
  | zero => exact .rfl
  | succ fuel ih =>
    unfold sortDown
    split
    · exact .rfl
    next hn =>
    split
    · exact .rfl
    · have hchild := child_lt key (h := h) (Nat.lt_of_not_le hn)
      exact (ih hchild).trans (filled_swap hpos hchild)

theorem filled_sortUp (hpos : pos < n) : Filled n (sortUp key fuel h pos) x ↔ Filled n h x := by
  induction fuel generalizing h pos with
  | zero => exact .rfl
  | succ fuel ih =>
    unfold sortUp
    split
    · exact .rfl
    split
    · exact .rfl
    · have hparent : parent pos < n := by unfold parent; omega
      exact (ih hparent).trans (filled_swap hpos hparent)

/-! ## §3. The order. -/

/-- Every pair of an entry and its parent is in order, those at `pos` apart (`down`: the pairs
below `pos`, else the pair above), and the children of `pos` are not before its parent. -/
structure OrderedBut (down : Bool) (n : Nat) (h : Nat → α) (pos : Nat) : Prop where
  pairs : ∀ i, 0 < i → i < n → (if down then parent i else i) ≠ pos →
    key (h (parent i)) ≤ key (h i)
  grand : ∀ i, i < n → 0 < i → parent i = pos → 0 < pos → key (h (parent pos)) ≤ key (h i)

def Ordered (n : Nat) (h : Nat → α) : Prop :=
  ∀ i, 0 < i → i < n → key (h (parent i)) ≤ key (h i)

variable {key} {m : Nat} {h' : Nat → α}

theorem top_le (ho : Ordered key n h) (hi : i < n) : key (h 0) ≤ key (h i) := by
  induction i using Nat.strongRecOn with
  | ind i ih =>
    by_cases h0 : i = 0
    · exact Nat.le_of_eq (by rw [h0])
    · have hlt : parent i < i := by unfold parent; omega
      exact Nat.le_trans (ih _ hlt (Nat.lt_trans hlt hi)) (ho i (by omega) hi)

theorem OrderedBut.ordered_of_leaf (ho : OrderedBut key true n h pos) (hn : n ≤ 2 * pos + 1) :
    Ordered key n h := by
  intro i h0 hi
  refine ho.pairs i h0 hi ?_
  rw [if_pos rfl, parent]
  omega

theorem OrderedBut.ordered_of_pair (ho : OrderedBut key false n h pos)
    (hle : 0 < pos → key (h (parent pos)) ≤ key (h pos)) : Ordered key n h := by
  intro i h0 hi
  by_cases hne : i = pos
  · exact hne ▸ hle (hne ▸ h0)
  · exact ho.pairs i h0 hi hne

theorem child_le (hi : i < n) (h0 : 0 < i) (hp : parent i = pos) :
    key (h (child key n h pos)) ≤ key (h i) := by
  unfold child
  have hcase : i = 2 * pos + 1 ∨ i = 2 * pos + 2 := by
    unfold parent at hp
    omega
  obtain rfl | rfl := hcase
  · split <;> omega
  · split <;> omega

theorem OrderedBut.goDown (ho : OrderedBut key true n h pos) (hm : m < n)
    (hpar : parent m = pos) (hlt : pos < m) (hgt : key (h m) < key (h pos))
    (hmin : ∀ i, i < n → 0 < i → parent i = pos → key (h m) ≤ key (h i)) :
    OrderedBut key true n (swap h pos m) m := by
  have hgrand := ho.grand m hm (by omega) hpar
  constructor
  · intro i h0 hi hne
    have hpair := ho.pairs i h0 hi
    have hmin := hmin i hi h0
    have hlti := parent_lt h0
    unfold swap
    clear ho
    grind
  · intro i hi h0 hp _
    have hpair := ho.pairs i h0 hi
    have hlti := parent_lt h0
    unfold swap
    clear ho hmin
    grind

theorem OrderedBut.goUp (ho : OrderedBut key false n h pos) (hpos : pos < n) (h0 : 0 < pos)
    (hlt : key (h pos) < key (h (parent pos))) :
    OrderedBut key false n (swap h pos (parent pos)) (parent pos) := by
  have hltp := parent_lt h0
  constructor
  · intro i h0 hi hne
    have hpair := ho.pairs i h0 hi
    have hgrand := ho.grand i hi h0
    have hlti := parent_lt h0
    unfold swap
    clear ho
    grind
  · intro i hi h0 hp h1
    have hpair := ho.pairs i h0 hi
    have hpair' := ho.pairs (parent pos) h1 (by omega)
    have hltpp := parent_lt h1
    unfold swap
    clear ho
    grind

theorem ordered_sortDown (ho : OrderedBut key true n h pos) (hfuel : n ≤ pos + fuel) :
    Ordered key n (sortDown key n fuel h pos) := by
  induction fuel generalizing h pos with
  | zero => exact ho.ordered_of_leaf (by omega)
  | succ fuel ih =>
    unfold sortDown
    split
    · next hn => exact ho.ordered_of_leaf hn
    next hn =>
    split
    · next hle =>
      intro i h0 hi
      by_cases hp : parent i = pos
      · rw [hp]
        exact Nat.le_trans hle (child_le hi h0 hp)
      · exact ho.pairs i h0 hi hp
    · next hgt =>
      have hpar : parent (child key n h pos) = pos ∧ pos < child key n h pos := by
        unfold child parent
        split <;> omega
      exact ih (ho.goDown (child_lt key (by omega)) hpar.1 hpar.2 (Nat.lt_of_not_le hgt)
        fun i => child_le) (by omega)

theorem ordered_sortUp (ho : OrderedBut key false n h pos) (hpos : pos < n)
    (hfuel : pos ≤ fuel) : Ordered key n (sortUp key fuel h pos) := by
  induction fuel generalizing h pos with
  | zero => exact ho.ordered_of_pair (by omega)
  | succ fuel ih =>
    unfold sortUp
    split
    · exact ho.ordered_of_pair (by omega)
    next h0 =>
    split
    · next hle => exact ho.ordered_of_pair fun _ => hle
    next hgt =>
    have hlt := parent_lt (Nat.pos_of_ne_zero h0)
    exact ih (ho.goUp hpos (by omega) (Nat.lt_of_not_le hgt)) (by omega) (by omega)

theorem filled_top : Filled m (sortDown key m m h 0) x ↔ Filled m h x := by
  cases m with
  | zero => exact .rfl
  | succ m => exact filled_sortDown key (Nat.succ_pos m)

/-- A heap whose top was replaced, of no more entries than before. -/
theorem ordered_top (ho : Ordered key n h) (hm : m ≤ n)
    (hsame : ∀ i, 0 < i → i < m → h' i = h i) : Ordered key m (sortDown key m m h' 0) := by
  refine ordered_sortDown ⟨fun i h0 hi hne => ?_, by omega⟩ (by omega)
  have hlt := parent_lt h0
  rw [hsame i h0 hi, hsame (parent i) (Nat.pos_of_ne_zero hne) (by omega)]
  exact ho i h0 (by omega)

/-- A heap with a new last entry. -/
theorem ordered_push (ho : Ordered key n h) (hsame : ∀ i < n, h' i = h i) :
    Ordered key (n + 1) (sortUp key n h' n) := by
  refine ordered_sortUp ⟨fun i h0 hi hne => ?_, fun i hi h0 hp => ?_⟩ (by omega) (Nat.le_refl n)
  · have hlt := parent_lt h0
    have hi : i < n := Nat.lt_of_le_of_ne (Nat.le_of_lt_succ hi) hne
    rw [hsame i hi, hsame _ (by omega)]
    exact ho i h0 hi
  · have hlt := parent_lt h0
    omega

end MfsMaster.Heap
