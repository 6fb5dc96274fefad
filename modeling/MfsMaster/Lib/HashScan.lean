/-
  MfsMaster.Lib.HashScan
  **SCANNING A HASH TABLE THAT GROWS BUCKET BY BUCKET** (general, no file system here).

  The table has `size` chains, of which those below `rehashpos` exist.  While it grows,
  `size / 2 ≤ rehashpos < size`: the chain `rehashpos - size / 2` is the next to be split,
  its keys with hash `rehashpos` go to the new chain `rehashpos`.  Operations on the table
  split a few chains each (`move`).

  A SCAN visits the chains in order and follows each one through the pointers in the
  table, while operations go on.  Between two chains nothing can go wrong: a split takes
  keys forward only.  Within a chain it can, when that chain itself is split.

      Wf             — every key is in the chain it belongs to
      Covered        — what the scan has passed is clean
      covered_move   — splits keep it, as long as they do not reach the chain at hand
-/
import Mathlib

namespace MfsMaster.Lib

/-- A table of chains; `elem` counts the keys. -/
structure HashTab (κ : Type*) where
  size : Nat
  rehashpos : Nat
  elem : Nat
  bucket : Nat → List κ

variable {b : Nat}

namespace HashTab

variable {κ : Type*} (hash : κ → Nat)

variable {k : κ} {P : HashTab κ → Prop} {factor : Nat}

/-! ## §1. Operations. -/

/-- The chain a key belongs to. -/
def home (t : HashTab κ) (k : κ) : Nat :=
  let h := hash k % t.size
  if t.rehashpos ≤ h then h - t.size / 2 else h

/-- The chain that is split next. -/
def low (t : HashTab κ) : Nat := t.rehashpos - t.size / 2

/-- The next chain is split. -/
def split (t : HashTab κ) : HashTab κ :=
  { t with
    rehashpos := t.rehashpos + 1
    bucket := fun b =>
      if b = t.rehashpos then (t.bucket t.low).filter fun k => hash k % t.size == t.rehashpos
      else if b = t.low then (t.bucket t.low).filter fun k => hash k % t.size != t.rehashpos
      else t.bucket b }

/-- Chains are split until `factor` keys were looked at or the table is complete; `moved` keys
were looked at so far. -/
def moveLoop (factor : Nat) : Nat → Nat → HashTab κ → HashTab κ
  | 0, _, t => t
  | fuel + 1, moved, t =>
    if moved + (t.bucket t.low).length < factor then
      moveLoop factor fuel (moved + (t.bucket t.low).length) (t.split hash)
    else t.split hash

def move (factor : Nat) (t : HashTab κ) : HashTab κ :=
  t.moveLoop hash factor (t.size - t.rehashpos) 0

/-- A new key goes to the head of its chain. -/
def insert (t : HashTab κ) (k : κ) : HashTab κ :=
  { t with
    elem := t.elem + 1
    bucket := fun b => if b = t.home hash k then k :: t.bucket b else t.bucket b }

/-- A key leaves its chain. -/
def erase [DecidableEq κ] (t : HashTab κ) (k : κ) : HashTab κ :=
  { t with
    elem := t.elem - 1
    bucket := fun b => if b = t.home hash k then (t.bucket b).erase k else t.bucket b }

/-- The table starts to grow. -/
def grow (t : HashTab κ) : HashTab κ := { t with size := 2 * t.size, rehashpos := t.size }

/-- The pointer to the key after `k`. -/
def next [DecidableEq κ] (t : HashTab κ) (k : κ) : Option κ :=
  ((t.bucket (t.home hash k)).dropWhile (· ≠ k)).tail.head?

/-! ## §2. Every key in its chain. -/

/-- The key is in the table. -/
def Mem (t : HashTab κ) (k : κ) : Prop := ∃ b < t.rehashpos, k ∈ t.bucket b

structure Wf (t : HashTab κ) : Prop where
  even : 2 * (t.size / 2) = t.size
  half : t.size / 2 ≤ t.rehashpos
  le : t.rehashpos ≤ t.size
  homes : ∀ b < t.rehashpos, ∀ k ∈ t.bucket b, t.home hash k = b
  nodup : ∀ b < t.rehashpos, (t.bucket b).Nodup

variable {hash} {t : HashTab κ}

theorem low_lt (hwf : t.Wf hash) (hlt : t.rehashpos < t.size) : t.low < t.rehashpos := by
  have := hwf.even
  have := hwf.half
  unfold low
  omega

theorem bucket_split_of_lt (hb : b < t.rehashpos) :
    ((t.split hash).bucket b).Sublist (t.bucket b) := by
  unfold split
  dsimp only
  rw [if_neg (Nat.ne_of_lt hb)]
  split
  next hlow => exact hlow ▸ List.filter_sublist
  · exact .refl _

/-- The keys of a chain after a split: those that were moved, or those that stayed. -/
theorem mem_bucket_split : k ∈ (t.split hash).bucket b
    ↔ if b = t.rehashpos then k ∈ t.bucket t.low ∧ hash k % t.size = t.rehashpos
      else k ∈ t.bucket b ∧ (b = t.low → hash k % t.size ≠ t.rehashpos) := by
  unfold split
  dsimp only
  split
  · rw [List.mem_filter, beq_iff_eq]
  split
  next hlow => rw [List.mem_filter, bne_iff_ne, hlow, forall_prop_of_true rfl]
  next hlow => exact ⟨fun hk => ⟨hk, fun h => absurd h hlow⟩, And.left⟩

theorem wf_split (hwf : t.Wf hash) (hlt : t.rehashpos < t.size) : (t.split hash).Wf hash := by
  have heven := hwf.even
  have hhalf := hwf.half
  have hlow := low_lt hwf hlt
  refine ⟨hwf.even, Nat.le_succ_of_le hwf.half, hlt, fun b hb k hk => ?_, fun b hb => ?_⟩
  · have hlowdef : t.low = t.rehashpos - t.size / 2 := rfl
    show (if t.rehashpos + 1 ≤ hash k % t.size then hash k % t.size - t.size / 2
      else hash k % t.size) = b
    have hk := mem_bucket_split.mp hk
    split at hk
    next hnew => rw [hk.2, if_neg (by omega), hnew]
    next hold =>
      have hhome := hwf.homes b (lt_of_le_of_ne (Nat.lt_succ_iff.mp hb) hold) k hk.1
      have hstayed := hk.2
      unfold home at hhome
      dsimp only at hhome
      split at hhome
      · rw [if_pos (by omega), hhome]
      · rw [if_neg (by omega), hhome]
  · by_cases hnew : b = t.rehashpos
    · unfold split
      dsimp only
      rw [if_pos hnew]
      exact (hwf.nodup t.low hlow).filter _
    · have hb' : b < t.rehashpos := lt_of_le_of_ne (Nat.lt_succ_iff.mp hb) hnew
      exact (hwf.nodup b hb').sublist (bucket_split_of_lt hb')

theorem mem_split (hwf : t.Wf hash) (hlt : t.rehashpos < t.size) :
    (t.split hash).Mem k ↔ t.Mem k := by
  have hlow := low_lt hwf hlt
  constructor
  · rintro ⟨b, hb, hk⟩
    have hk := mem_bucket_split.mp hk
    split at hk
    · exact ⟨t.low, hlow, hk.1⟩
    next hold => exact ⟨b, lt_of_le_of_ne (Nat.lt_succ_iff.mp hb) hold, hk.1⟩
  · rintro ⟨b, hb, hk⟩
    by_cases hmoved : b = t.low ∧ hash k % t.size = t.rehashpos
    · refine ⟨t.rehashpos, Nat.lt_succ_self _, mem_bucket_split.mpr ?_⟩
      rw [if_pos rfl]
      exact ⟨hmoved.1 ▸ hk, hmoved.2⟩
    · refine ⟨b, Nat.lt_succ_of_lt hb, mem_bucket_split.mpr ?_⟩
      rw [if_neg (Nat.ne_of_lt hb)]
      exact ⟨hk, not_and.mp hmoved⟩

/-- The rule for what every split keeps. -/
theorem moveLoop_induct (hstep : ∀ t : HashTab κ, t.rehashpos < t.size → P t → P (t.split hash)) :
    ∀ (fuel moved : Nat) (t : HashTab κ), fuel = t.size - t.rehashpos → P t →
      P (t.moveLoop hash factor fuel moved) := by
  intro fuel
  induction fuel with
  | zero => exact fun _ _ _ h => h
  | succ fuel ih =>
    intro moved t hfuel h
    have hlt : t.rehashpos < t.size := by omega
    unfold moveLoop
    split
    · refine ih _ _ ?_ (hstep t hlt h)
      show fuel = t.size - (t.rehashpos + 1)
      omega
    · exact hstep t hlt h

theorem move_induct
    (hstep : ∀ t : HashTab κ, t.rehashpos < t.size → P t → P (t.split hash)) (h : P t) :
    P (t.move hash factor) :=
  moveLoop_induct hstep _ 0 t rfl h

/-- A move keeps the layout, the keys and the size, and only goes forward. -/
theorem move_spec (hwf : t.Wf hash) (factor : Nat) :
    (t.move hash factor).Wf hash ∧ (∀ k, (t.move hash factor).Mem k ↔ t.Mem k)
      ∧ (t.move hash factor).size = t.size ∧ t.rehashpos ≤ (t.move hash factor).rehashpos
      ∧ (t.move hash factor).elem = t.elem
      ∧ ∀ b < t.rehashpos, ((t.move hash factor).bucket b).Sublist (t.bucket b) := by
  refine move_induct (P := fun t' => t'.Wf hash ∧ (∀ k, t'.Mem k ↔ t.Mem k) ∧ t'.size = t.size
    ∧ t.rehashpos ≤ t'.rehashpos ∧ t'.elem = t.elem
    ∧ ∀ b < t.rehashpos, (t'.bucket b).Sublist (t.bucket b)) ?_
    ⟨hwf, fun _ => .rfl, rfl, le_rfl, rfl, fun _ _ => .refl _⟩
  rintro t' hlt ⟨hwf', hmem, hsize, hpos, helem, hsub⟩
  refine ⟨wf_split hwf' hlt, fun k => (mem_split hwf' hlt).trans (hmem k), hsize,
    Nat.le_succ_of_le hpos, helem, fun b hb => ?_⟩
  exact (bucket_split_of_lt (hb.trans_le hpos)).trans (hsub b hb)

/-- The table is not growing, or the chain has been split already or is a new one, or enough keys
come before it. -/
def Untouched (factor : Nat) (t : HashTab κ) (b : Nat) : Prop :=
  t.size ≤ t.rehashpos ∨ t.size / 2 ≤ b ∨ b < t.low
    ∨ factor ≤ ((List.range' t.low (b - t.low)).map fun q => (t.bucket q).length).sum

instance (factor : Nat) (t : HashTab κ) (b : Nat) : Decidable (Untouched factor t b) :=
  inferInstanceAs (Decidable (_ ∨ _ ∨ _ ∨ _))

/-- A chain that is not the next one survives a split. -/
theorem bucket_split_of_ne (hb : b ≠ t.rehashpos) (hlow : b ≠ t.low) :
    (t.split hash).bucket b = t.bucket b := by
  unfold split
  dsimp only
  rw [if_neg hb, if_neg hlow]

/-- A chain that was split, or a new one, is not touched again. -/
theorem bucket_move_of_past (hwf : t.Wf hash) (hb : b < t.rehashpos)
    (hpast : t.size / 2 ≤ b ∨ b < t.low) : (t.move hash factor).bucket b = t.bucket b := by
  have hall : (t.move hash factor).bucket b = t.bucket b
      ∧ t.rehashpos ≤ (t.move hash factor).rehashpos ∧ (t.move hash factor).size = t.size := by
    refine move_induct (P := fun t' => t'.bucket b = t.bucket b ∧ t.rehashpos ≤ t'.rehashpos
      ∧ t'.size = t.size) ?_ ⟨rfl, le_rfl, rfl⟩
    rintro t' hlt ⟨hsame, hpos, hsize⟩
    refine ⟨?_, Nat.le_succ_of_le hpos, hsize⟩
    have heven := hwf.even
    rw [bucket_split_of_ne (by omega) (by unfold low at hpast ⊢; omega), hsame]
  exact hall.1

/-- The loop stops before a chain that enough keys come before. -/
theorem bucket_moveLoop_of_sum (hwf : t.Wf hash) (hb : b < t.size / 2) :
    ∀ (fuel moved : Nat), fuel = t.size - t.rehashpos → moved < factor →
      factor ≤ moved + ((List.range' t.low (b - t.low)).map fun q => (t.bucket q).length).sum →
      (t.moveLoop hash factor fuel moved).bucket b = t.bucket b := by
  intro fuel
  induction fuel generalizing t with
  | zero => exact fun _ _ _ _ => rfl
  | succ fuel ih =>
    intro moved hfuel hmoved hsum
    have hlt : t.rehashpos < t.size := by omega
    have heven := hwf.even
    have hhalf := hwf.half
    have hlowdef : t.low = t.rehashpos - t.size / 2 := rfl
    -- the chain to be split comes before `b`
    have hlow : t.low < b := by
      by_contra hge
      rw [Nat.sub_eq_zero_of_le (Nat.not_lt.mp hge)] at hsum
      simp only [List.range'_zero, List.map_nil, List.sum_nil] at hsum
      omega
    have hsame : (t.split hash).bucket b = t.bucket b :=
      bucket_split_of_ne (by omega) (by omega)
    unfold moveLoop
    split
    next hless =>
      have hlow' : (t.split hash).low = t.low + 1 := by
        show t.rehashpos + 1 - t.size / 2 = t.low + 1
        omega
      have hrest : ((List.range' (t.low + 1) (b - (t.low + 1))).map
            fun q => ((t.split hash).bucket q).length)
          = (List.range' (t.low + 1) (b - (t.low + 1))).map fun q => (t.bucket q).length := by
        refine List.map_congr_left fun q hq => ?_
        have hq := List.mem_range'_1.mp hq
        rw [bucket_split_of_ne (by omega) (by omega)]
      have hsplit : List.range' t.low (b - t.low)
          = t.low :: List.range' (t.low + 1) (b - (t.low + 1)) := by
        rw [← List.range'_succ]
        congr 1
        omega
      rw [hsplit, List.map_cons, List.sum_cons] at hsum
      rw [ih (wf_split hwf hlt) hb _ (by show fuel = t.size - (t.rehashpos + 1); omega) hless
        (by rw [hlow', hrest]; omega), hsame]
    · exact hsame

/-- **A chain out of reach of the next move stays as it is.** -/
theorem bucket_move_of_untouched (hwf : t.Wf hash) (hb : b < t.rehashpos)
    (hfactor : 0 < factor) (h : Untouched factor t b) :
    (t.move hash factor).bucket b = t.bucket b := by
  rcases h with hdone | hnew | hpast | hsum
  · unfold move
    rw [Nat.sub_eq_zero_of_le hdone]
    rfl
  · exact bucket_move_of_past hwf hb (.inl hnew)
  · exact bucket_move_of_past hwf hb (.inr hpast)
  by_cases hhalf : t.size / 2 ≤ b
  · exact bucket_move_of_past hwf hb (.inl hhalf)
  · exact bucket_moveLoop_of_sum hwf (Nat.not_le.mp hhalf) _ 0 rfl hfactor (by omega)

/-! ## §3. New keys and growth. -/

theorem home_lt (hwf : t.Wf hash) (hpos : 0 < t.size) : t.home hash k < t.rehashpos := by
  have heven := hwf.even
  have hhalf := hwf.half
  have hmod := Nat.mod_lt (hash k) hpos
  unfold home
  dsimp only
  split <;> omega

theorem mem_bucket_insert {k' : κ} : k' ∈ (t.insert hash k).bucket b
    ↔ (b = t.home hash k ∧ k' = k) ∨ k' ∈ t.bucket b := by
  unfold insert
  dsimp only
  split
  next hb => rw [List.mem_cons, and_iff_right hb]
  next hb => exact (or_iff_right fun h => hb h.1).symm

theorem mem_insert {k' : κ} (hwf : t.Wf hash) (hpos : 0 < t.size) :
    (t.insert hash k).Mem k' ↔ k' = k ∨ t.Mem k' := by
  constructor
  · rintro ⟨b, hb, hk⟩
    exact (mem_bucket_insert.mp hk).imp And.right fun hk => ⟨b, hb, hk⟩
  · rintro (rfl | ⟨b, hb, hk⟩)
    · exact ⟨t.home hash k', home_lt hwf hpos, mem_bucket_insert.mpr (.inl ⟨rfl, rfl⟩)⟩
    · exact ⟨b, hb, mem_bucket_insert.mpr (.inr hk)⟩

theorem wf_insert (hwf : t.Wf hash) (hnew : ¬ t.Mem k) : (t.insert hash k).Wf hash := by
  refine ⟨hwf.even, hwf.half, hwf.le, fun b hb k' hk' => ?_, fun b hb => ?_⟩
  · rcases mem_bucket_insert.mp hk' with ⟨hhome, rfl⟩ | hk'
    · exact hhome.symm
    · exact hwf.homes b hb k' hk'
  · unfold insert
    dsimp only
    split
    · exact List.nodup_cons.mpr ⟨fun hk => hnew ⟨b, hb, hk⟩, hwf.nodup b hb⟩
    · exact hwf.nodup b hb

theorem bucket_erase_sublist [DecidableEq κ] :
    ((t.erase hash k).bucket b).Sublist (t.bucket b) := by
  unfold erase
  dsimp only
  split
  · exact List.erase_sublist
  · exact .refl _

theorem wf_erase [DecidableEq κ] (hwf : t.Wf hash) : (t.erase hash k).Wf hash :=
  ⟨hwf.even, hwf.half, hwf.le,
    fun b hb k' hk' => hwf.homes b hb k' (bucket_erase_sublist.subset hk'),
    fun b hb => (hwf.nodup b hb).sublist bucket_erase_sublist⟩

theorem mem_of_mem_erase [DecidableEq κ] {k' : κ} (h : (t.erase hash k).Mem k') : t.Mem k' := by
  obtain ⟨b, hb, hk⟩ := h
  exact ⟨b, hb, bucket_erase_sublist.subset hk⟩

theorem not_mem_erase [DecidableEq κ] (hwf : t.Wf hash) : ¬ (t.erase hash k).Mem k := by
  rintro ⟨b, hb, hk⟩
  have hhome := hwf.homes b hb k (bucket_erase_sublist.subset hk)
  unfold erase at hk
  dsimp only at hk
  rw [if_pos hhome.symm] at hk
  exact (hwf.nodup b hb).not_mem_erase hk

/-- Doubling the size leaves every key in its chain. -/
theorem home_grow (hpos : 0 < t.size) (hdone : t.rehashpos = t.size) :
    t.grow.home hash k = t.home hash k := by
  have hmod := Nat.mod_lt (hash k) hpos
  have hmod2 := Nat.mod_lt (hash k) (show 0 < 2 * t.size by omega)
  have hdvd : hash k % (2 * t.size) % t.size = hash k % t.size :=
    Nat.mod_mod_of_dvd _ (Nat.dvd_mul_left t.size 2)
  have hold : t.home hash k = hash k % t.size := if_neg (by omega)
  rw [hold]
  show (if t.size ≤ hash k % (2 * t.size) then hash k % (2 * t.size) - 2 * t.size / 2
    else hash k % (2 * t.size)) = hash k % t.size
  rw [← hdvd]
  generalize hash k % (2 * t.size) = h at hmod2
  split
  next hge =>
    rw [Nat.mod_eq_sub_mod hge, Nat.mod_eq_of_lt (by omega)]
    omega
  next hlt => rw [Nat.mod_eq_of_lt (Nat.not_le.mp hlt)]

theorem wf_grow (hwf : t.Wf hash) (hpos : 0 < t.size) (hdone : t.rehashpos = t.size) :
    t.grow.Wf hash := by
  refine ⟨?_, ?_, ?_, fun b hb k hk => ?_, fun b hb => ?_⟩
  · show 2 * (2 * t.size / 2) = 2 * t.size
    omega
  · show 2 * t.size / 2 ≤ t.size
    omega
  · show t.size ≤ 2 * t.size
    omega
  · rw [home_grow hpos hdone]
    exact hwf.homes b (hdone ▸ hb) k hk
  · exact hwf.nodup b (hdone ▸ hb)

/-- The same chains, up to the counter and to what is beyond `rehashpos`. -/
structure Agrees (t t' : HashTab κ) : Prop where
  size : t'.size = t.size
  rehashpos : t'.rehashpos = t.rehashpos
  bucket : ∀ b < t.rehashpos, t'.bucket b = t.bucket b

variable {t' : HashTab κ}

theorem Agrees.wf (h : Agrees t t') (hwf : t.Wf hash) : t'.Wf hash := by
  obtain ⟨size, rehashpos, elem, bucket⟩ := t'
  obtain ⟨rfl, rfl, hsame⟩ := h
  refine ⟨hwf.even, hwf.half, hwf.le, fun b hb k hk => ?_, fun b hb => ?_⟩
  · exact hwf.homes b hb k (hsame b hb ▸ hk)
  · exact (hsame b hb).symm ▸ hwf.nodup b hb

theorem Agrees.mem (h : Agrees t t') : t'.Mem k ↔ t.Mem k := by
  unfold Mem
  rw [h.rehashpos]
  exact exists_congr fun b => and_congr_right fun hb => by rw [h.bucket b hb]

/-! ## §4. The scan.

`walk` is `none` between two chains and `some p` within one, `p` being the pointer to the key
that is visited next. -/

variable [DecidableEq κ]

/-- What is left of the chain at hand. -/
def rest (t : HashTab κ) (pos : Nat) : Option (Option κ) → List κ
  | none => t.bucket pos
  | some none => []
  | some (some k) => (t.bucket pos).dropWhile (· ≠ k)

/-- Everything the scan has passed is clean. -/
structure Covered (t : HashTab κ) (pos : Nat) (walk : Option (Option κ)) (clean : κ → Prop) :
    Prop where
  pos_le : pos ≤ t.rehashpos
  within : walk ≠ none → pos < t.rehashpos
  pointer : ∀ k, walk = some (some k) → k ∈ t.bucket pos
  below : ∀ b < pos, ∀ k ∈ t.bucket b, clean k
  here : ∀ k ∈ t.bucket pos, k ∉ t.rest pos walk → clean k

variable {pos : Nat} {walk : Option (Option κ)} {clean clean' : κ → Prop}

theorem Covered.mono (h : Covered t pos walk clean)
    (hclean : ∀ k, t.Mem k → clean k → clean' k) : Covered t pos walk clean' where
  pos_le := h.pos_le
  within := h.within
  pointer := h.pointer
  below := fun b hb k hk => hclean k ⟨b, hb.trans_le h.pos_le, hk⟩ (h.below b hb k hk)
  here := fun k hk hrest => by
    have hwalk : walk ≠ none := by
      rintro rfl
      exact hrest hk
    exact hclean k ⟨pos, h.within hwalk, hk⟩ (h.here k hk hrest)

theorem covered_start : Covered t 0 none clean :=
  ⟨Nat.zero_le _, fun h => absurd rfl h, nofun, nofun, fun _ hk hrest => absurd hk hrest⟩

/-- The walk of a chain begins at its head. -/
theorem Covered.enter (h : Covered t pos none clean) (hlt : pos < t.rehashpos) :
    Covered t pos (some (t.bucket pos).head?) clean := by
  cases hb : t.bucket pos with
  | nil =>
    exact ⟨h.pos_le, fun _ => hlt, nofun, h.below, fun k hk _ => by rw [hb] at hk; cases hk⟩
  | cons c cs =>
    refine ⟨h.pos_le, fun _ => hlt, fun k hk => ?_, h.below, fun k hk hrest => ?_⟩
    · cases hk
      rw [hb]
      exact List.mem_cons_self
    refine absurd ?_ hrest
    show k ∈ (t.bucket pos).dropWhile (· ≠ c)
    rw [hb] at hk ⊢
    rwa [List.dropWhile_cons, if_neg (by simp)]

/-- A chain cut at one of its keys. -/
theorem dropWhile_append_of_nodup {pre cs : List κ} (h : (pre ++ k :: cs).Nodup) :
    (pre ++ k :: cs).dropWhile (· ≠ k) = k :: cs := by
  have hk : k ∉ pre := fun hk => (List.nodup_append'.mp h).2.2 hk List.mem_cons_self
  rw [List.dropWhile_append_of_pos fun x hx => decide_eq_true (ne_of_mem_of_not_mem hx hk),
    List.dropWhile_cons_of_neg (by simp)]

/-- **One visit**: the key is clean from now on, and the scan follows the pointer. -/
theorem Covered.visit (hwf : t.Wf hash) (h : Covered t pos (some (some k)) clean)
    (hk : clean k) : Covered t pos (some (t.next hash k)) clean := by
  have hlt := h.within nofun
  have hmem := h.pointer k rfl
  have hnodup := hwf.nodup pos hlt
  obtain ⟨pre, cs, hl⟩ := List.append_of_mem hmem
  have hdrop : (t.bucket pos).dropWhile (· ≠ k) = k :: cs := by
    rw [hl] at hnodup ⊢
    exact dropWhile_append_of_nodup hnodup
  have hnext : t.next hash k = cs.head? := by
    unfold next
    rw [hwf.homes pos hlt k hmem, hdrop]
    rfl
  have hrest : t.rest pos (some (t.next hash k)) = cs := by
    rw [hnext]
    cases cs with
    | nil => rfl
    | cons k' cs =>
      show (t.bucket pos).dropWhile (· ≠ k') = k' :: cs
      rw [hl, show pre ++ k :: k' :: cs = (pre ++ [k]) ++ k' :: cs by simp] at hnodup ⊢
      exact dropWhile_append_of_nodup hnodup
  refine ⟨h.pos_le, fun _ => hlt, fun k' hk' => ?_, h.below, fun k' hk' hno => ?_⟩
  · have hcs : cs.head? = some k' := hnext.symm.trans (Option.some.inj hk')
    rw [hl]
    exact List.mem_append_right _ (List.mem_cons_of_mem _ (List.mem_of_head? hcs))
  rw [hrest] at hno
  by_cases heq : k' = k
  · exact heq ▸ hk
  refine h.here k' hk' fun hin => ?_
  have hin : k' ∈ (t.bucket pos).dropWhile (· ≠ k) := hin
  rw [hdrop] at hin
  exact hno ((List.mem_cons.mp hin).resolve_left heq)

/-- The end of a chain. -/
theorem Covered.leave (h : Covered t pos (some none) clean) : Covered t (pos + 1) none clean where
  pos_le := h.within nofun
  within := fun hno => absurd rfl hno
  pointer := nofun
  below := fun b hb k hk => by
    by_cases hb' : b = pos
    · exact h.here k (hb' ▸ hk) List.not_mem_nil
    · exact h.below b (lt_of_le_of_ne (Nat.lt_succ_iff.mp hb) hb') k hk
  here := fun _ hk hrest => absurd hk hrest

/-- **At the end of the scan everything is clean.** -/
theorem Covered.done (h : Covered t pos none clean) (hend : t.rehashpos ≤ pos) :
    ∀ k, t.Mem k → clean k := by
  rintro k ⟨b, hb, hk⟩
  exact h.below b (hb.trans_le hend) k hk

/-- **Splits take keys forward only**, so they keep what the scan has passed clean; within a
chain the chain itself must be out of their reach. -/
theorem Covered.move (hwf : t.Wf hash) (hfactor : 0 < factor)
    (h : Covered t pos walk clean) (hsafe : walk ≠ none → Untouched factor t pos) :
    Covered (t.move hash factor) pos walk clean := by
  obtain ⟨_, _, _, hpos, _, hsub⟩ := move_spec hwf factor
  have hsame : walk ≠ none → (t.move hash factor).bucket pos = t.bucket pos := fun hwalk =>
    bucket_move_of_untouched hwf (h.within hwalk) hfactor (hsafe hwalk)
  refine ⟨h.pos_le.trans hpos, fun hwalk => (h.within hwalk).trans_le hpos, fun k hk => ?_,
    fun b hb k hk => ?_, fun k hk hno => ?_⟩
  · rw [hsame (by rw [hk]; nofun)]
    exact h.pointer k hk
  · exact h.below b hb k ((hsub b (hb.trans_le h.pos_le)).subset hk)
  cases walk with
  | none => exact absurd hk hno
  | some p =>
    have hchain := hsame nofun
    have hrest : (t.move hash factor).rest pos (some p) = t.rest pos (some p) := by
      cases p with
      | none => rfl
      | some c =>
        show ((t.move hash factor).bucket pos).dropWhile (· ≠ c) = _
        rw [hchain]
        rfl
    rw [hchain] at hk
    rw [hrest] at hno
    exact h.here k hk hno

/-- A new key is clean, wherever it goes. -/
theorem Covered.insert (h : Covered t pos walk clean) (hnew : ¬ t.Mem k) (hk : clean k) :
    Covered (t.insert hash k) pos walk clean := by
  refine ⟨h.pos_le, h.within, fun k' hk' => mem_bucket_insert.mpr (.inr (h.pointer k' hk')),
    fun b hb k' hk' => ?_, fun k' hk' hno => ?_⟩
  · rcases mem_bucket_insert.mp hk' with ⟨_, rfl⟩ | hk'
    · exact hk
    · exact h.below b hb k' hk'
  rcases mem_bucket_insert.mp hk' with ⟨_, rfl⟩ | hk'
  · exact hk
  refine h.here k' hk' fun hin => hno ?_
  match walk, h, hin, hno with
  | none, _, hin, _ => exact mem_bucket_insert.mpr (.inr hin)
  | some none, _, hin, _ => cases hin
  | some (some c), h, hin, _ =>
    -- the new key stands before the pointer
    have hc := h.pointer c rfl
    have hne : k ≠ c := fun heq => hnew ⟨pos, h.within nofun, heq ▸ hc⟩
    show k' ∈ ((t.insert hash k).bucket pos).dropWhile (· ≠ c)
    unfold HashTab.insert
    dsimp only
    split
    · rw [List.dropWhile_cons, if_pos (by simpa using hne)]
      exact hin
    · exact hin

theorem Covered.grow (h : Covered t pos walk clean) (hdone : t.rehashpos = t.size) :
    Covered t.grow pos walk clean := by
  have hle : ∀ n, n ≤ t.rehashpos → n ≤ t.grow.rehashpos := fun n hn => hn.trans hdone.le
  refine ⟨hle _ h.pos_le, fun hwalk => hle _ (h.within hwalk), h.pointer, h.below,
    fun k hk hno => h.here k hk ?_⟩
  match walk, hno with
  | none, hno => exact hno
  | some none, _ => exact List.not_mem_nil
  | some (some _), hno => exact hno

theorem Agrees.covered (h : Agrees t t') (hcov : Covered t pos walk clean) :
    Covered t' pos walk clean := by
  have hchain : walk ≠ none → t'.bucket pos = t.bucket pos := fun hwalk =>
    h.bucket pos (hcov.within hwalk)
  refine ⟨h.rehashpos ▸ hcov.pos_le, h.rehashpos ▸ hcov.within, fun k hk => ?_, fun b hb k hk => ?_,
    fun k hk hno => ?_⟩
  · rw [hchain (by rw [hk]; nofun)]
    exact hcov.pointer k hk
  · rw [h.bucket b (hb.trans_le hcov.pos_le)] at hk
    exact hcov.below b hb k hk
  have hwalk : walk ≠ none := by
    rintro rfl
    exact hno hk
  have hrest : t'.rest pos walk = t.rest pos walk := by
    unfold rest
    rw [hchain hwalk]
  exact hcov.here k (hchain hwalk ▸ hk) (hrest ▸ hno)

end HashTab

end MfsMaster.Lib
