/-
  MfsMaster.Data.WriteGrowth
  **HOW MUCH A WRITE MAKES A FILE GROW**, as `fsnodes_get_stats` counts it.

  The recount of the chunk table before and after `fs_writechunk` is compared entry by
  entry (`tabSize`).  A chunk at or before the end of the file is counted once it is
  there; a chunk beyond the end is not counted yet, but makes the file longer, so that
  the chunk that was the last one counts as a whole, and so do chunks that lay beyond
  the end:

      sizeGrowth             — the growth, from the file before the write
      chunkTabStats_write    — it is what the recount finds
-/
import MfsMaster.Data.RefsTables
import MfsMaster.Data.Lengths

namespace MfsMaster

/-! ## §1. The size of a table. -/

variable {w : Nat → UInt64}

namespace Master

variable {tab : List Nat} {i : Nat}

/-- What a chunk counts for. -/
def weight (last : Nat × UInt64) (i : Nat) : UInt64 :=
  if i < last.1 then mfsChunkSize + mfsHdrSize else if i = last.1 then last.2 else 0

/-- The size of a table whose first entry has the number `i`. -/
def tabSize (w : Nat → UInt64) : List Nat → Nat → UInt64
  | [], _ => 0
  | chunkid :: tab, i => tabSize w tab (i + 1) + (if 0 < chunkid then w i else 0)

theorem tabSize_cons {chunkid : Nat} :
    tabSize w (chunkid :: tab) i = tabSize w tab (i + 1) + (if 0 < chunkid then w i else 0) := rfl

theorem chunkTabStats_size {last : Nat × UInt64} :
    (chunkTabStats last tab i).2 = tabSize (weight last) tab i := by
  induction tab generalizing i with
  | nil => rfl
  | cons chunkid tab ih =>
    rw [tabSize_cons, ← ih]
    show (if 0 < chunkid then _ else _ : UInt32 × UInt64).2 = _
    split
    · rfl
    · exact (UInt64.add_zero _).symm

theorem tabSize_append {a b : List Nat} :
    tabSize w (a ++ b) i = tabSize w a i + tabSize w b (i + a.length) := by
  induction a generalizing i with
  | nil => exact (UInt64.zero_add _).symm
  | cons c a ih =>
    rw [List.cons_append, tabSize_cons, tabSize_cons, ih, List.length_cons,
      show i + 1 + a.length = i + (a.length + 1) by omega]
    ac_rfl

theorem tabSize_replicate {k : Nat} :
    tabSize w (List.replicate k 0) i = 0 := by
  induction k generalizing i with
  | zero => rfl
  | succ k ih =>
    rw [List.replicate_succ, tabSize_cons, ih]
    rfl

theorem tabSize_add {w' : Nat → UInt64} :
    tabSize (fun j => w j + w' j) tab i = tabSize w tab i + tabSize w' tab i := by
  induction tab generalizing i with
  | nil => rfl
  | cons c tab ih =>
    rw [tabSize_cons, tabSize_cons, tabSize_cons, ih]
    split
    · ac_rfl
    · simp only [UInt64.add_zero]

theorem tabSize_zero (h : ∀ j, i ≤ j → w j = 0) : tabSize w tab i = 0 := by
  induction tab generalizing i with
  | nil => rfl
  | cons c tab ih =>
    rw [tabSize_cons, ih fun j hj => h j (by omega), h i (Nat.le_refl i), ite_self]
    rfl

/-- Only the entry `a` counts. -/
theorem tabSize_single {a : Nat} {v : UInt64} (hi : i ≤ a) :
    tabSize (fun j => if j = a then v else 0) tab i
      = if tab.getD (a - i) 0 = 0 then 0 else v := by
  induction tab generalizing i with
  | nil => simp [tabSize]
  | cons c tab ih =>
    rw [tabSize_cons]
    by_cases ha : i = a
    · -- here it is: nothing after it counts
      have hrest : tabSize (fun j => if j = a then v else 0) tab (i + 1) = 0 :=
        tabSize_zero fun j hj => if_neg (by omega)
      rw [hrest, if_pos ha, ha, Nat.sub_self, UInt64.zero_add]
      show (if 0 < c then v else 0) = if c = 0 then 0 else v
      by_cases hc : c = 0
      · simp [hc]
      · simp [hc, Nat.pos_of_ne_zero hc]
    · rw [ih (by omega), if_neg ha, ite_self, UInt64.add_zero,
        show a - i = (a - (i + 1)) + 1 by omega]
      rfl

/-- Only the entries from `a` on and before `b` count, all alike. -/
theorem tabSize_between {a b : Nat} {v : UInt64} :
    tabSize (fun j => if a ≤ j ∧ j < b then v else 0) tab i
      = UInt64.ofNat (((tab.take (b - i)).drop (a - i)).countP (0 < ·)) * v := by
  induction tab generalizing i with
  | nil =>
    simp [tabSize]
  | cons c tab ih =>
    rw [tabSize_cons, ih]
    by_cases hb : i < b
    · rw [show b - i = (b - (i + 1)) + 1 by omega, List.take_succ_cons]
      by_cases ha : a ≤ i
      · rw [if_pos (show a ≤ i ∧ i < b from ⟨ha, hb⟩), Nat.sub_eq_zero_of_le ha,
          Nat.sub_eq_zero_of_le (Nat.le_succ_of_le ha), List.drop_zero, List.drop_zero, List.countP_cons]
        by_cases hc : 0 < c
        · simp only [hc, ↓reduceIte, decide_true]
          rw [UInt64.ofNat_add]
          show _ = (_ + 1) * v
          rw [UInt64.add_mul, UInt64.one_mul]
        · simp [hc]
      · rw [if_neg (show ¬ (a ≤ i ∧ i < b) from fun h => ha h.1), ite_self, UInt64.add_zero,
          show a - i = (a - (i + 1)) + 1 by omega, List.drop_succ_cons]
    · rw [if_neg (show ¬ (a ≤ i ∧ i < b) from fun h => hb h.2), ite_self, UInt64.add_zero,
        Nat.sub_eq_zero_of_le (Nat.not_lt.mp hb),
        Nat.sub_eq_zero_of_le (Nat.le_succ_of_le (Nat.not_lt.mp hb)), List.take_zero, List.take_zero,
        List.drop_nil, List.drop_nil]

theorem tabSize_set {indx c : Nat} (hlt : indx < tab.length) (hc : 0 < c) (i : Nat) :
    tabSize w (tab.set indx c) i
      = tabSize w tab i + (if tab.getD indx 0 = 0 then w (i + indx) else 0) := by
  induction tab generalizing indx i with
  | nil => cases hlt
  | cons a tab ih =>
    cases indx with
    | zero =>
      rw [List.set_cons_zero, List.getD_cons_zero, tabSize_cons, tabSize_cons, if_pos hc]
      by_cases ha : a = 0
      · simp [ha]
      · simp [ha, Nat.pos_of_ne_zero ha]
    | succ indx =>
      rw [List.set_cons_succ, List.getD_cons_succ, tabSize_cons, tabSize_cons,
        ih (Nat.lt_of_succ_lt_succ hlt), show i + 1 + indx = i + (indx + 1) by omega]
      ac_rfl

theorem tabSize_growTab {k : Nat} :
    tabSize w (growTab k tab) 0 = tabSize w tab 0 := by
  unfold growTab
  rw [tabSize_append, tabSize_replicate, UInt64.add_zero]

end Master

/-! ## §2. The growth of a file. -/

namespace System

open Master (weight tabSize lastChunk)

variable {indx : Nat} {n : FsNode}

/-- `MFSCHUNKSIZE+MFSHDRSIZE`, in 64 bits. -/
def wholeChunk : UInt64 := Master.mfsChunkSize + Master.mfsHdrSize

/-- The length after a write of the chunk `indx`. -/
def newLength (n : FsNode) (indx : Nat) : UInt64 :=
  if n.length < writeLength n indx then writeLength n indx else n.length

/-- **The growth of the size of a file** by a write of the chunk `indx`.  When the file gets longer
its last chunk becomes a whole one, and so do the chunks that lay between it and `indx`;
otherwise a chunk that was not there counts with its weight. -/
def sizeGrowth (n : FsNode) (indx : Nat) : UInt64 :=
  let last := lastChunk n.length
  if n.length < writeLength n indx then
    (if entryAt n last.1 = 0 then 0 else wholeChunk - last.2)
      + UInt64.ofNat (((n.chunktab.take indx).drop (last.1 + 1)).countP (0 < ·)) * wholeChunk
  else if entryAt n indx = 0 then weight last indx else 0

/-- The last chunk of a length that is a whole number of chunks. -/
theorem lastChunk_whole (hpos : 0 < indx) (hmax : indx ≤ maxIndex) :
    lastChunk (UInt64.ofNat indx <<< 26) = (indx - 1, wholeChunk) := by
  change indx ≤ 0x7FFFFFFF at hmax
  have hnat : (UInt64.ofNat indx <<< 26).toNat = indx * 2 ^ 26 := by
    rw [UInt64.toNat_shiftLeft, UInt64.toNat_ofNat']
    show (indx % 2 ^ 64) <<< (26 % 64) % 2 ^ 64 = _
    rw [Nat.shiftLeft_eq, Nat.mod_eq_of_lt (show indx < 2 ^ 64 by omega)]
    show indx * 2 ^ 26 % 2 ^ 64 = _
    omega
  have hne : UInt64.ofNat indx <<< 26 ≠ 0 := by
    intro h0
    rw [h0] at hnat
    change 0 = indx * 2 ^ 26 at hnat
    omega
  have hlow : ((UInt64.ofNat indx <<< 26) - 1) &&& 0x03FFFFFF = 0x03FFFFFF := by
    refine UInt64.toNat_inj.mp ?_
    rw [UInt64.toNat_and, toNat_pred hne, hnat]
    show (indx * 2 ^ 26 - 1) &&& (2 ^ 26 - 1) = 2 ^ 26 - 1
    rw [Nat.and_two_pow_sub_one_eq_mod]
    omega
  unfold Master.lastChunk
  rw [if_pos (UInt64.pos_iff_ne_zero.mpr hne), hlow, lastIndex_toNat hne, hnat]
  have hidx : (indx * 2 ^ 26 - 1) / 2 ^ 26 % 2 ^ 32 = indx - 1 := by omega
  rw [hidx]
  rfl

/-- A write that makes a file longer is one beyond its last chunk. -/
theorem writeLength_of_lt (h : n.length < writeLength n indx) :
    (lastChunk n.length).1 < indx ∧ writeLength n indx = UInt64.ofNat indx <<< 26 := by
  unfold writeLength at h ⊢
  split at h
  · exact absurd h (UInt64.lt_irrefl _)
  next hlast => exact ⟨Nat.not_le.mp hlast, if_neg hlast⟩

/-- In a file of whole chunks only, each of them counts as one. -/
theorem weight_whole (hpos : 0 < indx) (j : Nat) :
    weight (indx - 1, wholeChunk) j = if j < indx then wholeChunk else 0 := by
  unfold weight
  by_cases hj : j < indx - 1
  · rw [if_pos hj, if_pos (by omega)]
    rfl
  rw [if_neg hj]
  by_cases hlast : j = indx - 1
  · rw [if_pos hlast, if_pos (by omega)]
  · rw [if_neg hlast, if_neg (by omega)]

theorem weight_longer {last : Nat × UInt64} (hlt : last.1 < indx) (j : Nat) :
    weight (indx - 1, wholeChunk) j
      = weight last j + ((if j = last.1 then wholeChunk - last.2 else 0)
        + (if last.1 + 1 ≤ j ∧ j < indx then wholeChunk else 0)) := by
  rw [weight_whole (by omega)]
  unfold weight
  rcases Nat.lt_trichotomy j last.1 with h | h | h
  · rw [if_pos (h.trans hlt), if_pos h, if_neg h.ne, if_neg (by omega)]
    rfl
  · rw [if_pos (h.trans_lt hlt), if_neg h.not_lt, if_pos h, if_pos h, if_neg (by omega),
      UInt64.add_zero, UInt64.add_comm, UInt64.sub_add_cancel]
  · rw [if_neg h.not_gt, if_neg h.ne', if_neg h.ne', UInt64.zero_add, UInt64.zero_add]
    exact if_congr (and_iff_right h).symm rfl rfl

/-- **The recount** finds that growth, whatever chunk is put into the table. -/
theorem tabSize_write {c : Nat} (hmax : indx ≤ maxIndex) (hc : 0 < c) :
    tabSize (weight (lastChunk (newLength n indx))) ((growTab (indx + 1) n.chunktab).set indx c) 0
      = tabSize (weight (lastChunk n.length)) n.chunktab 0 + sizeGrowth n indx := by
  obtain ⟨hlt, hentry⟩ := Master.growTab_entry
  rw [Master.tabSize_set hlt hc, Master.tabSize_growTab, hentry, Nat.zero_add]
  show tabSize (weight (lastChunk (newLength n indx))) n.chunktab 0
    + (if entryAt n indx = 0 then weight (lastChunk (newLength n indx)) indx else 0) = _
  unfold newLength sizeGrowth
  by_cases hlong : n.length < writeLength n indx
  · obtain ⟨hbeyond, hlen⟩ := writeLength_of_lt hlong
    rw [if_pos hlong, if_pos hlong, hlen, lastChunk_whole (by omega) hmax]
    -- the new chunk lies beyond the end and counts for nothing yet
    have hnew : weight (indx - 1, wholeChunk) indx = 0 := by
      rw [weight_whole (by omega), if_neg (Nat.lt_irrefl indx)]
    have hweights : weight (indx - 1, wholeChunk)
        = fun j => weight (lastChunk n.length) j
          + ((if j = (lastChunk n.length).1 then wholeChunk - (lastChunk n.length).2 else 0)
            + (if (lastChunk n.length).1 + 1 ≤ j ∧ j < indx then wholeChunk else 0)) :=
      funext (weight_longer hbeyond)
    rw [hnew, ite_self, UInt64.add_zero, hweights, Master.tabSize_add, Master.tabSize_add,
      Master.tabSize_single (Nat.zero_le _), Master.tabSize_between]
    rfl
  · rw [if_neg hlong, if_neg hlong]

end System

end MfsMaster
