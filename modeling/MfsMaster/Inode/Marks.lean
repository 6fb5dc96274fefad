/-
  MfsMaster.Inode.Marks
  **BIT MASK, CURSOR AND FREE LIST OF THE INODE POOL** (`filesystem.c`).

  `Marks p used`: the mask marks the numbers `used` and no others.  `FullBelow p`: the
  words below the cursor are full.  `Stamped p`: the free list is ordered by time.

      fsnodesGetNextId_least    — the number found is the least one not marked
      freeinodesLoop_spec       — a freeing run clears the due numbers nobody holds open
      fsLoadfree_storefree      — the stored free list is accepted by the loader
-/
import Mathlib
import MfsMaster.Inode.Fresh
import MfsMaster.Inode.Replay

namespace MfsMaster

variable {p : InodePool} {used : List Nat} {ignoreflag : Bool}

namespace InodePool

/-! ## §1. The rest of the pool's functions. -/

/-- `fsnodes_get_next_id` as its callers see it: `i+=(searchpos<<5)` is a `uint32_t`,
and so is `maxnodeid`. -/
def fsnodesGetNextIdU32 (p : InodePool) : Nat × InodePool :=
  let r := p.fsnodesGetNextId
  let i := r.1 % 2 ^ 32
  (i, { r.2 with maxnodeid := if p.maxnodeid < i then i else p.maxnodeid })

theorem fsnodesGetNextIdU32_eq (h : p.fsnodesGetNextId.1 < 2 ^ 32) :
    p.fsnodesGetNextIdU32 = p.fsnodesGetNextId := by
  unfold fsnodesGetNextIdU32
  dsimp only
  rw [Nat.mod_eq_of_lt h]
  rfl

/-- `fsnodes_init_freebitmask` with the `maxnodeid` of a loaded image: only inode 0 is
reserved. -/
def initFreebitmask (maxnodeid : Nat) : InodePool :=
  { freelist := [], freelastts := 0
    freebitmask := fun j => j == 0
    searchpos := 0
    -- `0x100+(((maxnodeid)>>5)&0xFFFFFF80U)`
    bitmasksize := 0x100 + maxnodeid / 32 / 0x80 * 0x80
    maxnodeid := maxnodeid }

/-- `fsnodes_used_inode`: a number beyond the mask makes it grow. -/
def fsnodesUsedInode (p : InodePool) (inode : Nat) : InodePool :=
  let pos := inode / 32
  { p with
    freebitmask := fun j =>
      if j = inode then true else if p.bitmasksize * 32 ≤ j then false else p.freebitmask j
    bitmasksize := if p.bitmasksize ≤ pos then 0x100 + pos / 0x80 * 0x80 else p.bitmasksize }

/-- `fs_storefree`: the number of entries, then an inode and a time for each of them. -/
def fsStorefree (p : InodePool) : List UInt32 :=
  UInt32.ofNat p.freelist.length :: p.freelist.flatMap fun n => [UInt32.ofNat n.inode, n.ftime]

/-- One entry of `fs_loadfree` goes to the end of the list, and its number is marked. -/
def loadFreenode (p : InodePool) (nodeid : Nat) (ftime : UInt32) : InodePool :=
  let p : InodePool := { p with
    freelist := p.freelist ++ [{ inode := nodeid, ftime := ftime }]
    freelastts := ftime }
  p.fsnodesUsedInode nodeid

/-- The loop of `fs_loadfree` with `t` entries to come; `none` is a read error or, without
`ignoreflag`, a time stamp out of order. -/
def loadfreeLoop (ignoreflag : Bool) : Nat → List UInt32 → UInt32 → InodePool → Option InodePool
  | 0, _, _, p => some p
  | t + 1, nodeid :: ftime :: words, prevftime, p =>
    if ftime < prevftime then
      -- "skipping remaining free (deleted) nodes"
      if ignoreflag then some p else none
    else
      loadfreeLoop ignoreflag t words ftime (p.loadFreenode nodeid.toNat ftime)
  | _ + 1, _, _, _ => none

/-- `fs_loadfree`. -/
def fsLoadfree (ignoreflag : Bool) (words : List UInt32) (p : InodePool) : Option InodePool :=
  match words with
  | [] => none
  | t :: words =>
    loadfreeLoop ignoreflag t.toNat words 0 { p with freelist := [], freelastts := 0 }

/-- The nodes of `fs_loadnodes`: a repeated inode is an error unless it is ignored. -/
def fsLoadnodes (ignoreflag : Bool) : List Nat → InodePool → List Nat →
    Option (InodePool × List Nat)
  | [], p, live => some (p, live)
  | i :: is, p, live =>
    if i ∈ live then
      if ignoreflag then fsLoadnodes ignoreflag is p live else none
    else fsLoadnodes ignoreflag is (p.fsnodesUsedInode i) (i :: live)

/-- The numbers that wait for reuse. -/
def freeInodes (p : InodePool) : List Nat :=
  p.freelist.map FreeNode.inode

/-! ## §2. What the mask marks. -/

/-- The mask marks the numbers `used` and is large enough for them. -/
structure Marks (p : InodePool) (used : List Nat) : Prop where
  marks : ∀ j, p.freebitmask j = true ↔ j ∈ used
  inMask : ∀ j ∈ used, j < 32 * p.bitmasksize

/-- Every word below the cursor is full, and the cursor is inside the mask. -/
structure FullBelow (p : InodePool) : Prop where
  full : ∀ pos < p.searchpos, wordFull p.freebitmask pos = true
  search : p.searchpos ≤ p.bitmasksize

theorem wordFull_iff {mask : Nat → Bool} {pos : Nat} :
    wordFull mask pos = true ↔ ∀ b < 32, mask (32 * pos + b) = true := by
  unfold wordFull
  rw [List.all_eq_true]
  exact ⟨fun h b hb => h b (List.mem_range.mpr hb), fun h b hb => h b (List.mem_range.mp hb)⟩

/-- Full words and marked numbers. -/
theorem wordsFull_iff {mask : Nat → Bool} {n : Nat} :
    (∀ pos < n, wordFull mask pos = true) ↔ ∀ j < 32 * n, mask j = true := by
  constructor
  · intro h j hj
    have := wordFull_iff.mp (h (j / 32) (by omega)) (j % 32) (by omega)
    rwa [Nat.div_add_mod] at this
  · intro h pos hpos
    refine wordFull_iff.mpr fun b hb => h _ (by omega)

theorem Marks.bit_beyond (h : p.Marks used) {j : Nat}
    (hj : p.bitmasksize * 32 ≤ j) : p.freebitmask j = false := by
  rw [← Bool.not_eq_true, h.marks]
  intro hmem
  have := h.inMask j hmem
  omega

/-- New words hold no bit, which is what the old mask says of them anyway. -/
theorem Marks.grown (h : p.Marks used) :
    (fun j => if p.bitmasksize * 32 ≤ j then false else p.freebitmask j) = p.freebitmask := by
  funext j
  split
  next hj => exact (h.bit_beyond hj).symm
  · rfl

theorem Marks.congr {used' : List Nat} (h : p.Marks used)
    (hmem : ∀ j, j ∈ used' ↔ j ∈ used) : p.Marks used' :=
  ⟨fun j => (h.marks j).trans (hmem j).symm, fun j hj => h.inMask j ((hmem j).mp hj)⟩

/-- One bit is set in the mask, with its new words. -/
theorem Marks.set (h : p.Marks used) (i j : Nat) : (if j = i then true
    else (fun j => if p.bitmasksize * 32 ≤ j then false else p.freebitmask j) j) = true
      ↔ j ∈ i :: used := by
  rw [h.grown, List.mem_cons, ← h.marks]
  split
  next heq => simp [heq]
  next hne => simp [hne]

theorem Marks.fsnodesUsedInode (h : p.Marks used) (i : Nat) :
    (p.fsnodesUsedInode i).Marks (i :: used) := by
  constructor
  · exact h.set i
  · intro j hj
    show j < 32 * (if p.bitmasksize ≤ i / 32 then _ else p.bitmasksize)
    have hold : j ∈ used → j < 32 * p.bitmasksize := h.inMask j
    rcases List.mem_cons.mp hj with rfl | hj
    · split <;> omega
    · have := hold hj
      split <;> omega

theorem initFreebitmask_marks {maxnodeid : Nat} : (initFreebitmask maxnodeid).Marks [0] := by
  constructor
  · intro j
    show (j == 0) = true ↔ j ∈ [0]
    rw [beq_iff_eq, List.mem_singleton]
  intro j hj
  rw [List.mem_singleton.mp hj]
  show 0 < 32 * (0x100 + _)
  omega

/-! ## §3. The number found is the least one not marked. -/

theorem lowBit_below (mask : Nat → Bool) (pos n i : Nat) :
    ∀ b, i ≤ b → b < lowBit mask pos n i → mask (32 * pos + b) = true := by
  induction n generalizing i with
  | zero =>
    intro b hib hb
    unfold lowBit at hb
    omega
  | succ n ih =>
    intro b hib hb
    unfold lowBit at hb
    split at hb
    next hset =>
      by_cases heq : b = i
      · rw [heq]
        exact hset
      · exact ih (i + 1) b (by omega) hb
    · omega

theorem firstWord_below {mask : Nat → Bool} {n : Nat} (pos : Nat) : pos ≤ firstWord mask n pos
      ∧ ∀ w, pos ≤ w → w < firstWord mask n pos → wordFull mask w = true := by
  induction n generalizing pos with
  | zero =>
    unfold firstWord
    exact ⟨Nat.le_refl _, fun w hw hlt => by omega⟩
  | succ n ih =>
    unfold firstWord
    split
    next hfull =>
      obtain ⟨hle, hrest⟩ := ih (pos + 1)
      refine ⟨by omega, fun w hw hlt => ?_⟩
      by_cases heq : w = pos
      · rw [heq]
        exact hfull
      · exact hrest w (by omega) hlt
    · exact ⟨Nat.le_refl _, fun w hw hlt => by omega⟩

section Next

variable {p : InodePool} {used : List Nat}

theorem fsnodesGetNextId_fresh (hm : p.Marks used) (hs : p.searchpos ≤ p.bitmasksize) :
    p.fsnodesGetNextId.1 ∉ used := by
  intro hmem
  rcases (fsnodesGetNextId_spec hs).1 with hclear | hle
  · rw [(hm.marks _).mpr hmem] at hclear
    cases hclear
  · have := hm.inMask _ hmem
    omega

/-- All words below the new cursor are full. -/
theorem fsnodesGetNextId_full (hf : p.FullBelow) :
    ∀ w < p.fsnodesGetNextId.2.searchpos, wordFull p.freebitmask w = true := by
  intro w hw
  obtain ⟨_, hword⟩ := firstWord_below p.searchpos
  by_cases hlow : w < p.searchpos
  · exact hf.full w hlow
  · exact hword w (by omega) hw

/-- **The search is exact:** every number below the one returned is marked. -/
theorem fsnodesGetNextId_least (hm : p.Marks used) (hf : p.FullBelow) :
    ∀ j < p.fsnodesGetNextId.1, j ∈ used := by
  intro j hj
  rw [← hm.marks]
  have hfull := fsnodesGetNextId_full hf
  revert hj hfull
  unfold fsnodesGetNextId
  dsimp only
  rw [hm.grown]
  generalize firstWord p.freebitmask (p.bitmasksize - p.searchpos) p.searchpos = pos
  intro hj hfull
  by_cases hlow : j < 32 * pos
  · exact wordsFull_iff.mp hfull j hlow
  -- inside the word found: a bit below the lowest clear one
  have hbit := lowBit_below p.freebitmask pos 32 0 (j - 32 * pos) (Nat.zero_le _) (by omega)
  rwa [Nat.add_sub_cancel' (by omega)] at hbit

/-- The bit of the number returned is set, and no other one changes. -/
theorem fsnodesGetNextId_marks (hm : p.Marks used) (hs : p.searchpos ≤ p.bitmasksize) :
    p.fsnodesGetNextId.2.Marks (p.fsnodesGetNextId.1 :: used) := by
  obtain ⟨_, hlt, hgrow, _⟩ := fsnodesGetNextId_spec hs
  constructor
  · exact hm.set _
  · refine List.forall_mem_cons.mpr ⟨hlt, fun j hj => ?_⟩
    have := hm.inMask j hj
    omega

theorem fsnodesGetNextId_fullBelow (hm : p.Marks used) (hf : p.FullBelow) :
    p.fsnodesGetNextId.2.FullBelow := by
  have hnew := fsnodesGetNextId_marks hm hf.search
  refine ⟨?_, (fsnodesGetNextId_spec hf.search).2.2.2⟩
  rw [wordsFull_iff]
  intro j hj
  have hold := wordsFull_iff.mp (fsnodesGetNextId_full hf) j hj
  rw [hnew.marks]
  exact List.mem_cons_of_mem _ ((hm.marks j).mp hold)

end Next

/-! ## §4. A freeing run. -/

section Free

variable (isopen : Nat → Bool) (ts delay : UInt32)

/-- A visit unmarks the numbers it releases and searches from the first of them. -/
theorem visits_marks (l : List FreeNode) (a : FreeLoop) :
    let r := l.foldl (fun a n => a.visit (isopen n.inode) ts n) a
    let freed := (l.filter fun n => !isopen n.inode).map FreeNode.inode
    (∀ j, r.freebitmask j = (a.freebitmask j && !freed.contains j))
      ∧ r.searchpos ≤ a.searchpos ∧ ∀ j ∈ freed, r.searchpos ≤ j / 32 := by
  induction l generalizing a with
  | nil => simp
  | cons n l ih =>
    obtain ⟨hmask, hpos, hposs⟩ := ih (a.visit (isopen n.inode) ts n)
    dsimp only
    rw [List.foldl_cons, List.filter_cons]
    cases hopen : isopen n.inode with
    | true =>
      rw [hopen] at hmask hpos hposs
      exact ⟨hmask, hpos, hposs⟩
    | false =>
      rw [hopen] at hmask hpos hposs
      have hvisit : (a.visit false ts n).searchpos ≤ a.searchpos
          ∧ (a.visit false ts n).searchpos ≤ n.inode / 32 := by
        simp only [FreeLoop.visit, Bool.false_eq_true, ↓reduceIte]
        split <;> omega
      refine ⟨fun j => ?_, by omega, List.forall_mem_cons.mpr ⟨by omega, hposs⟩⟩
      rw [hmask j]
      simp only [FreeLoop.visit, Bool.false_eq_true, ↓reduceIte]
      by_cases hj : j = n.inode
      · simp [hj]
      · simp [hj, beq_false_of_ne hj]

/-- The free list after a freeing run: what was not due, then what is still open. -/
theorem freeDue_freelist : (p.freeDue isopen ts delay).1.freelist
      = p.freelist.dropWhile (fun n => n.ftime + delay < ts)
        ++ requeued isopen ts delay p.freelist := by
  simp only [freeDue, freeinodesLoop_eq, visits_sn, List.nil_append]
  rfl

theorem freeDue_freebitmask (p : InodePool) (j : Nat) : (p.freeDue isopen ts delay).1.freebitmask j
      = (p.freebitmask j && !(released isopen ts delay p.freelist).contains j) := by
  simp only [freeDue, freeinodesLoop_eq, visits_marks]
  rfl

theorem freeDue_fullBelow (h : p.FullBelow) : (p.freeDue isopen ts delay).1.FullBelow := by
  obtain ⟨_, hpos, hposs⟩ := visits_marks isopen ts (dueEntries ts delay p.freelist)
    ⟨0, 0, 0, [], p.freebitmask, p.searchpos⟩
  have hle : (p.freeDue isopen ts delay).1.searchpos ≤ p.searchpos := by
    simp only [freeDue, freeinodesLoop_eq]
    exact hpos
  have hles : ∀ j ∈ released isopen ts delay p.freelist,
      (p.freeDue isopen ts delay).1.searchpos ≤ j / 32 := by
    simp only [freeDue, freeinodesLoop_eq]
    exact hposs
  refine ⟨?_, Nat.le_trans hle h.search⟩
  rw [wordsFull_iff]
  intro j hj
  rw [freeDue_freebitmask, wordsFull_iff.mp h.full j (by omega), Bool.true_and,
    Bool.not_eq_true', ← Bool.not_eq_true, List.contains_iff_mem]
  intro hmem
  have := hles j hmem
  omega

/-- The numbers of the list are those that stay on it and those released. -/
theorem freeDue_split (p : InodePool) : (p.freeInodes).Perm
      ((p.freeDue isopen ts delay).1.freeInodes ++ released isopen ts delay p.freelist) := by
  unfold freeInodes
  rw [freeDue_freelist, List.map_append]
  have hre : (requeued isopen ts delay p.freelist).map FreeNode.inode
      = ((dueEntries ts delay p.freelist).filter fun n => isopen n.inode).map FreeNode.inode := by
    unfold requeued
    rw [List.map_map]
    rfl
  have hdue := (List.filter_append_perm (fun n => isopen n.inode)
    (dueEntries ts delay p.freelist)).map FreeNode.inode
  rw [List.map_append] at hdue
  rw [hre, List.append_assoc]
  refine .trans ?_ (List.perm_append_comm.trans (hdue.symm.append_left _))
  rw [← List.map_append, dueEntries, List.takeWhile_append_dropWhile]

/-! ### The order of the time stamps. -/

/-- The stamps do not decrease, and `freelastts` is the last of them. -/
structure Stamped (p : InodePool) : Prop where
  sorted : p.freelist.Pairwise fun a b => a.ftime ≤ b.ftime
  lastStamp : p.LastStamp

theorem Stamped.le_last (h : p.Stamped) : ∀ n ∈ p.freelist, n.ftime ≤ p.freelastts := by
  intro n hn
  have hlast := h.lastStamp
  unfold LastStamp at hlast
  obtain ⟨l, m, heq⟩ := (List.eq_nil_or_concat p.freelist).resolve_left (List.ne_nil_of_mem hn)
  have hsorted := h.sorted
  rw [heq, List.concat_eq_append] at hsorted hn hlast
  rw [List.getLast?_concat] at hlast
  have hm : m.ftime = p.freelastts := hlast
  rw [← hm]
  rcases List.mem_append.mp hn with hn | hn
  · exact (List.pairwise_append.mp hsorted).2.2 n hn m (List.mem_singleton_self m)
  · rw [List.mem_singleton.mp hn]
    exact UInt32.le_refl _

/-- Re-stamping keeps the order and leaves no stamp after `ts`. -/
theorem Stamped.restamp (h : p.Stamped) {ts : UInt32} :
    (p.restamp ts).Stamped ∧ (p.restamp ts).freelastts ≤ ts := by
  refine ⟨⟨?_, restamp_lastStamp h.lastStamp⟩, ?_⟩
  · unfold InodePool.restamp
    split
    · show (fixts ts p.freelist).Pairwise _
      unfold fixts
      rw [List.pairwise_map]
      refine h.sorted.imp fun {a b} hab => ?_
      rw [UInt32.le_iff_toNat_le] at hab
      split <;> split <;> simp_all only [UInt32.lt_iff_toNat_lt, UInt32.le_iff_toNat_le] <;> omega
    · exact h.sorted
  · unfold InodePool.restamp
    split
    · exact UInt32.le_refl _
    next hnot => exact UInt32.not_lt.mp hnot

theorem Stamped.fsnodesFreeId (h : p.Stamped) {inode : Nat} {ts : UInt32} :
    (p.fsnodesFreeId inode ts).Stamped := by
  obtain ⟨hr, hlast⟩ := h.restamp
  refine ⟨?_, fsnodesFreeId_lastStamp⟩
  show ((p.restamp ts).freelist ++ [_]).Pairwise _
  refine List.pairwise_append.mpr ⟨hr.sorted, List.pairwise_singleton _ _, ?_⟩
  intro a ha b hb
  rw [List.mem_singleton.mp hb]
  exact UInt32.le_trans (hr.le_last a ha) hlast

theorem Stamped.freeDue (h : p.Stamped) (hts : p.freelastts ≤ ts) :
    (p.freeDue isopen ts delay).1.Stamped := by
  refine ⟨?_, freeDue_lastStamp h.lastStamp⟩
  rw [freeDue_freelist]
  have hstamp : ∀ n ∈ requeued isopen ts delay p.freelist, n.ftime = ts := by
    intro n hn
    obtain ⟨m, _, rfl⟩ := List.mem_map.mp hn
    rfl
  refine List.pairwise_append.mpr
    ⟨h.sorted.sublist (List.dropWhile_sublist _), ?_, ?_⟩
  · refine List.pairwise_of_forall_mem_list fun a ha b hb => ?_
    rw [hstamp a ha, hstamp b hb]
    exact UInt32.le_refl _
  intro a ha b hb
  rw [hstamp b hb]
  exact UInt32.le_trans (h.le_last a ((List.dropWhile_sublist _).subset ha)) hts

end Free

/-! ## §5. The stored free list is accepted. -/

theorem loadFreenode_freelist {nodeid : Nat} {ftime : UInt32} :
    (p.loadFreenode nodeid ftime).freelist = p.freelist ++ [{ inode := nodeid, ftime := ftime }] :=
  rfl

theorem loadFreenode_lastStamp {nodeid : Nat} {ftime : UInt32} :
    (p.loadFreenode nodeid ftime).LastStamp := by
  unfold LastStamp
  rw [loadFreenode_freelist, List.getLast?_concat]
  rfl

/-- What a load leaves behind, whatever it was a load of. -/
structure Loaded (p q : InodePool) (l : List FreeNode) (used : List Nat) : Prop where
  freelist : q.freelist = p.freelist ++ l
  marks : q.Marks used
  searchpos : q.searchpos = p.searchpos
  maxnodeid : q.maxnodeid = p.maxnodeid
  lastStamp : q.LastStamp

/-- **Words in order are accepted.**  Induction on the entries; the stamp read last is a
lower bound for those to come. -/
theorem loadfreeLoop_stored {l : List FreeNode} :
    ∀ (prev : UInt32) (p : InodePool) (used : List Nat),
      l.Pairwise (fun a b => a.ftime ≤ b.ftime) → (∀ n ∈ l, prev ≤ n.ftime) →
      (∀ n ∈ l, n.inode < 2 ^ 32) → p.Marks used → p.LastStamp →
      ∃ q, loadfreeLoop ignoreflag l.length
          (l.flatMap fun n => [UInt32.ofNat n.inode, n.ftime]) prev p = some q
        ∧ Loaded p q l (l.map FreeNode.inode ++ used) := by
  induction l with
  | nil =>
    intro prev p used _ _ _ hm hlast
    exact ⟨p, rfl, (List.append_nil _).symm, hm, rfl, rfl, hlast⟩
  | cons n l ih =>
    intro prev p used hsorted hprev hsmall hm _
    obtain ⟨hhead, htail⟩ := List.pairwise_cons.mp hsorted
    have hn : (UInt32.ofNat n.inode).toNat = n.inode :=
      UInt32.toNat_ofNat_of_lt' (hsmall n List.mem_cons_self)
    have hused := hm.fsnodesUsedInode n.inode
    have hm' : (p.loadFreenode n.inode n.ftime).Marks (n.inode :: used) :=
      ⟨hused.marks, hused.inMask⟩
    obtain ⟨q, hq, hload⟩ := ih n.ftime (p.loadFreenode n.inode n.ftime) (n.inode :: used) htail
      hhead (fun m hm => hsmall m (List.mem_cons_of_mem n hm)) hm'
      loadFreenode_lastStamp
    refine ⟨q, ?_, ?_, ?_, hload.searchpos, hload.maxnodeid, hload.lastStamp⟩
    · show (if n.ftime < prev then _ else
        loadfreeLoop ignoreflag l.length _ n.ftime
          (p.loadFreenode (UInt32.ofNat n.inode).toNat n.ftime)) = some q
      rw [if_neg (UInt32.not_lt.mpr (hprev n List.mem_cons_self)), hn]
      exact hq
    · rw [hload.freelist, loadFreenode_freelist, List.append_assoc]
      rfl
    · refine hload.marks.congr fun j => ?_
      simp only [List.map_cons, List.cons_append, List.mem_cons, List.mem_append]
      tauto

/-- **`fs_loadfree` accepts what `fs_storefree` writes.** -/
theorem fsLoadfree_storefree {q : InodePool}
    (hp : p.Stamped) (hsmall : ∀ i ∈ p.freeInodes, i < 2 ^ 32)
    (hlen : p.freelist.length < 2 ^ 32) (hm : q.Marks used) :
    ∃ r, fsLoadfree ignoreflag p.fsStorefree q = some r
      ∧ Loaded { q with freelist := [], freelastts := 0 } r p.freelist
          (p.freeInodes ++ used) := by
  unfold fsLoadfree fsStorefree
  dsimp only
  rw [UInt32.toNat_ofNat_of_lt' hlen]
  exact loadfreeLoop_stored 0 _ used hp.sorted (fun _ _ => UInt32.zero_le)
    (fun n hn => hsmall n.inode (List.mem_map_of_mem hn)) ⟨hm.marks, hm.inMask⟩ rfl

/-- Distinct nodes are all loaded. -/
theorem fsLoadnodes_nodup {is : List Nat} :
    ∀ (p : InodePool) (live used : List Nat), is.Nodup → is.Disjoint live → p.Marks used →
      ∃ q, fsLoadnodes ignoreflag is p live = some (q, is.reverse ++ live)
        ∧ q.Marks (is ++ used) ∧ q.searchpos = p.searchpos ∧ q.maxnodeid = p.maxnodeid := by
  induction is with
  | nil =>
    intro p live used _ _ hm
    exact ⟨p, rfl, hm, rfl, rfl⟩
  | cons i is ih =>
    intro p live used hnodup hdisj hm
    obtain ⟨hi, hnodup'⟩ := List.nodup_cons.mp hnodup
    obtain ⟨hlive, hdisj'⟩ := List.disjoint_cons_left.mp hdisj
    obtain ⟨q, hq, hm', hs, hmax⟩ := ih (p.fsnodesUsedInode i) (i :: live) (i :: used) hnodup'
      (List.disjoint_cons_right.mpr ⟨hi, hdisj'⟩) (hm.fsnodesUsedInode i)
    refine ⟨q, ?_, ?_, hs, hmax⟩
    · rw [fsLoadnodes, if_neg hlive, hq, List.reverse_cons, List.append_assoc]
      rfl
    refine hm'.congr fun j => ?_
    simp only [List.cons_append, List.mem_cons, List.mem_append]
    tauto

end InodePool

end MfsMaster
