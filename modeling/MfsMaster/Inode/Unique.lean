/-
  MfsMaster.Inode.Unique
  **NO INODE NUMBER IS HANDED OUT TWICE** (`filesystem.c`).

  A state is `Numbered` when the mask marks inode 0, the nodes and the numbers that wait
  for reuse, when these are distinct, and when cursor and free list are in order.

      Numbered.next              — while a number is left the next one is new
      Numbered.step              — every step keeps the agreement, as long as a number
                                   is left when a node is created
      Numbered.released_closed   — a number that is released is not held open
      inode_numbers_unique       — the same in every state of a run

  The numbers are `uint32_t`.  When all of them are marked the search goes on in a new
  word of the mask and the shift `searchpos<<5` wraps: `inode_numbers_wrap`.
-/
import Mathlib
import MfsMaster.Inode.Marks

namespace MfsMaster

open Lib InodePool

/-! ## §1. The system: nodes, the pool and the open files. -/

/-- The part of the master that deals in inode numbers; `live` are the numbers of the
nodes in the node table. -/
structure NodeNumbers extends InodeState where
  live : List Nat

/-- What happens to them, on a leader and on a replica. -/
inductive NumberEvent where
  /-- `fsnodes_create_node`. -/
  | createNode
  /-- `fsnodes_remove_node`. -/
  | removeNode (inode : Nat) (ts : UInt32)
  /-- `fsnodes_freeinodes`, the periodic run on the leader. -/
  | freeinodes (ts inodereusedelay : UInt32)
  /-- `fs_mr_freeinodes`, the replay of a `FREEINODES` record. -/
  | mrFreeinodes (ts inodereusedelay : UInt32) (freeinodes sustainedinodes inodeChksum : Nat)
  /-- Sessions open and close files in any way. -/
  | openFiles (o : OpenFiles)
  /-- The metadata are stored and a master starts from them, with or without `-i`. -/
  | reload (ignoreflag : Bool)
  deriving Repr, DecidableEq

variable {e : NumberEvent} {n : Nat} {p : InodePool} {s : NodeNumbers} {ts delay : UInt32}

namespace NodeNumbers

variable {inode : Nat} {metarestore : Bool}

/-- A new file system (`fs_new`). -/
def fsNew : NodeNumbers :=
  { pool := fsnodesInitFreebitmask, openFiles := [], live := [rootId] }

/-- `fs_loadnodes` and `fs_loadfree` on what `fs_storenodes` and `fs_storefree` wrote. -/
def load (s : NodeNumbers) (ignoreflag : Bool) : Option NodeNumbers :=
  (fsLoadnodes ignoreflag s.live (initFreebitmask s.pool.maxnodeid) []).bind
    fun r => (fsLoadfree ignoreflag s.pool.fsStorefree r.1).map
      fun pool => { s with pool := pool, live := r.2 }

/-- One step.  Only a node of the table can be removed, and a master whose metadata are
refused does not start. -/
def step (s : NodeNumbers) : NumberEvent → NodeNumbers
  | .createNode =>
    let r := s.pool.fsnodesGetNextIdU32
    { s with pool := r.2, live := r.1 :: s.live }
  | .removeNode inode ts =>
    if inode ∈ s.live then
      { s with pool := s.pool.fsnodesFreeId inode ts, live := s.live.erase inode }
    else s
  | .freeinodes ts delay =>
    { s with toInodeState := (fsUnivFreeinodes s.toInodeState false ts delay 0 0 0).2.1 }
  | .mrFreeinodes ts delay fi si ics =>
    { s with toInodeState := (fsUnivFreeinodes s.toInodeState true ts delay fi si ics).2.1 }
  | .openFiles o => { s with openFiles := o }
  | .reload ignoreflag => (s.load ignoreflag).getD s

/-- The numbers in use: 0, those of the nodes, and those that wait for reuse. -/
def inUse (s : NodeNumbers) : List Nat :=
  0 :: (s.live ++ s.pool.freeInodes)

/-- Mask, cursor, free list and nodes agree. -/
structure Numbered (s : NodeNumbers) : Prop where
  marks : s.pool.Marks s.inUse
  distinct : s.inUse.Nodup
  bound : ∀ j ∈ s.inUse, j ≤ s.pool.maxnodeid
  maxnode : s.pool.maxnodeid < 2 ^ 32
  fullBelow : s.pool.FullBelow
  stamped : s.pool.Stamped

/-- A node is created only while a 32-bit number is left, and a replayed record that
reports no inode in use meets none: the open-file test is skipped then. -/
def NumberLeft (s : NodeNumbers) : NumberEvent → Prop
  | .createNode => s.live.length + s.pool.freelist.length < 2 ^ 32 - 1
  | .mrFreeinodes ts delay _ si _ =>
    0 < si ∨ ∀ n ∈ dueEntries ts delay (s.pool.restamp ts).freelist,
      s.openFiles.ofIsfileopen n.inode = false
  | _ => True

instance (s : NodeNumbers) : (e : NumberEvent) → Decidable (NumberLeft s e)
  | .createNode => inferInstanceAs (Decidable (_ < _))
  | .mrFreeinodes .. => inferInstanceAs (Decidable (_ ∨ ∀ n ∈ _, _))
  | .removeNode _ _ | .freeinodes _ _ | .openFiles _ | .reload _ => isTrue trivial

theorem length_inUse :
    s.inUse.length = s.live.length + s.pool.freelist.length + 1 := by
  simp [inUse, freeInodes]

/-! ## §2. Every step keeps the agreement. -/

/-- Some number below `n` is not among fewer than `n` numbers. -/
theorem exists_unused {used : List Nat} (h : used.length < n) : ∃ j < n, j ∉ used := by
  by_contra hall
  push Not at hall
  have hsub : Finset.range n ⊆ used.toFinset := by
    intro j hj
    exact List.mem_toFinset.mpr (hall j (Finset.mem_range.mp hj))
  have hcard := Finset.card_le_card hsub
  rw [Finset.card_range] at hcard
  have := List.toFinset_card_le used
  omega

/-- While a number is left, the number found is a 32-bit number and new. -/
theorem Numbered.next (h : s.Numbered) (hleft : s.inUse.length < 2 ^ 32) :
    s.pool.fsnodesGetNextId.1 < 2 ^ 32 ∧ s.pool.fsnodesGetNextId.1 ∉ s.inUse := by
  refine ⟨?_, fsnodesGetNextId_fresh h.marks h.fullBelow.search⟩
  obtain ⟨j, hj, hunused⟩ := exists_unused hleft
  by_contra hbig
  exact hunused (fsnodesGetNextId_least h.marks h.fullBelow j (by omega))

theorem Numbered.createNode (h : s.Numbered)
    (hc : s.live.length + s.pool.freelist.length < 2 ^ 32 - 1) : (s.step .createNode).Numbered := by
  obtain ⟨hsmall, hnew⟩ := h.next (by rw [length_inUse]; omega)
  have hmem : ∀ j, j ∈ 0 :: (s.pool.fsnodesGetNextId.1 :: s.live ++ s.pool.freeInodes)
      ↔ j ∈ s.pool.fsnodesGetNextId.1 :: s.inUse := by
    intro j
    simp only [inUse, List.mem_cons, List.cons_append]
    tauto
  have hperm : (0 :: (s.pool.fsnodesGetNextId.1 :: s.live ++ s.pool.freeInodes)).Perm
      (s.pool.fsnodesGetNextId.1 :: s.inUse) := List.Perm.swap _ _ _
  show ({ s with pool := s.pool.fsnodesGetNextIdU32.2
                 live := s.pool.fsnodesGetNextIdU32.1 :: s.live } : NodeNumbers).Numbered
  rw [fsnodesGetNextIdU32_eq hsmall]
  have hmax : s.pool.fsnodesGetNextId.2.maxnodeid
      = if s.pool.maxnodeid < s.pool.fsnodesGetNextId.1 then s.pool.fsnodesGetNextId.1
        else s.pool.maxnodeid := rfl
  refine ⟨?_, ?_, ?_, ?_, ?_, ⟨h.stamped.sorted, h.stamped.lastStamp⟩⟩
  · exact (fsnodesGetNextId_marks h.marks h.fullBelow.search).congr hmem
  · exact hperm.nodup_iff.mpr (List.nodup_cons.mpr ⟨hnew, h.distinct⟩)
  · intro j hj
    show j ≤ s.pool.fsnodesGetNextId.2.maxnodeid
    rw [hmax]
    rcases List.mem_cons.mp ((hmem j).mp hj) with rfl | hj
    · split <;> omega
    · have := h.bound j hj
      split <;> omega
  · show s.pool.fsnodesGetNextId.2.maxnodeid < 2 ^ 32
    have := h.maxnode
    rw [hmax]
    split <;> omega
  · exact fsnodesGetNextId_fullBelow h.marks h.fullBelow

/-- Steps that only reorder the numbers in use, or drop some whose bit they clear. -/
theorem Numbered.of_pool {t : NodeNumbers} (h : s.Numbered) (gone : List Nat)
    (hperm : s.inUse.Perm (t.inUse ++ gone))
    (hmask : ∀ j, t.pool.freebitmask j = (s.pool.freebitmask j && !gone.contains j))
    (hsize : t.pool.bitmasksize = s.pool.bitmasksize) (hmax : t.pool.maxnodeid = s.pool.maxnodeid)
    (hfull : t.pool.FullBelow) (hstamp : t.pool.Stamped) : t.Numbered := by
  have hnodup : (t.inUse ++ gone).Nodup := hperm.nodup_iff.mp h.distinct
  obtain ⟨hdistinct, _, hdisj⟩ := List.nodup_append'.mp hnodup
  have hold : ∀ j ∈ t.inUse, j ∈ s.inUse := fun j hj =>
    hperm.mem_iff.mpr (List.mem_append_left _ hj)
  refine ⟨⟨?_, ?_⟩, hdistinct, ?_, ?_, hfull, hstamp⟩
  · intro j
    rw [hmask, Bool.and_eq_true, h.marks.marks, hperm.mem_iff, List.mem_append,
      Bool.not_eq_true', ← Bool.not_eq_true, List.contains_iff_mem]
    constructor
    · rintro ⟨hj | hj, hgone⟩
      · exact hj
      · exact absurd hj hgone
    · exact fun hj => ⟨Or.inl hj, hdisj hj⟩
  · intro j hj
    rw [hsize]
    exact h.marks.inMask j (hold j hj)
  · intro j hj
    rw [hmax]
    exact h.bound j (hold j hj)
  · rw [hmax]
    exact h.maxnode

/-- Re-stamping touches nothing but the stamps. -/
theorem restamp_frame :
    (p.restamp ts).freeInodes = p.freeInodes ∧ (p.restamp ts).freebitmask = p.freebitmask
      ∧ (p.restamp ts).searchpos = p.searchpos ∧ (p.restamp ts).bitmasksize = p.bitmasksize
      ∧ (p.restamp ts).maxnodeid = p.maxnodeid := by
  unfold restamp
  split
  · refine ⟨?_, rfl, rfl, rfl, rfl⟩
    show (fixts ts p.freelist).map FreeNode.inode = p.freelist.map FreeNode.inode
    unfold fixts
    rw [List.map_map]
    refine List.map_congr_left fun n _ => ?_
    show (if ts < n.ftime then { n with ftime := ts } else n).inode = n.inode
    split <;> rfl
  · exact ⟨rfl, rfl, rfl, rfl, rfl⟩

/-- A number moves from the nodes to the end of the list. -/
theorem removeNode_perm (hlive : inode ∈ s.live) : s.inUse.Perm
      (inUse { s with pool := s.pool.fsnodesFreeId inode ts, live := s.live.erase inode }) := by
  have hfree : (s.pool.fsnodesFreeId inode ts).freeInodes = s.pool.freeInodes ++ [inode] := by
    show ((s.pool.restamp ts).freelist ++ [_]).map FreeNode.inode = _
    rw [List.map_append]
    exact congrArg (· ++ [inode]) restamp_frame.1
  show (0 :: (s.live ++ s.pool.freeInodes)).Perm
    (0 :: (s.live.erase inode ++ (s.pool.fsnodesFreeId inode ts).freeInodes))
  rw [hfree, ← List.append_assoc]
  refine List.Perm.cons 0 ?_
  exact ((List.perm_cons_erase hlive).append_right _).trans
    (List.perm_append_singleton inode _).symm

theorem restamp_fullBelow (h : p.FullBelow) (ts : UInt32) : (p.restamp ts).FullBelow := by
  obtain ⟨_, hmask, hpos, hsize, _⟩ := restamp_frame
  refine ⟨?_, ?_⟩
  · rw [hmask, hpos]
    exact h.full
  · rw [hpos, hsize]
    exact h.search

theorem Numbered.removeNode (h : s.Numbered) : (s.step (.removeNode inode ts)).Numbered := by
  show (if inode ∈ s.live then
    ({ s with pool := s.pool.fsnodesFreeId inode ts, live := s.live.erase inode } : NodeNumbers)
    else s).Numbered
  split
  next hlive =>
    obtain ⟨_, hmask, _, hsize, hmax⟩ := restamp_frame
    have hfull := restamp_fullBelow h.fullBelow ts
    refine h.of_pool [] ?_ ?_ hsize hmax ⟨hfull.full, hfull.search⟩
      h.stamped.fsnodesFreeId
    · rw [List.append_nil]
      exact removeNode_perm hlive
    intro j
    show (s.pool.restamp ts).freebitmask j = _
    rw [hmask]
    simp
  · exact h

/-- The open-file test as `fs_univ_freeinodes` makes it. -/
def opentest (s : NodeNumbers) (metarestore : Bool) (sustainedinodes : Nat) (i : Nat) : Bool :=
  (!metarestore || 0 < sustainedinodes) && s.openFiles.ofIsfileopen i

/-- The numbers that a run of `fs_univ_freeinodes` releases. -/
def releasedBy (s : NodeNumbers) (metarestore : Bool) (ts delay : UInt32) (si : Nat) : List Nat :=
  released (s.opentest metarestore si) ts delay (s.pool.restamp ts).freelist

/-- Whatever it answers, it leaves the pool of `freeinodesBody`. -/
theorem fsUnivFreeinodes_state {s : InodeState} {fi si ics : Nat} :
    (fsUnivFreeinodes s metarestore ts delay fi si ics).2.1
      = { s with pool := (s.pool.freeinodesBody
            (fun i => (!metarestore || 0 < si) && s.openFiles.ofIsfileopen i) ts delay).1 } := by
  unfold fsUnivFreeinodes
  dsimp only
  split
  · split <;> rfl
  · split <;> rfl

theorem freeinodes_perm (s : NodeNumbers) (metarestore : Bool) (ts delay : UInt32)
    (fi si ics : Nat) :
    s.inUse.Perm
      (inUse { s with toInodeState :=
          (fsUnivFreeinodes s.toInodeState metarestore ts delay fi si ics).2.1 }
        ++ s.releasedBy metarestore ts delay si) := by
  have hsplit := freeDue_split (s.opentest metarestore si) ts delay (s.pool.restamp ts)
  rw [restamp_frame.1] at hsplit
  rw [fsUnivFreeinodes_state]
  show (0 :: (s.live ++ s.pool.freeInodes)).Perm
    (0 :: (s.live ++ ((s.pool.restamp ts).freeDue (s.opentest metarestore si) ts delay).1.freeInodes)
      ++ s.releasedBy metarestore ts delay si)
  rw [List.cons_append, List.append_assoc]
  exact (hsplit.append_left _).cons 0

/-- A freeing run, on either side. -/
theorem Numbered.freeinodes (h : s.Numbered) {fi si ics : Nat} :
    Numbered { s with toInodeState :=
      (fsUnivFreeinodes s.toInodeState metarestore ts delay fi si ics).2.1 } := by
  obtain ⟨_, hmask, _, hsize, hmax⟩ := restamp_frame
  obtain ⟨hstamp, hlast⟩ := h.stamped.restamp
  have hperm := freeinodes_perm s metarestore ts delay fi si ics
  rw [fsUnivFreeinodes_state] at hperm ⊢
  refine h.of_pool _ hperm ?_ hsize hmax
    (freeDue_fullBelow (s.opentest metarestore si) ts delay
      (restamp_fullBelow h.fullBelow ts))
    (hstamp.freeDue (s.opentest metarestore si) ts delay hlast)
  intro j
  rw [← hmask]
  exact freeDue_freebitmask (s.opentest metarestore si) ts delay (s.pool.restamp ts) j

/-- **A restart:** the stored metadata are accepted, and the master that starts from them
has the same nodes and the same free list. -/
theorem Numbered.load (h : s.Numbered) {ignoreflag : Bool} :
    ∃ t, s.load ignoreflag = some t ∧ t.Numbered ∧ t.live.Perm s.live
      ∧ t.pool.freelist = s.pool.freelist := by
  obtain ⟨hzero, hrest⟩ := List.nodup_cons.mp h.distinct
  obtain ⟨hlive, hfree, hdisj⟩ := List.nodup_append'.mp hrest
  have hsmall : ∀ j ∈ s.inUse, j < 2 ^ 32 := fun j hj =>
    Nat.lt_of_le_of_lt (h.bound j hj) h.maxnode
  have hlen : s.pool.freelist.length < 2 ^ 32 := by
    -- the numbers in use are distinct numbers below 2^32
    have hsub : s.inUse.toFinset ⊆ Finset.range (2 ^ 32) := fun j hj =>
      Finset.mem_range.mpr (hsmall j (List.mem_toFinset.mp hj))
    have hcard := Finset.card_le_card hsub
    rw [Finset.card_range, List.toFinset_card_of_nodup h.distinct, length_inUse] at hcard
    omega
  obtain ⟨q, hq, hmarks, hspos, hqmax⟩ := fsLoadnodes_nodup
    (initFreebitmask s.pool.maxnodeid) [] [0] hlive (List.disjoint_nil_right _)
    initFreebitmask_marks
  obtain ⟨r, hr, hload⟩ := fsLoadfree_storefree h.stamped
    (fun i hi => hsmall i (List.mem_cons_of_mem 0 (List.mem_append_right _ hi))) hlen hmarks
  have hlist : r.freelist = s.pool.freelist := hload.freelist
  have hfreeInodes : r.freeInodes = s.pool.freeInodes := congrArg (List.map FreeNode.inode) hlist
  have hmax : r.maxnodeid = s.pool.maxnodeid := hload.maxnodeid.trans hqmax
  have hspos' : r.searchpos = 0 := hload.searchpos.trans hspos
  refine ⟨{ s with pool := r, live := s.live.reverse ++ [] }, ?_, ?_, ?_, hlist⟩
  · unfold NodeNumbers.load
    rw [hq, Option.bind_some]
    rw [hr]
    rfl
  · have hperm : inUse { s with pool := r, live := s.live.reverse ++ [] } |>.Perm s.inUse := by
      unfold inUse
      rw [hfreeInodes, List.append_nil]
      exact ((List.reverse_perm _).append_right _).cons 0
    refine ⟨?_, hperm.nodup_iff.mpr h.distinct, ?_, ?_, ⟨?_, ?_⟩, ⟨?_, hload.lastStamp⟩⟩
    · refine hload.marks.congr fun j => ?_
      rw [hperm.mem_iff]
      simp only [inUse, List.mem_cons, List.mem_append, List.not_mem_nil, or_false]
      tauto
    · intro j hj
      show j ≤ r.maxnodeid
      rw [hmax]
      exact h.bound j (hperm.mem_iff.mp hj)
    · show r.maxnodeid < 2 ^ 32
      rw [hmax]
      exact h.maxnode
    · show ∀ pos < r.searchpos, _
      rw [hspos']
      exact fun pos hpos => absurd hpos (Nat.not_lt_zero pos)
    · show r.searchpos ≤ _
      rw [hspos']
      exact Nat.zero_le _
    · show r.freelist.Pairwise _
      rw [hlist]
      exact h.stamped.sorted
  · rw [List.append_nil]
    exact List.reverse_perm _

/-- **Step lemma.** -/
theorem Numbered.step (h : s.Numbered) (hc : s.NumberLeft e) : (s.step e).Numbered := by
  cases e with
  | createNode => exact h.createNode hc
  | removeNode inode ts => exact h.removeNode
  | freeinodes | mrFreeinodes => exact h.freeinodes
  | openFiles o =>
    exact ⟨h.marks, h.distinct, h.bound, h.maxnode, h.fullBelow, h.stamped⟩
  | reload ignoreflag =>
    obtain ⟨t, ht, hnum, _⟩ := h.load
    show ((s.load ignoreflag).getD s).Numbered
    rw [ht]
    exact hnum

theorem fsNew_numbered : fsNew.Numbered := by
  refine ⟨⟨?_, ?_⟩, by decide, ?_, by decide, ⟨?_, by decide⟩, ⟨List.Pairwise.nil, rfl⟩⟩
  · intro j
    show (j == 0 || j == rootId) = true ↔ j ∈ [0, rootId]
    simp
  · decide
  · decide
  · exact fun pos hpos => absurd hpos (Nat.not_lt_zero pos)

/-! ## §3. What is released was not open. -/

/-- A number that a freeing run releases is not held open. -/
theorem releasedBy_closed {si i : Nat}
    (hc : metarestore = false ∨ 0 < si
      ∨ ∀ n ∈ dueEntries ts delay (s.pool.restamp ts).freelist,
          s.openFiles.ofIsfileopen n.inode = false)
    (hi : i ∈ s.releasedBy metarestore ts delay si) : s.openFiles.ofIsfileopen i = false := by
  obtain ⟨n, hn, rfl⟩ := List.mem_map.mp hi
  obtain ⟨hdue, hclosed⟩ := List.mem_filter.mp hn
  unfold opentest at hclosed
  rcases hc with hleader | hsi | hnone
  · simpa [hleader] using hclosed
  · simpa [hsi] using hclosed
  · exact hnone n hdue

/-- **Nothing else releases a number.** -/
theorem Numbered.released_closed (h : s.Numbered) (hc : s.NumberLeft e) {i : Nat} (hi : i ∈ s.inUse)
    (hgone : i ∉ (s.step e).inUse) : s.openFiles.ofIsfileopen i = false := by
  -- a step whose numbers in use are a permutation of the old ones releases nothing
  have hkept : ∀ t : NodeNumbers, (∀ j ∈ s.inUse, j ∈ t.inUse) → i ∉ t.inUse →
      s.openFiles.ofIsfileopen i = false := fun t hsub hnot => absurd (hsub i hi) hnot
  cases e with
  | createNode =>
    refine hkept _ (fun j hj => ?_) hgone
    show j ∈ 0 :: (_ :: s.live ++ s.pool.freeInodes)
    simp only [inUse, List.mem_cons, List.mem_append, List.cons_append] at hj ⊢
    tauto
  | removeNode inode ts =>
    by_cases hlive : inode ∈ s.live
    · have hstep : s.step (.removeNode inode ts)
          = { s with pool := s.pool.fsnodesFreeId inode ts, live := s.live.erase inode } :=
        if_pos hlive
      rw [hstep] at hgone
      exact hkept _ (fun j hj => (removeNode_perm hlive).mem_iff.mp hj) hgone
    · have hstep : s.step (.removeNode inode ts) = s := if_neg hlive
      rw [hstep] at hgone
      exact absurd hi hgone
  | freeinodes ts delay =>
    have hmem := (freeinodes_perm s false ts delay 0 0 0).mem_iff.mp hi
    have hrel : i ∈ s.releasedBy false ts delay 0 := (List.mem_append.mp hmem).resolve_left hgone
    exact releasedBy_closed (Or.inl rfl) hrel
  | mrFreeinodes ts delay fi si ics =>
    have hmem := (freeinodes_perm s true ts delay fi si ics).mem_iff.mp hi
    have hrel : i ∈ s.releasedBy true ts delay si := (List.mem_append.mp hmem).resolve_left hgone
    exact releasedBy_closed (Or.inr hc) hrel
  | openFiles o => exact absurd hi hgone
  | reload ignoreflag =>
    obtain ⟨t, ht, _, hlive, hlist⟩ := h.load
    have hstep : s.step (.reload ignoreflag) = t := by
      show (s.load ignoreflag).getD s = t
      rw [ht]
      rfl
    rw [hstep] at hgone
    refine hkept t (fun j hj => ?_) hgone
    unfold inUse freeInodes at hj ⊢
    rw [hlist]
    exact ((hlive.append_right _).cons 0).mem_iff.mpr hj

/-! ## §4. Runs. -/

/-- **In every state of a run** whose steps meet `NumberLeft`, from a new file system on:
the mask marks inode 0, the nodes and the waiting numbers, which are distinct; the list is
in order and its stored form is accepted; the words below the cursor are full; the next
number is new while one is left; and what a step releases is not held open. -/
theorem inode_numbers_unique (es : List NumberEvent) (hmeet : StepsMeet step NumberLeft fsNew es) :
    (run step fsNew es).Numbered
      ∧ (∀ ignoreflag, ∃ t, (run step fsNew es).load ignoreflag = some t
          ∧ t.live.Perm (run step fsNew es).live
          ∧ t.pool.freelist = (run step fsNew es).pool.freelist)
      ∧ ((run step fsNew es).NumberLeft .createNode →
          (run step fsNew es).pool.fsnodesGetNextIdU32.1 ∉ (run step fsNew es).inUse)
      ∧ ∀ e, (run step fsNew es).NumberLeft e → ∀ i ∈ (run step fsNew es).inUse,
          i ∉ ((run step fsNew es).step e).inUse →
          (run step fsNew es).openFiles.ofIsfileopen i = false := by
  have hnum : (run step fsNew es).Numbered :=
    run_invariant (fun _ _ h hc => h.step hc) es fsNew fsNew_numbered hmeet
  generalize run step fsNew es = s at hnum ⊢
  refine ⟨hnum, ?_, ?_, ?_⟩
  · intro ignoreflag
    obtain ⟨t, ht, _, hlive, hlist⟩ := hnum.load
    exact ⟨t, ht, hlive, hlist⟩
  · intro hleft
    have hleft : s.live.length + s.pool.freelist.length < 2 ^ 32 - 1 := hleft
    obtain ⟨hsmall, hnew⟩ := hnum.next (by rw [length_inUse]; omega)
    rw [fsnodesGetNextIdU32_eq hsmall]
    exact hnew
  · exact fun e hc i hi hgone => hnum.released_closed hc hi hgone

/-- A run with a node that is removed, kept back while it is open, released after it was
closed, and a restart in between. -/
def shortRun : List NumberEvent :=
  [.createNode, .createNode, .openFiles [(7, 2)], .removeNode 2 10, .freeinodes 200 100,
    .reload false, .openFiles [], .freeinodes 400 100, .mrFreeinodes 500 100 0 0 0]

/-- The run meets the condition, and the number 2 can be given to a node again. -/
theorem inode_numbers_unique_shortRun : StepsMeet step NumberLeft fsNew shortRun
      ∧ (run step fsNew shortRun).pool.fsnodesGetNextIdU32.1 = 2
      ∧ 2 ∉ (run step fsNew shortRun).inUse := by
  have hmeet : StepsMeet step NumberLeft fsNew shortRun := by decide
  have hnext : (run step fsNew shortRun).pool.fsnodesGetNextIdU32.1 = 2 := by decide
  refine ⟨hmeet, hnext, ?_⟩
  have hnew := (inode_numbers_unique shortRun hmeet).2.2.1 (by decide)
  rwa [hnext] at hnew

/-- A mask that marks the numbers below `n` yields `n`, also beyond 32 bits. -/
theorem fsnodesGetNextId_range (hm : p.Marks (List.range n))
    (hf : p.FullBelow) : p.fsnodesGetNextId.1 = n := by
  have hfresh := fsnodesGetNextId_fresh hm hf.search
  have hleast := fsnodesGetNextId_least hm hf
  rw [List.mem_range, Nat.not_lt] at hfresh
  refine Nat.le_antisymm (Nat.not_lt.mp fun hlt => ?_) hfresh
  exact absurd (List.mem_range.mp (hleast n hlt)) (Nat.lt_irrefl n)

/-- After `n` creations in a new file system the mask marks the numbers below `n + 2`. -/
theorem creations_marks :
    (run step fsNew (List.replicate n .createNode)).pool.Marks (List.range (n + 2))
      ∧ (run step fsNew (List.replicate n .createNode)).pool.FullBelow
      ∧ rootId ∈ (run step fsNew (List.replicate n .createNode)).live := by
  induction n with
  | zero => exact ⟨fsNew_numbered.marks, fsNew_numbered.fullBelow, List.mem_singleton_self _⟩
  | succ n ih =>
    have hrun : run step fsNew (List.replicate (n + 1) .createNode)
        = step (run step fsNew (List.replicate n .createNode)) .createNode := by
      rw [List.replicate_succ']
      exact List.foldl_append
    rw [hrun]
    generalize run step fsNew (List.replicate n .createNode) = s at ih
    obtain ⟨hm, hf, hroot⟩ := ih
    have hfull := fsnodesGetNextId_fullBelow hm hf
    have hmarks := fsnodesGetNextId_marks hm hf.search
    rw [fsnodesGetNextId_range hm hf] at hmarks
    have hmarks' := hmarks.congr fun j => (show j ∈ List.range (n + 1 + 2) ↔ j ∈ (n + 2) :: _ by
      rw [List.range_succ, List.mem_append, List.mem_singleton, List.mem_cons, or_comm])
    exact ⟨⟨hmarks'.marks, hmarks'.inMask⟩, ⟨hfull.full, hfull.search⟩,
      List.mem_cons_of_mem _ hroot⟩

theorem creations_next :
    (run step fsNew (List.replicate n .createNode)).pool.fsnodesGetNextIdU32.1 = (n + 2) % 2 ^ 32
      ∧ rootId ∈ (run step fsNew (List.replicate n .createNode)).live := by
  obtain ⟨hm, hf, hroot⟩ := creations_marks
  refine ⟨?_, hroot⟩
  unfold fsnodesGetNextIdU32
  dsimp only
  rw [fsnodesGetNextId_range hm hf]

/-- **The numbers wrap.**  After `2^32 - 1` creations, the last of which was given inode 0,
the next node is given the inode of the root. -/
theorem inode_numbers_wrap :
    (run step fsNew (List.replicate (2 ^ 32 - 1) .createNode)).pool.fsnodesGetNextIdU32.1 = rootId
      ∧ rootId ∈ (run step fsNew (List.replicate (2 ^ 32 - 1) .createNode)).live := by
  -- the number of creations stays a variable: the run must not be evaluated
  obtain ⟨n, hn⟩ : ∃ n, n = 2 ^ 32 - 1 := ⟨_, rfl⟩
  rw [← hn]
  obtain ⟨hnext, hroot⟩ := creations_next
  refine ⟨hnext.trans ?_, hroot⟩
  unfold rootId
  omega

end NodeNumbers

end MfsMaster
