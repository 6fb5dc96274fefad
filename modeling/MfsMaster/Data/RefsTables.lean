/-
  MfsMaster.Data.RefsTables
  **CHANGES OF A CHUNK TABLE AND THE REFERENCES.**

  Truncation and appending keep the references sound.  A rollback does so when the entry
  it overwrites is still the one its request made: `rollbackSafe`.
-/
import MfsMaster.Data.RefsTree

namespace MfsMaster.Master

variable {dst k inode : Nat} {t : Master}

/-! ## §1. Tables. -/

theorem sameData_changeData (s : Master) (i : Nat) (change : Master → Master) :
    SameData (change s) (s.changeData i change) := .of_eq rfl rfl rfl rfl

variable {s : Master} {indx chunkid : Nat} {tab : List Nat} {dstobj n : FsNode}

theorem Sound.fsnodesSetlength (h : s.Sound) {i : Nat} {length : UInt64} :
    (s.fsnodesSetlength i length).Sound := by
  unfold Master.fsnodesSetlength
  cases hn : s.nodes i with
  | none => exact h
  | some n =>
    dsimp only
    split
    · exact h
    next hd =>
    have hd : n.type.hasData = true := by simpa using hd
    have h1 := h.sameData (sameData_modNode (i := i) (.setLength length) fun _ _ => rfl)
    have hnode : (s.modNode i (.setLength length)).nodes i = some (n.setLength length) := by
      rw [modNode_nodes, if_pos rfl, hn]
      rfl
    generalize chunksForLength length = chunks
    have hsame := (sameData_changeData s i fun s =>
      ((s.modNode i (.setLength length)).deleteFiles n.sclassid (n.chunktab.drop chunks)).modNode i
        (.setChunktab (n.chunktab.take chunks))).trans
      (sameData_modNode (i := i) .clearSnapshot fun _ _ => rfl)
    have hcut := fun a => tabUses_take_drop n.sclassid a chunks n.chunktab
    refine h1.exchange hnode hd _ [] nofun hsame (if_pos hd)
      (fun a => hcut a ▸ Nat.le_add_left _ _) fun a => ?_
    rw [tabUses_nil]
    exact hcut a

theorem growTab_entry : indx < (growTab (indx + 1) tab).length
      ∧ (growTab (indx + 1) tab).getD indx 0 = tab.getD indx 0 := by
  unfold growTab
  constructor
  · rw [List.length_append, List.length_replicate]
    omega
  rw [List.getD_eq_getElem?_getD, List.getD_eq_getElem?_getD, List.getElem?_append]
  split
  · rfl
  next hge =>
    rw [List.getElem?_eq_none (Nat.not_lt.mp hge), List.getElem?_replicate]
    split <;> rfl

theorem getD_mem (hlt : indx < tab.length) : tab.getD indx 0 ∈ tab := by
  rw [List.getD_eq_getElem?_getD, List.getElem?_eq_getElem hlt]
  exact List.getElem_mem hlt

theorem mem_growTab {n c : Nat} (h : c ∈ growTab n tab) (hc : c ≠ 0) : c ∈ tab := by
  rcases List.mem_append.mp h with h | h
  · exact h
  · exact absurd (List.eq_of_mem_replicate h) hc

/-- Appended chunks are counted, and what they replace is not any more. -/
theorem Sound.appendChunks (h : s.Sound) (ts : UInt32) (src : Nat)
    (hdst : s.nodes dst = some dstobj) (hd : dstobj.type.hasData = true)
    (dstchunks : Nat) {slice : List Nat} (hex : ∀ c ∈ slice, c ≠ 0 → (s.chunks c).isSome = true)
    (length : UInt64) : (s.appendChunks ts dst src dstobj dstchunks slice length).Sound := by
  unfold Master.appendChunks
  dsimp only
  generalize htab : growTab (slice.length + dstchunks) dstobj.chunktab = tab
  generalize hnew : tab.take dstchunks ++ slice
    ++ List.replicate (tab.length - (slice.length + dstchunks)) 0 = new
  have hcut : ∀ a, tabUses dstobj.sclassid (tab.take dstchunks) a
      + tabUses dstobj.sclassid (tab.drop dstchunks) a
      = tabUses dstobj.sclassid dstobj.chunktab a := by
    intro a
    rw [tabUses_take_drop, ← htab, tabUses_growTab]
  -- what follows the new table are times and statistics
  have htimes := ((sameData_changeData s dst fun s => ((s.deleteFiles dstobj.sclassid
      (tab.drop dstchunks)).addFiles dstobj.sclassid slice).modNode dst
        fun n => (n.setChunktab new).setLength length).trans
      (sameData_modNode (i := dst) (.setMtimeAtime ts) fun _ _ => rfl)).trans
      (sameData_modNode (i := src) (.setAtime ts) fun _ _ => rfl)
  refine h.exchange hdst hd _ _ hex ((htimes.trans touched_fsnodesCheckarchmode.sameData).trans
    touched_fsnodesCheckarchmode.sameData) (if_pos hd)
    (fun a => (hcut a) ▸ Nat.le_add_left _ _) fun a => ?_
  have := hcut a
  show tabUses dstobj.sclassid new a + _ = _
  rw [← hnew, tabUses_append, tabUses_append, tabUses_replicate_zero]
  omega

theorem Sound.fsnodesAppendSliceOfChunks (h : s.Sound) (ts : UInt32) {src : Nat}
    {srcobj : FsNode} (hdst : s.nodes dst = some dstobj) (hsrc : s.nodes src = some srcobj)
    (hdd : dstobj.type.hasData = true) (hsd : srcobj.type.hasData = true) (sliceFrom sliceTo : Nat) :
    (s.fsnodesAppendSliceOfChunks ts dst src dstobj srcobj sliceFrom sliceTo).2.Sound := by
  -- the chunks of a slice are those of the other file
  have hex : ∀ n m k, ∀ c ∈ growTab n ((srcobj.chunktab.drop m).take k), c ≠ 0 →
      (s.chunks c).isSome = true := by
    intro n m k c hc hc0
    have hmem := List.mem_of_mem_drop (List.mem_of_mem_take (mem_growTab hc hc0))
    exact isSome_of_refsOf (h.entry (dataAt_of_hasData hsrc hsd) hmem hc0)
  have hwork := fun dstchunks n m k length =>
    h.appendChunks ts src hdst hdd dstchunks (hex n m k) length
  unfold Master.fsnodesAppendSliceOfChunks
  extract_lets last whole sliceFrom sliceTo
  split
  · exact h
  split
  · exact h
  · exact hwork _ _ _ _ _

/-! ## §2. Rollback. -/

/-- Chunk 0 stands for no chunk. -/
theorem Sound.refsOf_zero (h : s.Sound) : s.refsOf (0, k) = 0 := by
  have hzero : ∀ i, s.uses i (0, k) = 0 := by
    intro i
    unfold uses dataUses
    split
    · exact if_neg fun h => h.1 rfl
    · rfl
  rw [h.balanced.sum (0, k)]
  exact finsum_eq_zero_of_forall_eq_zero hzero

/-- `chunk_delete_file` of a class a chunk does not count. -/
theorem sameData_chunkDeleteFile (hs : s.ChunksOk)
    (hzero : s.refsOf (chunkid, k) = 0) : SameData s (s.chunkDeleteFile chunkid k) where
  nodes := fun _ => rfl
  chunks := by
    intro j
    unfold chunkDeleteFile modChunk
    dsimp only
    split
    next hj =>
      subst hj
      cases hc : s.chunks j with
      | none => rfl
      | some c =>
        rw [refsOf_some hc] at hzero
        rw [Option.map_some, chunkDeleteFileInt_of_refs_zero s.sclasses (hs.files j c hc) hzero]
    · rfl
  pool := rfl
  next := rfl

/-- **A rollback finds what its request left**: nothing is to be rolled back, or the chunk before it
is still there (or there was none) and the entry names the chunk of the request, or names nothing
while that chunk has no files. -/
def rollbackSafe (s : Master) (inode indx prevchunkid chunkid : Nat) : Bool :=
  prevchunkid == chunkid || match s.dataAt inode with
    | some (some (_, chunktab)) =>
      chunktab.length ≤ indx
        || ((prevchunkid == 0 || (s.chunks prevchunkid).isSome)
          && (chunktab.getD indx 0 == chunkid
            || (chunktab.getD indx 0 == 0 && (s.chunks chunkid).all fun c => c.fhead == .few 0)))
    | _ => true

theorem rollbackSafe_spec {prevchunkid : Nat}
    (h : s.rollbackSafe inode indx prevchunkid chunkid = true) (hne : prevchunkid ≠ chunkid)
    (hn : s.nodes inode = some n) (hd : n.type.hasData = true) (hlt : indx < n.chunktab.length) :
    (prevchunkid = 0 ∨ (s.chunks prevchunkid).isSome = true)
      ∧ (n.chunktab.getD indx 0 = chunkid ∨ (n.chunktab.getD indx 0 = 0
        ∧ ∀ c, s.chunks chunkid = some c → c.fhead = .few 0)) := by
  unfold rollbackSafe at h
  rw [dataAt_of_hasData hn hd, beq_false_of_ne hne] at h
  simp only [Bool.false_or, Bool.or_eq_true, Bool.and_eq_true, decide_eq_true_eq, beq_iff_eq,
    Option.all_eq_true] at h
  rcases h with h | h
  · omega
  · exact h

theorem Sound.rollbackTable (h : s.Sound) {prevchunkid : Nat} (hn : s.nodes inode = some n)
    (hd : n.type.hasData = true) (hlt : indx < n.chunktab.length)
    (hsafe : s.rollbackSafe inode indx prevchunkid chunkid = true) :
    (s.rollbackTable inode indx prevchunkid chunkid n).Sound := by
  unfold Master.rollbackTable
  by_cases hne : prevchunkid = chunkid
  · rw [if_pos hne]
    exact h
  rw [if_neg hne]
  obtain ⟨hprev, hentry⟩ := rollbackSafe_spec hsafe hne hn hd hlt
  generalize hT : n.chunktab.getD indx 0 = T at hentry
  -- the chunk before the request counts the file again
  have hr1 : Retable s (s.addFiles n.sclassid [prevchunkid]) inode
      (tabUses n.sclassid [prevchunkid]) 0 := by
    refine retable_addFiles h.chunks inode n.sclassid fun c hc hc0 => ?_
    rw [List.mem_singleton.mp hc] at hc0 ⊢
    exact hprev.resolve_left hc0
  generalize hs1 : s.addFiles n.sclassid [prevchunkid] = s1 at hr1
  have hok1 := hr1.chunks h.chunks
  have hrefs1 : s1.refsOf (chunkid, n.sclassid) = s.refsOf (chunkid, n.sclassid) := by
    have := hr1.refs (chunkid, n.sclassid)
    rw [tabUses_single_off (c := prevchunkid) (a := (chunkid, n.sclassid))
      (Ne.symm hne)] at this
    exact this
  -- the chunk of the request does not count it any more, if it did
  have hr2 : Retable s1 (s1.chunkDeleteFile chunkid n.sclassid) inode 0
      (tabUses n.sclassid [T]) := by
    by_cases hT0 : T = 0
    · have hzero : s1.refsOf (chunkid, n.sclassid) = 0 := by
        rw [hrefs1]
        rcases hentry with hc | ⟨_, hfree⟩
        · rw [← hc, hT0]
          exact h.refsOf_zero
        cases hch : s.chunks chunkid with
        | none =>
          unfold refsOf
          rw [hch]
        | some c =>
          rw [refsOf_some hch]
          exact Chunk.refs_of_empty (hfree c hch)
      refine ((sameData_chunkDeleteFile hok1 hzero).retable inode).congr (fun _ => rfl) fun a => ?_
      rw [hT0]
      exact tabUses_zero n.sclassid a
    · have hle : ∀ a, tabUses n.sclassid [T] a ≤ s1.refsOf a := by
        intro a
        have hset := tabUses_set n.sclassid a hlt 0
        have huses := h.tabUses_le (dataAt_of_hasData hn hd) a
        have hrefs : s1.refsOf a + 0 = _ := hr1.refs a
        rw [hT, tabUses_zero] at hset
        omega
      have hdel := retable_deleteFiles hok1 inode n.sclassid hle
      have heq : s1.deleteFiles n.sclassid [T] = s1.chunkDeleteFile T n.sclassid :=
        if_pos (Nat.pos_of_ne_zero hT0)
      rw [heq] at hdel
      rw [← hentry.resolve_right fun h0 => hT0 h0.1]
      exact hdel
  have hnode : (s1.chunkDeleteFile chunkid n.sclassid).nodes inode = some n := by
    refine Eq.trans ?_ hn
    rw [← hs1]
    exact congrFun
      (onChunks_frame (fun t c => chunkAddFileInt t c n.sclassid) [prevchunkid] s).1 inode
  have hsame := sameData_changeData s inode fun s =>
    ((if 0 < prevchunkid then s.chunkAddFile prevchunkid n.sclassid else s).chunkDeleteFile chunkid
      n.sclassid).modNode inode (.setChunktab (n.chunktab.set indx prevchunkid))
  have hs1' : (if 0 < prevchunkid then s.chunkAddFile prevchunkid n.sclassid else s) = s1 := hs1
  rw [hs1'] at hsame
  refine h.changeNode hn hd (hr1.trans hr2) hnode hsame (if_pos hd) fun a => ?_
  have hset := tabUses_set n.sclassid a hlt prevchunkid
  rw [hT] at hset
  show (tabUses n.sclassid [prevchunkid] a + 0) + _ = (0 + tabUses n.sclassid [T] a)
    + tabUses n.sclassid (n.chunktab.set indx prevchunkid) a
  omega

theorem SameData.isSome (h : SameData s t) (c : Nat) :
    (t.chunks c).isSome = (s.chunks c).isSome := by
  have := congrArg Option.isSome (h.chunks c)
  rwa [Option.isSome_map, Option.isSome_map] at this

theorem rollbackCheck_ok (h : s.rollbackCheck inode indx = .ok n) :
    s.nodes inode = some n ∧ n.type.hasData = true ∧ indx < n.chunktab.length := by
  simp only [rollbackCheck, dataNode, except_bind_eq_ok, require_eq_ok, refuse_eq_ok, exists_const]
    at h
  obtain ⟨m, ⟨m', hm, hd, _, hmm⟩, hlt, hn⟩ := h
  cases hmm
  cases hn
  exact ⟨hm, by simpa using hd, by simpa using hlt⟩

theorem rollbackSafe_congr (h : SameData s t) (inode indx prevchunkid chunkid : Nat) :
    t.rollbackSafe inode indx prevchunkid chunkid
      = s.rollbackSafe inode indx prevchunkid chunkid := by
  have hhead : (t.chunks chunkid).all (fun c => c.fhead == .few 0)
      = (s.chunks chunkid).all fun c => c.fhead == .few 0 := by
    have := congrArg (Option.all fun f : FHead × Nat => f.1 == .few 0) (h.chunks chunkid)
    rwa [Option.all_map, Option.all_map] at this
  unfold rollbackSafe
  rw [h.isSome, hhead, h.nodes inode]

end MfsMaster.Master
