/-
  MfsMaster.Data.RefsSnapshot
  **SNAPSHOTS KEEP THE REFERENCES SOUND.**

  A copy of a file counts one more file on every chunk of its source.  The chunks are
  there because the source holds them; the source is not the file that makes room for
  the copy, since a file is never replaced by itself.
-/
import MfsMaster.Data.RefsTree
import MfsMaster.Fs.SnapshotEdges

namespace MfsMaster.Master

/-! ## §1. Copies of files. -/

variable {dst parent srcinode : Nat} {s : Master} {src : FsNode} {a : SnapArgs} {name : Name}
  {st : Snap} {psr : StatsRecord} {e : FsEdge}

theorem Sound.copyChunks (h : s.Sound) (srcinode : Nat) {n : FsNode}
    (hsrc : s.dataAt srcinode = some (some (src.sclassid, src.chunktab)))
    (hn : s.nodes dst = some n) (hd : n.type.hasData = true) (htab : n.chunktab = []) :
    (s.copyChunks src parent dst psr).Sound := by
  have hex : ∀ c ∈ src.chunktab, c ≠ 0 → (s.chunks c).isSome = true :=
    fun c hc hc0 => isSome_of_refsOf (h.entry hsrc hc hc0)
  have hclass : ((s.nodes dst).map FsNode.sclassid).getD 0 = n.sclassid := by rw [hn]; rfl
  have hsame : ∀ t : Master, SameData
      (t.modNode dst fun n => (n.setChunktab src.chunktab).setLength src.length)
      (((t.modNode dst fun n => (n.setChunktab src.chunktab).setLength src.length).fixRatio
        dst).addSubStats parent
        (((t.modNode dst fun n => (n.setChunktab src.chunktab).setLength src.length).fixRatio
          dst).fsnodesGetStats dst) psr) := fun t => .of_eq rfl rfl rfl rfl
  unfold Master.copyChunks
  rw [hclass]
  refine h.exchange hn hd [] _ hex (hsame _) (if_pos hd)
    (fun a => (tabUses_nil n.sclassid a).symm ▸ Nat.zero_le _) fun a => ?_
  rw [htab, tabUses_nil]
  exact Nat.add_comm _ 0

theorem snapCreate_spec (h : s.Sound)
    {r : Nat × Master} (hr : snapCreate a s parent name src = some r) :
    r.2.Sound ∧ (∀ j, s.nodes j ≠ none → j ≠ r.1 ∧ r.2.dataAt j = s.dataAt j)
      ∧ ∃ n, r.2.nodes r.1 = some n ∧ n.type = src.type ∧ n.chunktab = [] := by
  obtain ⟨wd, mode, cumask, uid, gid, hwd, rfl⟩ := snapCreate_some hr
  obtain ⟨hnone, hre, hnew⟩ := retable_fsnodesCreateNode h.pool hwd
  refine ⟨h.fsnodesCreateNode a.ts parent name src.type mode cumask uid gid false,
    fun j hj => ?_, hnew⟩
  have hne : j ≠ (s.fsnodesCreateNode a.ts parent name src.type mode cumask uid gid false).1 := by
    intro hjr
    rw [hjr] at hj
    exact hj hnone
  exact ⟨hne, hre.nodes j hne⟩

theorem Sound.snapReplace (h : s.Sound) (hsrc : s.nodes srcinode = some src)
    (hfile : src.type = .file) (hne : srcinode ≠ e.child) :
    (snapReplace a s src parent name e).2.Sound := by
  have h1 := h.fsnodesUnlink a.ts e
  have hd : src.type.hasData = true := by rw [hfile]; rfl
  have hsrc1 : (s.fsnodesUnlink a.ts e).dataAt srcinode
      = some (some (src.sclassid, src.chunktab)) :=
    (keptAt_fsnodesUnlink_ne s a.ts hne).dataAt.trans (dataAt_of_hasData hsrc hd)
  unfold Master.snapReplace
  dsimp only
  cases hr : snapCreate a (s.fsnodesUnlink a.ts e) parent name src with
  | none => exact h1
  | some r =>
    obtain ⟨h2, hkeep, n, hn, htype, htab⟩ := snapCreate_spec h1 hr
    obtain ⟨hsne, hsdata⟩ := hkeep srcinode fun hnone => by
      unfold dataAt at hsrc1
      rw [hnone] at hsrc1
      cases hsrc1
    have h3 := h2.modNode_of_nil hn htab (f := FsNode.takeClass src) htab
    refine h3.copyChunks srcinode (n := src.takeClass n) ?_ ?_ ?_ htab
    · rw [dataAt_modNode, if_neg hsne, hsdata, hsrc1]
    · rw [modNode_nodes, if_pos rfl, hn]
      rfl
    · show n.type.hasData = true
      rw [htype, hd]

/-! ## §2. The recursion. -/

theorem sameData_snapFinishExisting : SameData s (snapFinishExisting a src dst s) := by
  have hattrs : ∀ n : FsNode, (snapAttrs a src n).data = n.data := by
    intro n
    unfold snapAttrs
    split
    · rfl
    split <;> rfl
  exact ((sameData_modNode _ fun n _ => hattrs n).trans
    touched_fsnodesCheckarchmode.sameData).trans
    (sameData_modNode FsNode.markSnapshot fun _ _ => rfl)

theorem sameData_snapFinishNew : SameData s (snapFinishNew a src dst s) := by
  refine SameData.trans ?_ (sameData_modNode FsNode.markSnapshot fun _ _ => rfl)
  split
  · exact .refl s
  · exact (sameData_modNode (FsNode.takeTimes src) fun _ _ => rfl).trans
      touched_fsnodesCheckarchmode.sameData

theorem Sound.snapExisting (h : st.fs.Sound) (hsrc : st.fs.nodes srcinode = some src) :
    (snapExisting a src parent name e st).2.fs.Sound := by
  unfold Master.snapExisting
  cases hdst : st.fs.nodes e.child with
  | none => exact h
  | some dst =>
    cases htype : src.type <;> dsimp only
    case file =>
      split
      · exact h
      next hdiff =>
      refine h.snapReplace hsrc htype fun heq => ?_
      rw [heq, hdst] at hsrc
      cases hsrc
      exact hdiff ⟨rfl, rfl⟩
    case symlink =>
      exact h.sameData (sameData_mapStats.trans
        (sameData_modNode (.setPath src.path) fun _ _ => rfl))
    case blockdev => exact h.sameData (sameData_modNode _ fun _ _ => rfl)
    case chardev => exact h.sameData (sameData_modNode _ fun _ _ => rfl)
    all_goals exact h

/-- The new object before its contents: it has no chunks yet. -/
theorem snapMake_spec (h : st.fs.Sound) (hsrc : st.fs.nodes srcinode = some src) {st' : Snap}
    (hmake : snapMake a srcinode src parent name st = some (dst, psr, st')) :
    st'.fs.Sound ∧ st'.fs.dataAt srcinode = st.fs.dataAt srcinode
      ∧ ∃ n, st'.fs.nodes dst = some n ∧ n.type = src.type ∧ n.chunktab = [] := by
  obtain ⟨r, hr, heq⟩ := Option.map_eq_some_iff.mp hmake
  cases heq
  obtain ⟨h1, hkeep, n, hn, htype, htab⟩ := snapCreate_spec h hr
  obtain ⟨hne, hdata⟩ := hkeep srcinode (by rw [hsrc]; exact nofun)
  unfold snapTake
  split
  · exact ⟨h1, hdata, n, hn, htype, htab⟩
  have h2 := h1.modNode_of_nil hn htab (f := FsNode.takeAttrs a src) htab
  refine ⟨h2.sameData (.of_eq rfl rfl rfl rfl), ?_, src.takeAttrs a n, ?_, htype, htab⟩
  · refine Eq.trans ?_ hdata
    show (r.2.modNode r.1 (FsNode.takeAttrs a src)).dataAt srcinode = _
    rw [dataAt_modNode, if_neg hne]
  show (r.2.modNode r.1 (FsNode.takeAttrs a src)).nodes r.1 = _
  rw [modNode_nodes, if_pos rfl, hn]
  rfl

theorem Sound.snapContents (h : s.Sound) {n : FsNode}
    (hsrc : src.type.hasData = true → s.dataAt srcinode = some (some (src.sclassid, src.chunktab)))
    (hn : s.nodes dst = some n) (htype : n.type = src.type) (htab : n.chunktab = []) :
    (snapContents src parent dst psr s).Sound := by
  unfold Master.snapContents
  cases hs : src.type <;> dsimp only
  case file =>
    have hd : src.type.hasData = true := by rw [hs]; rfl
    exact h.copyChunks srcinode (hsrc hd) hn (by rw [htype, hd]) htab
  case symlink =>
    exact h.sameData ((sameData_modNode (.setPath src.path) fun _ _ => rfl).trans
      (.of_eq rfl rfl rfl rfl))
  case blockdev => exact h.sameData (sameData_modNode _ fun _ _ => rfl)
  case chardev => exact h.sameData (sameData_modNode _ fun _ _ => rfl)
  all_goals exact h

/-- **A snapshot keeps the references sound.**  The induction is on the depth. -/
theorem Sound.fsnodesSnapshot :
    ∀ (k srcinode parent : Nat) (name : Name) (newflag : Bool) (st : Snap), st.fs.Sound →
      (fsnodesSnapshot a k srcinode parent name newflag st).fs.Sound := by
  intro k
  induction k with
  | zero => exact fun _ _ _ _ st h => h
  | succ k ih =>
    intro srcinode parent name newflag st h
    unfold Master.fsnodesSnapshot
    cases hsrc : st.fs.nodes srcinode with
    | none => exact h
    | some src =>
      have hbelow : ∀ (may : Bool) (dst : Nat) (new : Bool) (st : Snap), st.fs.Sound →
          (if src.type = .directory ∧ may = true then
            (st.fs.children srcinode).foldl
              (fun st e => Master.fsnodesSnapshot a k e.child dst e.name new st) st
          else st).fs.Sound := by
        intro may dst new st hst
        split
        · exact List.foldlRecOn (motive := fun st => st.fs.Sound) _ _ hst
            fun st hs (e : FsEdge) _ => ih e.child dst e.name new st hs
        · exact hst
      dsimp only
      split
      · exact h
      split
      next e _ =>
        split
        · rw [Snap.modFs_fs]
          refine Sound.sameData ?_ sameData_snapFinishExisting
          exact hbelow _ e.child false _ (by rw [Snap.count_fs]; exact h)
        rw [Snap.modFs_fs]
        exact (h.snapExisting hsrc).sameData
          sameData_snapFinishExisting
      · split
        · exact h
        split
        next c _ => exact h.sameData (sameData_fsnodesLink st.fs a.ts parent c.2 name)
        cases hmake : snapMake a srcinode src parent name st with
        | none => exact h
        | some r =>
          obtain ⟨dst, psr, st'⟩ := r
          obtain ⟨h1, hdata, n, hn, htype, htab⟩ := snapMake_spec h hsrc hmake
          rw [Snap.modFs_fs]
          refine Sound.sameData ?_ sameData_snapFinishNew
          split
          · exact hbelow _ dst true st' h1
          · exact h1.snapContents (fun hd => hdata.trans (dataAt_of_hasData hsrc hd)) hn htype
              htab

/-! ## §3. Removal, and the request. -/

theorem Sound.fsnodesRemoveSnapshot (a : SnapArgs) :
    ∀ (k : Nat) (e : FsEdge) (allowed : Bool) (st : Snap), st.fs.Sound →
      (fsnodesRemoveSnapshot a k e allowed st).fs.Sound :=
  fsnodesRemoveSnapshot_rule
    (fun _ _ x h => h.sameData (sameData_modNode (.setEattr x) fun _ _ => rfl))
    fun _ e h => (h.sameData (sameData_modNode (.setTrashretention 0)
      fun _ _ => rfl)).fsnodesUnlink a.ts e

theorem SameNs.sameData {t : Master} (h : SameNs s t) : SameData s t := by
  obtain ⟨st, ra, rfl⟩ := h
  exact .of_eq rfl rfl rfl rfl

/-- **`fs_univ_snapshot` keeps the references sound**, in both modes. -/
theorem Sound.fsUnivSnapshot (h : s.Sound) (a : SnapArgs) (q : SnapRequest) :
    (s.fsUnivSnapshot a q).2.2.Sound := by
  unfold Master.fsUnivSnapshot
  split
  · exact h
  split
  · split
    · exact h
    · exact Sound.fsnodesRemoveSnapshot a _ _ _ ⟨s, .zero, []⟩ h
  split
  · exact h
  next src dwd _ =>
  dsimp only
  generalize ht : (if a.flags.metarestore then (false, s)
    else s.snapCopyQuota src dwd q.nameDst) = t
  have h1 : t.2.Sound := by
    rw [← ht]
    split
    · exact h
    · exact h.sameData (sameNs_snapCopyQuota s src dwd q.nameDst).sameData
  split
  · exact h1
  · exact Sound.fsnodesSnapshot _ _ _ _ _ ⟨t.2, .zero, []⟩ h1

end MfsMaster.Master
