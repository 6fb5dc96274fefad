/-
  MfsMaster.Fs.AclSnapshot
  **MODES AND ACCESS LISTS UNDER SNAPSHOTS.**

  A snapshot gives the mode of the source to the object it makes or finds, and it copies the
  access list of the source to a new object only.  So the mode of the source can meet an access
  list that is not the source's: the list an existing object has, or the one a new object
  inherits from the default list of its directory.  `snapMeets` says, for every object in turn,
  that such a list has just the permissions of the mode it meets.

      AclsOk.fsnodesSnapshot   — then flags, modes and lists agree afterwards
      AclsOk.fsUnivSnapshot    — the request, copies and removals
-/
import MfsMaster.Fs.AclAgree
import MfsMaster.Fs.SnapshotEdges

namespace MfsMaster

open Lib

/-! ## §1. The condition. -/

/-- An access list, if there is one, has the permissions of `mode`. -/
def ListFits (l : Option AclNode) (mode : UInt16) : Prop :=
  ∀ acn ∈ l, acn.ModeAgrees mode

instance (l : Option AclNode) (mode : UInt16) : Decidable (ListFits l mode) :=
  inferInstanceAs (Decidable (∀ acn ∈ l, acn.ModeAgrees mode))

theorem listFits_none {mode : UInt16} : ListFits none mode := fun _ h => nomatch h

namespace SnapArgs

/-- The mode a copy of `src` is made with. -/
def newMode (a : SnapArgs) (src : FsNode) : UInt16 :=
  if a.cplike then src.mode else if a.owns src then src.mode else src.mode &&& 0x3FF

/-- The mode an existing object gets. -/
def oldMode (a : SnapArgs) (src : FsNode) : UInt16 :=
  if a.cplike then src.mode &&& ~~~a.cumask
  else if a.owns src then src.mode else src.mode &&& 0x3FF

end SnapArgs

variable {a : SnapArgs} {dst parent srcinode : Nat} {name : Name} {s s₀ : Master} {src : FsNode}
  {st : Snap} {psr : StatsRecord}

namespace Master

/-- The mode given to the object `e` leads to meets a list with its permissions: the list the
object has, or, when a new file takes its place, the list this one inherits. -/
def existingFits (a : SnapArgs) (s : Master) (src : FsNode) (parent : Nat) (e : FsEdge) : Bool :=
  match s.nodes parent, s.nodes e.child with
  | some _, some dst =>
    if src.type = .file ∧ ¬ (dst.length = src.length ∧ dst.chunktab = src.chunktab) then
      decide (ListFits (s.inherited parent (a.newMode src)) (a.oldMode src))
    else decide (ListFits (s.acls.access e.child) (a.oldMode src))
  | _, _ => false

/-- The mode a new object takes from its source meets the list of the source, or one with its
permissions; with `SNAPSHOT_MODE_CPLIKE_ATTR` the object keeps the mode it was made with. -/
def newFits (a : SnapArgs) (s : Master) (src : FsNode) (parent : Nat) : Bool :=
  a.cplike || src.aclpermflag
    || decide (ListFits (s.inherited parent (a.newMode src)) (a.newMode src))

/-- Every object that `fsnodes_snapshot` meets on its way fits. -/
def snapMeets (a : SnapArgs) : Nat → Nat → Nat → Name → Bool → Snap → Bool
  | 0, _, _, _, _, _ => true
  | k + 1, srcinode, parent, name, newflag, st =>
    match st.fs.nodes srcinode with
    | none => true
    | some src =>
      let may := fun mask => st.fs.fsnodesAccessExt srcinode src a.cred mask a.flags
      let below := fun (dst : Nat) (new : Bool) (st : Snap) =>
        if src.type = .directory ∧ may (modeMaskR ||| modeMaskX) then
          decide (StepsMeet (fun st (e : FsEdge) => fsnodesSnapshot a k e.child dst e.name new st)
            (fun st e => snapMeets a k e.child dst e.name new st = true) st
            (st.fs.children srcinode))
        else true
      if src.type = .file ∧ !may modeMaskR then true
      else match if newflag then none else st.fs.fsnodesLookup parent name with
        | some e =>
          existingFits a st.fs src parent e
            && below e.child false
              (st.count fun c => { c with existingObject := c.existingObject + 1 })
        | none =>
          if src.type = .trash ∨ src.type = .sustained then true
          else match if snapHardlink a st.fs srcinode src
              then st.copies.find? fun c => c.1 == srcinode else none with
            | some _ => true
            | none =>
              match snapMake a srcinode src parent name st with
              | none => true
              | some (dst, _, st') => newFits a st.fs src parent && below dst true st'

/-! ## §2. Existing objects. -/

theorem snapAttrs_bits {n : FsNode} :
    (snapAttrs a src n).aclBits = (n.aclpermflag, n.acldefflag, a.oldMode src) := by
  unfold snapAttrs SnapArgs.oldMode
  split
  · rfl
  split <;> rfl

theorem AclsOk.snapFinishExisting (h : AclsOk s₀ s) (a : SnapArgs) (src : FsNode)
    (hfits : ListFits (s.acls.access dst) (a.oldMode src)) :
    AclsOk s₀ (snapFinishExisting a src dst s) := by
  have hattrs : AclsOk s₀ (s.modNode dst (snapAttrs a src)) := by
    have hother : ∀ j, j ≠ dst → (s.modNode dst (snapAttrs a src)).aclView j = s.aclView j := by
      intro j hj
      unfold aclView
      rw [modNode_nodes, if_neg hj]
      rfl
    refine h.change dst hother ?_ ?_ fun _ => .inl rfl
    · obtain ⟨hacc, hdef, _⟩ := h.agree dst
      unfold aclView at hacc hdef ⊢
      rw [modNode_nodes, if_pos rfl]
      cases hn : s.nodes dst with
      | none =>
        rw [hn] at hacc hdef
        exact ⟨hacc, hdef, fun _ _ _ hb => nomatch hb⟩
      | some n =>
        rw [hn] at hacc hdef
        simp only [Option.map_some, snapAttrs_bits]
        refine ⟨hacc, hdef, ?_⟩
        intro acn b hacn hb
        cases hb
        exact hfits acn hacn
    · refine h.pool.mono fun j hj => hj.imp_right fun hj => ?_
      rwa [modNode_isSome] at hj
  exact (hattrs.same touched_fsnodesCheckarchmode.sameAcls).same (sameAcls_modNode fun _ => rfl)

theorem sameAcls_addFiles {sclassid : Nat} {tab : List Nat} (s : Master) :
    SameAcls s (s.addFiles sclassid tab) := by
  refine List.foldlRecOn (motive := SameAcls s) tab _ .refl fun t ht c _ => ?_
  split
  · exact ht.trans (.of_eq rfl rfl rfl)
  · exact ht

theorem sameAcls_copyChunks (src : FsNode) (parent dst : Nat) (psr : StatsRecord) :
    SameAcls s (s.copyChunks src parent dst psr) := by
  unfold copyChunks
  generalize ((s.nodes dst).map FsNode.sclassid).getD 0 = sclassid
  have h1 := (sameAcls_addFiles s).trans
    (sameAcls_modNode (s := s.addFiles sclassid src.chunktab) (i := dst)
      (f := fun n => (n.setChunktab src.chunktab).setLength src.length) fun _ => rfl)
  exact h1.trans (.of_eq rfl rfl rfl)

/-- What `snapCreate` makes. -/
theorem AclsOk.snapCreate (h : AclsOk s₀ s) {r : Nat × Master}
    (hr : snapCreate a s parent name src = some r) :
    Made s₀ s (s.inherited parent (a.newMode src)) r.1 r.2 := by
  obtain ⟨wd, hwd, hr⟩ := Option.map_eq_some_iff.mp hr
  subst hr
  unfold SnapArgs.newMode
  -- the three ways to create differ in mode and owner
  split
  · exact h.fsnodesCreateNode hwd _ _ _ _ _ _ _ _
  split <;> exact h.fsnodesCreateNode hwd _ _ _ _ _ _ _ _

theorem AclsOk.snapReplace (h : AclsOk s₀ s) (hparent : (s.nodes parent).isSome = true) (e : FsEdge)
    (hfits : ListFits (s.inherited parent (a.newMode src)) (a.oldMode src)) :
    AclsOk s₀ (snapReplace a s src parent name e).2
      ∧ ListFits ((snapReplace a s src parent name e).2.acls.access
          (snapReplace a s src parent name e).1) (a.oldMode src) := by
  have h1 := h.fsnodesUnlink a.ts e
  unfold Master.snapReplace
  dsimp only
  cases hr : Master.snapCreate a (s.fsnodesUnlink a.ts e) parent name src with
  | none =>
    -- the directory was the file itself and is gone
    have hnone : (s.fsnodesUnlink a.ts e).nodes parent = none := by
      unfold Master.snapCreate at hr
      exact Option.map_eq_none_iff.mp hr
    have hchild : parent = e.child := by
      by_contra hne
      have hk := keptAt_fsnodesUnlink_ne s a.ts hne
      obtain ⟨p, hp⟩ := Option.isSome_iff_exists.mp hparent
      obtain ⟨p', hp', _⟩ := hk.some hp
      rw [hnone] at hp'
      cases hp'
    rw [hchild] at hnone
    refine ⟨h1, ?_⟩
    rw [(h1.no_lists hnone).1]
    exact listFits_none
  | some r =>
    obtain ⟨hok, _, _, _, hacc, _⟩ := h1.snapCreate hr
    have hsame := (sameAcls_modNode (s := r.2) (i := r.1) (f := .takeClass src) fun _ => rfl).trans
      (sameAcls_copyChunks src parent r.1 (r.2.fsnodesGetStats r.1))
    refine ⟨hok.same hsame, ?_⟩
    have haccess := congrArg AclView.access (hsame.view r.1)
    dsimp only [aclView] at haccess ⊢
    rw [haccess, hacc]
    rcases view_fsnodesUnlink with hview | hnone
    · rw [inherited_congr hview]
      exact hfits
    unfold Master.snapCreate at hr
    rw [hnone] at hr
    cases hr

/-- **An existing object that is not a directory.** -/
theorem AclsOk.snapExisting (h : AclsOk s₀ st.fs) {e : FsEdge}
    (hfits : existingFits a st.fs src parent e = true) :
    AclsOk s₀ (snapExisting a src parent name e st).2.fs
      ∧ ListFits ((snapExisting a src parent name e st).2.fs.acls.access
          (snapExisting a src parent name e st).1) (a.oldMode src) := by
  unfold existingFits at hfits
  split at hfits
  next p dst hp hdst =>
    have hparent : (st.fs.nodes parent).isSome = true := by
      rw [hp]
      rfl
    unfold Master.snapExisting
    rw [hdst]
    split at hfits
    next hfile =>
      rw [hfile.1]
      dsimp only
      rw [if_neg hfile.2]
      exact h.snapReplace hparent e (of_decide_eq_true hfits)
    next hnot =>
      have hlist := of_decide_eq_true hfits
      cases htype : src.type <;> dsimp only
      case file =>
        have hsame : dst.length = src.length ∧ dst.chunktab = src.chunktab := by
          by_contra hdiff
          exact hnot ⟨htype, hdiff⟩
        rw [if_pos hsame]
        exact ⟨h, hlist⟩
      case symlink =>
        have hpath : SameAcls st.fs ((st.fs.fsnodesAddStats parent { StatsRecord.zero with
            length := UInt64.ofNat src.path.length - UInt64.ofNat dst.path.length }).modNode
            e.child (.setPath src.path)) :=
          SameAcls.trans (t := st.fs.fsnodesAddStats parent _) (.of_eq rfl rfl rfl)
            (sameAcls_modNode (f := .setPath src.path) fun _ => rfl)
        exact ⟨h.same hpath, hlist⟩
      case blockdev => exact ⟨h.same (sameAcls_modNode fun _ => rfl), hlist⟩
      case chardev => exact ⟨h.same (sameAcls_modNode fun _ => rfl), hlist⟩
      all_goals exact ⟨h, hlist⟩
  · cases hfits

/-- A directory that is there keeps its list. -/
theorem existingFits_directory
    {e : FsEdge} (hdir : src.type = .directory) (h : existingFits a s src parent e = true) :
    (s.nodes e.child).isSome = true ∧ ListFits (s.acls.access e.child) (a.oldMode src) := by
  unfold existingFits at h
  split at h
  next p dst _ hdst =>
    rw [if_neg fun hf => by rw [hdir] at hf; cases hf.1] at h
    exact ⟨by rw [hdst]; rfl, of_decide_eq_true h⟩
  · cases h

/-! ## §3. New objects. -/

/-- Without suid and sgid the permission bits are the same. -/
theorem newMode_low (src : FsNode) (hcp : a.cplike = false) :
    a.newMode src &&& 0o777 = src.mode &&& 0o777
      ∧ (if a.owns src then src.mode else src.mode &&& 0x3FF) = a.newMode src := by
  unfold SnapArgs.newMode
  rw [hcp]
  simp only [Bool.false_eq_true, if_false, and_true]
  split
  · rfl
  · rw [UInt16.and_assoc]
    rfl

/-- A new object takes its attributes and lists from the source. -/
theorem AclsOk.snapTake {t : Master} (h : AclsOk s₀ s) (hsrc : s.nodes srcinode = some src)
    (hmade : Made s₀ s (s.inherited parent (a.newMode src)) dst t)
    (hfits : newFits a s src parent = true) : AclsOk s₀ (snapTake a srcinode src dst t) := by
  unfold Master.snapTake
  split
  · exact hmade.ok
  next hcp =>
  have hcp' : a.cplike = false := by simpa using hcp
  obtain ⟨hok, hfresh, hunused, hfound, haccess, hother⟩ := hmade
  obtain ⟨n, hn⟩ := Option.isSome_iff_exists.mp hfound
  -- the source is another node, so its lists are those it had
  have hne : srcinode ≠ dst := by
    intro heq
    rw [heq, hfresh] at hsrc
    cases hsrc
  have hlists := hother srcinode hne
  have hsacc : t.acls.access srcinode = s.acls.access srcinode := congrArg AclView.access hlists
  have hsdef : t.acls.default srcinode = s.acls.default srcinode :=
    congrArg AclView.default hlists
  obtain ⟨hsrcacc, hsrcdef, hsrcmode⟩ := h.node hsrc
  obtain ⟨hnacc, hndef, _⟩ := hok.node hn
  obtain ⟨hlow, hmode⟩ := newMode_low src hcp'
  have hview : ((t.modNode dst (FsNode.takeAttrs a src)).aclCopy srcinode src dst).aclView dst
      = ⟨some (n.aclpermflag || src.aclpermflag, n.acldefflag || src.acldefflag, a.newMode src),
        if src.aclpermflag = true then s.acls.access srcinode else t.acls.access dst,
        if src.acldefflag = true then s.acls.default srcinode else t.acls.default dst⟩ := by
    simp [aclView, aclCopy, modNode, hn, FsNode.takeAttrs, FsNode.aclBits, hsacc, hsdef, hmode]
  refine hok.change dst (fun j hj => ?_) ?_ ?_ fun h₀ => ?_
  · simp [aclView, aclCopy, modNode, hj]
  · rw [hview]
    refine ⟨?_, ?_, ?_⟩
    · cases hflag : src.aclpermflag <;> simp [hsrcacc, hnacc, hflag]
    · cases hflag : src.acldefflag <;> simp [hsrcdef, hndef, hflag]
    intro acn b hacn hb
    cases hb
    cases hflag : src.aclpermflag with
    | true =>
      rw [hflag, if_pos rfl] at hacn
      exact (hsrcmode acn hacn).congr hlow
    | false =>
      rw [hflag, if_neg Bool.false_ne_true, haccess] at hacn
      unfold newFits at hfits
      rw [hcp', hflag] at hfits
      exact of_decide_eq_true hfits acn hacn
  · refine hok.pool.mono fun j hj => hj.imp_right fun hj => ?_
    exact (modNode_isSome t dst j _).symm.trans hj
  · rw [hunused] at h₀
    cases h₀

theorem AclsOk.snapMake {st' : Snap} (h : AclsOk s₀ st.fs) (hsrc : st.fs.nodes srcinode = some src)
    (hmake : snapMake a srcinode src parent name st = some (dst, psr, st'))
    (hfits : newFits a st.fs src parent = true) : AclsOk s₀ st'.fs := by
  obtain ⟨r, hr, heq⟩ := Option.map_eq_some_iff.mp hmake
  cases heq
  exact h.snapTake hsrc (h.snapCreate hr) hfits

theorem sameAcls_snapContents : SameAcls s (snapContents src parent dst psr s) := by
  unfold snapContents
  cases src.type <;> dsimp only
  case file => exact sameAcls_copyChunks src parent dst psr
  case symlink =>
    exact (sameAcls_modNode (f := .setPath src.path) fun _ => rfl).trans (.of_eq rfl rfl rfl)
  case blockdev => exact sameAcls_modNode fun _ => rfl
  case chardev => exact sameAcls_modNode fun _ => rfl
  all_goals exact .refl

theorem sameAcls_snapFinishNew : SameAcls s (snapFinishNew a src dst s) := by
  refine SameAcls.trans ?_ (sameAcls_modNode (f := FsNode.markSnapshot) fun _ => rfl)
  split
  · exact .refl
  · exact (sameAcls_modNode (f := FsNode.takeTimes src) fun _ => rfl).trans
      touched_fsnodesCheckarchmode.sameAcls

/-! ## §4. The recursion. -/

/-- **A snapshot whose objects all fit** leaves flags, modes and lists in agreement.  The
induction is on the depth. -/
theorem AclsOk.fsnodesSnapshot :
    ∀ (k srcinode parent : Nat) (name : Name) (newflag : Bool) (st : Snap) (s₀ : Master),
      AclsOk s₀ st.fs → snapMeets a k srcinode parent name newflag st = true →
      AclsOk s₀ (fsnodesSnapshot a k srcinode parent name newflag st).fs := by
  intro k
  induction k with
  | zero => exact fun _ _ _ _ st _ h _ => h
  | succ k ih =>
    intro srcinode parent name newflag st s₀ h hmeets
    unfold Master.fsnodesSnapshot
    unfold snapMeets at hmeets
    cases hsrc : st.fs.nodes srcinode with
    | none => exact h
    | some src =>
      rw [hsrc] at hmeets
      have hbelow : ∀ (may : Bool) (dst : Nat) (new : Bool) (st : Snap) (s₀ : Master),
          AclsOk s₀ st.fs →
          (if src.type = .directory ∧ may = true then
            decide (StepsMeet
              (fun st (e : FsEdge) => Master.fsnodesSnapshot a k e.child dst e.name new st)
              (fun st e => snapMeets a k e.child dst e.name new st = true) st
              (st.fs.children srcinode))
            else true) = true →
          AclsOk s₀ (if src.type = .directory ∧ may = true then
            (st.fs.children srcinode).foldl
              (fun st e => Master.fsnodesSnapshot a k e.child dst e.name new st) st
          else st).fs := by
        intro may dst new st s₀ hst hmeet
        split
        next hdir =>
          rw [if_pos hdir] at hmeet
          have hstep : ∀ (st : Snap) (e : FsEdge), AclsOk s₀ st.fs →
              snapMeets a k e.child dst e.name new st = true →
              AclsOk s₀ (Master.fsnodesSnapshot a k e.child dst e.name new st).fs :=
            fun st e hs hm => ih e.child dst e.name new st s₀ hs hm
          exact run_invariant hstep _ st hst (of_decide_eq_true hmeet)
        · exact hst
      dsimp only at hmeets ⊢
      split
      · exact h
      next hread =>
      rw [if_neg hread] at hmeets
      split
      next e hfound =>
        rw [hfound] at hmeets
        obtain ⟨hfits, hrest⟩ := Bool.and_eq_true_iff.mp hmeets
        split
        next hdir =>
          rw [Snap.modFs_fs]
          -- what is done below the directory leaves its list alone
          obtain ⟨hchild, hlist⟩ := existingFits_directory hdir hfits
          have hsince := hbelow _ e.child false (st.count _) st.fs h.start hrest
          refine (hbelow _ e.child false (st.count _) s₀ h hrest).snapFinishExisting a src ?_
          rcases hsince.lists e.child hchild with heq | hnone
          · rw [heq]
            exact hlist
          · rw [hnone]
            exact listFits_none
        · rw [Snap.modFs_fs]
          obtain ⟨hok, hlist⟩ := h.snapExisting hfits
          exact hok.snapFinishExisting a src hlist
      next hnew =>
        rw [hnew] at hmeets
        split
        · exact h
        next htype =>
        rw [if_neg htype] at hmeets
        split
        next c _ => exact h.same (sameAcls_fsnodesLink st.fs a.ts parent c.2 name)
        next hcopy =>
        rw [hcopy] at hmeets
        cases hmake : Master.snapMake a srcinode src parent name st with
        | none => exact h
        | some r =>
          obtain ⟨dst, psr, st'⟩ := r
          rw [hmake] at hmeets
          obtain ⟨hfits, hrest⟩ := Bool.and_eq_true_iff.mp hmeets
          have h1 := h.snapMake hsrc hmake hfits
          rw [Snap.modFs_fs]
          refine AclsOk.same ?_ sameAcls_snapFinishNew
          split
          · exact hbelow _ dst true st' s₀ h1 hrest
          · exact h1.same sameAcls_snapContents

/-! ## §5. Removal, and the request. -/

theorem AclsOk.fsnodesRemoveSnapshot :
    ∀ (k : Nat) (e : FsEdge) (allowed : Bool) (st : Snap), AclsOk s₀ st.fs →
      AclsOk s₀ (fsnodesRemoveSnapshot a k e allowed st).fs :=
  fsnodesRemoveSnapshot_rule
    (fun _ _ x h => h.same (sameAcls_modNode (f := .setEattr x) fun _ => rfl))
    fun _ e h => (h.same (sameAcls_modNode (f := .setTrashretention 0)
      fun _ => rfl)).fsnodesUnlink a.ts e

/-- The quota test brings the realsize of directories up to date. -/
theorem sameAcls_snapCopyQuota {src dwd : Nat} : SameAcls s (s.snapCopyQuota src dwd name).2 := by
  obtain ⟨_, _, heq⟩ := sameNs_snapCopyQuota s src dwd name
  rw [heq]
  exact .of_eq rfl rfl rfl

/-- Every object of the request fits, in the states `fs_univ_snapshot` meets them in. -/
def snapshotFits (s : Master) (a : SnapArgs) (q : SnapRequest) : Bool :=
  if hasBit a.smode snapshotModeDelete then true
  else match s.snapCopyCheck a q with
    | .error _ => true
    | .ok (src, dwd) =>
      let r := if a.flags.metarestore then (false, s) else s.snapCopyQuota src dwd q.nameDst
      snapMeets a s.depth src dwd q.nameDst false ⟨r.2, .zero, []⟩

/-- **`fs_univ_snapshot` keeps flags, modes and lists in agreement** when its objects fit. -/
theorem AclsOk.fsUnivSnapshot (h : AclsOk s₀ s) {q : SnapRequest}
    (hfits : s.snapshotFits a q = true) : AclsOk s₀ (s.fsUnivSnapshot a q).2.2 := by
  unfold Master.fsUnivSnapshot
  unfold snapshotFits at hfits
  split
  · exact h
  split
  · split
    · exact h
    · exact AclsOk.fsnodesRemoveSnapshot _ _ _ ⟨s, .zero, []⟩ h
  next hdel =>
  rw [if_neg hdel] at hfits
  split
  · exact h
  next src dwd hcheck =>
  rw [hcheck] at hfits
  dsimp only at hfits ⊢
  generalize ht : (if a.flags.metarestore then (false, s)
    else s.snapCopyQuota src dwd q.nameDst) = t at hfits
  have h1 : AclsOk s₀ t.2 := by
    rw [← ht]
    split
    · exact h
    · exact h.same sameAcls_snapCopyQuota
  split
  · exact h1
  · exact AclsOk.fsnodesSnapshot _ _ _ _ _ ⟨t.2, .zero, []⟩ s₀ h1 hfits

end Master

end MfsMaster
