/-
  MfsMaster.Fs.NamespaceReplay
  **NAMESPACE RECORDS AGAINST THE NAMESPACE.**

      namespace_replays_iff — the record of a successful request reproduces the
                              namespace  ↔  `IdentityIrrelevant`

  SYMLINK, UNLINK and LINK records always do; CREATE and MOVE records do when the part of
  the caller's identity they leave out does not matter.
-/
import MfsMaster.Fs.MoveReplay

namespace MfsMaster

open Lib

variable {c : Cred} {f : SesFlags} {m : Move} {name nameDst nameSrc : Name}
  {parent parentDst parentSrc root : Nat} {rmode : RenameMode} {s : Master} {ts : UInt32}
  {type : NodeType} {uf rf : Bool}

namespace Master

/-- The requests whose record says all that matters. -/
def IdentityIrrelevant (s : Master) (cl : Client) : NsOp → Prop
  | .mknod parent name type _ cumask _ =>
    ∀ wd, s.fsnodesNodeFindExt cl.rootinode cl.flags parent = some wd →
      s.CreateIrrelevant wd.2 name type cumask cl.cred false
  | .mkdir parent name _ cumask copysgid =>
    ∀ wd, s.fsnodesNodeFindExt cl.rootinode cl.flags parent = some wd →
      s.CreateIrrelevant wd.2 name .directory cumask cl.cred copysgid
  | .rename parentSrc nameSrc parentDst nameDst rmode _ _ =>
    ∀ swd dwd se, s.fsnodesNodeFindExt cl.rootinode cl.flags parentSrc = some swd →
      s.fsnodesNodeFindExt cl.rootinode cl.flags parentDst = some dwd →
      s.fsnodesLookup swd.1 nameSrc = some se → rmode ≠ .exchange →
      ∀ n, s.movedNode ⟨swd.1, se, dwd.1, s.fsnodesLookup dwd.1 nameDst⟩ = some n →
        ForcesAgree (patternsFindMatching s.patterns cl.cred nameDst)
          (patternsFindMatching s.patterns ⟨0, []⟩ nameDst) n
  | _ => True

/-- The log of a request, replayed, shows the namespace of the leader. -/
def ReplaysNamespace (s : Master) (r : NsResult) : Prop :=
  ∃ t, replay nsApply s r.log = some t ∧ SameNamespace r.state t

theorem replaysNamespace_of_apply {t : Master} {r : NsResult} {e : NsRecord} (hlog : r.log = [e])
    (happly : nsApply s e = some t) : s.ReplaysNamespace r ↔ SameNamespace r.state t := by
  have hreplay : replay nsApply s r.log = some t := by
    rw [hlog]
    simp [replay, happly]
  unfold ReplaysNamespace
  rw [hreplay]
  simp only [Option.some_inj, exists_eq_left']

/-! ## §1. One request at a time. -/

theorem fsUnivCreate_of_check {wd : Nat × FsNode}
    (hchk : s.createCheck root f c parent name type = .ok wd)
    {mode cumask : UInt16} {rdev : UInt32} {copysgid : Bool} :
    ∃ p, (s.createBody ts wd.1 name type mode cumask c rdev copysgid).2.nodes
        s.pool.fsnodesGetNextId.1 = some p ∧ p.uid = c.uid
      ∧ s.fsUnivCreate ts root f parent name type mode cumask c rdev copysgid
        = { status := .ok, inode := s.pool.fsnodesGetNextId.1
            state := (s.createBody ts wd.1 name type mode cumask c rdev copysgid).2
            log := if f.metarestore then [] else
              [.create ts wd.1 name type (chlogmode type mode copysgid p) cumask p.uid p.gid rdev
                s.pool.fsnodesGetNextId.1] } := by
  have hwd : s.nodes wd.1 = some wd.2 := findExt_node (createCheck_replica [] hchk).2
  obtain ⟨n, p, hn, hp, hview⟩ := createBody_node hwd
  have hinode : (s.createBody ts wd.1 name type mode cumask c rdev copysgid).1
      = s.pool.fsnodesGetNextId.1 :=
    fsnodesCreateNode_inode hwd ts name type mode cumask c.uid c.gid copysgid
  refine ⟨p, hp, ?_, ?_⟩
  · rw [nodeView_onNew] at hview
    simp only [nodeView, Prod.mk.injEq] at hview
    exact hview.2.2.1.trans hn.uid
  unfold fsUnivCreate
  rw [hchk]
  dsimp only
  rw [hinode, hp]

theorem fsUnivCreate_replays_iff (hf : f.metarestore = false)
    {mode cumask : UInt16} {rdev : UInt32} {copysgid : Bool}
    (hok : (s.fsUnivCreate ts root f parent name type mode cumask c rdev copysgid).status = .ok) :
    s.ReplaysNamespace (s.fsUnivCreate ts root f parent name type mode cumask c rdev copysgid)
      ↔ ∀ wd, s.fsnodesNodeFindExt root f parent = some wd →
        s.CreateIrrelevant wd.2 name type cumask c copysgid := by
  obtain ⟨wd, hchk⟩ : ∃ wd, s.createCheck root f c parent name type = .ok wd :=
    neverOk_createCheck.exists_ok fun st hst => by
      unfold fsUnivCreate at hok
      rwa [hst] at hok
  obtain ⟨p, hp, huid, hrun⟩ := fsUnivCreate_of_check hchk
  obtain ⟨hchk', hfind⟩ := createCheck_replica [p.gid] hchk
  rw [← huid] at hchk'
  obtain ⟨_, _, _, hrun'⟩ := fsUnivCreate_of_check hchk'
  rw [hrun, hf]
  refine (replaysNamespace_of_apply (t := ?t) rfl ?apply).trans ?irrelevant
  case apply =>
    unfold nsApply
    dsimp only
    rw [hrun']
    refine if_pos ?_
    exact ⟨rfl, rfl⟩
  refine (createBody_replays_iff (findExt_node hfind) hp).trans ?_
  rw [hfind]
  simp only [Option.some_inj, forall_eq']

/-- SYMLINK records say all that matters. -/
theorem fsUnivSymlink_replays (hf : f.metarestore = false) {path : Name}
    (hok : (s.fsUnivSymlink ts root f parent name path c).status = .ok) :
    s.ReplaysNamespace (s.fsUnivSymlink ts root f parent name path c) := by
  obtain ⟨wd, hchk⟩ : ∃ wd, s.symlinkCheck root f c parent name path = .ok wd :=
    neverOk_symlinkCheck.exists_ok fun st hst => by
      unfold fsUnivSymlink at hok
      rwa [hst] at hok
  have hchk' := symlinkCheck_replica ⟨c.uid, [c.gid]⟩ hchk
  unfold fsUnivSymlink
  rw [hchk, hf]
  refine (replaysNamespace_of_apply (t := ?t) rfl ?apply).mpr ?same
  case apply =>
    unfold nsApply fsUnivSymlink
    dsimp only
    rw [hchk']
    refine if_pos ?_
    exact ⟨rfl, rfl⟩
  exact SameNs.refl.sameNamespace

/-- UNLINK records say all that matters. -/
theorem fsUnivUnlink_replays (hf : f.metarestore = false) {dirmode : Bool}
    (hok : (s.fsUnivUnlink ts root f parent name c dirmode).status = .ok) :
    s.ReplaysNamespace (s.fsUnivUnlink ts root f parent name c dirmode) := by
  obtain ⟨r, hchk⟩ : ∃ r, s.unlinkCheck root f c parent name dirmode = .ok r :=
    neverOk_unlinkCheck.exists_ok fun st hst => by
      unfold fsUnivUnlink at hok
      rwa [hst] at hok
  have hchk' := unlinkCheck_replica ⟨0, []⟩ hchk
  unfold fsUnivUnlink
  rw [hchk, hf]
  refine (replaysNamespace_of_apply (t := ?t) rfl ?apply).mpr ?same
  case apply =>
    unfold nsApply fsUnivUnlink
    dsimp only
    rw [hchk']
    refine if_pos ?_
    exact ⟨rfl, rfl⟩
  exact SameNs.refl.sameNamespace

/-- LINK records say all that matters; the leader's quota test changes statistics only. -/
theorem fsUnivLink_replays (hf : f.metarestore = false) {inodeSrc : Nat}
    (hok : (s.fsUnivLink ts root f inodeSrc parentDst nameDst c).status = .ok) :
    s.ReplaysNamespace (s.fsUnivLink ts root f inodeSrc parentDst nameDst c) := by
  obtain ⟨r, hchk⟩ : ∃ r, s.linkCheck root f c inodeSrc parentDst nameDst = .ok r :=
    neverOk_linkCheck.exists_ok fun st hst => by
      unfold fsUnivLink at hok
      rwa [hst] at hok
  have hchk' := linkCheck_replica ⟨0, []⟩ hchk
  unfold fsUnivLink at hok ⊢
  rw [hchk, hf] at hok ⊢
  simp only [Bool.false_eq_true, if_false, Bool.not_false, Bool.true_and] at hok ⊢
  split
  next hquota =>
    rw [if_pos hquota] at hok
    cases hok
  refine (replaysNamespace_of_apply (t := ?t) rfl ?apply).mpr ?same
  case apply =>
    unfold nsApply fsUnivLink
    dsimp only
    rw [hchk']
    refine if_pos ?_
    exact ⟨rfl, rfl⟩
  exact ((s.sameNs_fsnodesCheckRealsize r.1).fsnodesLink r.2).sameNamespace

/-- The tests of a move look the nodes and edges up. -/
theorem moveCheck_found
    (h : s.moveCheck root f c parentSrc nameSrc parentDst nameDst rmode uf rf = .ok m) :
    ∃ swd dwd se, s.fsnodesNodeFindExt root f parentSrc = some swd
      ∧ s.fsnodesNodeFindExt root f parentDst = some dwd
      ∧ s.fsnodesLookup swd.1 nameSrc = some se
      ∧ m = ⟨swd.1, se, dwd.1, s.fsnodesLookup dwd.1 nameDst⟩ := by
  simp only [moveCheck, except_bind_eq_ok, require_eq_ok, refuse_eq_ok, exists_const] at h
  obtain ⟨_, swd, hswd, dwd, hdwd, _, _, _, _, se, hse, _, _, _, _, _, _, _, _, _, _, _, _, hret⟩ := h
  cases hret
  exact ⟨swd, dwd, se, hswd, hdwd, hse, rfl⟩

theorem moveCheck_linked
    (h : s.moveCheck root f c parentSrc nameSrc parentDst nameDst rmode uf rf = .ok m) :
    m.Linked s := by
  obtain ⟨swd, dwd, se, _, _, hse, rfl⟩ := moveCheck_found h
  have hsrc := fsnodesLookup_some hse
  exact ⟨hsrc.1, hsrc.2.1, fun e he => (fsnodesLookup_some he).1,
    fun e he => (fsnodesLookup_some he).2.1⟩

theorem rename_replays_iff {cl : Client} {op : NsOp}
    (hop : op = .rename parentSrc nameSrc parentDst nameDst rmode uf rf)
    (hok : (s.nsLeader ts cl op).status = .ok) :
    s.ReplaysNamespace (s.nsLeader ts cl op) ↔ s.IdentityIrrelevant cl op := by
  subst hop
  unfold nsLeader fsUnivMove at hok ⊢
  dsimp only at hok ⊢
  obtain ⟨m, hchk⟩ : ∃ m, s.moveCheck cl.rootinode cl.flags cl.cred parentSrc nameSrc parentDst
      nameDst rmode uf rf = .ok m :=
    neverOk_moveCheck.exists_ok fun st hst => by rwa [hst] at hok
  have hchk' := moveCheck_replica ⟨0, []⟩ hchk
  have hinode : ∀ (s' : Master) (c' : Cred),
      (s'.moveBody ts m nameSrc nameDst rmode c').1
        = (s.moveBody ts m nameSrc nameDst rmode ⟨0, []⟩).1 := by
    intro s' c'
    unfold moveBody
    split <;> rfl
  have hf : cl.flags.metarestore = false := rfl
  rw [hchk, hf] at hok ⊢
  simp only [Bool.false_eq_true, if_false, Bool.not_false, Bool.true_and] at hok ⊢
  split
  next hquota =>
    rw [if_pos hquota] at hok
    cases hok
  rw [hinode]
  refine (replaysNamespace_of_apply (t := ?t) rfl ?apply).trans ?irrelevant
  case apply =>
    unfold nsApply fsUnivMove
    dsimp only
    rw [hchk']
    refine if_pos ?_
    exact ⟨rfl, rfl⟩
  refine (moveBody_replays_iff (s.sameNs_moveStats m) (moveCheck_linked hchk)).trans ?_
  obtain ⟨swd, dwd, se, hswd, hdwd, hse, rfl⟩ := moveCheck_found hchk
  constructor
  · intro h swd' dwd' se' hswd' hdwd' hse'
    cases hswd.symm.trans hswd'
    cases hdwd.symm.trans hdwd'
    cases hse.symm.trans hse'
    exact h
  · intro h
    exact h swd dwd se hswd hdwd hse

/-! ## §2. Every request. -/

/-- The record of a successful request reproduces the namespace exactly when the part of the
caller's identity that it leaves out does not matter. -/
theorem namespace_replays_iff (s : Master) (ts : UInt32) (cl : Client) (op : NsOp)
    (hok : (s.nsLeader ts cl op).status = .ok) :
    s.ReplaysNamespace (s.nsLeader ts cl op) ↔ s.IdentityIrrelevant cl op := by
  cases op with
  | mknod | mkdir => exact fsUnivCreate_replays_iff rfl hok
  | symlink parent name path => exact iff_of_true (fsUnivSymlink_replays rfl hok) trivial
  | unlink | rmdir => exact iff_of_true (fsUnivUnlink_replays rfl hok) trivial
  | link inodeSrc parentDst nameDst => exact iff_of_true (fsUnivLink_replays rfl hok) trivial
  | rename parentSrc nameSrc parentDst nameDst rmode uf rf => exact rename_replays_iff rfl hok

/-- A pattern for the members of group 20: their nodes get class 2. -/
def groupPattern : Pattern :=
  { glob := fun _ => true, euid := none, egid := some 20, sclass := some 2
    trashretention := none, eattr := none }

/-- A new file system with that pattern. -/
def groupMaster : Master := fsNew 0 .sclassNew [groupPattern] false 32767

/-- User 1000 with the given groups. -/
def memberOf (gids : List Nat) : Client :=
  { rootinode := rootId, readonly := false, ignoregid := false, admin := false
    cred := ⟨1000, gids⟩ }

/-- The file `a` made in the root. -/
def makeFile : NsOp := .mknod rootId [0x61] .file 0o644 0o022 0

/-- A member whose first group is 20 is recognised on both sides. -/
theorem namespace_replays_first_group :
    (groupMaster.nsLeader 1 (memberOf [20, 10]) makeFile).status = .ok
      ∧ groupMaster.ReplaysNamespace (groupMaster.nsLeader 1 (memberOf [20, 10]) makeFile) := by
  refine ⟨by decide, (namespace_replays_iff groupMaster 1 (memberOf [20, 10]) makeFile
    (by decide)).mpr ?_⟩
  intro wd hwd
  cases hwd
  decide

/-- A member whose second group is 20 is recognised on the leader only: the record names the
group of the file, and the replica keeps the class of the directory. -/
theorem namespace_replay_second_group :
    (groupMaster.nsLeader 1 (memberOf [10, 20]) makeFile).status = .ok
      ∧ ¬ groupMaster.ReplaysNamespace (groupMaster.nsLeader 1 (memberOf [10, 20]) makeFile) := by
  refine ⟨by decide, fun h => ?_⟩
  obtain ⟨t, ht, hsame⟩ := h
  have hclass : (replay nsApply groupMaster
        (groupMaster.nsLeader 1 (memberOf [10, 20]) makeFile).log).map
        (fun t => (t.nodes 2).map FsNode.sclassid) = some (some 1) := by decide
  have hleader : ((groupMaster.nsLeader 1 (memberOf [10, 20]) makeFile).state.nodes 2).map
      FsNode.sclassid = some 2 := by decide
  have hview : (t.nodes 2).map FsNode.sclassid
      = ((groupMaster.nsLeader 1 (memberOf [10, 20]) makeFile).state.nodes 2).map
        FsNode.sclassid := by
    have h2 := congrArg (Option.map fun v => v.2.2.2.2.2.2.2.1) (hsame.2 2)
    rw [Option.map_map, Option.map_map] at h2
    exact h2
  rw [ht, Option.map_some, hview, hleader] at hclass
  exact absurd hclass (by decide)

end Master
end MfsMaster
