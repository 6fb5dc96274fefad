/-
  MfsMaster.Fs.Records
  **NAMESPACE REQUESTS AND THEIR RECORDS.**

  A client's request runs on the leader with the caller's identity; its record runs on
  a replica with what the record carries.  What the tests of a request accepted on the
  leader, they accept on a replica, and they find the same nodes and edges there.
-/
import MfsMaster.Fs.Erase
import MfsMaster.Lib.Replay

namespace MfsMaster

open Lib

/-! ## §1. Requests and records. -/

/-- A client's session and the caller in it. -/
structure Client where
  rootinode : Nat
  readonly : Bool
  ignoregid : Bool
  admin : Bool
  cred : Cred
  deriving Repr, DecidableEq

/-- The session flags of a client's request. -/
def Client.flags (cl : Client) : SesFlags :=
  { readonly := cl.readonly, ignoregid := cl.ignoregid, admin := cl.admin, metarestore := false }

/-- The requests of this group. -/
inductive NsOp where
  | mknod (parent : Nat) (name : Name) (type : NodeType) (mode cumask : UInt16) (rdev : UInt32)
  | mkdir (parent : Nat) (name : Name) (mode cumask : UInt16) (copysgid : Bool)
  | symlink (parent : Nat) (name path : Name)
  | unlink (parent : Nat) (name : Name)
  | rmdir (parent : Nat) (name : Name)
  | link (inodeSrc parentDst : Nat) (nameDst : Name)
  | rename (parentSrc : Nat) (nameSrc : Name) (parentDst : Nat) (nameDst : Name)
      (rmode : Master.RenameMode) (unlinkForbidden rmdirForbidden : Bool)
  deriving Repr, DecidableEq

variable {c : Cred} {f : SesFlags} {name nameDst : Name} {parent root : Nat} {r wd : Nat × FsNode}
  {rmode : RenameMode} {s : Master} {frozen : UInt8} {uf rf : Bool} {dwdNode : FsNode}
  {de : Option FsEdge}

namespace Master

variable {type : NodeType} {path nameSrc : Name} {dirmode : Bool}
  {inodeSrc parentDst parentSrc : Nat}

/-- A client's request on the leader at time `ts` (`fs_mknod`, `fs_mkdir`, ...). -/
def nsLeader (s : Master) (ts : UInt32) (cl : Client) : NsOp → NsResult
  | .mknod parent name type mode cumask rdev =>
    s.fsUnivCreate ts cl.rootinode cl.flags parent name type mode cumask cl.cred rdev false
  | .mkdir parent name mode cumask copysgid =>
    s.fsUnivCreate ts cl.rootinode cl.flags parent name .directory mode cumask cl.cred 0 copysgid
  | .symlink parent name path =>
    s.fsUnivSymlink ts cl.rootinode cl.flags parent name path cl.cred
  | .unlink parent name => s.fsUnivUnlink ts cl.rootinode cl.flags parent name cl.cred false
  | .rmdir parent name => s.fsUnivUnlink ts cl.rootinode cl.flags parent name cl.cred true
  | .link inodeSrc parentDst nameDst =>
    s.fsUnivLink ts cl.rootinode cl.flags inodeSrc parentDst nameDst cl.cred
  | .rename parentSrc nameSrc parentDst nameDst rmode unlinkForbidden rmdirForbidden =>
    s.fsUnivMove ts cl.rootinode cl.flags parentSrc nameSrc parentDst nameDst cl.cred rmode
      unlinkForbidden rmdirForbidden

/-- The end of every `fs_mr_*` of this group: the answer must be OK and the inode the
logged one. -/
def NsResult.expect (r : NsResult) (inode : Nat) : Option Master :=
  if r.status = .ok ∧ r.inode = inode then some r.state else none

/-- A record on a replica (`fs_mr_create`, `fs_mr_symlink`, ...). -/
def nsApply (s : Master) : NsRecord → Option Master
  | .create ts parent name type mode cumask uid gid rdev inode =>
    (s.fsUnivCreate ts 0 .replica parent name type mode cumask ⟨uid, [gid]⟩ rdev false).expect inode
  | .symlink ts parent name path uid gid inode =>
    (s.fsUnivSymlink ts 0 .replica parent name path ⟨uid, [gid]⟩).expect inode
  | .unlink ts parent name inode =>
    (s.fsUnivUnlink ts 0 .replica parent name ⟨0, []⟩ false).expect inode
  | .move ts parentSrc nameSrc parentDst nameDst rmode inode =>
    (s.fsUnivMove ts 0 .replica parentSrc nameSrc parentDst nameDst ⟨0, []⟩ rmode false
      false).expect inode
  | .link ts inodeSrc parentDst nameDst =>
    (s.fsUnivLink ts 0 .replica inodeSrc parentDst nameDst ⟨0, []⟩).expect inodeSrc

/-- What must agree for a node: type, mode, owner, times, class, retention and `eattr`. -/
def nodeView (n : FsNode) : NodeType × UInt16 × Nat × Nat × UInt32 × UInt32 × UInt32 × Nat
    × UInt16 × UInt8 :=
  (n.type, n.mode, n.uid, n.gid, n.ctime, n.mtime, n.atime, n.sclassid, n.trashretention, n.eattr)

/-- Two masters show the same namespace. -/
def SameNamespace (s t : Master) : Prop :=
  t.edges = s.edges ∧ ∀ i, (t.nodes i).map nodeView = (s.nodes i).map nodeView

theorem SameNs.sameNamespace {t : Master} (h : SameNs s t) : SameNamespace t s :=
  ⟨h.edges.symm, fun i => by rw [h.nodes]⟩

/-! ## §2. The tests on both sides. -/

theorem findExt_node {i : Nat}
    (h : s.fsnodesNodeFindExt root f i = some r) : s.nodes r.1 = some r.2 := by
  unfold fsnodesNodeFindExt at h
  split at h
  · obtain ⟨n, hn, rfl⟩ := Option.map_eq_some_iff.mp h
    exact hn
  split at h
  · obtain ⟨n, hn, hr⟩ := Option.bind_eq_some_iff.mp h
    split at hr <;> cases hr
    exact hn
  split at h
  · split at h
    · obtain ⟨n, hn, rfl⟩ := Option.map_eq_some_iff.mp h
      exact hn
    obtain ⟨n, hn, hr⟩ := Option.bind_eq_some_iff.mp h
    split at hr <;> cases hr
    exact hn
  · cases h

theorem findExt_replica (h : s.nodes r.1 = some r.2) :
    s.fsnodesNodeFindExt 0 .replica r.1 = some r := by
  unfold fsnodesNodeFindExt
  rw [if_pos (.inl rfl), h]
  rfl

/-- A replica's directory test finds what the leader's found. -/
theorem dirCheck_replica (c' : Cred) (h : s.dirCheck root f c parent frozen = .ok wd) :
    s.dirCheck 0 .replica c' wd.1 frozen = .ok wd
      ∧ s.fsnodesNodeFindExt root f parent = some wd := by
  simp only [dirCheck, except_bind_eq_ok, require_eq_ok,
    refuse_eq_ok, exists_const] at h ⊢
  obtain ⟨r, hr, hdir, _, _, hret⟩ := h
  cases hret
  exact ⟨⟨wd, findExt_replica (findExt_node hr), hdir, rfl, rfl, rfl⟩, hr⟩

theorem createCheck_replica (gids : List Nat)
    (h : s.createCheck root f c parent name type = .ok wd) :
    s.createCheck 0 .replica ⟨c.uid, gids⟩ wd.1 name type = .ok wd
      ∧ s.fsnodesNodeFindExt root f parent = some wd := by
  simp only [createCheck, except_bind_eq_ok, refuse_eq_ok, exists_const] at h ⊢
  obtain ⟨_, htype, hdev, wd', hdir, hname, hused, _, hret⟩ := h
  cases hret
  obtain ⟨hdir', hfind⟩ := dirCheck_replica ⟨c.uid, gids⟩ hdir
  exact ⟨⟨rfl, htype, hdev, wd, hdir', hname, hused, rfl, rfl⟩, hfind⟩

theorem symlinkCheck_replica (c' : Cred) (h : s.symlinkCheck root f c parent name path = .ok wd) :
    s.symlinkCheck 0 .replica c' wd.1 name path = .ok wd := by
  simp only [symlinkCheck, except_bind_eq_ok, refuse_eq_ok, exists_const] at h ⊢
  obtain ⟨_, hpath, wd', hdir, hname, hused, _, hret⟩ := h
  cases hret
  exact ⟨rfl, hpath, wd, (dirCheck_replica c' hdir).1, hname, hused, rfl, rfl⟩

theorem unlinkCheck_replica {r : Nat × FsEdge} (c' : Cred)
    (h : s.unlinkCheck root f c parent name dirmode = .ok r) :
    s.unlinkCheck 0 .replica c' r.1 name false = .ok r := by
  simp only [unlinkCheck, except_bind_eq_ok, require_eq_ok,
    refuse_eq_ok, exists_const] at h ⊢
  obtain ⟨_, wd, hdir, hname, e, he, child, hchild, _, _, _, _, hempty, hret⟩ := h
  cases hret
  exact ⟨rfl, wd, (dirCheck_replica c' hdir).1, hname, e, he, child, hchild, rfl, rfl, rfl, rfl,
    hempty, rfl⟩

theorem linkCheck_replica {r : Nat × Nat} (c' : Cred)
    (h : s.linkCheck root f c inodeSrc parentDst nameDst = .ok r) :
    s.linkCheck 0 .replica c' r.1 r.2 nameDst = .ok r := by
  simp only [linkCheck, except_bind_eq_ok, require_eq_ok,
    refuse_eq_ok, exists_const] at h ⊢
  obtain ⟨_, sp, hsp, dwd, hdwd, _, htrash, hdir, _, hdwdDir, _, _, hname, hused, hret⟩ := h
  cases hret
  exact ⟨rfl, sp, findExt_replica (findExt_node hsp), dwd, findExt_replica (findExt_node hdwd),
    rfl, htrash, hdir, rfl, hdwdDir, rfl, rfl, hname, hused, rfl⟩

theorem moveDestCheck_replica {swd dwd : Nat} {u : Unit} {c' : Cred}
    (h : s.moveDestCheck f c rmode uf rf swd dwd dwdNode de = .ok u) :
    s.moveDestCheck .replica c' rmode false false swd dwd dwdNode de = .ok u := by
  cases de with
  | none => exact h
  | some e =>
    unfold moveDestCheck at h ⊢
    simp only [except_bind_eq_ok, require_eq_ok,
    refuse_eq_ok, exists_const] at h ⊢
    obtain ⟨dst, hdst, hmode, _, _, h⟩ := h
    refine ⟨dst, hdst, hmode, rfl, rfl, ?_⟩
    split
    next hex =>
      rw [if_pos hex] at h
      simp only [except_bind_eq_ok, refuse_eq_ok, exists_const] at h ⊢
      obtain ⟨_, hanc, _⟩ := h
      refine ⟨rfl, hanc, ?_⟩
      cases u
      simp [SesFlags.replica]
    next hex =>
      rw [if_neg hex] at h
      simp only [except_bind_eq_ok, refuse_eq_ok, exists_const] at h ⊢
      exact ⟨rfl, rfl, h.2.2⟩

theorem moveCheck_replica {m : Move} (c' : Cred)
    (h : s.moveCheck root f c parentSrc nameSrc parentDst nameDst rmode uf rf = .ok m) :
    s.moveCheck 0 .replica c' m.swd nameSrc m.dwd nameDst rmode false false = .ok m := by
  simp only [moveCheck, except_bind_eq_ok, require_eq_ok,
    refuse_eq_ok, exists_const] at h ⊢
  obtain ⟨_, swd, hswd, dwd, hdwd, hsdir, _, _, hname, se, hse, src, hsrc, _, hddir, _, _, _,
    hanc, _, hnameDst, u, hde, hret⟩ := h
  cases hret
  refine ⟨rfl, swd, findExt_replica (findExt_node hswd), dwd, findExt_replica (findExt_node hdwd),
    hsdir, rfl, rfl, hname, se, hse, src, hsrc, rfl, hddir, rfl, rfl, rfl, hanc, ?_, hnameDst, u,
    moveDestCheck_replica hde, rfl⟩
  simp [SesFlags.replica]

/-! ## §3. The tests never answer OK. -/

@[simp] theorem neverOk_dirCheck : NeverOk (s.dirCheck root f c parent frozen) := by
  simp [dirCheck]

theorem neverOk_createCheck : NeverOk (s.createCheck root f c parent name type) := by
  simp [createCheck]

theorem neverOk_symlinkCheck : NeverOk (s.symlinkCheck root f c parent name path) := by
  simp [symlinkCheck]

theorem neverOk_unlinkCheck : NeverOk (s.unlinkCheck root f c parent name dirmode) := by
  simp [unlinkCheck]

theorem neverOk_linkCheck : NeverOk (s.linkCheck root f c inodeSrc parentDst nameDst) := by
  simp [linkCheck]

@[simp] theorem neverOk_moveDestCheck {swd dwd : Nat} :
    NeverOk (s.moveDestCheck f c rmode uf rf swd dwd dwdNode de) := by
  unfold moveDestCheck
  split
  · simp
  simp only [neverOk_bind]
  refine ⟨neverOk_require (by decide), fun dst _ => ?_⟩
  split <;> simp

theorem neverOk_moveCheck :
    NeverOk (s.moveCheck root f c parentSrc nameSrc parentDst nameDst rmode uf rf) := by
  simp [moveCheck]

end Master
end MfsMaster
