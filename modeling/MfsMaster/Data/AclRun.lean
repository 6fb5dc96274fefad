/-
  MfsMaster.Data.AclRun
  **MODE AND ACCESS LIST OF A NODE AGREE IN EVERY RUN WITHOUT MISFIT SNAPSHOTS.**

  The permissions of a node with an access list are kept twice.  Creating a node, setting its
  attributes and setting its lists change both sides together, on the leader and when the record
  is replayed.  A snapshot does not: the mode it writes may meet a list of other permissions.

      modes_agree              — every run whose snapshots fit (`Master.snapshotFits`)
      modes_agree_shared       — a run with a snapshot of a file with an access list
      modes_differ_overwritten — a snapshot over a file with an access list, and a snapshot into
                                 a directory with a default list
-/
import MfsMaster.Data.Protection
import MfsMaster.Data.References
import MfsMaster.Fs.AclSnapshot
import MfsMaster.Fs.SetAcl

namespace MfsMaster

/-! ## §1. New nodes. -/

variable {c : Cred} {f : SesFlags} {name : Name} {parent rootinode : Nat} {s : Master}
  {wd : Nat × FsNode} {acn : AclNode} {ts : UInt32} {q : SetattrRequest} {ses : ClientSession}
  {aclmode : UInt16}

namespace Master

variable {fc : Forced} {type : NodeType} {rdev : UInt32} {path : Name}

theorem onNew_aclBits (n : FsNode) : (fc.onNew n).aclBits = n.aclBits := by
  unfold Forced.onNew Forced.onNode
  split <;> split <;> rfl

theorem setRdev_aclBits (n : FsNode) : (setRdev type rdev n).aclBits = n.aclBits := by
  unfold setRdev
  split <;> rfl

theorem createCheck_node
    (h : s.createCheck rootinode f c parent name type = .ok wd) : s.nodes wd.1 = some wd.2 :=
  findExt_node (createCheck_replica [] h).2

theorem symlinkCheck_node
    (h : s.symlinkCheck rootinode f c parent name path = .ok wd) : s.nodes wd.1 = some wd.2 := by
  simp only [symlinkCheck, except_bind_eq_ok, refuse_eq_ok, exists_const] at h
  obtain ⟨_, _, wd', hdir, _, _, _, hret⟩ := h
  cases hret
  exact findExt_node (dirCheck_replica c hdir).2

theorem AclsOk.fsUnivCreate (h : AclsOk s s) {mode cumask : UInt16} {copysgid : Bool} :
    AclsOk (s.fsUnivCreate ts rootinode f parent name type mode cumask c rdev copysgid).state
      (s.fsUnivCreate ts rootinode f parent name type mode cumask c rdev copysgid).state := by
  unfold Master.fsUnivCreate
  split
  · exact h
  next wd hcheck =>
  have hmade := h.fsnodesCreateNode (createCheck_node hcheck) ts name type mode cumask c.uid
    c.gid copysgid
  have hbody : SameAcls (s.fsnodesCreateNode ts wd.1 name type mode cumask c.uid c.gid copysgid).2
      (s.createBody ts wd.1 name type mode cumask c rdev copysgid).2 :=
    (sameAcls_modNode onNew_aclBits).trans
      (sameAcls_modNode setRdev_aclBits)
  exact (hmade.ok.same hbody).start

theorem AclsOk.fsUnivSymlink (h : AclsOk s s) :
    AclsOk (s.fsUnivSymlink ts rootinode f parent name path c).state
      (s.fsUnivSymlink ts rootinode f parent name path c).state := by
  unfold Master.fsUnivSymlink
  split
  · exact h
  next wd hcheck =>
  have hmade := h.fsnodesCreateNode (symlinkCheck_node hcheck) ts name .symlink 0o777 0 c.uid
    c.gid false
  have hbody : SameAcls (s.fsnodesCreateNode ts wd.1 name .symlink 0o777 0 c.uid c.gid false).2
      (s.symlinkBody ts wd.1 name path c).2 :=
    (sameAcls_modNode (f := .setPath path) fun n => rfl).trans (.of_eq rfl rfl rfl)
  exact (hmade.ok.same hbody).start

theorem aclsOk_fsNew (ts : UInt32) (sclasses : SClassTab) (patterns : List Pattern) (keep : Bool)
    (links : Nat) :
    AclsOk (fsNew ts sclasses patterns keep links) (fsNew ts sclasses patterns keep links) where
  agree := by
    intro i
    unfold aclView fsNew
    dsimp only
    split <;> exact ⟨rfl, rfl, fun _ _ h => nomatch h⟩
  pool := (sound_fsNew ts sclasses patterns keep links).pool.mono fun _ hi => hi.elim id id
  lists := fun _ _ => .inl rfl

end Master

namespace System

/-! ## §2. Attributes. -/

/-- The bits a change of the owner leaves are the permissions, at least. -/
theorem sugidMask_low {n : FsNode} : sugidMask q n &&& 0o777 = 0o777 := by
  unfold sugidMask
  dsimp only
  split
  · cases q.sugidclearmode with
    | never =>
      show (0xFFFF : UInt16) &&& 0o777 = 0o777
      decide
    | always =>
      show (0o1777 : UInt16) &&& 0o777 = 0o777
      decide
    | osx | bsd | ext | xfs =>
      split_ifs <;> rfl
  · rfl

theorem and_sugidMask_low {n : FsNode} {mode : UInt16} :
    mode &&& sugidMask q n &&& 0o777 = mode &&& 0o777 := by
  rw [UInt16.and_assoc, sugidMask_low]

/-- `posix_acl_setmode` next to the same bits of the mode. -/
theorem modeAgrees_setmode {mode attrmode : UInt16} (h : acn.ModeAgrees mode) : AclNode.ModeAgrees
      { acn with
        userperm := (acn.userperm &&& 0xFFF8) ||| ((attrmode >>> (6 : UInt16)) &&& 7)
        mask := (acn.mask &&& 0xFFF8) ||| ((attrmode >>> (3 : UInt16)) &&& 7)
        otherperm := (acn.otherperm &&& 0xFFF8) ||| (attrmode &&& 7) }
      ((mode &&& 0o70) ||| (attrmode &&& 0o7707)) := by
  have hbit : ∀ i, (mode &&& 0o777).toBitVec.getLsbD i = _ := fun i =>
    congrArg (fun x : UInt16 => x.toBitVec.getLsbD i) h
  refine Lib.eq_of_bits fun i hi => ?_
  have hi := hbit i
  interval_cases i <;> simp [UInt16.toBitVec_shiftLeft, UInt16.toBitVec_shiftRight] at hi ⊢ <;>
    exact hi

section Setattr

variable {s : Master} {i : Nat} {n : FsNode}

/-- The lists after the mode was set through `posix_acl_setmode`, for a node that has one. -/
def setattrAcls (s : Master) (i : Nat) (n : FsNode) (ts : UInt32) (q : SetattrRequest) : Acls :=
  if hasBit q.setmask setModeFlag ∧ n.aclpermflag then
    posixAclSetmode s.acls i (setattrMode q n (setattrNode ts q n).gid)
  else s.acls

/-- A mode is set in one access list at most. -/
theorem setmode_other {p : Prop} [Decidable p] {acls : Acls} {mode : UInt16} :
    (if p then posixAclSetmode acls i mode else acls).default = acls.default
      ∧ ∀ j, j ≠ i → (if p then posixAclSetmode acls i mode else acls).access j = acls.access j := by
  split
  · exact ⟨rfl, fun j hj => if_neg hj⟩
  · exact ⟨rfl, fun _ _ => rfl⟩

/-- **The mode and the list a request to set attributes leaves agree.** -/
theorem setattr_agrees (h : Master.AclsOk s s) (hn : s.nodes i = some n) (ts : UInt32)
    (q : SetattrRequest) :
    AclView.Agrees ⟨some (setattrNode ts q n).aclBits, (setattrAcls s i n ts q).access i,
      (setattrAcls s i n ts q).default i⟩ := by
  obtain ⟨hacc, hdef, hmode⟩ := h.node hn
  unfold setattrAcls
  by_cases hset : hasBit q.setmask setModeFlag = true ∧ n.aclpermflag = true
  · -- user, mask and other follow the new mode; the group bits of the mode stay
    obtain ⟨acn, hacn⟩ := Option.isSome_iff_exists.mp (hacc.trans hset.2)
    rw [if_pos hset]
    unfold posixAclSetmode
    dsimp only
    rw [if_pos rfl, hacn]
    refine ⟨hset.2.symm, hdef, ?_⟩
    intro acn' b hacn' hb
    cases hacn'
    cases hb
    have hnew : (setattrNode ts q n).mode = (n.mode &&& sugidMask q n &&& 0o70)
        ||| (setattrMode q n (setattrNode ts q n).gid &&& 0o7707) := by
      unfold setattrNode
      dsimp only
      rw [hset.1, hset.2]
      rfl
    show AclNode.ModeAgrees _ (setattrNode ts q n).mode
    rw [hnew]
    exact modeAgrees_setmode ((hmode acn hacn).congr and_sugidMask_low)
  · rw [if_neg hset]
    refine ⟨hacc, hdef, ?_⟩
    intro acn b hacn hb
    cases hb
    -- without a list there is nothing to agree with, so the mode is not set
    have hflag : n.aclpermflag = true := hacc.symm.trans (congrArg Option.isSome hacn)
    have hnot : hasBit q.setmask setModeFlag = false := by
      cases hbit : hasBit q.setmask setModeFlag
      · rfl
      · exact absurd ⟨hbit, hflag⟩ hset
    have hnew : (setattrNode ts q n).mode = n.mode &&& sugidMask q n := by
      unfold setattrNode
      dsimp only
      rw [hnot]
      rfl
    show AclNode.ModeAgrees _ (setattrNode ts q n).mode
    rw [hnew]
    exact (hmode acn hacn).congr and_sugidMask_low

theorem aclsOk_replace (h : Master.AclsOk s s) (hn : s.nodes i = some n) {acls : Acls}
    (hother : acls.default = s.acls.default ∧ ∀ j, j ≠ i → acls.access j = s.acls.access j)
    {f : FsNode → FsNode}
    (hagrees : AclView.Agrees ⟨some (f n).aclBits, acls.access i, acls.default i⟩) :
    Master.AclsOk (({ s with acls := acls } : Master).modNode i f)
      (({ s with acls := acls } : Master).modNode i f) := by
  have hnode : (({ s with acls := acls } : Master).modNode i f).nodes i = some (f n) := by
    rw [Master.modNode_nodes, if_pos rfl]
    exact congrArg (Option.map f) hn
  refine h.changed i (fun j hj => ?_) ?_ rfl (Option.isSome_of_eq_some hn)
  · simp [Master.aclView, Master.modNode, hj, hother.1, hother.2 j hj]
  · unfold Master.aclView
    rw [hnode]
    exact hagrees

/-- **`fs_setattr`.** -/
theorem aclsOk_fsSetattr {sys : System} (h : Master.AclsOk sys.fs sys.fs) :
    Master.AclsOk (sys.fsSetattr ts ses q).2.fs (sys.fsSetattr ts ses q).2.fs := by
  cases htests : setattrTests sys.fs ses q with
  | error st =>
    rw [fsSetattr_refused ts htests]
    exact h
  | ok p =>
    obtain ⟨i, n⟩ := p
    have hn : sys.fs.nodes i = some n := nodeFindOpened_node (found_of_setattrTests htests)
    have h1 := aclsOk_replace h hn setmode_other
      (f := fun _ => (setattrNode ts q n).setCtime ts) (setattr_agrees h hn ts q)
    unfold fsSetattr
    rw [htests]
    exact (h1.same Master.touched_fsnodesCheckarchmode.sameAcls).start

end Setattr

/-! ## §3. The record of it. -/

/-- The lists on a replica: user, mask and other of an access list are taken from the record.  A
record of an old master does not say the mask. -/
def mrAttrAcls (s : Master) (i : Nat) (n : FsNode) (mode aclmode : UInt16) : Acls :=
  let aclmode := if aclmode &&& 0x1000 = 0 then (mode &&& 0o707) ||| 0o70 else aclmode
  if n.aclpermflag then posixAclSetmode s.acls i aclmode else s.acls

/-- `fs_mr_attr`. -/
def fsMrAttr (s : Master) (ts : UInt32) (inode : Nat) (mode : UInt16) (uid gid : Nat)
    (atime mtime : UInt32) (winattr : UInt8) (aclmode : UInt16) : Option Master :=
  match s.nodes inode with
  | none => none
  | some n =>
    if 0o7777 < mode then none
    else some ((({ s with acls := mrAttrAcls s inode n mode aclmode } : Master).modNode inode
      fun n => { n with mode := mode, uid := uid, gid := gid, atime := atime, mtime := mtime
                        ctime := ts, winattr := winattr }).fsnodesCheckarchmode inode ts
        (archModeCtime ||| archModeMtime ||| archModeAtime)).1

/-- An ATTR record on a replica. -/
def attrApply (s : Master) : DataRecord → Option Master
  | .attr ts inode mode uid gid atime mtime winattr aclmode =>
    fsMrAttr s ts inode mode uid gid atime mtime winattr aclmode
  | _ => none

/-- What `posix_acl_getmode` puts into a record is found there again. -/
theorem logged_aclmode (user mask other : UInt16) :
    let logged := ((((user &&& (7 : UInt16)) <<< (6 : UInt16)) ||| ((mask &&& (7 : UInt16)) <<< (3 : UInt16))
      ||| (other &&& (7 : UInt16))) &&& 0o7777) + 0x1000
    logged &&& 0x1000 ≠ 0 ∧ (logged >>> (6 : UInt16)) &&& 7 = user &&& 7
      ∧ logged &&& 7 = other &&& 7 := by
  intro logged
  -- the sum has no carry
  have hor : logged = ((((user &&& (7 : UInt16)) <<< (6 : UInt16))
      ||| ((mask &&& (7 : UInt16)) <<< (3 : UInt16)) ||| (other &&& (7 : UInt16))) &&& 0o7777) ||| 0x1000 := by
    rw [← UInt16.toBitVec_inj]
    refine BitVec.add_eq_or_of_and_eq_zero _ _ (BitVec.eq_of_getLsbD_eq fun i hi => ?_)
    interval_cases i <;> simp [UInt16.toBitVec_shiftLeft]
  rw [hor]
  refine ⟨?_, ?_, ?_⟩
  · intro hzero
    have hbit := congrArg (fun x : UInt16 => x.toBitVec.getLsbD 12) hzero
    simp at hbit
  · refine Lib.eq_of_bits fun i hi => ?_
    interval_cases i <;> simp [UInt16.toBitVec_shiftLeft, UInt16.toBitVec_shiftRight]
  · refine Lib.eq_of_bits fun i hi => ?_
    interval_cases i <;> simp [UInt16.toBitVec_shiftLeft]

section Replay

variable {s : Master} {i : Nat} {n : FsNode}

/-- An access list keeps its owning group when attributes are set. -/
theorem setattrAcls_list (hacn : s.acls.access i = some acn) :
    ∃ acn', (setattrAcls s i n ts q).access i = some acn' ∧ acn'.groupperm = acn.groupperm := by
  unfold setattrAcls
  split
  · unfold posixAclSetmode
    dsimp only
    rw [if_pos rfl, hacn]
    exact ⟨_, rfl, rfl⟩
  · exact ⟨acn, hacn, rfl⟩

/-- **The record leaves the mode and a list with the permissions the leader has.** -/
theorem mrAttr_agrees (h : Master.AclsOk s s) (hn : s.nodes i = some n)
    (haclmode : aclmode = if n.aclpermflag then
      (posixAclGetmode (setattrAcls s i n ts q) i &&& 0o7777) + 0x1000 else 0) :
    AclView.Agrees ⟨some (setattrNode ts q n).aclBits,
      (mrAttrAcls s i n (setattrNode ts q n).mode aclmode).access i,
      (mrAttrAcls s i n (setattrNode ts q n).mode aclmode).default i⟩ := by
  have hleader := setattr_agrees h hn ts q
  obtain ⟨hacc, _, _⟩ := h.node hn
  cases hflag : n.aclpermflag with
  | false =>
    have hsame : mrAttrAcls s i n (setattrNode ts q n).mode aclmode = setattrAcls s i n ts q := by
      unfold mrAttrAcls setattrAcls
      simp [hflag]
    rw [hsame]
    exact hleader
  | true =>
    obtain ⟨acn, hacn⟩ := Option.isSome_iff_exists.mp (hacc.trans hflag)
    obtain ⟨acn', hacn', hgroup⟩ := setattrAcls_list (n := n) hacn
    have hlogged := logged_aclmode acn'.userperm acn'.mask acn'.otherperm
    have hget : posixAclGetmode (setattrAcls s i n ts q) i
        = ((acn'.userperm &&& 7) <<< 6) ||| ((acn'.mask &&& 7) <<< 3) ||| (acn'.otherperm &&& 7) := by
      unfold posixAclGetmode
      rw [hacn']
    rw [hflag, if_pos rfl, hget] at haclmode
    rw [← haclmode] at hlogged
    obtain ⟨hset, huser, hother⟩ := hlogged
    unfold mrAttrAcls
    rw [if_neg hset, hflag, if_pos rfl]
    unfold posixAclSetmode
    dsimp only
    rw [if_pos rfl, hacn]
    refine ⟨hflag.symm, ?_, ?_⟩
    · have hdef := hleader.default
      unfold setattrAcls at hdef
      rwa [setmode_other.1] at hdef
    intro list b hlist hb
    cases hlist
    have hleft : acn'.ModeAgrees b.2.2 := hleader.mode acn' b hacn' hb
    have hlow : ∀ x y : UInt16, ((x &&& 0xFFF8) ||| (y &&& 7)) &&& 7 = y &&& 7 := by
      intro x y
      refine Lib.eq_of_bits fun k hk => ?_
      interval_cases k <;> simp
    refine hleft.congr_list ?_ ?_ ?_
    · exact (hlow _ _).trans huser
    · exact congrArg (· &&& 7) hgroup.symm
    · exact (hlow _ _).trans hother

/-- The state as a leader's, before it has logged anything. -/
def ofMaster (s : Master) : System := { fs := s, swchunks := [], vleng := fun _ => 0, log := [] }

/-- **`fs_mr_attr`** for the record a leader writes in the same state. -/
theorem aclsOk_attrApply (h : Master.AclsOk s s) {r : DataRecord}
    (hr : r ∈ ((ofMaster s).fsSetattr ts ses q).2.log) {t : Master} (ht : attrApply s r = some t) :
    Master.AclsOk t t := by
  cases htests : setattrTests s ses q with
  | error st =>
    have hrefused : (ofMaster s).fsSetattr ts ses q = (st, ofMaster s) :=
      fsSetattr_refused ts htests
    rw [hrefused] at hr
    cases hr
  | ok p =>
    obtain ⟨i, n⟩ := p
    have hn : s.nodes i = some n := nodeFindOpened_node (found_of_setattrTests htests)
    have hlog : ((ofMaster s).fsSetattr ts ses q).2.log = [.attr ts i (setattrNode ts q n).mode
        (setattrNode ts q n).uid (setattrNode ts q n).gid (setattrNode ts q n).atime
        (setattrNode ts q n).mtime (setattrNode ts q n).winattr
        (if n.aclpermflag then (posixAclGetmode (setattrAcls s i n ts q) i &&& 0o7777) + 0x1000
          else 0)] := by
      have htests' : setattrTests (ofMaster s).fs ses q = .ok (i, n) := htests
      unfold fsSetattr
      rw [htests']
      rfl
    rw [hlog, List.mem_singleton] at hr
    subst hr
    dsimp only [attrApply] at ht
    unfold fsMrAttr at ht
    rw [hn] at ht
    dsimp only at ht
    split at ht
    · cases ht
    cases ht
    refine (Master.AclsOk.same (aclsOk_replace h hn setmode_other ?_)
      Master.touched_fsnodesCheckarchmode.sameAcls).start
    exact mrAttr_agrees h hn rfl

end Replay

end System

/-! ## §4. Runs. -/

/-- The operations that change modes or lists.  A record of a creation, a symbolic link or a
snapshot is the same function with the flag for replay among its flags; a record of attributes or
lists is one the leader writes for a request. -/
inductive AclStep where
  | create (ts : UInt32) (rootinode : Nat) (f : SesFlags) (parent : Nat) (name : Name)
      (type : NodeType) (mode cumask : UInt16) (c : Cred) (rdev : UInt32) (copysgid : Bool)
  | symlink (ts : UInt32) (rootinode : Nat) (f : SesFlags) (parent : Nat) (name path : Name)
      (c : Cred)
  | setattr (ts : UInt32) (ses : ClientSession) (q : System.SetattrRequest)
  | mrAttr (ts : UInt32) (ses : ClientSession) (q : System.SetattrRequest)
  | setfacl (ts : UInt32) (rootinode : Nat) (f : SesFlags) (q : Master.SetfaclRequest)
  | mrSetacl (ts : UInt32) (rootinode : Nat) (f : SesFlags) (q : Master.SetfaclRequest)
  | snapshot (a : SnapArgs) (q : Master.SnapRequest)

namespace Master

/-- One operation. -/
def aclStep (s : Master) : AclStep → Master
  | .create ts rootinode f parent name type mode cumask c rdev copysgid =>
    (s.fsUnivCreate ts rootinode f parent name type mode cumask c rdev copysgid).state
  | .symlink ts rootinode f parent name path c =>
    (s.fsUnivSymlink ts rootinode f parent name path c).state
  | .setattr ts ses q => ((System.ofMaster s).fsSetattr ts ses q).2.fs
  | .mrAttr ts ses q =>
    ((((System.ofMaster s).fsSetattr ts ses q).2.log.head?).bind (System.attrApply s)).getD s
  | .setfacl ts rootinode f q => (s.fsSetfacl ts rootinode f q).2.1
  | .mrSetacl ts rootinode f q =>
    ((s.fsSetfacl ts rootinode f q).2.2.bind s.fsMrSetacl).getD s
  | .snapshot a q => (s.fsUnivSnapshot a q).2.2

/-- The condition on a step: a snapshot gives no mode to an object with a list of other
permissions. -/
def AclStepFits (s : Master) : AclStep → Prop
  | .snapshot a q => s.snapshotFits a q = true
  | _ => True

instance (s : Master) (e : AclStep) : Decidable (s.AclStepFits e) :=
  match e with
  | .snapshot a q => inferInstanceAs (Decidable (s.snapshotFits a q = true))
  | .create .. | .symlink .. | .setattr .. | .mrAttr .. | .setfacl .. | .mrSetacl .. =>
    inferInstanceAs (Decidable True)

/-- **Mode and lists of every node agree.** -/
def ModesAgree (s : Master) : Prop :=
  ∀ i n, s.nodes i = some n →
    (n.aclpermflag = true ↔ (s.acls.access i).isSome = true)
      ∧ (n.acldefflag = true ↔ (s.acls.default i).isSome = true)
      ∧ ∀ acn, s.acls.access i = some acn → acn.ModeAgrees n.mode

theorem AclsOk.modesAgree {s₀ : Master} (h : AclsOk s₀ s) : s.ModesAgree := by
  intro i n hn
  obtain ⟨hacc, hdef, hmode⟩ := h.node hn
  rw [hacc, hdef]
  exact ⟨Iff.rfl, Iff.rfl, hmode⟩

theorem AclsOk.aclStep (h : AclsOk s s) {e : AclStep} (hfits : s.AclStepFits e) :
    AclsOk (s.aclStep e) (s.aclStep e) := by
  cases e with
  | create ts rootinode f parent name type mode cumask c rdev copysgid =>
    exact h.fsUnivCreate
  | symlink ts rootinode f parent name path c =>
    exact h.fsUnivSymlink
  | setattr ts ses q => exact System.aclsOk_fsSetattr h
  | mrAttr ts ses q =>
    unfold Master.aclStep
    dsimp only
    cases ht : (((System.ofMaster s).fsSetattr ts ses q).2.log.head?).bind (System.attrApply s) with
    | none => exact h
    | some t =>
      obtain ⟨r, hr, ht⟩ := Option.bind_eq_some_iff.mp ht
      exact System.aclsOk_attrApply h (List.mem_of_mem_head? hr) ht
  | setfacl ts rootinode f q => exact h.fsSetfacl
  | mrSetacl ts rootinode f q =>
    unfold Master.aclStep
    dsimp only
    cases ht : (s.fsSetfacl ts rootinode f q).2.2.bind s.fsMrSetacl with
    | none => exact h
    | some t =>
      obtain ⟨r, hr, ht⟩ := Option.bind_eq_some_iff.mp ht
      exact h.fsMrSetacl hr ht
  | snapshot a q => exact (h.fsUnivSnapshot hfits).start

/-- **In every run whose snapshots fit, modes and lists agree in every state.** -/
theorem modes_agree (ts : UInt32) (sclasses : SClassTab) (patterns : List Pattern)
    (keepEmptyFilesInTrash : Bool) (maxAllowedHardLinks : Nat) (es : List AclStep)
    (hfits : Lib.StepsMeet aclStep AclStepFits
      (fsNew ts sclasses patterns keepEmptyFilesInTrash maxAllowedHardLinks) es) :
    (Lib.run aclStep (fsNew ts sclasses patterns keepEmptyFilesInTrash maxAllowedHardLinks)
      es).ModesAgree := by
  have hnew := aclsOk_fsNew ts sclasses patterns keepEmptyFilesInTrash maxAllowedHardLinks
  have hstep : ∀ s e, AclsOk s s → s.AclStepFits e → AclsOk (s.aclStep e) (s.aclStep e) :=
    fun s e hs hc => hs.aclStep hc
  exact (Lib.run_invariant hstep es _ hnew hfits).modesAgree

/-! ## §5. Snapshots of files with and without lists. -/

/-- A caller with all rights, on the leader. -/
def rootFlags : SesFlags :=
  { readonly := false, ignoregid := false, admin := true, metarestore := false }

/-- User 0 makes a node in `parent`. -/
def rootMakes (parent : Nat) (name : Name) (type : NodeType) (mode : UInt16) : AclStep :=
  .create 5 rootId rootFlags parent name type mode 0 ⟨0, [0]⟩ 0 false

/-- A list that lets user 7 read, with the given permissions of the owner. -/
def readableBySeven (userperm : UInt16) : AclNode :=
  { userperm := userperm, groupperm := 4, otherperm := 0, mask := 4, namedusers := [(7, 4)]
    namedgroups := [] }

/-- User 0 takes a snapshot of `src` as `name` in `parent`, over what is there. -/
def rootCopies (src parent : Nat) (name : Name) : AclStep :=
  .snapshot { ts := 6, smode := snapshotModeCanOverwrite, flags := rootFlags, cumask := 0
              cred := ⟨0, [0]⟩ }
    { rootinode := rootId, inodeSrc := src, parentDst := parent, nameDst := name }

/-- A file with an access list is made and copied to a new name. -/
def copyShared : List AclStep :=
  [rootMakes rootId [0x61] .file 0o600, .setfacl 5 rootId rootFlags ⟨2, 0, 1, readableBySeven 6⟩,
    rootCopies 2 rootId [0x62]]

theorem modes_agree_shared :
    (Lib.run aclStep (fsNew 0 .sclassNew [] false 32767) copyShared).ModesAgree
      ∧ (Lib.run aclStep (fsNew 0 .sclassNew [] false 32767) copyShared).acls.access 3
        = some (readableBySeven 6) :=
  ⟨modes_agree 0 .sclassNew [] false 32767 copyShared (by decide +kernel), by decide +kernel⟩

/-- A file without a list is copied over one with a list. -/
def copyOver : List AclStep :=
  [rootMakes rootId [0x61] .file 0o600, .setfacl 5 rootId rootFlags ⟨2, 0, 1, readableBySeven 6⟩,
    rootMakes rootId [0x62] .file 0o444, rootCopies 3 rootId [0x61]]

/-- A file is copied into a directory with a default list. -/
def copyInto : List AclStep :=
  [rootMakes rootId [0x61] .file 0o666, rootMakes rootId [0x64] .directory 0o755,
    .setfacl 5 rootId rootFlags ⟨3, 0, 2, readableBySeven 4⟩, rootCopies 2 3 [0x61]]

/-- The inode has an access list with other permissions than its mode. -/
def differsAt (s : Master) (i : Nat) : Bool :=
  (s.nodes i).any fun n => (s.acls.access i).any fun acn => !decide (acn.ModeAgrees n.mode)

theorem not_modesAgree {i : Nat} (h : s.differsAt i = true) : ¬ s.ModesAgree := by
  intro hagree
  unfold differsAt at h
  cases hn : s.nodes i with
  | none => simp [hn] at h
  | some n =>
    cases hacn : s.acls.access i with
    | none => simp [hn, hacn] at h
    | some acn =>
      have hmode := (hagree i n hn).2.2 acn hacn
      simp [hn, hacn, hmode] at h

/-- **The mode of the source meets a list that is not its own**: the one of the file that is
there (the owner may not write according to the mode, and may according to the list), or the one
that the new file inherits. -/
theorem modes_differ_overwritten :
    ¬ (Lib.run aclStep (fsNew 0 .sclassNew [] false 32767) copyOver).ModesAgree
      ∧ ¬ (Lib.run aclStep (fsNew 0 .sclassNew [] false 32767) copyInto).ModesAgree :=
  ⟨not_modesAgree (i := 2) (by decide +kernel), not_modesAgree (i := 4) (by decide +kernel)⟩

end Master

end MfsMaster
