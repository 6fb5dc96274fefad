/-
  MfsMaster.Data.Protection
  **WHO CAN CHANGE THE PROTECTION OF A NODE** with `fs_setattr`.

  Somebody who is neither root nor the owner is refused when the request sets the mode, the
  owner, the group or a given time.  Two things are left.  A request that only takes the suid and
  sgid bits off the mode is let through without a test, and on a node with an access list it sets
  the mask of the list to the permissions of the group.  And nothing is asked of a request that
  sets `winattr`.

      setattr_by_other                  — the two kinds of requests that remain
      protection_kept_iff               — when they leave the protection as it is
      protection_changed_by_another     — two requests that do not
-/
import MfsMaster.Data.Requests
import MfsMaster.Data.References
import MfsMaster.Lib.Bits

namespace MfsMaster.System

/-! ## §1. Protection. -/

/-- The mode changes at most by the loss of suid and sgid. -/
def OnlyLosesSugid (mode mode' : UInt16) : Prop :=
  ∃ lost : UInt16, lost &&& 0o6000 = lost ∧ mode' = mode &&& ~~~lost

/-- Owner, group, `winattr` and the access list of a node are the same, and the mode is but for
suid and sgid. -/
structure ProtectionKept (i : Nat) (s s' : Master) : Prop where
  node : ∀ n, s.nodes i = some n → ∃ n', s'.nodes i = some n' ∧ n'.uid = n.uid ∧ n'.gid = n.gid
    ∧ n'.winattr = n.winattr ∧ OnlyLosesSugid n.mode n'.mode
  access : s'.acls.access i = s.acls.access i

variable {s : Master} {i : Nat} {n : FsNode} {ses : ClientSession} {q : SetattrRequest}

theorem protectionKept_iff {s' : Master} {n' : FsNode} (hn : s.nodes i = some n)
    (hn' : s'.nodes i = some n') :
    ProtectionKept i s s'
      ↔ (n'.uid = n.uid ∧ n'.gid = n.gid ∧ n'.winattr = n.winattr ∧ OnlyLosesSugid n.mode n'.mode)
        ∧ s'.acls.access i = s.acls.access i := by
  constructor
  · intro h
    obtain ⟨m, hm, hkept⟩ := h.node n hn
    rw [hn'] at hm
    cases hm
    exact ⟨hkept, h.access⟩
  · rintro ⟨hkept, haccess⟩
    refine ⟨fun m hm => ?_, haccess⟩
    rw [hn] at hm
    cases hm
    exact ⟨n', hn', hkept⟩

/-- The triplets of an access list that `posix_acl_setmode` sets are those of the mode: the
permissions of the owner and of the others, and for the group the mask. -/
def AclNode.Agrees (acn : AclNode) (mode : UInt16) : Prop :=
  acn.userperm &&& (7 : UInt16) = (mode >>> (6 : UInt16)) &&& (7 : UInt16)
    ∧ acn.mask &&& (7 : UInt16) = (mode >>> (3 : UInt16)) &&& (7 : UInt16)
    ∧ acn.otherperm &&& (7 : UInt16) = mode &&& (7 : UInt16)

theorem posixAclSetmode_access_iff (acls : Acls) (i : Nat) (mode : UInt16) :
    (posixAclSetmode acls i mode).access i = acls.access i
      ↔ ∀ acn, acls.access i = some acn → AclNode.Agrees acn mode := by
  unfold posixAclSetmode
  dsimp only
  rw [if_pos rfl]
  cases acls.access i with
  | none => exact iff_of_true rfl (fun _ h => nomatch h)
  | some acn =>
    unfold AclNode.Agrees
    simp only [Option.map_some, Option.some.injEq, forall_eq', ← Lib.low_eq_iff]
    obtain ⟨user, group, other, mask, users, groups⟩ := acn
    simp only [AclNode.mk.injEq, true_and, and_true]
    exact ⟨fun ⟨h1, h2, h3⟩ => ⟨h1, h3, h2⟩, fun ⟨h1, h2, h3⟩ => ⟨h1, h3, h2⟩⟩

/-! ## §2. Requests of somebody else. -/

/-- The flags that are refused to somebody who is not the owner. -/
def ownerFlags : UInt8 :=
  setModeFlag ||| setUidFlag ||| setGidFlag ||| setAtimeFlag ||| setMtimeFlag

/-- **What the tests leave to somebody else**: taking suid and sgid off, or a request that sets
none of the mode, the owner, the group and given times. -/
theorem setattr_by_other (hno : hasBit n.eattr eattrNoowner = false) (huid : q.cred.uid ≠ 0)
    (hown : q.cred.uid ≠ n.uid) (h : setattrTests s ses q = .ok (i, n)) :
    (q.setmask = setModeFlag ∧ q.attrmode = n.mode &&& 0o1777)
      ∨ hasBit q.setmask ownerFlags = false := by
  have hother : (q.cred.uid != 0 && !hasBit n.eattr eattrNoowner && q.cred.uid != n.uid) = true := by
    simp [hno, huid, hown]
  simp only [setattrTests, except_bind_eq_ok, require_eq_ok, refuse_eq_ok] at h
  obtain ⟨_, _, p, _, _, _, h⟩ := h
  split at h
  next hspecial =>
    cases h
    simp only [Bool.and_eq_true, beq_iff_eq] at hspecial
    exact .inl ⟨hspecial.1.1.2, hspecial.1.2⟩
  · simp only [except_bind_eq_ok, refuse_eq_ok] at h
    obtain ⟨_, _, _, hflags, _, _, _, _, _, _, h⟩ := h
    cases h
    rw [hother, Bool.true_and] at hflags
    exact .inr hflags

theorem found_of_setattrTests (h : setattrTests s ses q = .ok (i, n)) :
    s.nodeFindOpened ses.session q.opened q.inode = some (i, n) := by
  simp only [setattrTests, except_bind_eq_ok, require_eq_ok, refuse_eq_ok] at h
  obtain ⟨_, _, p, hp, _, _, h⟩ := h
  split at h
  · cases h
    exact hp
  simp only [except_bind_eq_ok, refuse_eq_ok] at h
  obtain ⟨_, _, _, _, _, _, _, _, _, _, h⟩ := h
  cases h
  exact hp

/-! ## §3. What the request does. -/

section Result

variable {sys : System} (ts : UInt32) {ses : ClientSession} {q : SetattrRequest} {i : Nat}
  {n : FsNode}

/-- The node and the lists after a request that is accepted. -/
theorem fsSetattr_accepted (h : setattrTests sys.fs ses q = .ok (i, n)) :
    (sys.fsSetattr ts ses q).1 = .ok
      ∧ (∃ n', (sys.fsSetattr ts ses q).2.fs.nodes i = some n'
        ∧ Kept false (setattrNode ts q n) n')
      ∧ (sys.fsSetattr ts ses q).2.fs.acls
        = if hasBit q.setmask setModeFlag = true ∧ n.aclpermflag = true then
            posixAclSetmode sys.fs.acls i (setattrMode q n (setattrNode ts q n).gid)
          else sys.fs.acls := by
  have hn : sys.fs.nodes i = some n := nodeFindOpened_node (found_of_setattrTests h)
  unfold fsSetattr
  rw [h]
  dsimp only
  generalize (if hasBit q.setmask setModeFlag = true ∧ n.aclpermflag = true then
    posixAclSetmode sys.fs.acls i (setattrMode q n (setattrNode ts q n).gid)
    else sys.fs.acls) = acls
  have htouched := @Master.touched_fsnodesCheckarchmode ts i
    (({ sys.fs with acls := acls } : Master).modNode i fun _ => (setattrNode ts q n).setCtime ts)
    (archModeCtime ||| archModeMtime ||| archModeAtime)
  refine ⟨rfl, ?_, ?_⟩
  · have hset : (({ sys.fs with acls := acls } : Master).modNode i
        fun _ => (setattrNode ts q n).setCtime ts).nodes i
          = some ((setattrNode ts q n).setCtime ts) := by
      show (if i = i then (sys.fs.nodes i).map _ else _) = _
      rw [if_pos rfl, hn]
      rfl
    obtain ⟨n', hn', hk⟩ := (htouched.kept i).some hset
    exact ⟨n', hn', (FsNode.kept_setCtime _).trans hk⟩
  · obtain ⟨_, _, _, _, hdata⟩ := htouched.only
    show Master.acls (Master.fsnodesCheckarchmode _ i ts _).1 = acls
    rw [hdata]
    rfl

theorem fsSetattr_refused {st : Status} (h : setattrTests sys.fs ses q = .error st) :
    sys.fsSetattr ts ses q = (st, sys) := by
  unfold fsSetattr
  rw [h]

/-- Taking suid and sgid off changes nothing else of the node. -/
theorem setattrNode_sugid (hmask : q.setmask = setModeFlag)
    (hmode : q.attrmode = n.mode &&& 0o1777) :
    (setattrNode ts q n).uid = n.uid ∧ (setattrNode ts q n).gid = n.gid
      ∧ (setattrNode ts q n).winattr = n.winattr
      ∧ (setattrNode ts q n).mode = n.mode &&& 0o1777
      ∧ setattrMode q n n.gid = n.mode &&& 0o1777 := by
  have hsugid : sugidMask q n = 0xFFFF := by
    unfold sugidMask
    rw [hmask, show hasBit setModeFlag (setUidFlag ||| setGidFlag) = false by decide]
    simp
  have hattr : setattrMode q n n.gid = n.mode &&& 0o1777 := by
    unfold setattrMode
    rw [hmask, show hasBit setModeFlag (setUidFlag ||| setGidFlag) = false by decide, hsugid, hmode]
    -- the sgid bit is not among those that are left
    have hsgid : n.mode &&& 0o1777 &&& 0xFFFF &&& 0o2000 = 0 := by
      rw [UInt16.and_assoc, UInt16.and_assoc]
      exact UInt16.and_zero
    simp only [Bool.false_eq_true, false_and, if_false, hsgid, ne_eq, not_true_eq_false, and_false]
    rw [UInt16.and_assoc]
    rfl
  unfold setattrNode
  dsimp only
  rw [hmask, show hasBit setModeFlag setUidFlag = false by decide,
    show hasBit setModeFlag setGidFlag = false by decide,
    show hasBit setModeFlag setWinattrFlag = false by decide,
    show hasBit setModeFlag setModeFlag = true by decide, hsugid]
  simp only [Bool.false_eq_true, if_false, if_true, hattr, true_and, and_true]
  split
  · refine Lib.eq_of_bits fun k hk => ?_
    interval_cases k <;> simp
  · rw [UInt16.and_assoc]
    rfl

/-- A request without the flags of the owner changes at most `winattr`. -/
theorem setattrNode_other (hflags : hasBit q.setmask ownerFlags = false) :
    (setattrNode ts q n).uid = n.uid ∧ (setattrNode ts q n).gid = n.gid
      ∧ (setattrNode ts q n).mode = n.mode
      ∧ (setattrNode ts q n).winattr
        = if hasBit q.setmask setWinattrFlag then q.winattr else n.winattr := by
  have hpart : ∀ part, ownerFlags &&& part = part → hasBit q.setmask part = false :=
    fun part h => hasBit_of_submask h hflags
  have hmask : sugidMask q n = 0xFFFF := by
    unfold sugidMask
    rw [hpart (setUidFlag ||| setGidFlag) (by decide)]
    simp
  unfold setattrNode
  dsimp only
  rw [hpart setUidFlag (by decide), hpart setGidFlag (by decide), hpart setModeFlag (by decide),
    hmask]
  exact ⟨rfl, rfl, UInt16.and_neg_one .., rfl⟩

end Result

/-- The triplets of the mode without suid and sgid are those of the mode. -/
theorem agrees_without_sugid (acn : AclNode) (mode : UInt16) :
    AclNode.Agrees acn (mode &&& 0o1777) ↔ AclNode.Agrees acn mode := by
  have h6 : ((mode &&& 0o1777) >>> (6 : UInt16)) &&& (7 : UInt16)
      = (mode >>> (6 : UInt16)) &&& (7 : UInt16) := by
    refine Lib.eq_of_bits fun k hk => ?_
    interval_cases k <;> simp [UInt16.toBitVec_shiftRight]
  have h3 : ((mode &&& 0o1777) >>> (3 : UInt16)) &&& (7 : UInt16)
      = (mode >>> (3 : UInt16)) &&& (7 : UInt16) := by
    refine Lib.eq_of_bits fun k hk => ?_
    interval_cases k <;> simp [UInt16.toBitVec_shiftRight]
  have h0 : (mode &&& 0o1777) &&& (7 : UInt16) = mode &&& (7 : UInt16) := by
    rw [UInt16.and_assoc]
    rfl
  unfold AclNode.Agrees
  rw [h6, h3, h0]

theorem onlyLosesSugid_refl {mode : UInt16} : OnlyLosesSugid mode mode :=
  ⟨0, by decide, (UInt16.and_neg_one ..).symm⟩

/-- `mode` has 12 bits. -/
theorem onlyLosesSugid_both {mode : UInt16} (h : mode &&& 0o7777 = mode) :
    OnlyLosesSugid mode (mode &&& 0o1777) := by
  refine ⟨0o6000, by decide, ?_⟩
  calc mode &&& 0o1777 = mode &&& (0o7777 &&& ~~~0o6000) := rfl
    _ = mode &&& 0o7777 &&& ~~~0o6000 := (UInt16.and_assoc ..).symm
    _ = mode &&& ~~~0o6000 := by rw [h]

/-! ## §4. The condition. -/

/-- **When a request of somebody else keeps the protection**: its tests refuse it; or it does not
set `winattr` to another value, and it does not set the mode of a node with an access list whose
triplets differ from those of the mode. -/
theorem protection_kept_iff (sys : System) (ts : UInt32) (ses : ClientSession) (q : SetattrRequest)
    {i : Nat} {n : FsNode}
    (hfind : sys.fs.nodeFindOpened ses.session q.opened q.inode = some (i, n))
    (hbits : n.mode &&& 0o7777 = n.mode) (hno : hasBit n.eattr eattrNoowner = false)
    (huid : q.cred.uid ≠ 0) (hown : q.cred.uid ≠ n.uid) :
    ((sys.fsSetattr ts ses q).1 = .ok → ProtectionKept i sys.fs (sys.fsSetattr ts ses q).2.fs)
      ↔ (setattrTests sys.fs ses q = .ok (i, n) →
        (hasBit q.setmask setWinattrFlag = true → q.winattr = n.winattr)
          ∧ (hasBit q.setmask setModeFlag = true → n.aclpermflag = true →
            ∀ acn, sys.fs.acls.access i = some acn → AclNode.Agrees acn n.mode)) := by
  have hn : sys.fs.nodes i = some n := nodeFindOpened_node hfind
  cases htests : setattrTests sys.fs ses q with
  | error st =>
    rw [fsSetattr_refused ts htests]
    refine iff_of_true (fun _ => (protectionKept_iff hn hn).mpr ?_) (fun h => nomatch h)
    exact ⟨⟨rfl, rfl, rfl, onlyLosesSugid_refl⟩, rfl⟩
  | ok p =>
    obtain rfl : p = (i, n) := Option.some.inj ((found_of_setattrTests htests).symm.trans hfind)
    obtain ⟨hok, ⟨n', hn', hk⟩, hacls⟩ := fsSetattr_accepted ts htests
    rw [imp_iff_right hok, imp_iff_right rfl, protectionKept_iff hn hn', hacls, hk.uid, hk.gid,
      hk.winattr, hk.mode]
    rcases setattr_by_other hno huid hown htests with ⟨hmask, hmode⟩ | hflags
    · -- suid and sgid are taken off: the list decides
      obtain ⟨huid', hgid', hwin', hmode', hattr⟩ := setattrNode_sugid ts hmask hmode
      have hwinflag : hasBit q.setmask setWinattrFlag = false := by
        rw [hmask]
        decide
      have hmodeflag : hasBit q.setmask setModeFlag = true := by
        rw [hmask]
        decide
      rw [huid', hgid', hwin', hmode', hattr, hwinflag, hmodeflag]
      refine Iff.trans (and_iff_right ⟨rfl, rfl, rfl, onlyLosesSugid_both hbits⟩)
        (Iff.trans ?_ (and_iff_right (fun h => nomatch h)).symm)
      rw [imp_iff_right rfl]
      by_cases hacl : n.aclpermflag = true
      · rw [if_pos ⟨rfl, hacl⟩, imp_iff_right hacl, posixAclSetmode_access_iff]
        simp only [agrees_without_sugid]
      · rw [if_neg fun h => hacl h.2]
        exact iff_of_true rfl fun h => absurd h hacl
    · -- no flag of the owner: only `winattr` can change
      obtain ⟨huid', hgid', hmode', hwin'⟩ := setattrNode_other ts hflags (n := n)
      have hmodeflag : hasBit q.setmask setModeFlag = false :=
        hasBit_of_submask (by decide) hflags
      have hkeep : ¬ (false = true ∧ n.aclpermflag = true) := fun h => Bool.false_ne_true h.1
      rw [huid', hgid', hwin', hmode', hmodeflag, if_neg hkeep]
      refine Iff.trans (and_iff_left rfl) (Iff.trans ?_ (and_iff_left (fun h => nomatch h)).symm)
      refine Iff.trans ⟨fun h => h.2.2.1, fun h => ⟨rfl, rfl, h, onlyLosesSugid_refl⟩⟩ ?_
      by_cases hwin : hasBit q.setmask setWinattrFlag = true
      · rw [if_pos hwin, imp_iff_right hwin]
      · rw [if_neg hwin]
        exact iff_of_true rfl fun h => absurd h hwin

/-! ## §5. Requests of other users. -/

/-- A file of user 1 with the given mode, open to everybody, and its access list. -/
def fileOf (mode : UInt16) (acn : Option AclNode) : System :=
  newSystem.modFs fun s => { s with
    nodes := fun i => if i = 2 then
        some { Master.rootNode 0 with
          type := .file, nlink := 1, uid := 1, mode := mode, aclpermflag := acn.isSome }
      else s.nodes i
    acls := { s.acls with access := fun i => if i = 2 then acn else none } }

/-- What user 2 asks. -/
def askedByTwo (setmask : UInt8) (attrmode : UInt16) (winattr : UInt8) : SetattrRequest :=
  { cred := { uid := 2, gids := [2] }, inode := 2, opened := false, setmask := setmask
    attrmode := attrmode, attruid := 0, attrgid := 0, attratime := 0, attrmtime := 0
    winattr := winattr, sugidclearmode := .always }

/-- A list that lets a named user read and write, and its mask. -/
def sharedList : AclNode :=
  { userperm := 6, groupperm := 0, otherperm := 4, mask := 6, namedusers := [(3, 6)]
    namedgroups := [] }

/-- A session of the whole tree without restrictions. -/
def plainSession : ClientSession := { rootinode := rootId, sesflags := 0 }

/-- User 2 takes suid off a file whose access list agrees with its mode, and sets `winattr` to what
it is: the file keeps its protection. -/
theorem protection_kept_touched :
    [askedByTwo setModeFlag 0o664 0, askedByTwo setWinattrFlag 0 0].Forall fun q =>
    ((fileOf 0o4664 (some sharedList)).fsSetattr 9 plainSession q).1 = .ok
      ∧ ProtectionKept 2 (fileOf 0o4664 (some sharedList)).fs
        ((fileOf 0o4664 (some sharedList)).fsSetattr 9 plainSession q).2.fs := by
  have hok : ∀ q ∈ [askedByTwo setModeFlag 0o664 0, askedByTwo setWinattrFlag 0 0],
      ((fileOf 0o4664 (some sharedList)).fsSetattr 9 plainSession q).1 = .ok := by decide +kernel
  refine List.forall_iff_forall_mem.mpr fun q hq => ⟨hok q hq, ?_⟩
  rcases List.mem_pair.mp hq with rfl | rfl
  all_goals
    refine (protection_kept_iff (fileOf 0o4664 (some sharedList)) 9 plainSession _ rfl (by decide)
      (by decide) (by decide) (by decide)).mpr (fun _ => ⟨?_, ?_⟩) (hok _ hq)
  · exact fun h => absurd h (by decide)
  · rintro _ _ acn ⟨⟩
    exact ⟨rfl, rfl, rfl⟩
  · exact fun _ => rfl
  · exact fun h => absurd h (by decide)

/-- **User 2 changes the protection of a file of user 1**: its `winattr`, and the mask of its
access list when suid is taken off, so that the named user can no longer read it. -/
theorem protection_changed_by_another :
    (((fileOf 0o666 none).fsSetattr 9 plainSession (askedByTwo setWinattrFlag 0 1)).1 = .ok
      ∧ (((fileOf 0o666 none).fsSetattr 9 plainSession (askedByTwo setWinattrFlag 0 1)).2.fs.nodes
        2).map FsNode.winattr = some 1
      ∧ ((fileOf 0o666 none).fs.nodes 2).map FsNode.winattr = some 0)
    ∧ (((fileOf 0o4604 (some sharedList)).fsSetattr 9 plainSession
        (askedByTwo setModeFlag 0o604 0)).1 = .ok
      ∧ (((fileOf 0o4604 (some sharedList)).fsSetattr 9 plainSession
        (askedByTwo setModeFlag 0o604 0)).2.fs.acls.access 2).map AclNode.mask = some 0
      ∧ ((fileOf 0o4604 (some sharedList)).fs.acls.access 2).map AclNode.mask = some 6) := by
  decide +kernel

end MfsMaster.System
