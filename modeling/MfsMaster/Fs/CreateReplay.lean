/-
  MfsMaster.Fs.CreateReplay
  **CREATE RECORDS.**

  A CREATE record carries the uid and the group OF THE NEW NODE, and a mode that already
  holds the set-gid bit the leader copied from the directory.  The replica matches the
  creation patterns against that uid and that one group, and masks the mode with `cumask`
  again.

      create_replays_iff_irrelevant — the record reproduces the namespace
                                        ↔ `CreateIrrelevant`
-/
import MfsMaster.Fs.Frame
import MfsMaster.Fs.Records
import MfsMaster.Lib.Bits

namespace MfsMaster

/-! ## §1. The set-gid bit of a mode. -/

/-- The mode `m` with the set-gid bit of `x`. -/
def withSgid (m x : UInt16) : UInt16 :=
  (m &&& 0xFBFF) ||| (x &&& 0x0400)

/-- The set-gid bit is in none of the three groups of permissions. -/
theorem withSgid_perms (m x : UInt16) :
    (withSgid m x >>> (6 : UInt16)) &&& (7 : UInt16) = (m >>> (6 : UInt16)) &&& (7 : UInt16)
      ∧ (withSgid m x >>> (3 : UInt16)) &&& (7 : UInt16) = (m >>> (3 : UInt16)) &&& (7 : UInt16)
      ∧ withSgid m x &&& (7 : UInt16) = m &&& (7 : UInt16) := by
  refine ⟨Lib.eq_of_bits ?_, Lib.eq_of_bits ?_, Lib.eq_of_bits ?_⟩
  all_goals
    intro i hi
    interval_cases i <;> simp [withSgid]

/-- A mask of permissions keeps the set-gid bit. -/
theorem withSgid_and_perms (m x u g o : UInt16) :
    withSgid m x &&& ((0xFE00 : UInt16) ||| u ||| g ||| o)
      = withSgid (m &&& ((0xFE00 : UInt16) ||| u ||| g ||| o)) x := by
  refine Lib.eq_of_bits fun i hi => ?_
  interval_cases i <;> simp [withSgid]

theorem withSgid_or_perms (m x u g o : UInt16) :
    (withSgid m x &&& (0xFE00 : UInt16)) ||| ((u &&& (7 : UInt16)) <<< (6 : UInt16))
        ||| ((g &&& (7 : UInt16)) <<< (3 : UInt16)) ||| (o &&& (7 : UInt16))
      = withSgid ((m &&& (0xFE00 : UInt16)) ||| ((u &&& (7 : UInt16)) <<< (6 : UInt16))
        ||| ((g &&& (7 : UInt16)) <<< (3 : UInt16)) ||| (o &&& (7 : UInt16))) x := by
  refine Lib.eq_of_bits fun i hi => ?_
  interval_cases i <;> simp [withSgid]

variable {inh mode' : UInt16} {c : Cred} {ts : UInt32} {cs cs' : Bool} {acl' : Option AclCopy}

/-- Without `cumask` the set-gid bit of the logged mode is that of the node. -/
theorem withSgid_self {a : UInt16} (h : inh = 0 ∨ inh = 0o2000) :
    withSgid a ((a ||| inh) &&& 0xFFF) &&& 0xFFF = (a ||| inh) &&& 0xFFF := by
  refine Lib.eq_of_bits fun i hi => ?_
  rcases h with rfl | rfl
  · interval_cases i <;> simp [withSgid]
  · interval_cases i <;> simp [withSgid]

theorem and_sgid_eq_zero (c : UInt16) : c &&& 0x0400 = 0 ↔ c.toBitVec[10] = false := by
  constructor
  · intro h
    have h10 := congrArg (fun a : UInt16 => a.toBitVec.getLsbD 10) h
    simpa using h10
  intro h
  refine Lib.eq_of_bits fun i hi => ?_
  interval_cases i <;> simp [h]

/-- With `cumask` it is, unless the bit was copied and is one that `cumask` takes away. -/
theorem withSgid_cumask {m c : UInt16} (h : inh = 0 ∨ inh = 0o2000) :
    (withSgid m (((m &&& ~~~c) ||| inh) &&& 0xFFF) &&& ~~~c) &&& 0xFFF
        = ((m &&& ~~~c) ||| inh) &&& 0xFFF
      ↔ ¬ (inh = 0o2000 ∧ c &&& 0x0400 ≠ 0) := by
  rw [ne_eq, and_sgid_eq_zero]
  rcases h with rfl | rfl
  · refine iff_of_true ?_ (by simp)
    refine Lib.eq_of_bits fun i hi => ?_
    interval_cases i <;> simp [withSgid]
  · constructor
    · intro heq hc
      have h10 := congrArg (fun a : UInt16 => a.toBitVec.getLsbD 10) heq
      simp [withSgid] at h10
      simp [h10] at hc
    · intro hc
      have hbit : c.toBitVec[10] = false := by
        by_contra hne
        exact hc ⟨rfl, hne⟩
      refine Lib.eq_of_bits fun i hi => ?_
      interval_cases i <;> simp [withSgid, hbit]

/-! ## §2. Default lists. -/

/-- What a directory's default list gives, with another set-gid bit. -/
def AclCopy.withSgid (a : AclCopy) (x : UInt16) : AclCopy :=
  { a with mode := MfsMaster.withSgid a.mode x }

theorem inherit_withSgid (acn pacn : AclNode) (m x : UInt16) :
    acn.inherit pacn (withSgid m x) = acn.inherit pacn m := by
  unfold AclNode.inherit
  obtain ⟨huser, hmask, hother⟩ := withSgid_perms m x
  rw [huser, hmask, hother]

/-- The default list looks at the nine permission bits and leaves the others alone. -/
theorem copyAccess_withSgid (acls : Acls) (i : Nat) (pacn : AclNode) (m x : UInt16) :
    copyAccess acls i pacn (withSgid m x) = (copyAccess acls i pacn m).withSgid x := by
  unfold copyAccess AclCopy.withSgid
  split
  · rw [withSgid_and_perms]
  · dsimp only
    rw [inherit_withSgid, withSgid_or_perms]

theorem posixAclCopydefaults_withSgid (acls : Acls) (parent i : Nat) (dir : Bool) (m x : UInt16) :
    posixAclCopydefaults acls parent i dir (withSgid m x)
      = (posixAclCopydefaults acls parent i dir m).withSgid x := by
  unfold posixAclCopydefaults
  split
  · rfl
  dsimp only
  rw [copyAccess_withSgid]
  split <;> rfl

variable {acl : Option AclCopy} {n p wd : FsNode} {parent : Nat} {s : Master}

namespace Master

variable {mode cumask : UInt16} {uid gid i : Nat} {type : NodeType} {copysgid : Bool} {name : Name}
  {rdev : UInt32}

theorem newAcl_withSgid (s : Master) (parent i : Nat) (wd : FsNode) (type : NodeType)
    (m x : UInt16) :
    s.newAcl parent i wd type (withSgid m x)
      = (s.newAcl parent i wd type m).map fun a => a.withSgid x := by
  unfold newAcl
  split
  · rw [posixAclCopydefaults_withSgid, Option.map_some]
  · rfl

/-! ## §3. The new node. -/

/-- The set-gid bit that a directory passes on. -/
def passedSgid (wd : FsNode) (type : NodeType) (copysgid : Bool) : UInt16 :=
  if sgidDir wd ∧ copysgid ∧ type = .directory then 0o2000 else 0

theorem passedSgid_cases (wd : FsNode) (type : NodeType) (copysgid : Bool) :
    passedSgid wd type copysgid = 0 ∨ passedSgid wd type copysgid = 0o2000 := by
  unfold passedSgid
  split
  · exact .inr rfl
  · exact .inl rfl

theorem newNode_mode :
    (newNode wd ts type mode cumask uid gid copysgid acl).mode
      = (((acl.map AclCopy.mode).getD (mode &&& ~~~cumask)) ||| passedSgid wd type copysgid)
        &&& 0xFFF := by
  unfold newNode passedSgid
  dsimp only
  cases acl <;> split <;> simp

theorem newNode_eattr {b : Bool} :
    eattrAfter b (newNode wd ts type mode cumask uid gid cs acl)
      = (newNode wd ts type mode cumask uid gid cs acl).eattr := by
  cases b
  · rfl
  unfold eattrAfter newNode
  dsimp only
  rw [if_pos rfl]
  refine UInt8.eq_of_toBitVec_eq (BitVec.eq_of_getLsbD_eq ?_)
  intro i hi
  split <;> interval_cases i <;> simp [eattrSnapshot, eattrUndeletable, eattrAppendonly,
    eattrImmutable, eattrNoecache]

/-- The mode of the node a record makes on a replica is the mode of the leader's node, unless
the directory passed on a set-gid bit that `cumask` takes away. -/
theorem newNode_mode_logged (gid' : Nat)
    (hp : p.mode = (newNode wd ts type mode cumask uid gid copysgid
      (s.newAcl parent i wd type mode)).mode) :
    (newNode wd ts type (chlogmode type mode copysgid p) cumask uid gid' false
        (s.newAcl parent i wd type (chlogmode type mode copysgid p))).mode = p.mode
      ↔ ¬ (copysgid = true ∧ type = .directory ∧ sgidDir wd = true ∧ wd.acldefflag = false
        ∧ cumask &&& 0x0400 ≠ 0) := by
  have hpass : passedSgid wd type false = 0 := by
    unfold passedSgid
    simp
  rw [hp, newNode_mode, newNode_mode, hpass, UInt16.or_zero]
  by_cases hcs : copysgid = true ∧ type = .directory
  · have hlog : chlogmode type mode copysgid p = withSgid mode p.mode := by
      unfold chlogmode
      rw [if_pos hcs]
      rfl
    rw [hlog, newAcl_withSgid, hp, newNode_mode]
    obtain ⟨rfl, rfl⟩ := hcs
    have hinh := passedSgid_cases wd .directory true
    by_cases hacl : wd.acldefflag = true
    · -- a default list: `cumask` is not looked at on either side
      have hsome : s.newAcl parent i wd .directory mode
          = some (posixAclCopydefaults s.acls parent i true mode) := if_pos hacl
      rw [hsome]
      refine iff_of_true ?_ (by simp [hacl])
      exact withSgid_self hinh
    · have hnone : s.newAcl parent i wd .directory mode = none := if_neg hacl
      rw [hnone]
      refine (withSgid_cumask hinh).trans ?_
      have hsgid : passedSgid wd .directory true = 0o2000 ↔ sgidDir wd = true := by
        unfold passedSgid
        by_cases hsg : sgidDir wd = true <;> simp [hsg]
      rw [hsgid]
      simp [hacl]
  · have hlog : chlogmode type mode copysgid p = mode := if_neg hcs
    have hinh : passedSgid wd type copysgid = 0 := by
      unfold passedSgid
      rw [if_neg]
      exact fun h => hcs h.2
    rw [hlog, hinh, UInt16.or_zero]
    refine iff_of_true rfl ?_
    exact fun h => hcs ⟨h.1, h.2.1⟩

/-! ## §4. Forces on a node. -/

/-- Two patterns do the same to a node: class, retention and `eattr`. -/
def ForcesAgree (a b : Forced) (n : FsNode) : Prop :=
  a.classOf n = b.classOf n ∧ (a.onNode n).trashretention = (b.onNode n).trashretention
    ∧ (a.onNode n).eattr = (b.onNode n).eattr

instance (a b : Forced) (n : FsNode) : Decidable (ForcesAgree a b n) :=
  inferInstanceAs (Decidable (_ ∧ _ ∧ _))

/-- What patterns look at in a node. -/
structure SameForced (n p : FsNode) : Prop where
  type : p.type = n.type
  sclassid : p.sclassid = n.sclassid
  trashretention : p.trashretention = n.trashretention
  eattr : p.eattr = n.eattr

theorem SameForced.congr (h : SameForced n p) (fc : Forced) : fc.classOf p = fc.classOf n
    ∧ (fc.onNode p).trashretention = (fc.onNode n).trashretention
    ∧ (fc.onNode p).eattr = (fc.onNode n).eattr := by
  obtain ⟨htype, hclass, htrash, heattr⟩ := h
  unfold Forced.classOf Forced.onNode
  rw [htype, hclass]
  split <;> split <;> simp [htype, htrash, heattr]

theorem ForcesAgree.congr (h : SameForced n p) (a b : Forced) :
    ForcesAgree a b p ↔ ForcesAgree a b n := by
  obtain ⟨hclass, htrash, heattr⟩ := h.congr a
  obtain ⟨hclass', htrash', heattr'⟩ := h.congr b
  unfold ForcesAgree
  rw [hclass, htrash, heattr, hclass', htrash', heattr']

/-- A pattern changes class, retention and `eattr`, nothing else one sees. -/
theorem nodeView_onNew {fc : Forced} :
    nodeView (fc.onNew n) = (n.type, n.mode, n.uid, n.gid, n.ctime, n.mtime, n.atime,
      fc.classOf n, (fc.onNode n).trashretention, (fc.onNode n).eattr) := by
  unfold nodeView Forced.onNew Forced.onNode
  split <;> split <;> rfl

/-- Two patterns show the same on a node when they agree on it. -/
theorem nodeView_onNew_eq_iff {a b : Forced} :
    nodeView (a.onNew n) = nodeView (b.onNew n) ↔ ForcesAgree a b n := by
  rw [nodeView_onNew, nodeView_onNew]
  simp only [Prod.mk.injEq, true_and]
  rfl

/-! ## §5. `fsnodes_create_node`. -/

/-- What the rest of a creation leaves alone in the node it made. -/
structure AsMade (n p : FsNode) : Prop where
  mode : p.mode = n.mode
  uid : p.uid = n.uid
  gid : p.gid = n.gid
  forced : SameForced n p

theorem fsnodesCreateNode_inode (hwd : s.nodes parent = some wd) (ts : UInt32) (name : Name)
    (type : NodeType) (mode cumask : UInt16) (uid gid : Nat) (copysgid : Bool) :
    (s.fsnodesCreateNode ts parent name type mode cumask uid gid copysgid).1
      = s.pool.fsnodesGetNextId.1 := by
  unfold fsnodesCreateNode
  rw [hwd]

theorem fsnodesCreateNode_node (hwd : s.nodes parent = some wd) :
    ∃ p, (s.fsnodesCreateNode ts parent name type mode cumask uid gid copysgid).2.nodes
        s.pool.fsnodesGetNextId.1 = some p
      ∧ AsMade (newNode wd ts type mode cumask uid gid copysgid
        (s.newAcl parent s.pool.fsnodesGetNextId.1 wd type mode)) p := by
  unfold fsnodesCreateNode
  rw [hwd]
  dsimp only
  generalize hr : s.pool.fsnodesGetNextId = r
  generalize hacl : s.newAcl parent r.1 wd type mode = acl
  set n := newNode wd ts type mode cumask uid gid copysgid acl with hn
  have hadd : (s.addNode r n ((acl.map AclCopy.acls).getD s.acls)).nodes r.1 = some n := if_pos rfl
  obtain ⟨p, hp, hkept⟩ := (nodesKept_fsnodesLink r.1).some hadd
  refine ⟨setAclflags acl p, ?_, ?_⟩
  · show (if r.1 = r.1 then _ else _) = _
    rw [if_pos rfl, hp, Option.map_some]
  have heattr : p.eattr = n.eattr := by
    rw [hkept.eattr, hn, newNode_eattr]
  exact ⟨hkept.mode, hkept.uid, hkept.gid,
    ⟨hkept.type, hkept.sclassid, hkept.trashretention, heattr⟩⟩

/-! ## §6. CREATE on both sides. -/

/-- The group `fsnodes_create_node` gives to a node made by a caller in a directory. -/
def groupIn (wd : FsNode) (c : Cred) : Nat :=
  if sgidDir wd then wd.gid else c.gid

/-- A node of the given type as a caller makes it in a directory, before the patterns. -/
def plainNode (wd : FsNode) (type : NodeType) (c : Cred) : FsNode :=
  newNode wd 0 type 0 0 c.uid c.gid false none

/-- The CREATE record says all that matters: the pattern found for the caller and the one
found for its uid with the node's group alone do the same to the new node, and the set-gid
bit a directory passes on is not one that `cumask` takes away. -/
def CreateIrrelevant (s : Master) (wd : FsNode) (name : Name) (type : NodeType)
    (cumask : UInt16) (c : Cred) (copysgid : Bool) : Prop :=
  ForcesAgree (patternsFindMatching s.patterns c name)
      (patternsFindMatching s.patterns ⟨c.uid, [groupIn wd c]⟩ name) (plainNode wd type c)
    ∧ ¬ (copysgid = true ∧ type = .directory ∧ sgidDir wd = true ∧ wd.acldefflag = false
      ∧ cumask &&& 0x0400 ≠ 0)

instance (s : Master) (wd : FsNode) (name : Name) (type : NodeType) (cumask : UInt16) (c : Cred)
    (copysgid : Bool) : Decidable (s.CreateIrrelevant wd name type cumask c copysgid) :=
  inferInstanceAs (Decidable (_ ∧ _))

/-- To the patterns all nodes of one type made in one directory are the same. -/
theorem AsMade.sameForced_plainNode
    (h : AsMade (newNode wd ts type mode cumask uid gid copysgid acl) p)
    (c : Cred) : SameForced (plainNode wd type c) p :=
  ⟨h.forced.type, h.forced.sclassid, h.forced.trashretention, h.forced.eattr⟩

/-- The logged group does no harm: the new nodes differ at most in their mode. -/
theorem newNode_logged (hmode : (newNode wd ts type mode cumask c.uid c.gid cs acl).mode
      = (newNode wd ts type mode' cumask c.uid (groupIn wd c) cs' acl').mode) :
    newNode wd ts type mode cumask c.uid c.gid cs acl
      = newNode wd ts type mode' cumask c.uid (groupIn wd c) cs' acl' := by
  unfold newNode groupIn at hmode ⊢
  dsimp only at hmode ⊢
  rw [hmode]
  split <;> rfl

/-- The new node after the patterns, seen from outside. -/
theorem createBody_node (hwd : s.nodes parent = some wd) :
    ∃ n p, AsMade (newNode wd ts type mode cumask c.uid c.gid copysgid
          (s.newAcl parent s.pool.fsnodesGetNextId.1 wd type mode)) n
      ∧ (s.createBody ts parent name type mode cumask c rdev copysgid).2.nodes
        s.pool.fsnodesGetNextId.1 = some p
      ∧ nodeView p = nodeView ((patternsFindMatching s.patterns c name).onNew n) := by
  obtain ⟨n, hn, hmade⟩ := fsnodesCreateNode_node hwd
  have hinode := fsnodesCreateNode_inode hwd ts name type mode cumask c.uid c.gid copysgid
  refine ⟨n, setRdev type rdev ((patternsFindMatching s.patterns c name).onNew n), hmade, ?_, ?_⟩
  · unfold createBody
    dsimp only
    rw [hinode]
    show (if _ = _ then Option.map _ (if _ = _ then _ else _) else _) = _
    rw [if_pos rfl, if_pos rfl, hn, Option.map_some, Option.map_some]
  · unfold setRdev
    split <;> rfl

/-- The logged mode gives the new node the same lists. -/
theorem newAcl_logged (s : Master) (parent i : Nat) (wd : FsNode) (type : NodeType)
    (mode : UInt16) (copysgid : Bool) (p : FsNode) :
    (s.newAcl parent i wd type (chlogmode type mode copysgid p)).map AclCopy.acls
        = (s.newAcl parent i wd type mode).map AclCopy.acls
      ∧ setAclflags (s.newAcl parent i wd type (chlogmode type mode copysgid p))
        = setAclflags (s.newAcl parent i wd type mode) := by
  unfold chlogmode
  split
  · have h := s.newAcl_withSgid parent i wd type mode p.mode
    unfold withSgid at h
    rw [h]
    cases s.newAcl parent i wd type mode with
    | none | some => exact ⟨rfl, rfl⟩
  · exact ⟨rfl, rfl⟩

/-- After equal creations, what the patterns do to the new node decides. -/
theorem sameNamespace_forced (hn : s.nodes i = some n) {a b : Forced} (h : ForcesAgree a b n) :
    SameNamespace ((s.modNode i a.onNew).modNode i (setRdev type rdev))
      ((s.modNode i b.onNew).modNode i (setRdev type rdev)) := by
  have hview : ∀ p, nodeView (setRdev type rdev p) = nodeView p := by
    intro p
    unfold setRdev
    split <;> rfl
  refine ⟨rfl, ?_⟩
  intro j
  unfold modNode
  by_cases hj : j = i
  · subst hj
    simp only [if_pos, hn, Option.map_some, hview]
    rw [nodeView_onNew_eq_iff.mpr h]
  · simp only [if_neg hj]

/-- Running the logged creation gives the leader's namespace exactly when the record says all
that matters. -/
theorem createBody_replays_iff {d : Nat} (hwd : s.nodes d = some wd)
    (hp : (s.createBody ts d name type mode cumask c rdev copysgid).2.nodes
      s.pool.fsnodesGetNextId.1 = some p) :
    SameNamespace (s.createBody ts d name type mode cumask c rdev copysgid).2
        (s.createBody ts d name type (chlogmode type mode copysgid p) cumask ⟨p.uid, [p.gid]⟩
          rdev false).2
      ↔ s.CreateIrrelevant wd name type cumask c copysgid := by
  obtain ⟨n, p', hn, hp', hview⟩ := createBody_node hwd
  cases hp.symm.trans hp'
  rw [nodeView_onNew] at hview
  simp only [nodeView, Prod.mk.injEq] at hview
  obtain ⟨_, hpmode, hpuid, hpgid, _, _, _, hpclass, hpret, hpeattr⟩ := hview
  have huid : p.uid = c.uid := hpuid.trans hn.uid
  have hgid : p.gid = groupIn wd c := hpgid.trans hn.gid
  have hmode := newNode_mode_logged (groupIn wd c) (hpmode.trans hn.mode)
  rw [huid, hgid]
  have hforced := hn.sameForced_plainNode c
  constructor
  · -- the new node shows both sources of difference
    intro h
    obtain ⟨m, q, hm, hq, hqview⟩ := createBody_node hwd
    have hi := h.2 s.pool.fsnodesGetNextId.1
    rw [hp, hq, Option.map_some, Option.map_some, Option.some_inj, hqview, nodeView_onNew] at hi
    simp only [nodeView, Prod.mk.injEq] at hi
    obtain ⟨_, himode, _, _, _, _, _, hiclass, hiret, hieattr⟩ := hi
    obtain ⟨hclass, hret, heattr⟩ := hforced.congr (patternsFindMatching s.patterns c name)
    obtain ⟨hclass', hret', heattr'⟩ := (hm.sameForced_plainNode c).congr
      (patternsFindMatching s.patterns ⟨c.uid, [groupIn wd c]⟩ name)
    refine ⟨⟨?_, ?_, ?_⟩, hmode.mp (hm.mode.symm.trans himode)⟩
    · rw [← hclass, ← hclass', ← hpclass, hiclass]
    · rw [← hret, ← hret', ← hpret, hiret]
    · rw [← heattr, ← heattr', ← hpeattr, hieattr]
  · intro h
    have hacl := s.newAcl_logged d s.pool.fsnodesGetNextId.1 wd type mode copysgid p
    have hnode := newNode_logged ((hpmode.trans hn.mode).symm.trans (hmode.mpr h.2).symm)
    have hcreate : s.fsnodesCreateNode ts d name type mode cumask c.uid c.gid copysgid
        = s.fsnodesCreateNode ts d name type (chlogmode type mode copysgid p) cumask c.uid
          (groupIn wd c) false := by
      unfold fsnodesCreateNode
      rw [hwd]
      dsimp only
      rw [hnode, hacl.1, hacl.2]
    obtain ⟨k, hk, hkmade⟩ := fsnodesCreateNode_node hwd
    have hinode := fsnodesCreateNode_inode hwd ts name type mode cumask c.uid c.gid copysgid
    unfold createBody
    dsimp only
    rw [show Cred.gid ⟨c.uid, [groupIn wd c]⟩ = groupIn wd c from rfl, ← hcreate, hinode]
    exact sameNamespace_forced hk ((ForcesAgree.congr (hkmade.sameForced_plainNode c) _ _).mpr h.1)

end Master

end MfsMaster
