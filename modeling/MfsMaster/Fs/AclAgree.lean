/-
  MfsMaster.Fs.AclAgree
  **MODES AND ACCESS LISTS OF NODES.**

  Whether a node has lists is kept twice: in the flags of the node and in the store of lists;
  and so are its permissions, in the mode of the node and in its access list.  `AclsOk s₀ s`
  is what an operation that began in `s₀` keeps of this at every point `s` of its way:

      agree   — flags and lists say the same, for the permissions too; an inode without a node
                has no list
      pool    — inodes that were or are in use are not given out
      lists   — an access list that was there is the one it was, or gone

  What creating, linking and unlinking do to it:

      AclsOk.same                 — changes that leave flags, modes and lists alone
      AclsOk.fsnodesUnlink        — a name is taken away
      AclsOk.fsnodesCreateNode    — a new node, with what it inherits from its directory
-/
import MfsMaster.Fs.EdgeChange
import MfsMaster.Lib.Bits

namespace MfsMaster

/-! ## §1. What must agree. -/

/-- The permission bits of `mode` are the permissions of the list. -/
def AclNode.ModeAgrees (acn : AclNode) (mode : UInt16) : Prop :=
  mode &&& 0o777 = ((acn.userperm &&& (7 : UInt16)) <<< (6 : UInt16))
    ||| ((acn.groupperm &&& (7 : UInt16)) <<< (3 : UInt16)) ||| (acn.otherperm &&& (7 : UInt16))

instance (acn : AclNode) (mode : UInt16) : Decidable (acn.ModeAgrees mode) :=
  inferInstanceAs (Decidable (_ = _))

variable {acn : AclNode} {mode : UInt16} {ds : List Nat} {i : Nat} {s s₀ : Master} {t : Master}
  {ts : UInt32}

theorem AclNode.ModeAgrees.congr {mode' : UInt16} (h : acn.ModeAgrees mode)
    (hbits : mode' &&& 0o777 = mode &&& 0o777) : acn.ModeAgrees mode' :=
  hbits.trans h

theorem AclNode.ModeAgrees.congr_list {acn' : AclNode} (h : acn.ModeAgrees mode)
    (huser : acn'.userperm &&& 7 = acn.userperm &&& 7)
    (hgroup : acn'.groupperm &&& 7 = acn.groupperm &&& 7)
    (hother : acn'.otherperm &&& 7 = acn.otherperm &&& 7) : acn'.ModeAgrees mode := by
  unfold ModeAgrees
  rw [huser, hgroup, hother]
  exact h

/-- The flags and the mode of a node. -/
def FsNode.aclBits (n : FsNode) : Bool × Bool × UInt16 := (n.aclpermflag, n.acldefflag, n.mode)

/-- Everything kept about the permissions of one inode. -/
structure AclView where
  node : Option (Bool × Bool × UInt16)
  access : Option AclNode
  default : Option AclNode

/-- Flags and lists say the same, and an access list has the permissions of the mode. -/
structure AclView.Agrees (v : AclView) : Prop where
  access : v.access.isSome = (v.node.map Prod.fst).getD false
  default : v.default.isSome = (v.node.map fun b => b.2.1).getD false
  mode : ∀ acn b, v.access = some acn → v.node = some b → acn.ModeAgrees b.2.2

namespace Master

def aclView (s : Master) (i : Nat) : AclView :=
  { node := (s.nodes i).map FsNode.aclBits, access := s.acls.access i
    default := s.acls.default i }

/-- What an operation that began in `s₀` keeps. -/
structure AclsOk (s₀ s : Master) : Prop where
  agree : ∀ i, (s.aclView i).Agrees
  pool : s.pool.Covers fun i => (s₀.nodes i).isSome = true ∨ (s.nodes i).isSome = true
  lists : ∀ i, (s₀.nodes i).isSome = true →
    s.acls.access i = s₀.acls.access i ∨ s.acls.access i = none

theorem isSome_node_view (s : Master) (i : Nat) :
    (s.nodes i).isSome = (s.aclView i).node.isSome := by
  unfold aclView
  rw [Option.isSome_map]

/-- At its beginning an operation only needs the state to be in order. -/
theorem AclsOk.start (h : AclsOk s₀ s) : AclsOk s s where
  agree := h.agree
  pool := h.pool.mono fun _ hi => .inr (hi.elim id id)
  lists := fun _ _ => .inl rfl

/-- An inode without a node has no lists. -/
theorem AclsOk.no_lists (h : AclsOk s₀ s) (hi : s.nodes i = none) :
    s.acls.access i = none ∧ s.acls.default i = none := by
  obtain ⟨hacc, hdef, _⟩ := h.agree i
  simp only [aclView, hi, Option.map_none, Option.getD_none, Option.isSome_eq_false_iff,
    Option.isNone_iff_eq_none] at hacc hdef
  exact ⟨hacc, hdef⟩

/-- What the flags and the mode of a node say of its lists. -/
theorem AclsOk.node {n : FsNode} (h : AclsOk s₀ s) (hn : s.nodes i = some n) :
    (s.acls.access i).isSome = n.aclpermflag ∧ (s.acls.default i).isSome = n.acldefflag
      ∧ ∀ acn, s.acls.access i = some acn → acn.ModeAgrees n.mode := by
  obtain ⟨hacc, hdef, hmode⟩ := h.agree i
  simp only [aclView, hn, Option.map_some, Option.getD_some, FsNode.aclBits] at hacc hdef hmode
  exact ⟨hacc, hdef, fun acn hacn => hmode acn _ hacn rfl⟩

/-- The state of one inode may change, as long as it agrees afterwards. -/
theorem AclsOk.change (h : AclsOk s₀ s) (i : Nat)
    (hother : ∀ j, j ≠ i → t.aclView j = s.aclView j) (hself : (t.aclView i).Agrees)
    (hpool : t.pool.Covers fun j => (s₀.nodes j).isSome = true ∨ (t.nodes j).isSome = true)
    (hlists : (s₀.nodes i).isSome = true →
      t.acls.access i = s.acls.access i ∨ t.acls.access i = Option.none) : AclsOk s₀ t where
  agree := by
    intro j
    by_cases hj : j = i
    · exact hj ▸ hself
    · exact hother j hj ▸ h.agree j
  pool := hpool
  lists := by
    intro j h₀
    by_cases hj : j = i
    · subst hj
      rcases hlists h₀ with heq | hnone
      · rw [heq]
        exact h.lists j h₀
      · exact .inr hnone
    · have hacc : t.acls.access j = s.acls.access j := congrArg AclView.access (hother j hj)
      rw [hacc]
      exact h.lists j h₀

/-! ## §2. Changes that leave it alone. -/

/-- Flags, modes, lists and free inodes are the same. -/
structure SameAcls (s t : Master) : Prop where
  view : ∀ i, t.aclView i = s.aclView i
  pool : t.pool = s.pool

theorem SameAcls.refl : SameAcls s s := ⟨fun _ => rfl, rfl⟩

theorem SameAcls.trans {u : Master} (h : SameAcls s t) (h' : SameAcls t u) : SameAcls s u :=
  ⟨fun i => (h'.view i).trans (h.view i), h'.pool.trans h.pool⟩

theorem SameAcls.of_eq (hnodes : t.nodes = s.nodes) (hacls : t.acls = s.acls)
    (hpool : t.pool = s.pool) : SameAcls s t := by
  refine ⟨fun i => ?_, hpool⟩
  unfold aclView
  rw [hnodes, hacls]

theorem aclView_of_keptAt (h : KeptAt ds s t i)
    (hacls : t.acls = s.acls) : t.aclView i = s.aclView i := by
  unfold aclView
  rw [hacls, h.map fun n n' hk => ?_]
  unfold FsNode.aclBits
  rw [hk.aclpermflag, hk.acldefflag, hk.mode]

theorem DataOnly.acls (h : DataOnly s t) : t.acls = s.acls := by
  obtain ⟨_, _, _, _, rfl⟩ := h
  rfl

/-- Counters, times and marks are no part of it. -/
theorem Touched.sameAcls (h : Touched ds s t) : SameAcls s t :=
  ⟨fun i => aclView_of_keptAt (h.kept i) h.only.acls, h.only.pool⟩

theorem sameAcls_modNode {f : FsNode → FsNode} (hf : ∀ n, (f n).aclBits = n.aclBits) :
    SameAcls s (s.modNode i f) := by
  refine ⟨fun j => ?_, rfl⟩
  unfold aclView
  rw [modNode_nodes]
  split
  · rw [Option.map_map]
    exact congrArg (AclView.mk · _ _) (Option.map_congr fun n _ => hf n)
  · rfl

theorem sameAcls_fsnodesRemoveEdge (s : Master) (ts : UInt32) (e : FsEdge) :
    SameAcls s (s.fsnodesRemoveEdge ts e) :=
  SameAcls.trans (t := s.eraseEdge e) (.of_eq rfl rfl rfl)
    (touched_fsnodesRemoveEdge s ts).sameAcls

theorem sameAcls_fsnodesLink (s : Master) (ts : UInt32) (parent child : Nat) (name : Name) :
    SameAcls s (s.fsnodesLink ts parent child name) :=
  SameAcls.trans (t := s.addEdge ⟨some parent, name, child⟩) (.of_eq rfl rfl rfl)
    (touched_fsnodesLink s ts).sameAcls

theorem AclsOk.same (h : AclsOk s₀ s) (hsame : SameAcls s t) : AclsOk s₀ t where
  agree := fun i => hsame.view i ▸ h.agree i
  pool := by
    rw [hsame.pool]
    refine h.pool.mono fun i hi => ?_
    rwa [isSome_node_view t, hsame.view, ← isSome_node_view] at hi
  lists := by
    intro i h₀
    have hacc : t.acls.access i = s.acls.access i := congrArg AclView.access (hsame.view i)
    rw [hacc]
    exact h.lists i h₀

/-! ## §3. Removal. -/

theorem agrees_of_none (hnode : t.nodes i = none) (hacc : t.acls.access i = none)
    (hdef : t.acls.default i = none) : (t.aclView i).Agrees := by
  unfold aclView
  rw [hnode, hacc, hdef]
  exact ⟨rfl, rfl, fun _ _ h => nomatch h⟩

theorem AclsOk.fsnodesRemoveNode (h : AclsOk s₀ s) : AclsOk s₀ (s.fsnodesRemoveNode ts i) := by
  unfold Master.fsnodesRemoveNode
  cases hn : s.nodes i with
  | none => exact h
  | some n =>
    dsimp only
    split
    · generalize hdel : (if n.type.hasData = true then s.deleteFiles n.sclassid n.chunktab
        else s) = t
      have hsame : SameAcls s t := by
        rw [← hdel]
        split
        · have hd := dataOnly_deleteFiles s n.sclassid n.chunktab
          exact .of_eq (deleteFiles_nodes s n.sclassid n.chunktab) hd.acls hd.pool
        · exact .refl
      have ht := h.same hsame
      -- the flags of the node say which lists there are to remove
      obtain ⟨hacc, hdef, _⟩ := h.node hn
      have hview := hsame.view i
      simp only [aclView, AclView.mk.injEq] at hview
      rw [← hview.2.1] at hacc
      rw [← hview.2.2] at hdef
      have hgone : ∀ {flag : Bool} {acn : Option AclNode}, acn.isSome = flag →
          (if i = i ∧ flag = true then none else acn) = none := by
        intro flag acn hflag
        cases acn with
        | none => exact ite_self none
        | some acn => exact if_pos ⟨rfl, hflag.symm⟩
      refine ht.change i (fun j hj => ?_)
        (agrees_of_none (if_pos rfl) (hgone hacc) (hgone hdef)) ?_ fun _ => .inr (hgone hacc)
      · simp [aclView, posixAclRemove, hj]
      · refine (ht.pool.freeId i ts).mono fun j hj => hj.imp_right fun hj => ?_
        dsimp only at hj
        split at hj
        · cases hj
        · exact hj
    · exact h

theorem view_fsnodesRemoveNode {j : Nat} :
    (s.fsnodesRemoveNode ts i).aclView j = s.aclView j
      ∨ (s.fsnodesRemoveNode ts i).nodes j = none := by
  unfold Master.fsnodesRemoveNode
  split
  · exact .inl rfl
  next n hn =>
  split
  · by_cases hj : j = i
    · exact .inr (if_pos hj)
    left
    split
    · have hd := dataOnly_deleteFiles s n.sclassid n.chunktab
      simp [aclView, posixAclRemove, hj, hd.acls, deleteFiles_nodes]
    · simp [aclView, posixAclRemove, hj]
  · exact .inl rfl

/-- An unlink leaves the lists alone, until it removes the node. -/
theorem unlink_sameAcls {e : FsEdge} : SameAcls s (s.fsnodesUnlink ts e)
      ∨ ∃ t, SameAcls s t ∧ s.fsnodesUnlink ts e = t.fsnodesRemoveNode ts e.child := by
  have h1 := sameAcls_fsnodesRemoveEdge s ts e
  have htype : ∀ (t : Master) (type : NodeType), SameAcls t (t.modNode e.child (.setType type)) :=
    fun t type => sameAcls_modNode fun _ => rfl
  unfold Master.fsnodesUnlink
  dsimp only
  split
  · split
    · exact .inl (h1.trans
        (((htype _ _).trans touched_touchCtime.sameAcls).trans (.of_eq rfl rfl rfl)))
    · exact .inl (h1.trans ((htype _ _).trans (.of_eq rfl rfl rfl)))
    · exact .inr ⟨_, h1, rfl⟩
  · exact .inl h1

theorem AclsOk.fsnodesUnlink (h : AclsOk s₀ s) (ts : UInt32) (e : FsEdge) :
    AclsOk s₀ (s.fsnodesUnlink ts e) := by
  rcases unlink_sameAcls with hsame | ⟨t, hsame, heq⟩
  · exact h.same hsame
  · rw [heq]
    exact (h.same hsame).fsnodesRemoveNode

/-- The other inodes are as they were, and so is the one that lost a name, unless it is gone. -/
theorem view_fsnodesUnlink {e : FsEdge} {j : Nat} :
    (s.fsnodesUnlink ts e).aclView j = s.aclView j ∨ (s.fsnodesUnlink ts e).nodes j = none := by
  rcases unlink_sameAcls with hsame | ⟨t, hsame, heq⟩
  · exact .inl (hsame.view j)
  · rw [heq]
    exact view_fsnodesRemoveNode.imp_left fun h => h.trans (hsame.view j)

/-! ## §4. New nodes. -/

/-- The access list a node made in `parent` with `mode` inherits. -/
def inherited (s : Master) (parent : Nat) (mode : UInt16) : Option AclNode :=
  match (s.aclView parent).node, (s.aclView parent).default with
  | some b, some pacn =>
    if b.2.1 = true ∧ pacn.simple = false then some (AclNode.empty.inherit pacn mode) else none
  | _, _ => none

theorem inherited_congr {parent : Nat} (h : t.aclView parent = s.aclView parent)
    (mode : UInt16) : t.inherited parent mode = s.inherited parent mode := by
  unfold inherited
  rw [h]

/-- The mode of a node that inherits a list is made of the permissions of the list. -/
theorem modeAgrees_of_list (acn : AclNode) (mode : UInt16) :
    acn.ModeAgrees ((mode &&& (0xFE00 : UInt16))
      ||| ((acn.userperm &&& (7 : UInt16)) <<< (6 : UInt16))
      ||| ((acn.groupperm &&& (7 : UInt16)) <<< (3 : UInt16))
      ||| (acn.otherperm &&& (7 : UInt16))) := by
  refine Lib.eq_of_bits fun i hi => ?_
  interval_cases i <;> simp [UInt16.toBitVec_shiftLeft]

/-- Neither the set-gid bit nor the width of the field changes the permission bits. -/
theorem newNode_mode_low {node : FsNode} (ts : UInt32) {type : NodeType} (mode cumask : UInt16)
    (uid gid : Nat) {copysgid : Bool} {a : AclCopy} :
    (newNode node ts type mode cumask uid gid copysgid (some a)).mode &&& 0o777
      = a.mode &&& 0o777 := by
  unfold newNode
  dsimp only
  split
  · refine Lib.eq_of_bits fun i hi => ?_
    interval_cases i <;> simp
  · rw [UInt16.and_assoc]
    rfl

section Create

variable {s₀ s : Master} {parent : Nat} {wd : FsNode}

/-- What the default list of the directory leaves for a new inode. -/
theorem newAcl_view (h : AclsOk s₀ s) (hwd : s.nodes parent = some wd) (hi : s.nodes i = none)
    {type : NodeType} {a : AclCopy} (ha : s.newAcl parent i wd type mode = some a) :
    a.acls.access i = s.inherited parent mode
      ∧ (a.acls.access i).isSome = a.aclperm ∧ (a.acls.default i).isSome = a.acldef
      ∧ (∀ acn, a.acls.access i = some acn → acn.ModeAgrees a.mode)
      ∧ ∀ j, j ≠ i → a.acls.access j = s.acls.access j ∧ a.acls.default j = s.acls.default j := by
  obtain ⟨hnoacc, hnodef⟩ := h.no_lists hi
  unfold newAcl at ha
  split at ha
  next hflag =>
    cases ha
    unfold posixAclCopydefaults inherited aclView
    rw [hwd]
    cases hdef : s.acls.default parent with
    | none =>
      simp [hnoacc, hnodef]
    | some pacn =>
      unfold copyAccess
      by_cases hsimple : pacn.simple = true
      · by_cases hdir : type = .directory <;>
          simp +contextual [hsimple, hdir, hnoacc, hnodef]
      have hsimple' : pacn.simple = false := by simpa using hsimple
      have hmode := modeAgrees_of_list (AclNode.empty.inherit pacn mode) mode
      by_cases hdir : type = .directory <;>
        simp +contextual [hsimple', hdir, hnoacc, hnodef, hflag, hmode, FsNode.aclBits]
  · cases ha

/-- The lists once a node is made: the new inode has what it inherits, the others have theirs. -/
theorem newLists (h : AclsOk s₀ s) (hwd : s.nodes parent = some wd)
    (hi : s.nodes i = none) {type : NodeType} {cumask : UInt16} {uid gid : Nat}
    {copysgid : Bool} {acl : Option AclCopy} (hacl : s.newAcl parent i wd type mode = acl)
    {acls : Acls} (hacls : (acl.map AclCopy.acls).getD s.acls = acls) :
    acls.access i = s.inherited parent mode
      ∧ AclView.Agrees ⟨some ((acl.map AclCopy.aclperm).getD false,
          (acl.map AclCopy.acldef).getD false,
          (newNode wd ts type mode cumask uid gid copysgid acl).mode),
        acls.access i, acls.default i⟩
      ∧ ∀ j, j ≠ i → acls.access j = s.acls.access j ∧ acls.default j = s.acls.default j := by
  cases acl with
  | none =>
    -- the directory has no default list
    obtain ⟨hnoacc, hnodef⟩ := h.no_lists hi
    have hflag : wd.acldefflag = false := by
      unfold newAcl at hacl
      split at hacl
      · cases hacl
      next hflag => simpa using hflag
    have hnone : s.inherited parent mode = none := by
      unfold inherited aclView
      rw [hwd]
      cases s.acls.default parent <;> simp [hflag, FsNode.aclBits]
    cases hacls
    refine ⟨hnoacc.trans hnone.symm, ⟨?_, ?_, ?_⟩, fun _ _ => ⟨rfl, rfl⟩⟩
    · exact congrArg Option.isSome hnoacc
    · exact congrArg Option.isSome hnodef
    · intro acn _ hacn
      exact absurd (hnoacc.symm.trans hacn) (by simp)
  | some a =>
    obtain ⟨hinh, hacc, hdef, hmode, hother⟩ := newAcl_view h hwd hi hacl
    cases hacls
    refine ⟨hinh, ⟨hacc, hdef, ?_⟩, hother⟩
    intro acn b hacn hb
    cases hb
    exact (hmode acn hacn).congr (newNode_mode_low ts mode cumask uid gid)

/-- What `fsnodes_create_node` made: `i` is a new inode, with the list it inherits; the other
inodes are as they were. -/
structure Made (s₀ s : Master) (acn : Option AclNode) (i : Nat) (t : Master) : Prop where
  ok : AclsOk s₀ t
  fresh : s.nodes i = none
  unused : (s₀.nodes i).isSome = false
  found : (t.nodes i).isSome = true
  access : t.acls.access i = acn
  other : ∀ j, j ≠ i → t.aclView j = s.aclView j

/-- **A new node** is in order. -/
theorem AclsOk.fsnodesCreateNode (h : AclsOk s₀ s) (hwd : s.nodes parent = some wd) (ts : UInt32)
    (name : Name) (type : NodeType) (mode cumask : UInt16) (uid gid : Nat) (copysgid : Bool) :
    Made s₀ s (s.inherited parent mode)
      (s.fsnodesCreateNode ts parent name type mode cumask uid gid copysgid).1
      (s.fsnodesCreateNode ts parent name type mode cumask uid gid copysgid).2 := by
  have hfresh := h.pool.fresh
  obtain ⟨hunused, hnone⟩ := not_or.mp hfresh
  rw [Bool.not_eq_true] at hunused
  rw [Bool.not_eq_true, Option.isSome_eq_false_iff, Option.isNone_iff_eq_none] at hnone
  unfold Master.fsnodesCreateNode
  rw [hwd]
  dsimp only
  generalize hr : s.pool.fsnodesGetNextId = r at hunused hnone
  generalize hacl : s.newAcl parent r.1 wd type mode = acl
  generalize hacls : (acl.map AclCopy.acls).getD s.acls = acls
  obtain ⟨hinh, hagrees, hlists⟩ :=
    newLists h hwd hnone hacl hacls
  have hflags : (newNode wd ts type mode cumask uid gid copysgid acl).aclpermflag = false
    ∧ (newNode wd ts type mode cumask uid gid copysgid acl).acldefflag = false := ⟨rfl, rfl⟩
  generalize newNode wd ts type mode cumask uid gid copysgid acl = n at hagrees hflags ⊢
  have hlink := sameAcls_fsnodesLink (s.addNode r n acls) ts parent r.1 name
  generalize (s.addNode r n acls).fsnodesLink ts parent r.1 name = t at hlink
  -- the view of the new inode, before and after its flags are set
  have hview := hlink.view r.1
  have hadd : (s.addNode r n acls).aclView r.1
      = ⟨some n.aclBits, acls.access r.1, acls.default r.1⟩ := by
    simp [aclView, addNode]
  rw [hadd] at hview
  obtain ⟨n', hn', hbits⟩ : ∃ n', t.nodes r.1 = some n' ∧ n'.aclBits = n.aclBits :=
    Option.map_eq_some_iff.mp (congrArg AclView.node hview)
  have hacc : t.acls.access r.1 = acls.access r.1 := congrArg AclView.access hview
  have hdef : t.acls.default r.1 = acls.default r.1 := congrArg AclView.default hview
  have hself : (t.modNode r.1 (setAclflags acl)).nodes r.1 = some (setAclflags acl n') := by
    rw [modNode_nodes, if_pos rfl, hn']
    rfl
  have hother : ∀ j, j ≠ r.1 → (t.modNode r.1 (setAclflags acl)).aclView j = s.aclView j := by
    intro j hj
    have hadd : (s.addNode r n acls).aclView j = s.aclView j := by
      simp [aclView, addNode, hj, hlists j hj]
    rw [← hadd, ← hlink.view j]
    unfold aclView
    rw [modNode_nodes, if_neg hj]
    rfl
  have hagree : ((t.modNode r.1 (setAclflags acl)).aclView r.1).Agrees := by
    have hset : (setAclflags acl n').aclBits = ((acl.map AclCopy.aclperm).getD false,
        (acl.map AclCopy.acldef).getD false, n.mode) := by
      simp only [FsNode.aclBits, Prod.mk.injEq] at hbits
      simp [FsNode.aclBits, setAclflags, hbits, hflags]
    have hv : (t.modNode r.1 (setAclflags acl)).aclView r.1
        = ⟨some (setAclflags acl n').aclBits, acls.access r.1, acls.default r.1⟩ := by
      unfold aclView
      rw [hself, ← hacc, ← hdef]
      rfl
    rw [hv, hset]
    exact hagrees
  refine ⟨h.change r.1 hother hagree ?_ ?_, hnone, hunused, ?_, hacc.trans hinh, hother⟩
  · -- the inode that was given out is covered from now on
    show t.pool.Covers _
    rw [hlink.pool]
    have hnext := h.pool.next
    rw [hr] at hnext
    refine hnext.mono fun j hj => ?_
    by_cases hjr : j = r.1
    · exact .inr hjr
    · rw [isSome_node_view (t.modNode r.1 _), hother j hjr, ← isSome_node_view] at hj
      exact .inl hj
  · intro h₀
    rw [hunused] at h₀
    cases h₀
  · rw [hself]
    rfl

end Create

end Master

end MfsMaster
