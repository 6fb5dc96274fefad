/-
  MfsMaster.Data.RefsTree
  **THE NAMESPACE KEEPS THE REFERENCES SOUND.**

  Linking and unlinking do not touch the books; a new node has an empty table; a node
  that is removed gives up its references; a change of class moves them.  From these
  the requests of clients and the loops over the trash follow.
-/
import MfsMaster.Data.Refs
import MfsMaster.Fs.MoveReplay
import MfsMaster.Fs.AttrsReplay
import MfsMaster.Fs.Recover
import MfsMaster.Fs.Trash

namespace MfsMaster.Master

open FsNode

variable {name nameDst : Name} {cumask : UInt16} {uid inode bid parentDst : Nat} {copysgid : Bool}
  {rdev : UInt32} {m : Move} {cl : Client} {mode : SetMode}

/-! ## §1. Nodes. -/

/-- The node is a file, in a directory or not. -/
def HasData (s : Master) (i : Nat) : Prop := ∃ d, s.dataAt i = some (some d)

variable {i parent root : Nat} {n wd : FsNode} {s : Master} {e : FsEdge} {ts : UInt32}
  {f : SesFlags} {c : Cred} {buckets : Nat} {fc : Forced} {nameSrc : Name} {rmode : RenameMode}

theorem hasData_of_type (hn : s.nodes i = some n) (hd : n.type.hasData = true) : s.HasData i :=
  ⟨_, dataAt_of_hasData hn hd⟩

theorem HasData.type (h : s.HasData i) (hn : s.nodes i = some n) : n.type.hasData = true := by
  obtain ⟨d, hd⟩ := h
  unfold dataAt data at hd
  rw [hn, Option.map_some, Option.some.injEq] at hd
  split at hd
  next ht => exact ht
  · cases hd

theorem SameData.hasData {t : Master} (h : SameData s t) (hs : s.HasData i) : t.HasData i := by
  obtain ⟨d, hd⟩ := hs
  exact ⟨d, (h.nodes i).trans hd⟩

/-- A file stays a file when it goes into or comes out of the trash. -/
theorem sameData_setType {type : NodeType} (htype : type.hasData = true)
    (h : s.HasData i) : SameData s (s.modNode i (.setType type)) := by
  refine sameData_modNode _ fun n hn => ?_
  unfold data setType
  rw [if_pos htype, if_pos (h.type hn)]

theorem uses_of_nil (hn : s.nodes i = some n)
    (ht : n.chunktab = []) (a : RefKey) : s.uses i a = 0 := by
  unfold uses dataAt data
  rw [hn, Option.map_some]
  split
  · rw [ht]
    exact tabUses_nil _ a
  · rfl

theorem uses_of_none (hn : s.nodes i = none) (a : RefKey) : s.uses i a = 0 := by
  unfold uses dataAt
  rw [hn]
  rfl

theorem Sound.modNode_of_nil (h : s.Sound) (hn : s.nodes i = some n) (ht : n.chunktab = [])
    {f : FsNode → FsNode} (hf : (f n).chunktab = []) : (s.modNode i f).Sound := by
  refine h.retable retable_modNode fun a => ?_
  have hn' : (s.modNode i f).nodes i = some (f n) := by
    rw [modNode_nodes, if_pos rfl, hn]
    rfl
  rw [uses_of_nil hn ht, uses_of_nil hn' hf]

/-- What `fsnodes_create_node` makes: a node of the type under a new inode, with an empty
table, and no other node changes. -/
theorem retable_fsnodesCreateNode (h : s.PoolOk) (hwd : s.nodes parent = some wd)
    {type : NodeType} {mode : UInt16} {gid : Nat} :
    let r := s.fsnodesCreateNode ts parent name type mode cumask uid gid copysgid
    s.nodes r.1 = none ∧ Retable s r.2 r.1 0 0
      ∧ ∃ n, r.2.nodes r.1 = some n ∧ n.type = type ∧ n.chunktab = [] := by
  have hfresh : s.nodes s.pool.fsnodesGetNextId.1 = none := by
    have := h.fresh
    simpa using this
  have hinode : (s.fsnodesCreateNode ts parent name type mode cumask uid gid copysgid).1
      = s.pool.fsnodesGetNextId.1 :=
    fsnodesCreateNode_inode hwd ts name type mode cumask uid gid copysgid
  have hpool : (s.fsnodesCreateNode ts parent name type mode cumask uid gid copysgid).2.PoolOk := by
    unfold PoolOk
    rw [fsnodesCreateNode_pool hwd]
    exact h.next.mono fun i hi =>
      (fsnodesCreateNode_isSome hwd ts name type mode cumask uid gid copysgid i).mp hi
  dsimp only
  rw [hinode]
  refine ⟨hfresh, ?_⟩
  revert hpool
  unfold fsnodesCreateNode
  rw [hwd]
  dsimp only
  generalize hacl : s.newAcl parent s.pool.fsnodesGetNextId.1 wd type mode = acl
  generalize hnew : newNode wd ts type mode cumask uid gid copysgid acl = n
  generalize hadd : s.addNode s.pool.fsnodesGetNextId n
    ((acl.map AclCopy.acls).getD s.acls) = t
  intro hpool
  have hnt : n.type = type := by rw [← hnew]; rfl
  have hntab : n.chunktab = [] := by rw [← hnew]; rfl
  have htnode : t.nodes s.pool.fsnodesGetNextId.1 = some n := by
    rw [← hadd]
    exact if_pos rfl
  have hlink := sameData_fsnodesLink t ts parent s.pool.fsnodesGetNextId.1 name
  have hsame := hlink.trans
    (sameData_modNode (i := s.pool.fsnodesGetNextId.1) (setAclflags acl) fun _ _ => rfl)
  refine ⟨⟨fun j hj => ?_, fun _ => hpool, fun hs => hsame.chunksOk ?_, fun a => ?_⟩, ?_⟩
  · rw [hsame.nodes j, ← hadd]
    exact congrArg (Option.map data) (if_neg hj)
  · rw [← hadd]
    exact ⟨hs.pos, hs.fresh, hs.files⟩
  · rw [refsOf_of_files (hsame.chunks a.1), ← hadd]
    rfl
  obtain ⟨n', hn', hk⟩ := (nodesKept_fsnodesLink _).some htnode
  refine ⟨setAclflags acl n', ?_, hk.type.trans hnt, hk.chunktab.trans hntab⟩
  rw [modNode_nodes, if_pos rfl, hn']
  rfl

theorem Sound.fsnodesCreateNode (h : s.Sound) (ts : UInt32) (parent : Nat)
    (name : Name) (type : NodeType) (mode cumask : UInt16) (uid gid : Nat) (copysgid : Bool) :
    (s.fsnodesCreateNode ts parent name type mode cumask uid gid copysgid).2.Sound := by
  cases hwd : s.nodes parent with
  | none =>
    unfold Master.fsnodesCreateNode
    rw [hwd]
    exact h
  | some wd =>
    obtain ⟨hnone, hr, n, hn, _, htab⟩ := retable_fsnodesCreateNode h.pool hwd
    refine h.retable hr fun a => ?_
    rw [uses_of_none hnone, uses_of_nil hn htab]

/-- `fsnodes_remove_node`: the node gives up its references. -/
theorem Sound.fsnodesRemoveNode (h : s.Sound) : (s.fsnodesRemoveNode ts i).Sound := by
  unfold Master.fsnodesRemoveNode
  cases hn : s.nodes i with
  | none => exact h
  | some n =>
    dsimp only
    split
    · generalize hdel : (if n.type.hasData then s.deleteFiles n.sclassid n.chunktab else s) = t
      -- what the deletion of the files takes off is what the node holds
      have ht : Retable s t i 0 (s.uses i) ∧ t.nodes = s.nodes ∧ t.pool = s.pool := by
        rw [← hdel]
        split
        next hd =>
          have hdata := dataAt_of_hasData hn hd
          have huses : s.uses i = tabUses n.sclassid n.chunktab :=
            funext fun a => uses_eq_tabUses hdata a
          rw [huses]
          exact ⟨retable_deleteFiles h.chunks i n.sclassid (h.tabUses_le hdata),
            onChunks_frame (fun t c => (chunkDeleteFileInt t c n.sclassid).2) n.chunktab s⟩
        next hd =>
          have huses : s.uses i = 0 := by
            funext a
            unfold uses dataAt data
            rw [hn, Option.map_some, if_neg hd]
            rfl
          rw [huses]
          exact ⟨(SameData.refl s).retable i, rfl, rfl⟩
      obtain ⟨hr, hnodes, hpool⟩ := ht
      refine h.retable (?_ : Retable s _ i 0 (s.uses i)) fun a => ?_
      refine ⟨fun j hj => ?_, fun hs => ?_, fun hs => ?_, hr.refs⟩
      · unfold dataAt
        show Option.map data (if j = i then none else t.nodes j) = _
        rw [if_neg hj, hnodes]
      · have hcov := (InodePool.Covers.freeId hs i ts)
        rw [← hpool] at hcov
        refine InodePool.Covers.mono hcov fun j hj => ?_
        revert hj
        show (if j = i then none else t.nodes j).isSome = true → _
        split
        · intro hj
          cases hj
        · rw [hnodes]
          exact id
      · have := hr.chunks hs
        exact ⟨this.pos, this.fresh, this.files⟩
      · have hgone : ∀ u : Master, u.nodes i = none → s.uses i a = s.uses i a + u.uses i a :=
          fun u hu => by rw [uses_of_none hu, Nat.add_zero]
        exact (Nat.zero_add _).trans (hgone _ (if_pos rfl))
    · exact h

/-- `fsnodes_changefilesclassid`: the references move to the new class. -/
theorem Sound.fsnodesChangefilesclassid (h : s.Sound)
    (hn : s.nodes i = some n) (hd : n.type.hasData = true) {sclassid : Nat} :
    (s.fsnodesChangefilesclassid i sclassid).Sound := by
  unfold Master.fsnodesChangefilesclassid
  rw [hn]
  dsimp only
  by_cases hk : n.sclassid = sclassid
  · -- the class stays: no chunk is touched
    rw [List.foldl_fixed' fun c => if_neg fun hc => hc.2 hk]
    refine h.sameData ((sameData_modNode (.setSclassid sclassid) fun m hm => ?_).trans
      (.of_eq rfl rfl rfl rfl))
    rw [hn] at hm
    cases hm
    unfold data setSclassid
    rw [hk]
  · simp only [ne_eq, hk, not_false_eq_true, and_true]
    have hle := h.tabUses_le (dataAt_of_hasData hn hd)
    have hr := retable_onChunks (recounts_change hk) h.chunks i
      (fun _ hc hc0 => exists_of_tabUses_le hle hc hc0) hle
    obtain ⟨hnodes, _⟩ := onChunks_frame
      (fun t c => (chunkChangeFileInt t c n.sclassid sclassid).2) n.chunktab s
    have hsame : ∀ t : Master, SameData (t.modNode i (.setSclassid sclassid))
        (((t.modNode i (.setSclassid sclassid)).fixRatio i).addSubStatsAbove i
          (((t.modNode i (.setSclassid sclassid)).fixRatio i).fsnodesGetStats i)
          (s.fsnodesGetStats i)) := fun t => .of_eq rfl rfl rfl rfl
    exact h.changeNode hn hd hr ((congrFun hnodes i).trans hn) (hsame _) (if_pos hd)
      fun a => Nat.add_comm _ _

/-! ## §2. Unlinking. -/

/-- Only files go into the trash. -/
theorem hasData_of_unlinkDest (h : s.unlinkDest e ≠ .removed) : s.HasData e.child := by
  unfold unlinkDest at h
  cases hn : s.nodes e.child with
  | none =>
    rw [hn] at h
    exact absurd rfl h
  | some n =>
    rw [hn] at h
    dsimp only at h
    split at h
    next ht => exact hasData_of_type hn (by rw [ht]; rfl)
    · exact absurd rfl h

theorem Sound.fsnodesUnlink (h : s.Sound) (ts : UInt32) (e : FsEdge) :
    (s.fsnodesUnlink ts e).Sound := by
  have hedge : SameData s (s.fsnodesRemoveEdge ts e) := sameData_fsnodesRemoveEdge
  have h1 := h.sameData hedge
  have hdata : s.unlinkDest e ≠ .removed → (s.fsnodesRemoveEdge ts e).HasData e.child :=
    fun hdest => hedge.hasData (hasData_of_unlinkDest hdest)
  unfold Master.fsnodesUnlink
  dsimp only
  split
  · cases hdest : s.unlinkDest e with
    | trash path =>
      have hd := hdata (by rw [hdest]; exact nofun)
      exact h1.sameData (((sameData_setType rfl hd).trans touched_touchCtime.sameData).trans
        sameData_addEdge)
    | sustained path =>
      have hd := hdata (by rw [hdest]; exact nofun)
      exact h1.sameData ((sameData_setType rfl hd).trans sameData_addEdge)
    | removed => exact h1.fsnodesRemoveNode
  · exact h1

theorem Sound.fsnodesPurge (h : s.Sound) : (s.fsnodesPurge ts i).2.Sound := by
  unfold Master.fsnodesPurge
  cases hn : s.nodes i with
  | none => exact h
  | some n =>
    have hremove : ∀ e, ((s.fsnodesRemoveEdge ts e).fsnodesRemoveNode ts i).Sound := fun e =>
      (h.sameData sameData_fsnodesRemoveEdge).fsnodesRemoveNode
    dsimp only
    split
    next htype =>
      split
      · exact h.sameData (sameData_setType rfl (hasData_of_type hn (by rw [htype]; rfl)))
      split
      · exact h
      · exact hremove _
    · split
      · exact h
      · exact hremove _
    · exact h

theorem Sound.relink (h : s.Sound) (ts : UInt32) (e : FsEdge) (p : Nat) (name : Name)
    (hd : s.HasData e.child) : (s.relink ts e p name).Sound := by
  have h1 : SameData s ((s.modNode e.child (.setType .file)).touchCtime e.child ts) :=
    (sameData_setType rfl hd).trans touched_touchCtime.sameData
  have h2 := h1.trans (sameData_fsnodesLink _ ts p e.child name)
  exact h.sameData ((h2.trans sameData_fsnodesRemoveEdge).trans touched_fsnodesSettrashflag.sameData)

/-- A new node does not stand in the way of one that is there. -/
theorem HasData.fsnodesCreateNode (h : s.PoolOk) (hi : s.HasData i) (ts : UInt32) (parent : Nat)
    (name : Name) (type : NodeType) (mode cumask : UInt16) (uid gid : Nat) (copysgid : Bool) :
    (s.fsnodesCreateNode ts parent name type mode cumask uid gid copysgid).2.HasData i := by
  cases hwd : s.nodes parent with
  | none =>
    unfold Master.fsnodesCreateNode
    rw [hwd]
    exact hi
  | some wd =>
    obtain ⟨hnone, hr, _⟩ := retable_fsnodesCreateNode h hwd
    obtain ⟨d, hd⟩ := hi
    refine ⟨d, (hr.nodes i ?_).trans hd⟩
    intro hne
    rw [hne] at hd
    unfold dataAt at hd
    rw [hnone] at hd
    cases hd

theorem Sound.undelLoop :
    ∀ (cs : List Name) (s : Master) (p : Nat) (new : Bool), s.Sound → s.HasData e.child →
      (undelLoop ts e cs s p new).2.Sound := by
  intro cs
  induction cs with
  | nil => exact fun s p new h _ => h
  | cons name rest ih =>
    intro s p new h hd
    unfold Master.undelLoop
    split
    · exact h
    split
    · exact h
    split
    · split
      · exact h
      · exact h.relink ts e p name hd
    split
    · split
      · exact ih s _ false h hd
      · exact h
    · exact ih _ _ true (h.fsnodesCreateNode ts p name _ _ _ _ _ _)
        (hd.fsnodesCreateNode h.pool ts p name _ _ _ _ _ _)

theorem mem_parents (h : e ∈ s.parents i) : e.child = i := by
  simpa using (List.mem_filter.mp h).2

theorem Sound.fsnodesUndel (h : s.Sound) (hd : s.HasData i) : (s.fsnodesUndel ts i).2.Sound := by
  unfold Master.fsnodesUndel
  split
  · exact h
  next e rest hp =>
  have he : e.child = i := mem_parents (s := s) (by rw [hp]; exact List.mem_cons_self)
  dsimp only
  split
  · exact Sound.undelLoop _ s rootId false h (he ▸ hd)
  · exact h

theorem Sound.recoverLoop {k : Recovery} :
    ∀ (parts : List Name) (s : Master) (d : Nat) (p : Progress) (r : Master × Progress),
      s.Sound → s.HasData k.e.child → recoverLoop k parts s d p = some r → r.1.Sound := by
  intro parts
  induction parts with
  | nil =>
    intro s d p r h _ hr
    cases hr
    exact h
  | cons c rest ih =>
    intro s d p r h hd hr
    unfold Master.recoverLoop at hr
    split at hr
    · obtain ⟨q, _, rfl⟩ := Option.map_eq_some_iff.mp hr
      exact h.relink k.ts k.e d q.1 hd
    obtain ⟨q, _, hr⟩ := Option.bind_eq_some_iff.mp hr
    split at hr
    · exact ih s _ _ r h hd hr
    · exact ih _ _ _ r (h.fsnodesCreateNode _ _ _ _ _ _ _ _ _)
        (hd.fsnodesCreateNode h.pool _ _ _ _ _ _ _ _ _) hr

theorem Sound.fsUnivTrashRecover (h : s.Sound) {op : RecoverOp} {rnd : Nat → UInt32} {fuel : Nat}
    {r : RecoverResult} (hr : s.fsUnivTrashRecover ts root f c op rnd fuel = some r) :
    r.state.Sound := by
  unfold Master.fsUnivTrashRecover at hr
  split at hr
  · cases hr
    exact h
  next d e hchk =>
  dsimp only at hr
  -- the tests found the file in the trash, and the edge is its own
  have hfile : s.HasData e.child := by
    simp only [recoverCheck, except_bind_eq_ok, require_eq_ok, refuse_eq_ok, exists_const] at hchk
    obtain ⟨_, dwd, _, sp, hsp, _, htype, _, _, e, he, heq⟩ := hchk
    cases heq
    have hchild : e.child = op.inode := mem_parents (List.mem_of_mem_head? he)
    rw [hchild]
    refine hasData_of_type hsp ?_
    have : sp.type = .trash := by simpa using htype
    rw [this]
    rfl
  generalize ht : (if f.metarestore then s else s.fsnodesCheckRealsize op.inode) = t at hr
  have hsame : SameData s t := by
    rw [← ht]
    split
    · exact .refl s
    · exact sameData_fsnodesCheckRealsize
  split at hr
  · cases hr
    exact h.sameData hsame
  split at hr
  · cases hr
    exact h.sameData hsame
  · obtain ⟨q, hq, rfl⟩ := Option.map_eq_some_iff.mp hr
    exact Sound.recoverLoop _ t _ _ q (h.sameData hsame) (hsame.hasData hfile) hq

/-! ## §3. Requests on the trash. -/

theorem trashNode_ok (h : s.trashNode root f inode = .ok n) : s.HasData inode := by
  simp only [trashNode, except_bind_eq_ok, require_eq_ok, refuse_eq_ok, exists_const] at h
  obtain ⟨_, _, p, hp, htype, heq⟩ := h
  refine hasData_of_type hp ?_
  have : p.type = .trash := by simpa using htype
  rw [this]
  rfl

theorem Sound.fsUnivUndel (h : s.Sound) : (s.fsUnivUndel ts root f inode).2.Sound := by
  unfold Master.fsUnivUndel
  cases hchk : s.trashNode root f inode with
  | error st => exact h
  | ok n => exact h.fsnodesUndel (trashNode_ok hchk)

theorem Sound.fsUnivPurge (h : s.Sound) : (s.fsUnivPurge ts root f inode).2.Sound := by
  unfold Master.fsUnivPurge
  split
  · exact h
  · exact h.fsnodesPurge

theorem Sound.fsUnivTrashRemove (h : s.Sound) : (s.fsUnivTrashRemove ts f inode uid).2.Sound := by
  unfold Master.fsUnivTrashRemove
  split
  · exact h
  · exact h.fsnodesPurge

theorem Sound.purgeAll {due : Master → Nat → FsNode → Bool} {l : List Nat}
    (h : s.Sound) : (purgeAll ts due s l).Sound := by
  refine List.foldlRecOn (motive := Sound) l _ h fun s hs i _ => ?_
  split
  · split
    · exact hs.fsnodesPurge
    · exact hs
  · exact hs

theorem Sound.fsUnivEmptyTrashPart (h : s.Sound) :
    (s.fsUnivEmptyTrashPart ts buckets bid).Sound := by
  refine List.foldlRecOn (motive := Sound) _ _ h.purgeAll fun s hs i _ => ?_
  split
  · split
    · exact hs.sameData touched_fsnodesSettrashflag.sameData
    · exact hs
  · exact hs

theorem Sound.fsUnivEmptySustainedPart (h : s.Sound) :
    (s.fsUnivEmptySustainedPart ts buckets bid).Sound :=
  h.purgeAll

/-! ## §4. Requests on the namespace. -/

theorem onNode_data : (fc.onNode n).data = n.data := by
  unfold Forced.onNode data
  split <;> split <;> rfl

theorem onNew_chunktab : (fc.onNew n).chunktab = n.chunktab := by
  unfold Forced.onNew Forced.onNode
  split <;> split <;> rfl

theorem setRdev_data {type : NodeType} : (setRdev type rdev n).data = n.data := by
  unfold setRdev
  split <;> rfl

theorem Sound.createBody (h : s.Sound) (hwd : s.nodes parent = some wd)
    {type : NodeType} {mode : UInt16} :
    (s.createBody ts parent name type mode cumask c rdev copysgid).2.Sound := by
  obtain ⟨_, _, n, hn, _, htab⟩ := retable_fsnodesCreateNode h.pool hwd
  have h1 := h.fsnodesCreateNode ts parent name type mode cumask c.uid c.gid copysgid
  have h2 := h1.modNode_of_nil hn htab
    (f := (patternsFindMatching s.patterns c name).onNew) (onNew_chunktab.trans htab)
  exact h2.sameData (sameData_modNode _ fun m _ => setRdev_data)

theorem Sound.fsUnivCreate (h : s.Sound) {type : NodeType} {mode : UInt16} :
    (s.fsUnivCreate ts root f parent name type mode cumask c rdev copysgid).state.Sound := by
  unfold Master.fsUnivCreate
  cases hchk : s.createCheck root f c parent name type with
  | error st => exact h
  | ok wd =>
    have hwd : s.nodes wd.1 = some wd.2 := findExt_node (createCheck_replica [] hchk).2
    exact h.createBody hwd

theorem Sound.fsUnivSymlink (h : s.Sound) {path : Name} :
    (s.fsUnivSymlink ts root f parent name path c).state.Sound := by
  unfold Master.fsUnivSymlink
  split
  · exact h
  next wd _ =>
  have h1 := h.fsnodesCreateNode ts wd.1 name .symlink 0o777 0 c.uid c.gid false
  show (s.symlinkBody ts wd.1 name path c).2.Sound
  unfold Master.symlinkBody fsnodesAddStats
  dsimp only
  exact h1.sameData ((sameData_modNode (.setPath path) fun _ _ => rfl).trans
    sameData_mapStats)

theorem Sound.fsUnivUnlink (h : s.Sound) {dirmode : Bool} :
    (s.fsUnivUnlink ts root f parent name c dirmode).state.Sound := by
  unfold Master.fsUnivUnlink
  split
  · exact h
  next d e _ => exact h.fsnodesUnlink ts e

theorem Sound.fsUnivLink (h : s.Sound) {inodeSrc : Nat} :
    (s.fsUnivLink ts root f inodeSrc parentDst nameDst c).state.Sound := by
  unfold Master.fsUnivLink
  split
  · exact h
  next i d _ =>
  dsimp only
  generalize ht : (if f.metarestore then s else s.fsnodesCheckRealsize i) = t
  have h1 : t.Sound := by
    rw [← ht]
    split
    · exact h
    · exact h.sameData sameData_fsnodesCheckRealsize
  split
  · exact h1
  · exact h1.sameData (sameData_fsnodesLink t ts d i nameDst)

theorem Sound.applyForced (h : s.Sound) : (s.applyForced fc i).Sound := by
  unfold Master.applyForced
  cases hn : s.nodes i with
  | none => exact h
  | some n =>
    refine Sound.sameData ?_ (sameData_modNode _ fun m _ => onNode_data)
    split
    · exact h
    split
    next hfile => exact h.fsnodesChangefilesclassid hn (by rw [hfile]; rfl)
    next hclass hfile =>
    -- only files and directories are given a class, and this is a directory
    refine h.sameData (sameData_modNode _ fun m hm => ?_)
    rw [hn] at hm
    cases hm
    have hdir : n.type = .directory := by
      by_contra hdir
      unfold Forced.classOf at hclass
      rw [if_neg (by simp [hdir, hfile])] at hclass
      exact hclass rfl
    unfold data setSclassid
    rw [hdir]
    rfl

theorem Sound.moveRelink (h : s.Sound) : (s.moveRelink ts m nameSrc nameDst rmode).Sound := by
  unfold Master.moveRelink
  split
  · exact h.sameData (((sameData_fsnodesRemoveEdge.trans
      sameData_fsnodesRemoveEdge).trans (sameData_fsnodesLink _ ts _ _ _)).trans
      (sameData_fsnodesLink _ ts _ _ _))
  · exact h.sameData (sameData_fsnodesRemoveEdge.trans
      (sameData_fsnodesLink _ ts _ _ _))
  · exact (h.fsnodesUnlink ts _).sameData (sameData_fsnodesRemoveEdge.trans
      (sameData_fsnodesLink _ ts _ _ _))

theorem sameData_moveStats : SameData s (s.moveStats m).1 := by
  unfold moveStats
  split
  · exact sameData_fsnodesCheckRealsize
  · exact sameData_fsnodesCheckRealsize.trans sameData_fsnodesCheckRealsize

theorem Sound.fsUnivMove (h : s.Sound) {parentSrc : Nat} {unlinkForbidden rmdirForbidden : Bool} :
    (s.fsUnivMove ts root f parentSrc nameSrc parentDst nameDst c rmode unlinkForbidden
      rmdirForbidden).state.Sound := by
  unfold Master.fsUnivMove
  split
  · exact h
  next m _ =>
  dsimp only
  generalize ht : (if f.metarestore then s else (s.moveStats m).1) = t
  have h1 : t.Sound := by
    rw [← ht]
    split
    · exact h
    · exact h.sameData sameData_moveStats
  split
  · exact h1
  unfold Master.moveBody
  split
  · exact h1.moveRelink
  · exact h1.moveRelink.applyForced

/-- **Every request on the namespace keeps the references sound.** -/
theorem Sound.nsLeader (h : s.Sound) {op : NsOp} : (s.nsLeader ts cl op).state.Sound := by
  cases op with
  | mknod | mkdir => exact h.fsUnivCreate
  | symlink => exact h.fsUnivSymlink
  | unlink | rmdir => exact h.fsUnivUnlink
  | link => exact h.fsUnivLink
  | rename => exact h.fsUnivMove

/-! ## §5. Recursive attribute changes. -/

theorem Sound.recurse {v : Visit} (hv : ∀ s i, s.Sound → (v s i).2.Sound) {recursive : Bool} :
    ∀ (k i : Nat) (r : Counters × Master), r.2.Sound → (recurse v recursive k i r).2.Sound := by
  intro k
  induction k with
  | zero => exact fun i r h => h
  | succ k ih =>
    intro i r h
    unfold Master.recurse
    dsimp only
    have h1 : (visit v r i).2.Sound := hv r.2 i h
    split
    · -- the children, one after the other
      exact List.foldlRecOn (motive := fun r => r.2.Sound) _ _ h1 fun r hr (e : FsEdge) _ =>
        ih e.child r hr
    · exact h1

theorem Sound.setsclassVisit (h : s.Sound) {src dst : Nat} {admin : Bool} :
    (setsclassVisit ts uid src dst mode admin s i).2.Sound := by
  unfold Master.setsclassVisit
  cases hn : s.nodes i with
  | none => exact h
  | some n =>
    dsimp only
    split
    · exact h
    next hclass =>
    split
    · exact h
    split
    · refine Sound.sameData ?_ touched_touchCtime.sameData
      split
      next hdir =>
        refine h.sameData (sameData_modNode _ fun m hm => ?_)
        rw [hn] at hm
        cases hm
        unfold data setSclassid
        rw [hdir]
        rfl
      next hdir =>
        refine h.fsnodesChangefilesclassid hn ?_
        unfold hasClass at hclass
        simpa [hdir] using hclass
    · exact h

theorem sameData_settrashretentionVisit {retention : UInt16} :
    SameData s (settrashretentionVisit ts uid retention mode s i).2 := by
  unfold settrashretentionVisit
  split
  · exact .refl s
  split
  · exact .refl s
  split
  · exact .refl s
  split
  · exact (sameData_modNode (.setTrashretention retention) fun _ _ => rfl).trans
      touched_touchCtime.sameData
  · exact .refl s

theorem sameData_seteattrVisit {eattr : UInt8} :
    SameData s (seteattrVisit ts uid eattr mode s i).2 := by
  unfold seteattrVisit
  split
  · exact .refl s
  split
  · exact .refl s
  dsimp only
  split
  · exact ((sameData_modNode (.setEattr _) fun _ _ => rfl).trans
      (sameData_modNode (.setEattr _) fun _ _ => rfl)).trans touched_touchCtime.sameData
  · exact sameData_modNode (.setEattr _) fun _ _ => rfl

/-- **Every attribute change keeps the references sound.** -/
theorem Sound.attrLeader (h : s.Sound) {op : AttrOp} : (s.attrLeader ts cl op).state.Sound := by
  cases op with
  | setsclass inode src dst smode =>
    unfold Master.attrLeader Master.fsUnivSetsclass
    dsimp only
    split
    · exact h
    · rw [(AttrResult.finish_spec _ _ _ _).2]
      exact Sound.recurse (fun s i hs => hs.setsclassVisit) _ _ _ h
  | settrashretention inode retention smode =>
    unfold Master.attrLeader Master.fsUnivSettrashretention
    dsimp only
    split
    · exact h
    rw [(AttrResult.finish_spec _ _ _ _).2]
    exact Sound.recurse
      (fun s i hs => hs.sameData sameData_settrashretentionVisit) _ _ _ h
  | seteattr inode eattr smode =>
    unfold Master.attrLeader Master.fsUnivSeteattr
    dsimp only
    split
    · exact h
    rw [(AttrResult.finish_spec _ _ _ _).2]
    exact Sound.recurse
      (fun s i hs => hs.sameData sameData_seteattrVisit) _ _ _ h

end MfsMaster.Master
