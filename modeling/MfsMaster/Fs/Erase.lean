/-
  MfsMaster.Fs.Erase
  **STATISTICS DO NOT STEER THE NAMESPACE.**

  Only quota tests read the statistics of directories and the realsize ratios.
  `SameNs s t` says that `t` is `s` up to these two; every operation that makes no
  quota test keeps the relation.  The leader, which brings ratios up to date before
  a quota test, can so be compared with a replica, which does not.
-/
import MfsMaster.Fs.Namespace

namespace MfsMaster.Master

/-- The state with other statistics and ratios. -/
def withStats (s : Master) (st : Nat → StatsRecord) (ra : Nat → UInt8) : Master :=
  { s with stats := st, realsizeRatio := ra }

/-- `t` is `s` up to statistics and realsize ratios. -/
def SameNs (s t : Master) : Prop :=
  ∃ st ra, t = s.withStats st ra

theorem SameNs.refl {s : Master} : SameNs s s := ⟨s.stats, s.realsizeRatio, rfl⟩

variable {s t : Master} {ds : List Nat} {f : StatsRecord → StatsRecord} {i : Nat} {e : FsEdge}
  {ts : UInt32}

theorem SameNs.symm (h : SameNs s t) : SameNs t s := by
  obtain ⟨st, ra, rfl⟩ := h
  exact ⟨s.stats, s.realsizeRatio, rfl⟩

theorem SameNs.trans {u : Master} (h : SameNs s t) (h' : SameNs t u) : SameNs s u := by
  obtain ⟨st, ra, rfl⟩ := h
  obtain ⟨st', ra', rfl⟩ := h'
  exact ⟨st', ra', rfl⟩

theorem SameNs.nodes (h : SameNs s t) : t.nodes = s.nodes := by
  obtain ⟨st, ra, rfl⟩ := h
  rfl

theorem SameNs.edges (h : SameNs s t) : t.edges = s.edges := by
  obtain ⟨st, ra, rfl⟩ := h
  rfl

theorem SameNs.parents (h : SameNs s t) (i : Nat) : t.parents i = s.parents i := by
  unfold Master.parents
  rw [h.edges]

/-! ## §1. Functions that only change statistics. -/

theorem sameNs_mapStats : SameNs s (s.mapStats ds f) := ⟨_, _, rfl⟩

theorem sameNs_fixRatio : SameNs s (s.fixRatio i) := ⟨_, _, rfl⟩

theorem sameNs_fsnodesCheckRealsize (s : Master) (i : Nat) :
    SameNs s (s.fsnodesCheckRealsize i) := ⟨_, _, rfl⟩

theorem sameNs_moveStats (s : Master) (m : Move) : SameNs s (s.moveStats m).1 := by
  unfold moveStats
  cases m.de with
  | none => exact sameNs_fsnodesCheckRealsize _ _
  | some de =>
    exact (sameNs_fsnodesCheckRealsize _ _).trans (sameNs_fsnodesCheckRealsize _ _)

/-! ## §2. Functions that do not look at statistics. -/

theorem SameNs.modNode (h : SameNs s t) (i : Nat) (f : FsNode → FsNode) :
    SameNs (s.modNode i f) (t.modNode i f) := by
  obtain ⟨st, ra, rfl⟩ := h
  exact ⟨st, ra, rfl⟩

theorem SameNs.modChunk (h : SameNs s t) {f : Chunk → Chunk} :
    SameNs (s.modChunk i f) (t.modChunk i f) := by
  obtain ⟨st, ra, rfl⟩ := h
  exact ⟨st, ra, rfl⟩

theorem SameNs.addEdge (h : SameNs s t) (e : FsEdge) : SameNs (s.addEdge e) (t.addEdge e) := by
  obtain ⟨st, ra, rfl⟩ := h
  exact ⟨st, ra, rfl⟩

theorem SameNs.eraseEdge (h : SameNs s t) : SameNs (s.eraseEdge e) (t.eraseEdge e) := by
  obtain ⟨st, ra, rfl⟩ := h
  exact ⟨st, ra, rfl⟩

theorem SameNs.mapStats (h : SameNs s t) {ds' : List Nat}
    {f' : StatsRecord → StatsRecord} : SameNs (s.mapStats ds f) (t.mapStats ds' f') :=
  (sameNs_mapStats.symm.trans h).trans sameNs_mapStats

theorem SameNs.fixRatio (h : SameNs s t) {j : Nat} : SameNs (s.fixRatio i) (t.fixRatio j) :=
  (sameNs_fixRatio.symm.trans h).trans sameNs_fixRatio

theorem SameNs.setArchflags {flag : Bool} : ∀ (tab : List Nat) {s t : Master}, SameNs s t →
    SameNs (s.setArchflags flag tab).1 (t.setArchflags flag tab).1 := by
  intro tab
  induction tab with
  | nil =>
    intro s t h
    exact h
  | cons chunkid tab ih =>
    intro s t h
    unfold Master.setArchflags
    split
    · refine ih ?_
      have hc : t.chunks = s.chunks := by
        obtain ⟨st, ra, rfl⟩ := h
        rfl
      unfold chunkSetArchflag
      rw [hc]
      split
      · exact h
      · exact h.modChunk
    · exact ih h

section

variable (h : SameNs s t)
include h

theorem SameNs.fsnodesCheckarchmode {f : UInt8} :
    SameNs (s.fsnodesCheckarchmode i ts f).1 (t.fsnodesCheckarchmode i ts f).1 := by
  have hs : t.sclasses = s.sclasses := by
    obtain ⟨st, ra, rfl⟩ := h
    rfl
  unfold Master.fsnodesCheckarchmode
  rw [h.nodes, hs]
  split
  · exact h
  dsimp only
  split
  · exact (SameNs.setArchflags _ h).modNode _ _
  · exact h

theorem SameNs.touchCtime : SameNs (s.touchCtime i ts) (t.touchCtime i ts) :=
  (h.modNode _ _).fsnodesCheckarchmode

theorem SameNs.countEdge (parent child : Nat) (d : Int) :
    SameNs (s.countEdge parent child d) (t.countEdge parent child d) := by
  have h1 := h.modNode parent (.addElements d)
  unfold Master.countEdge isDir typeOf
  dsimp only
  rw [h1.nodes]
  split <;> exact h1.modNode _ _

theorem SameNs.touchDir {parent : Nat} : SameNs (s.touchDir parent ts) (t.touchDir parent ts) :=
  (h.modNode _ _).modNode _ _

theorem SameNs.uncountEdge : SameNs (s.uncountEdge ts e) (t.uncountEdge ts e) := by
  unfold Master.uncountEdge
  cases e.parent with
  | none => exact h
  | some p => exact (h.mapStats.countEdge _ _ _).touchDir

theorem SameNs.fsnodesRemoveEdge (ts : UInt32) (e : FsEdge) :
    SameNs (s.fsnodesRemoveEdge ts e) (t.fsnodesRemoveEdge ts e) := by
  refine SameNs.eraseEdge ?_
  split
  · exact h.uncountEdge.touchCtime
  · exact h.uncountEdge

theorem SameNs.linkEdge (e : FsEdge) (parent : Nat) :
    SameNs (s.linkEdge e parent) (t.linkEdge e parent) := by
  have h1 := ((h.addEdge e).countEdge parent e.child 1).modNode parent .clearSnapshot
  unfold Master.linkEdge fsnodesAddStats
  exact h1.fixRatio.mapStats

theorem SameNs.fsnodesLink (parent : Nat) {child : Nat} {name : Name} :
    SameNs (s.fsnodesLink ts parent child name) (t.fsnodesLink ts parent child name) := by
  have h1 := h.linkEdge ⟨some parent, name, child⟩ parent
  unfold Master.fsnodesLink
  split
  · exact h1.touchDir.touchCtime
  · exact h1

theorem SameNs.deleteFiles {sclassid : Nat} (tab : List Nat) :
    SameNs (s.deleteFiles sclassid tab) (t.deleteFiles sclassid tab) := by
  refine List.foldl_rel h fun chunkid _ s t h => ?_
  split
  · obtain ⟨st, ra, rfl⟩ := h
    exact ⟨st, ra, rfl⟩
  · exact h

theorem SameNs.fsnodesRemoveNode :
    SameNs (s.fsnodesRemoveNode ts i) (t.fsnodesRemoveNode ts i) := by
  unfold Master.fsnodesRemoveNode
  rw [h.nodes, h.parents]
  split
  · exact h
  split
  · have hdel : ∀ n : FsNode, SameNs
        (if n.type.hasData then s.deleteFiles n.sclassid n.chunktab else s)
        (if n.type.hasData then t.deleteFiles n.sclassid n.chunktab else t) := by
      intro n
      split
      · exact h.deleteFiles _
      · exact h
    obtain ⟨st, ra, heq⟩ := hdel _
    rw [heq]
    exact ⟨st, ra, rfl⟩
  · exact h

theorem SameNs.unlinkDest (e : FsEdge) : t.unlinkDest e = s.unlinkDest e := by
  obtain ⟨st, ra, rfl⟩ := h
  rfl

theorem SameNs.fsnodesUnlink (ts : UInt32) (e : FsEdge) :
    SameNs (s.fsnodesUnlink ts e) (t.fsnodesUnlink ts e) := by
  have h1 := h.fsnodesRemoveEdge ts e
  unfold Master.fsnodesUnlink
  dsimp only
  rw [h.unlinkDest, h1.parents]
  split
  · split
    · exact (h1.modNode _ _).touchCtime.addEdge _
    · exact (h1.modNode _ _).addEdge _
    · exact h1.fsnodesRemoveNode
  · exact h1

theorem SameNs.freedEdge (e : FsEdge) : t.freedEdge e = s.freedEdge e := by
  unfold Master.freedEdge
  rw [h.parents, h.unlinkDest]

theorem SameNs.moveRelink (ts : UInt32) (m : Move) (nameSrc nameDst : Name) (rmode : RenameMode) :
    SameNs (s.moveRelink ts m nameSrc nameDst rmode) (t.moveRelink ts m nameSrc nameDst rmode) := by
  unfold Master.moveRelink
  split
  · exact (((h.fsnodesRemoveEdge _ _).fsnodesRemoveEdge _ _).fsnodesLink _).fsnodesLink _
  · exact (h.fsnodesRemoveEdge _ _).fsnodesLink _
  dsimp only
  rw [h.freedEdge]
  exact ((h.fsnodesUnlink _ _).fsnodesRemoveEdge _ _).fsnodesLink _

/-! ## §3. Making nodes and leaving the trash. -/

theorem SameNs.addNode {r : Nat × InodePool} {n : FsNode}
    {acls : Acls} : SameNs (s.addNode r n acls) (t.addNode r n acls) := by
  obtain ⟨st, ra, rfl⟩ := h
  exact ⟨_, ra, rfl⟩

theorem SameNs.fsnodesCreateNode (ts : UInt32) (parent : Nat)
    (name : Name) (type : NodeType) (mode cumask : UInt16) (uid gid : Nat) (copysgid : Bool) :
    (t.fsnodesCreateNode ts parent name type mode cumask uid gid copysgid).1
        = (s.fsnodesCreateNode ts parent name type mode cumask uid gid copysgid).1
      ∧ SameNs (s.fsnodesCreateNode ts parent name type mode cumask uid gid copysgid).2
        (t.fsnodesCreateNode ts parent name type mode cumask uid gid copysgid).2 := by
  have hpool : t.pool = s.pool := by
    obtain ⟨st, ra, rfl⟩ := h
    rfl
  have hacls : t.acls = s.acls := by
    obtain ⟨st, ra, rfl⟩ := h
    rfl
  unfold Master.fsnodesCreateNode newAcl
  rw [h.nodes, hpool, hacls]
  split
  · exact ⟨rfl, h⟩
  · exact ⟨rfl, (h.addNode.fsnodesLink _).modNode _ _⟩

theorem SameNs.fsnodesSettrashflag {flag : Bool} :
    SameNs (s.fsnodesSettrashflag i flag) (t.fsnodesSettrashflag i flag) := by
  unfold Master.fsnodesSettrashflag
  rw [h.nodes]
  split
  · exact h
  refine List.foldl_rel h fun chunkid _ s t h => ?_
  split
  · exact h.modChunk
  · exact h

theorem SameNs.relink {p : Nat}
    {name : Name} : SameNs (s.relink ts e p name) (t.relink ts e p name) :=
  (((h.modNode _ _).touchCtime.fsnodesLink _).fsnodesRemoveEdge _ _).fsnodesSettrashflag

theorem SameNs.fsnodesNameisused (d : Nat) (name : Name) :
    t.fsnodesNameisused d name = s.fsnodesNameisused d name := by
  unfold Master.fsnodesNameisused edgeFind
  rw [h.edges]

theorem SameNs.isDir (i : Nat) : t.isDir i = s.isDir i := by
  unfold Master.isDir typeOf
  rw [h.nodes]

theorem SameNs.fsnodesLookup (d : Nat) (name : Name) :
    t.fsnodesLookup d name = s.fsnodesLookup d name := by
  unfold Master.fsnodesLookup edgeFind
  rw [h.isDir, h.edges]

end

end MfsMaster.Master
