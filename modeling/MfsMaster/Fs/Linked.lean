/-
  MfsMaster.Fs.Linked
  **EDGES LEAD TO NODES, AND NEW NODES ARE NEW.**

  In the C program edges are pointers and a node that exists has its bit in the mask of
  used inodes.  `WellLinked` says so; making a node keeps it, and the new directory has
  no entries.
-/
import MfsMaster.Fs.CreateReplay
import MfsMaster.Inode.Fresh

namespace MfsMaster.Master

/-- The parents of edges exist, and the pool knows every node. -/
structure WellLinked (s : Master) : Prop where
  pool : s.pool.Covers fun i => (s.nodes i).isSome = true
  parent : ∀ e ∈ s.edges, ∀ p, e.parent = some p → (s.nodes p).isSome = true

variable {s : Master}

theorem KeptAt.isSome {t : Master} {ds : List Nat} {i : Nat} (h : KeptAt ds s t i) :
    (t.nodes i).isSome = (s.nodes i).isSome := by
  cases hs : s.nodes i with
  | none => rw [h.none hs]
  | some n =>
    obtain ⟨n', hn', _⟩ := h.some hs
    rw [hn']
    rfl

theorem modNode_isSome (s : Master) (i j : Nat) (f : FsNode → FsNode) :
    ((s.modNode i f).nodes j).isSome = (s.nodes j).isSome := by
  rw [modNode_nodes]
  split
  · rw [Option.isSome_map]
  · rfl

section Create

variable {s : Master} {parent : Nat} {wd : FsNode} (hwd : s.nodes parent = some wd)
  (ts : UInt32) (name : Name) (type : NodeType) (mode cumask : UInt16) (uid gid : Nat)
  (copysgid : Bool)

include hwd

theorem fsnodesCreateNode_edges :
    (s.fsnodesCreateNode ts parent name type mode cumask uid gid copysgid).2.edges
      = ⟨some parent, name, s.pool.fsnodesGetNextId.1⟩ :: s.edges := by
  unfold fsnodesCreateNode
  rw [hwd]
  exact fsnodesLink_edges

theorem fsnodesCreateNode_pool :
    (s.fsnodesCreateNode ts parent name type mode cumask uid gid copysgid).2.pool
      = s.pool.fsnodesGetNextId.2 := by
  unfold fsnodesCreateNode
  rw [hwd]
  exact (touched_fsnodesLink (s.addNode _ _ _) ts).only.pool

/-- The nodes after a creation: those there were, and the new one. -/
theorem fsnodesCreateNode_isSome (j : Nat) :
    ((s.fsnodesCreateNode ts parent name type mode cumask uid gid copysgid).2.nodes j).isSome
        = true
      ↔ (s.nodes j).isSome = true ∨ j = s.pool.fsnodesGetNextId.1 := by
  unfold fsnodesCreateNode
  rw [hwd]
  rw [modNode_isSome, (nodesKept_fsnodesLink j).isSome]
  show (if j = _ then some _ else s.nodes j).isSome = true ↔ _
  split
  next hj => simp [hj]
  next hj => simp [hj]

end Create

variable {parent : Nat} {wd : FsNode} {ts : UInt32} {name : Name} {type : NodeType} {mode : UInt16}
  {copysgid : Bool}

theorem WellLinked.fresh (h : s.WellLinked) : s.nodes s.pool.fsnodesGetNextId.1 = none := by
  have := h.pool.fresh
  simpa using this

theorem WellLinked.create (h : s.WellLinked) (hwd : s.nodes parent = some wd)
    {cumask : UInt16} {uid gid : Nat} :
    (s.fsnodesCreateNode ts parent name type mode cumask uid gid copysgid).2.WellLinked := by
  have hsome := fsnodesCreateNode_isSome hwd ts name type mode cumask uid gid copysgid
  refine ⟨?_, ?_⟩
  · rw [fsnodesCreateNode_pool hwd]
    exact h.pool.next.mono fun i hi => (hsome i).mp hi
  intro e he p hp
  rw [fsnodesCreateNode_edges hwd] at he
  refine (hsome p).mpr (.inl ?_)
  rcases List.mem_cons.mp he with rfl | he
  · cases hp
    rw [hwd]
    rfl
  · exact h.parent e he p hp

theorem WellLinked.children_new (h : s.WellLinked) (hwd : s.nodes parent = some wd)
    {cumask : UInt16} {uid gid : Nat} :
    (s.fsnodesCreateNode ts parent name type mode cumask uid gid copysgid).2.children
      s.pool.fsnodesGetNextId.1 = [] := by
  unfold children
  rw [fsnodesCreateNode_edges hwd, List.filter_eq_nil_iff]
  intro e he heq
  have hp : e.parent = some s.pool.fsnodesGetNextId.1 := by simpa using heq
  have hnone := h.fresh
  rcases List.mem_cons.mp he with rfl | he
  · cases hp
    rw [hwd] at hnone
    cases hnone
  have := h.parent e he _ hp
  rw [hnone] at this
  cases this

end MfsMaster.Master
