/-
  MfsMaster.Fs.EdgeChange
  **WHICH EDGES AN OPERATION TAKES AWAY AND WHICH IT ADDS.**

  `EdgeChange out into s t`: every edge that is gone in `t` has `out`, every edge that is
  new in `t` has `into`, and the pool of inodes still covers what it covered.  The two
  predicates speak of the edges alone, so that the relation composes along a loop or a
  recursion; each primitive of `Fs.Edges` has one lemma.

  `Frozen` and `Protected` are the two kinds of marks the operations have to respect, and
  `Removable`, `Addable` the edges they leave free.  `WellFormed` collects what the
  pointers of the C program guarantee of nodes and edges.
-/
import MfsMaster.Fs.Linked
import MfsMaster.Fs.MoveReplay
import MfsMaster.Fs.Tree

namespace MfsMaster.Master

/-! ## §1. The relation. -/

/-- From `s` to `t` only edges with `out` disappeared and only edges with `into` appeared. -/
structure EdgeChange (out into : FsEdge → Prop) (s t : Master) : Prop where
  removed : ∀ e ∈ s.edges, e ∉ t.edges → out e
  added : ∀ e ∈ t.edges, e ∉ s.edges → into e
  pool : ∀ P, s.pool.Covers P → t.pool.Covers P

variable {e : FsEdge} {name : Name} {p parent d i : Nat} {n : FsNode} {s : Master} {ts : UInt32}

section Change

variable {out into : FsEdge → Prop} {s t u : Master}

theorem EdgeChange.of_eq (hedges : t.edges = s.edges) (hpool : t.pool = s.pool) :
    EdgeChange out into s t where
  removed _ he hne := absurd (hedges ▸ he) hne
  added _ he hne := absurd (hedges ▸ he) hne
  pool _ hP := hpool ▸ hP

theorem EdgeChange.refl : EdgeChange out into s s := .of_eq rfl rfl

theorem EdgeChange.trans (h : EdgeChange out into s t) (h' : EdgeChange out into t u) :
    EdgeChange out into s u where
  removed e he hne := by
    by_cases hmid : e ∈ t.edges
    · exact h'.removed e hmid hne
    · exact h.removed e he hmid
  added e he hne := by
    by_cases hmid : e ∈ t.edges
    · exact h.added e hmid hne
    · exact h'.added e he hmid
  pool P hP := h'.pool P (h.pool P hP)

theorem EdgeChange.mono {out' into' : FsEdge → Prop} (h : EdgeChange out into s t)
    (hout : ∀ e, out e → out' e) (hinto : ∀ e, into e → into' e) : EdgeChange out' into' s t where
  removed e he hne := hout e (h.removed e he hne)
  added e he hne := hinto e (h.added e he hne)
  pool := h.pool

theorem DataOnly.edgeChange (h : DataOnly s t) : EdgeChange out into s t := .of_eq h.edges h.pool

theorem SameNs.edgeChange (h : SameNs s t) : EdgeChange out into s t := by
  obtain ⟨st, ra, rfl⟩ := h
  exact .of_eq rfl rfl

/-! ## §2. The primitives. -/

theorem edgeChange_addEdge (he : into e) : EdgeChange out into s (s.addEdge e) where
  removed e' he' hne := absurd (List.mem_cons_of_mem e he') hne
  added e' he' hne := by
    rcases List.mem_cons.mp he' with rfl | hmem
    · exact he
    · exact absurd hmem hne
  pool _ hP := hP

theorem edgeChange_eraseEdge (he : out e) : EdgeChange out into s (s.eraseEdge e) where
  removed e' he' hne := by
    by_cases heq : e' = e
    · exact heq ▸ he
    · exact absurd ((List.mem_erase_of_ne heq).mpr he') hne
  added e' he' hne := absurd (List.mem_of_mem_erase he') hne
  pool _ hP := hP

theorem edgeChange_fsnodesRemoveEdge (s : Master) (ts : UInt32) (he : out e) :
    EdgeChange out into s (s.fsnodesRemoveEdge ts e) :=
  (edgeChange_eraseEdge he).trans (touched_fsnodesRemoveEdge s ts).only.edgeChange

theorem edgeChange_fsnodesLink (s : Master) (ts : UInt32) {child : Nat}
    (he : into ⟨some parent, name, child⟩) :
    EdgeChange out into s (s.fsnodesLink ts parent child name) :=
  (edgeChange_addEdge he).trans (touched_fsnodesLink s ts).only.edgeChange

theorem edgeChange_relink (hout : out e) (hinto : into ⟨some p, name, e.child⟩) :
    EdgeChange out into s (s.relink ts e p name) :=
  ((edgeChange_addEdge hinto).trans (edgeChange_eraseEdge hout)).trans
    dataOnly_relink.edgeChange

theorem dataOnly_deleteFiles (s : Master) (sclassid : Nat) (tab : List Nat) :
    DataOnly s (s.deleteFiles sclassid tab) := by
  refine DataOnly.foldl (fun s chunkid => ?_) tab s
  split
  · exact ⟨_, _, _, _, rfl⟩
  · exact .refl s

/-- A node that goes away leaves the edges, and its inode stays marked as used. -/
theorem edgeChange_fsnodesRemoveNode : EdgeChange out into s (s.fsnodesRemoveNode ts i) := by
  unfold fsnodesRemoveNode
  split
  · exact .refl
  next n _ =>
  split
  · have hdata : DataOnly s (if n.type.hasData then s.deleteFiles n.sclassid n.chunktab else s) := by
      split
      · exact dataOnly_deleteFiles s n.sclassid n.chunktab
      · exact .refl s
    refine hdata.edgeChange.trans ⟨fun e he hne => absurd he hne, fun e he hne => absurd he hne,
      fun P hP => hP.freeId i ts⟩
  · exact .refl

/-- After its edge a node may go to the trash: an edge without a directory. -/
theorem edgeChange_unlinked (hinto : ∀ path, into ⟨none, path, e.child⟩) :
    EdgeChange out into (s.fsnodesRemoveEdge ts e) (s.fsnodesUnlink ts e) := by
  unfold fsnodesUnlink
  dsimp only
  split
  · split
    next path _ =>
      exact (dataOnly_modNode.trans
        touched_touchCtime.only).edgeChange.trans (edgeChange_addEdge (hinto path))
    next path _ =>
      exact dataOnly_modNode.edgeChange.trans (edgeChange_addEdge (hinto path))
    · exact edgeChange_fsnodesRemoveNode
  · exact .refl

theorem edgeChange_fsnodesUnlink (hout : out e) (hinto : ∀ path, into ⟨none, path, e.child⟩) :
    EdgeChange out into s (s.fsnodesUnlink ts e) :=
  (edgeChange_fsnodesRemoveEdge s ts hout).trans (edgeChange_unlinked hinto)

/-- A new node comes with one edge, to an inode that was not in use. -/
theorem edgeChange_fsnodesCreateNode {type : NodeType} {mode cumask : UInt16} {uid gid : Nat}
    {copysgid : Bool} (he : into ⟨some parent, name, s.pool.fsnodesGetNextId.1⟩) :
    EdgeChange out into s
      (s.fsnodesCreateNode ts parent name type mode cumask uid gid copysgid).2 := by
  cases hwd : s.nodes parent with
  | none =>
    unfold fsnodesCreateNode
    rw [hwd]
    exact .refl
  | some wd =>
    have hedges := fsnodesCreateNode_edges hwd ts name type mode cumask uid gid copysgid
    refine ⟨fun e' he' hne => ?_, fun e' he' hne => ?_, fun P hP => ?_⟩
    · rw [hedges] at hne
      exact absurd (List.mem_cons_of_mem _ he') hne
    · rw [hedges] at he'
      rcases List.mem_cons.mp he' with rfl | hmem
      · exact he
      · exact absurd hmem hne
    · rw [fsnodesCreateNode_pool hwd]
      exact hP.next.mono fun i hi => .inl hi

end Change

/-! ## §3. Marks. -/

/-- `EATTR_UNDELETABLE|EATTR_IMMUTABLE|EATTR_APPENDONLY`. -/
def eattrGuards : UInt8 := eattrUndeletable ||| eattrImmutable ||| eattrAppendonly

/-- A directory with `EATTR_IMMUTABLE`. -/
def Frozen (s : Master) (d : Nat) : Prop :=
  ∃ n, s.nodes d = some n ∧ n.type = .directory ∧ hasBit n.eattr eattrImmutable = true

/-- An object with one of the three attributes. -/
def Protected (s : Master) (i : Nat) : Prop :=
  ∃ n, s.nodes i = some n ∧ hasBit n.eattr eattrGuards = true

/-- An edge that may be taken away: one of the trash, or the name of an unprotected object in a
directory that is not frozen. -/
def Removable (s : Master) (e : FsEdge) : Prop :=
  ∀ d, e.parent = some d → ¬ s.Frozen d ∧ ¬ s.Protected e.child

/-- An edge that may be added: one of the trash, or an entry of a directory that is not
frozen. -/
def Addable (s : Master) (e : FsEdge) : Prop :=
  ∀ d, e.parent = some d → ¬ s.Frozen d

section Marks

variable {s : Master}

theorem not_frozen (hn : s.nodes d = some n)
    (h : hasBit n.eattr eattrImmutable = false) : ¬ s.Frozen d := by
  rintro ⟨n', hn', _, hbit⟩
  rw [hn] at hn'
  cases hn'
  rw [h] at hbit
  cases hbit

theorem not_protected (hn : s.nodes i = some n)
    (h : hasBit n.eattr eattrGuards = false) : ¬ s.Protected i := by
  rintro ⟨n', hn', hbit⟩
  rw [hn] at hn'
  cases hn'
  rw [h] at hbit
  cases hbit

theorem not_frozen_of_unprotected (h : ¬ s.Protected i) : ¬ s.Frozen i := by
  rintro ⟨n, hn, _, hbit⟩
  refine h ⟨n, hn, ?_⟩
  by_contra hnot
  rw [hasBit_of_submask (by decide) (Bool.eq_false_iff.mpr hnot)] at hbit
  cases hbit

/-- Edges of the trash are free … -/
theorem addable_trash (he : e.parent = none) : s.Addable e :=
  fun _ hd => nomatch he.symm.trans hd

theorem removable_trash (he : e.parent = none) : s.Removable e :=
  fun _ hd => nomatch he.symm.trans hd

/-- … and so are those of a directory that is not frozen. -/
theorem addable_entry (he : e.parent = some d) (hd : ¬ s.Frozen d) : s.Addable e := by
  intro d' hd'
  cases he.symm.trans hd'
  exact hd

theorem removable_entry (he : e.parent = some d) (hd : ¬ s.Frozen d)
    (hfree : ¬ s.Protected e.child) : s.Removable e :=
  fun d' hd' => ⟨addable_entry he hd d' hd', hfree⟩

/-- In a directory that did not exist everything may be added. -/
theorem addable_new (hp : s.nodes p = none) {name : Name} : s.Addable ⟨some p, name, i⟩ :=
  addable_entry rfl fun ⟨_, hn, _⟩ => nomatch hp.symm.trans hn

end Marks

/-! ## §4. Nodes and edges in order. -/

/-- The directories make a tree with its root, edges are links between nodes, no directory has
two entries of one name, and files in the trash are nowhere else. -/
structure WellFormed (s : Master) : Prop where
  tree : s.DirTree
  root : s.isDir rootId = true
  linked : s.WellLinked
  child : ∀ e ∈ s.edges, (s.nodes e.child).isSome = true
  names : ∀ e ∈ s.edges, ∀ e' ∈ s.edges, e.parent ≠ none → e'.parent = e.parent →
    e'.name = e.name → e' = e
  nodup : s.edges.Nodup
  trash : ∀ e ∈ s.edges, s.typeOf e.child = some .trash → e.parent = none

/-- Names are unique, so an entry is found under its name. -/
theorem WellFormed.lookup_of_mem (h : s.WellFormed) (he : e ∈ s.edges)
    (hd : e.parent = some d) : s.fsnodesLookup d e.name = some e := by
  unfold fsnodesLookup edgeFind
  rw [if_pos (h.tree.parent e he d hd)]
  cases hfind : s.edges.find? fun e' => e'.parent == some d && e'.name == e.name with
  | none =>
    have hnot := List.find?_eq_none.mp hfind e he
    simp [hd] at hnot
  | some e' =>
    have hprop := List.find?_some hfind
    simp only [Bool.and_eq_true, beq_iff_eq] at hprop
    rw [h.names e he e' (List.mem_of_find?_eq_some hfind) (by rw [hd]; exact Option.some_ne_none d)
      (hprop.1.trans hd.symm) hprop.2]

end MfsMaster.Master
