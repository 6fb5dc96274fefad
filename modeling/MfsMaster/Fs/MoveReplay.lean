/-
  MfsMaster.Fs.MoveReplay
  **MOVE RECORDS.**

  A MOVE record carries no identity at all; the replica matches the creation patterns for
  uid 0 without groups.  Everything else of a rename depends on the names only, and the
  statistics, which the leader brings up to date for its quota tests, do not matter.

      moveBody_replays_iff — the record reproduces the namespace
                               ↔ both patterns do the same to the moved node
-/
import MfsMaster.Fs.CreateReplay

namespace MfsMaster.Master

variable {nameDst : Name} {k : Nat}

/-! ## §1. The moved node. -/

/-- The node a rename moves, as it is when the patterns are applied.  It loses its snapshot
mark if it is one of the two directories.  Renaming the last link of a node to itself unlinks
it first, so the node is then where unlinking leads. -/
def movedNode (s : Master) (m : Move) : Option FsNode :=
  (s.nodes m.se.child).bind fun n =>
    let n := n.setEattrAfter (decide (m.se.child ∈ [m.swd, m.dwd]))
    if m.de = some m.se ∧ (s.parents m.se.child).length = 1 then
      match s.unlinkDest m.se with
      | .trash _ => some (n.setType .trash)
      | .sustained _ => some (n.setType .sustained)
      | .removed => none
    else some n

/-- The edges of a move are edges of the two directories. -/
structure Move.Linked (s : Master) (m : Move) : Prop where
  se_mem : m.se ∈ s.edges
  se_parent : m.se.parent = some m.swd
  de_mem : ∀ e, m.de = some e → e ∈ s.edges
  de_parent : ∀ e, m.de = some e → e.parent = some m.dwd

variable {d i : Nat} {e : FsEdge} {s : Master} {ts : UInt32} {m : Move} {rmode : RenameMode}
  {j : Nat} {nameSrc : Name}

theorem fsnodesLookup_some {name : Name}
    (h : s.fsnodesLookup d name = some e) : e ∈ s.edges ∧ e.parent = some d ∧ e.name = name := by
  unfold fsnodesLookup edgeFind at h
  split at h
  · have hmem := List.mem_of_find?_eq_some h
    have hprop := List.find?_some h
    simp only [Bool.and_eq_true, beq_iff_eq] at hprop
    exact ⟨hmem, hprop⟩
  · cases h

theorem parents_fsnodesRemoveEdge :
    (s.fsnodesRemoveEdge ts e).parents e.child = (s.parents e.child).erase e := by
  unfold parents
  rw [fsnodesRemoveEdge_edges, List.erase_filter]

theorem isEmpty_parents_fsnodesRemoveEdge (he : e ∈ s.edges) (ts : UInt32) :
    ((s.fsnodesRemoveEdge ts e).parents e.child).isEmpty = true
      ↔ (s.parents e.child).length = 1 := by
  have hmem : e ∈ s.parents e.child := by
    unfold parents
    rw [List.mem_filter]
    exact ⟨he, beq_self_eq_true _⟩
  have hpos : 0 < (s.parents e.child).length := List.length_pos_of_mem hmem
  rw [parents_fsnodesRemoveEdge, List.isEmpty_iff_length_eq_zero, List.length_erase_of_mem hmem]
  omega

theorem keptAt_modNode_ne (hj : j ≠ i) (f : FsNode → FsNode) : KeptAt [] s (s.modNode i f) j :=
  .of_eq (if_neg hj)

theorem deleteFiles_nodes (s : Master) (sclassid : Nat) (tab : List Nat) :
    (s.deleteFiles sclassid tab).nodes = s.nodes := by
  refine List.foldlRecOn (motive := fun t : Master => t.nodes = s.nodes) tab _ rfl fun t ht _ _ => ?_
  split <;> exact ht

theorem fsnodesRemoveNode_nodes_ne (s : Master) (hj : j ≠ i) :
    (s.fsnodesRemoveNode ts i).nodes j = s.nodes j := by
  unfold fsnodesRemoveNode
  split
  · rfl
  split
  · dsimp only
    rw [if_neg hj]
    split
    · rw [deleteFiles_nodes]
    · rfl
  · rfl

theorem fsnodesRemoveNode_nodes_self
    (h : (s.parents i).isEmpty = true) : (s.fsnodesRemoveNode ts i).nodes i = none := by
  unfold fsnodesRemoveNode
  split
  next hn => exact hn
  · rw [if_pos h]
    exact if_pos rfl

theorem keptAt_fsnodesUnlink_ne (s : Master) (ts : UInt32)
    (hj : j ≠ e.child) : KeptAt e.parent.toList s (s.fsnodesUnlink ts e) j := by
  have h1 := nodesKept_fsnodesRemoveEdge s ts e j
  unfold fsnodesUnlink
  dsimp only
  split
  · split
    · have h2 := h1.trans (keptAt_modNode_ne hj (.setType .trash))
      exact (h2.trans (touched_touchCtime.kept j)).congr (by simp)
    · exact (h1.trans (keptAt_modNode_ne hj (.setType .sustained))).congr (by simp)
    · exact (h1.trans (.of_eq (fsnodesRemoveNode_nodes_ne _ hj))).congr (by simp)
  · exact h1

/-- To the patterns a kept node is the node it was, up to the mark. -/
theorem KeptAt.sameForced {t : Master} {ds : List Nat} (h : KeptAt ds s t i)
    {b : Bool} (hb : decide (i ∈ ds) = b) :
    Option.Rel SameForced ((s.nodes i).map (.setEattrAfter b)) (t.nodes i) := by
  cases hs : s.nodes i with
  | none =>
    rw [h.none hs]
    exact .none
  | some n =>
    obtain ⟨n', hn', hk⟩ := h.some hs
    rw [hn', Option.map_some]
    refine .some ⟨hk.type, hk.sclassid, hk.trashretention, ?_⟩
    rw [hk.eattr, hb]
    rfl

/-- The last link of a node, renamed to itself: the node goes where unlinking leads. -/
theorem fsnodesUnlink_last (h : ((s.fsnodesRemoveEdge ts e).parents e.child).isEmpty = true) :
    KeptAt e.parent.toList
      (match s.unlinkDest e with
        | .trash _ => s.modNode e.child (.setType .trash)
        | .sustained _ => s.modNode e.child (.setType .sustained)
        | .removed => { s with nodes := fun j => if j = e.child then none else s.nodes j })
      (s.fsnodesUnlink ts e) e.child := by
  have h1 := nodesKept_fsnodesRemoveEdge s ts e e.child
  -- a change of the type commutes with everything that keeps the node
  have htype : ∀ {ds : List Nat} {t : Master} (type : NodeType), KeptAt ds s t e.child →
      KeptAt ds (s.modNode e.child (.setType type)) (t.modNode e.child (.setType type)) e.child := by
    intro ds t type hk
    unfold KeptAt modNode
    dsimp only
    rw [if_pos rfl, if_pos rfl]
    cases hs : s.nodes e.child with
    | none =>
      rw [hk.none hs]
      exact .none
    | some n =>
      obtain ⟨n', hn', hkept⟩ := hk.some hs
      rw [hn']
      exact .some { hkept with type := rfl }
  unfold fsnodesUnlink
  rw [if_pos h]
  cases s.unlinkDest e with
  | trash path =>
    exact ((htype .trash h1).trans (touched_touchCtime.kept e.child)).congr (by simp)
  | sustained path => exact htype .sustained h1
  | removed =>
    unfold KeptAt
    dsimp only
    rw [if_pos rfl, fsnodesRemoveNode_nodes_self h]
    exact .none

theorem moveRelink_some {de : FsEdge} (hde : m.de = some de) (hmode : rmode ≠ .exchange) :
    s.moveRelink ts m nameSrc nameDst rmode
      = ((s.fsnodesUnlink ts de).fsnodesRemoveEdge ts
          (if m.se = de then s.freedEdge de else m.se)).fsnodesLink ts m.dwd m.se.child nameDst := by
  unfold moveRelink
  rw [hde]
  cases rmode
  · rfl
  · exact absurd rfl hmode
  · rfl

/-- Away from the last link renamed to itself, relinking keeps the moved node. -/
theorem keptAt_moveRelink (hm : m.Linked s) (ts : UInt32) (nameSrc nameDst : Name)
    (hmode : rmode ≠ .exchange) (hlast : ¬ (m.de = some m.se ∧ (s.parents m.se.child).length = 1)) :
    KeptAt [m.swd, m.dwd] s (s.moveRelink ts m nameSrc nameDst rmode) m.se.child := by
  have hse : m.se.parent.toList = [m.swd] := by rw [hm.se_parent, Option.toList_some]
  cases hde : m.de with
  | none =>
    have h1 := nodesKept_fsnodesRemoveEdge s ts m.se m.se.child
    rw [hse] at h1
    unfold moveRelink
    rw [hde]
    cases rmode <;> exact h1.trans (nodesKept_fsnodesLink m.se.child)
  | some de =>
    have hdp : de.parent.toList = [m.dwd] := by rw [hm.de_parent de hde, Option.toList_some]
    -- the moved node has another edge than the one unlinked
    have hlen : m.se.child = de.child → ¬ (s.parents de.child).length = 1 := by
      intro hchild hlen
      obtain ⟨x, hx⟩ := List.length_eq_one_iff.mp hlen
      have hmem : ∀ e ∈ s.edges, e.child = de.child → e = x := by
        intro e he hc
        have : e ∈ s.parents de.child := List.mem_filter.mpr ⟨he, beq_iff_eq.mpr hc⟩
        rw [hx] at this
        exact List.mem_singleton.mp this
      have heq := (hmem _ hm.se_mem hchild).trans (hmem _ (hm.de_mem de hde) rfl).symm
      exact hlast ⟨by rw [hde, heq], by rw [hchild, hlen]⟩
    have hunlink : KeptAt [m.dwd] s (s.fsnodesUnlink ts de) m.se.child := by
      rw [← hdp]
      by_cases hchild : m.se.child = de.child
      · -- only the edge is removed
        rw [fsnodesUnlink, if_neg
          (mt (isEmpty_parents_fsnodesRemoveEdge (hm.de_mem de hde) ts).mp (hlen hchild))]
        exact nodesKept_fsnodesRemoveEdge s ts de m.se.child
      · exact keptAt_fsnodesUnlink_ne s ts hchild
    -- the freed record still holds the edge
    have hfreed : (if m.se = de then s.freedEdge de else m.se) = m.se := by
      split
      next heq =>
        rw [heq]
        exact if_neg (hlen (congrArg FsEdge.child heq))
      · rfl
    have h2 := nodesKept_fsnodesRemoveEdge (s.fsnodesUnlink ts de) ts m.se m.se.child
    rw [hse] at h2
    rw [moveRelink_some hde hmode, hfreed]
    exact ((hunlink.trans h2).trans
      (nodesKept_fsnodesLink m.se.child)).congr
        (by simp only [List.mem_append, List.mem_cons, List.not_mem_nil, or_false]; tauto)

/-- The record that was freed with `e` is `e` or an edge of the trash. -/
theorem freedEdge_cases : s.freedEdge e = e ∨ (s.freedEdge e).parent = none := by
  unfold freedEdge
  split
  · split
    · split
      · exact .inr rfl
      · exact .inl rfl
    · split
      · exact .inr rfl
      · exact .inl rfl
    · exact .inl rfl
  · exact .inl rfl

theorem freedEdge_parent (h : e.parent = some d) : ∀ i ∈ (s.freedEdge e).parent.toList, i = d := by
  intro i hi
  rcases freedEdge_cases with heq | hnone
  · rw [heq, h] at hi
    exact List.mem_singleton.mp hi
  · rw [hnone] at hi
    cases hi

/-- What a rename makes of the moved node before the patterns. -/
theorem moveRelink_node (hm : m.Linked s) (ts : UInt32)
    (nameSrc nameDst : Name) (hmode : rmode ≠ .exchange) :
    Option.Rel SameForced (s.movedNode m)
      ((s.moveRelink ts m nameSrc nameDst rmode).nodes m.se.child) := by
  by_cases hlast : m.de = some m.se ∧ (s.parents m.se.child).length = 1
  · -- unlinked, then counted down once more, then linked again
    have hdp := hm.de_parent m.se hlast.1
    have hdirs : m.swd = m.dwd := Option.some_inj.mp (hm.se_parent.symm.trans hdp)
    have hempty := (isEmpty_parents_fsnodesRemoveEdge hm.se_mem ts).mpr hlast.2
    have h1 := fsnodesUnlink_last hempty
    have h2 := nodesKept_fsnodesRemoveEdge (s.fsnodesUnlink ts m.se) ts (s.freedEdge m.se) m.se.child
    have h3 := (h1.trans h2).trans
      (@nodesKept_fsnodesLink ts _ m.dwd m.se.child nameDst m.se.child)
    have hmem : m.se.child ∈ [m.swd, m.dwd]
        ↔ m.se.child ∈ m.se.parent.toList ++ (s.freedEdge m.se).parent.toList ++ [m.dwd] := by
      have hfreed := freedEdge_parent (s := s) hdp m.se.child
      simp only [hdp, hdirs, Option.toList_some, List.mem_append, List.mem_cons,
        List.not_mem_nil, or_false, or_self]
      tauto
    have h4 := (h3.congr hmem).sameForced rfl
    rw [moveRelink_some hlast.1 hmode, if_pos rfl]
    unfold movedNode
    cases hn : s.nodes m.se.child with
    | none =>
      cases hdest : s.unlinkDest m.se <;> rw [hdest] at h4 <;>
        simpa only [modNode, hn, if_pos, Option.map_none, Option.bind_none] using h4
    | some n =>
      rw [Option.bind_some, if_pos hlast]
      cases hdest : s.unlinkDest m.se <;> rw [hdest] at h4 <;>
        simp only [modNode, hn, if_pos, Option.map_none, Option.map_some] at h4 <;> exact h4
  · have h1 := (keptAt_moveRelink hm ts nameSrc nameDst hmode hlast).sameForced rfl
    rw [Option.map_eq_bind] at h1
    simpa only [movedNode, if_neg hlast, Function.comp_def] using h1

/-! ## §2. The patterns on the moved node. -/

theorem fsnodesChangefilesclassid_nodes {n : FsNode} (hn : s.nodes i = some n) :
    (s.fsnodesChangefilesclassid i k).nodes = (s.modNode i (.setSclassid k)).nodes := by
  have hfold := List.foldlRecOn (motive := fun t : Master => t.nodes = s.nodes)
    n.chunktab (fun s chunkid =>
      if 0 < chunkid ∧ n.sclassid ≠ k then
        s.modChunk chunkid fun c => (chunkChangeFileInt s.sclasses c n.sclassid k).2
      else s) rfl fun t ht chunkid _ => by split <;> exact ht
  unfold fsnodesChangefilesclassid
  rw [hn]
  show (fun j => if j = i then Option.map _ (Master.nodes _ j) else Master.nodes _ j) = _
  rw [hfold]
  rfl

/-- A pattern on a renamed node does what it does to a new one. -/
theorem applyForced_nodes {fc : Forced} :
    (s.applyForced fc i).nodes j = if j = i then (s.nodes j).map fc.onNew else s.nodes j := by
  unfold applyForced
  cases hn : s.nodes i with
  | none =>
    dsimp only
    split
    next hj => rw [hj, hn, Option.map_none]
    · rfl
  | some n =>
    have hclass : (if fc.classOf n = n.sclassid then s
        else if n.type = .file then s.fsnodesChangefilesclassid i (fc.classOf n)
        else s.modNode i (.setSclassid (fc.classOf n))).nodes
          = (s.modNode i (.setSclassid (fc.classOf n))).nodes := by
      split
      next hsame =>
        funext j
        rw [modNode_nodes, hsame]
        split
        next hj => rw [hj, hn]; rfl
        · rfl
      · split
        · exact fsnodesChangefilesclassid_nodes hn
        · rfl
    dsimp only
    rw [modNode_nodes, hclass, modNode_nodes]
    split
    next hj =>
      rw [hj, hn]
      rfl
    · rfl

theorem dataOnly_fsnodesChangefilesclassid : DataOnly s (s.fsnodesChangefilesclassid i k) := by
  unfold fsnodesChangefilesclassid
  split
  · exact .refl s
  next n _ =>
  have hstep : ∀ (s : Master) (chunkid : Nat), DataOnly s
      (if 0 < chunkid ∧ n.sclassid ≠ k then
        s.modChunk chunkid fun c => (chunkChangeFileInt s.sclasses c n.sclassid k).2
      else s) := by
    intro s chunkid
    split
    · exact ⟨_, _, _, _, rfl⟩
    · exact .refl s
  have h1 := (DataOnly.foldl hstep n.chunktab s).trans
    (dataOnly_modNode (i := i) (f := .setSclassid k))
  exact h1.trans ⟨_, _, _, _, rfl⟩

theorem dataOnly_applyForced {fc : Forced} : DataOnly s (s.applyForced fc i) := by
  unfold applyForced
  split
  · exact .refl s
  next n _ =>
  refine DataOnly.trans ?_ dataOnly_modNode
  split
  · exact .refl s
  split
  · exact dataOnly_fsnodesChangefilesclassid
  · exact dataOnly_modNode

theorem applyForced_edges {fc : Forced} :
    (s.applyForced fc i).edges = s.edges :=
  dataOnly_applyForced.edges

/-- After equal relinking, what the patterns do to the moved node decides. -/
theorem sameNamespace_applyForced_iff {r r' : Master} (h : SameNs r r') (a b : Forced) (i : Nat) :
    SameNamespace (r'.applyForced a i) (r.applyForced b i)
      ↔ ∀ n, r.nodes i = some n → ForcesAgree a b n := by
  constructor
  · intro hsame n hn
    have hi := hsame.2 i
    rw [applyForced_nodes, applyForced_nodes, if_pos rfl, if_pos rfl, h.nodes, hn, Option.map_some,
      Option.map_some, Option.map_some, Option.map_some, Option.some_inj] at hi
    exact nodeView_onNew_eq_iff.mp hi.symm
  · intro hagree
    refine ⟨?_, ?_⟩
    · rw [applyForced_edges, applyForced_edges, h.edges]
    intro j
    rw [applyForced_nodes, applyForced_nodes, h.nodes]
    split
    next hj =>
      rw [hj]
      cases hn : r.nodes i with
      | none => rfl
      | some n =>
        simp only [Option.map_some]
        rw [nodeView_onNew_eq_iff.mpr (hagree n hn)]
    · rfl

/-- Relinking is the same on both sides; the patterns found for the caller and for uid 0
without groups must do the same to the moved node. -/
theorem moveBody_replays_iff {s' : Master} (h : SameNs s s') (hm : m.Linked s) {c c' : Cred} :
    SameNamespace (s'.moveBody ts m nameSrc nameDst rmode c).2
        (s.moveBody ts m nameSrc nameDst rmode c').2
      ↔ (rmode ≠ .exchange → ∀ n, s.movedNode m = some n →
        ForcesAgree (patternsFindMatching s.patterns c nameDst)
          (patternsFindMatching s.patterns c' nameDst) n) := by
  have hrelink := h.moveRelink ts m nameSrc nameDst rmode
  have hpat : s'.patterns = s.patterns := by
    obtain ⟨st, ra, rfl⟩ := h
    rfl
  unfold moveBody
  by_cases hmode : rmode = .exchange
  · rw [if_pos hmode, if_pos hmode]
    refine iff_of_true ⟨hrelink.edges.symm, ?_⟩ (fun hne => absurd hmode hne)
    intro i
    rw [hrelink.nodes]
  · rw [if_neg hmode, if_neg hmode, hpat, sameNamespace_applyForced_iff hrelink]
    have hnode := moveRelink_node hm ts nameSrc nameDst hmode
    generalize s.movedNode m = o, Master.nodes _ _ = o' at hnode ⊢
    cases hnode with
    | none => simp
    | some hforced =>
      simp only [Option.some_inj, forall_eq']
      rw [ForcesAgree.congr hforced]
      exact ⟨fun hagree _ => hagree, fun hagree => hagree hmode⟩

end MfsMaster.Master
