/-
  MfsMaster.Fs.Frame
  **WHAT LINKING AND UNLINKING LEAVE ALONE.**

  Removing and adding edges touches counters, times and `keepmode` of nodes, takes the
  snapshot mark off the directories concerned, and changes nothing else of a node:
  `NodesKept ds s t`, where `ds` are the directories that lost their mark.
-/
import MfsMaster.Fs.Edges

namespace MfsMaster

/-- `eattr` after the snapshot mark was taken off, or not. -/
def eattrAfter (cleared : Bool) (n : FsNode) : UInt8 :=
  if cleared then n.eattr &&& ~~~eattrSnapshot else n.eattr

def FsNode.setEattrAfter (cleared : Bool) (n : FsNode) : FsNode :=
  { n with eattr := eattrAfter cleared n }

/-- `n'` is `n` up to counters, `ctime`, `mtime`, `keepmode` and the snapshot mark, which is
taken off when `cleared`. -/
structure Kept (cleared : Bool) (n n' : FsNode) : Prop where
  type : n'.type = n.type
  atime : n'.atime = n.atime
  uid : n'.uid = n.uid
  gid : n'.gid = n.gid
  aclpermflag : n'.aclpermflag = n.aclpermflag
  acldefflag : n'.acldefflag = n.acldefflag
  mode : n'.mode = n.mode
  sclassid : n'.sclassid = n.sclassid
  winattr : n'.winattr = n.winattr
  trashretention : n'.trashretention = n.trashretention
  length : n'.length = n.length
  chunktab : n'.chunktab = n.chunktab
  path : n'.path = n.path
  rdev : n'.rdev = n.rdev
  eattr : n'.eattr = eattrAfter cleared n

theorem Kept.refl (n : FsNode) : Kept false n n := by
  constructor <;> rfl

theorem Kept.trans {x y : Bool} {a b c : FsNode} (h : Kept x a b) (h' : Kept y b c) :
    Kept (x || y) a c where
  type := h'.type.trans h.type
  atime := h'.atime.trans h.atime
  uid := h'.uid.trans h.uid
  gid := h'.gid.trans h.gid
  aclpermflag := h'.aclpermflag.trans h.aclpermflag
  acldefflag := h'.acldefflag.trans h.acldefflag
  mode := h'.mode.trans h.mode
  sclassid := h'.sclassid.trans h.sclassid
  winattr := h'.winattr.trans h.winattr
  trashretention := h'.trashretention.trans h.trashretention
  length := h'.length.trans h.length
  chunktab := h'.chunktab.trans h.chunktab
  path := h'.path.trans h.path
  rdev := h'.rdev.trans h.rdev
  eattr := by
    -- clearing the mark twice is clearing it once
    have hidem : ∀ e : UInt8, e &&& ~~~eattrSnapshot &&& ~~~eattrSnapshot
        = e &&& ~~~eattrSnapshot := fun e => by rw [UInt8.and_assoc, UInt8.and_self]
    rw [h'.eattr]
    unfold eattrAfter
    rw [h.eattr]
    cases x <;> cases y <;> simp [eattrAfter, hidem]

variable {ts : UInt32} {u : Master} {ds' : List Nat} {f : FsNode → FsNode} {e : FsEdge}

namespace FsNode

theorem kept_addElements (d : Int) (n : FsNode) : Kept false n (n.addElements d) := by
  constructor <;> rfl

theorem kept_addNlink {d : Int} (n : FsNode) : Kept false n (n.addNlink d) := by
  constructor <;> rfl

theorem kept_setCtime (n : FsNode) : Kept false n (n.setCtime ts) := by
  constructor <;> rfl

theorem kept_setMtimeCtime (n : FsNode) : Kept false n (n.setMtimeCtime ts) := by
  constructor <;> rfl

theorem kept_setKeepmode {b : Bool} (n : FsNode) : Kept false n (n.setKeepmode b) := by
  constructor <;> rfl

theorem kept_clearSnapshot (n : FsNode) : Kept true n n.clearSnapshot := by
  constructor <;> rfl

end FsNode

variable {ds : List Nat} {i : Nat} {s t : Master}

namespace Master

variable {parent child : Nat} {name : Name}

/-- The node `i` of `t` is the node `i` of `s`, without its mark if it is one of `ds`. -/
def KeptAt (ds : List Nat) (s t : Master) (i : Nat) : Prop :=
  Option.Rel (Kept (decide (i ∈ ds))) (s.nodes i) (t.nodes i)

/-- Every node of `t` is the node of `s`, without its mark if it is one of `ds`. -/
def NodesKept (ds : List Nat) (s t : Master) : Prop :=
  ∀ i, KeptAt ds s t i

theorem KeptAt.of_eq (h : t.nodes i = s.nodes i) : KeptAt [] s t i := by
  unfold KeptAt
  rw [h]
  cases s.nodes i with
  | none => exact .none
  | some n => exact .some (.refl n)

theorem KeptAt.trans (h : KeptAt ds s t i) (h' : KeptAt ds' t u i) : KeptAt (ds ++ ds') s u i := by
  unfold KeptAt at h h' ⊢
  have hdec : decide (i ∈ ds ++ ds') = (decide (i ∈ ds) || decide (i ∈ ds')) := by
    simp [List.mem_append]
  rw [hdec]
  revert h h'
  cases s.nodes i <;> cases t.nodes i <;> cases u.nodes i <;> intro h h' <;> cases h <;> cases h'
  · exact .none
  next h1 h2 => exact .some (h1.trans h2)

/-- Only membership in the list of directories matters. -/
theorem KeptAt.congr (h : KeptAt ds s t i) (hmem : i ∈ ds' ↔ i ∈ ds) : KeptAt ds' s t i := by
  unfold KeptAt at h ⊢
  rw [decide_eq_decide.mpr hmem]
  exact h

/-- A node that was there is there, and keeps what `Kept` says. -/
theorem KeptAt.some (h : KeptAt ds s t i) {n : FsNode} (hn : s.nodes i = some n) :
    ∃ n', t.nodes i = Option.some n' ∧ Kept (decide (i ∈ ds)) n n' := by
  unfold KeptAt at h
  rw [hn] at h
  generalize t.nodes i = o at h
  cases h with
  | some hk => exact ⟨_, rfl, hk⟩

theorem KeptAt.none (h : KeptAt ds s t i) (hn : s.nodes i = none) : t.nodes i = Option.none := by
  unfold KeptAt at h
  rw [hn] at h
  generalize t.nodes i = o at h
  cases h
  rfl

theorem KeptAt.map {α : Type} {f : FsNode → α} (h : KeptAt ds s t i)
    (hf : ∀ n n', Kept (decide (i ∈ ds)) n n' → f n' = f n) :
    (t.nodes i).map f = (s.nodes i).map f := by
  cases hs : s.nodes i with
  | none => rw [h.none hs]
  | some n =>
    obtain ⟨n', hn', hk⟩ := h.some hs
    rw [hn', Option.map_some, Option.map_some, hf n n' hk]

theorem NodesKept.of_eq (h : t.nodes = s.nodes) : NodesKept [] s t :=
  fun i => .of_eq (congrFun h i)

theorem NodesKept.refl (s : Master) : NodesKept [] s s := .of_eq rfl

theorem NodesKept.trans (h : NodesKept ds s t)
    (h' : NodesKept ds' t u) : NodesKept (ds ++ ds') s u :=
  fun i => (h i).trans (h' i)

theorem NodesKept.congr (h : NodesKept ds s t) (hmem : ∀ i, i ∈ ds' ↔ i ∈ ds) : NodesKept ds' s t :=
  fun i => (h i).congr (hmem i)

theorem KeptAt.typeOf (h : KeptAt ds s t i) : t.typeOf i = s.typeOf i :=
  h.map fun _ _ hk => hk.type

theorem nodesKept_modNode (hf : ∀ n, Kept false n (f n)) : NodesKept [] s (s.modNode i f) := by
  intro j
  unfold KeptAt modNode
  dsimp only
  split
  · cases s.nodes j with
    | none => exact .none
    | some n => exact .some (hf n)
  · exact NodesKept.refl s j

theorem nodesKept_clearSnapshot : NodesKept [i] s (s.modNode i .clearSnapshot) := by
  intro j
  unfold KeptAt modNode
  dsimp only
  split
  next hj =>
    subst hj
    simp only [List.mem_singleton, decide_true]
    cases s.nodes j with
    | none => exact .none
    | some n => exact .some n.kept_clearSnapshot
  next hj =>
    exact (KeptAt.of_eq (s := s) (t := s) rfl).congr (by simp [hj])

/-! ## §2. Functions that change nodes, chunks and statistics only. -/

/-- The state with other nodes, chunks, statistics and ratios. -/
def withData (s : Master) (ns : Nat → Option FsNode) (ch : Nat → Option Chunk)
    (st : Nat → StatsRecord) (ra : Nat → UInt8) : Master :=
  { s with nodes := ns, chunks := ch, stats := st, realsizeRatio := ra }

/-- `t` is `s` up to nodes, chunks, statistics and ratios. -/
def DataOnly (s t : Master) : Prop :=
  ∃ ns ch st ra, t = s.withData ns ch st ra

theorem DataOnly.refl (s : Master) : DataOnly s s := ⟨_, _, _, _, rfl⟩

theorem DataOnly.trans (h : DataOnly s t) (h' : DataOnly t u) : DataOnly s u := by
  obtain ⟨ns, ch, st, ra, rfl⟩ := h
  obtain ⟨ns', ch', st', ra', rfl⟩ := h'
  exact ⟨ns', ch', st', ra', rfl⟩

theorem DataOnly.edges (h : DataOnly s t) : t.edges = s.edges := by
  obtain ⟨ns, ch, st, ra, rfl⟩ := h
  rfl

theorem DataOnly.sclasses (h : DataOnly s t) : t.sclasses = s.sclasses := by
  obtain ⟨ns, ch, st, ra, rfl⟩ := h
  rfl

theorem DataOnly.pool (h : DataOnly s t) : t.pool = s.pool := by
  obtain ⟨ns, ch, st, ra, rfl⟩ := h
  rfl

theorem DataOnly.foldl {α : Type} {f : Master → α → Master} (hf : ∀ s a, DataOnly s (f s a))
    (l : List α) (s : Master) : DataOnly s (l.foldl f s) :=
  List.foldlRecOn (motive := DataOnly s) l f (.refl s) fun t ht a _ => ht.trans (hf t a)

theorem dataOnly_modNode :
    DataOnly s (s.modNode i f) := ⟨_, _, _, _, rfl⟩

/-- A change that keeps the data apart from the edges can be made before or after an edge is
taken out. -/
theorem DataOnly.eraseEdge (h : DataOnly s t) : DataOnly (s.eraseEdge e) (t.eraseEdge e) := by
  obtain ⟨ns, ch, st, ra, rfl⟩ := h
  exact ⟨ns, ch, st, ra, rfl⟩

theorem DataOnly.addEdge (h : DataOnly s t) (e : FsEdge) :
    DataOnly (s.addEdge e) (t.addEdge e) := by
  obtain ⟨ns, ch, st, ra, rfl⟩ := h
  exact ⟨ns, ch, st, ra, rfl⟩

/-! ## §3. Functions that touch nodes and chunks. -/

/-- `t` is `s` up to what `Kept` leaves open of the nodes, statistics and ratios, and what
chunks hold besides their files. -/
structure Touched (ds : List Nat) (s t : Master) : Prop where
  kept : NodesKept ds s t
  only : DataOnly s t
  files : ∀ c, (t.chunks c).map Chunk.files = (s.chunks c).map Chunk.files

theorem Touched.of_eq (h : DataOnly s t) (hn : t.nodes = s.nodes) (hc : t.chunks = s.chunks) :
    Touched [] s t := ⟨.of_eq hn, h, fun c => by rw [hc]⟩

theorem Touched.refl (s : Master) : Touched [] s s := .of_eq (.refl s) rfl rfl

theorem Touched.trans (h : Touched ds s t) (h' : Touched ds' t u) : Touched (ds ++ ds') s u :=
  ⟨h.kept.trans h'.kept, h.only.trans h'.only, fun c => (h'.files c).trans (h.files c)⟩

theorem Touched.congr (h : Touched ds s t) (hmem : ∀ i, i ∈ ds' ↔ i ∈ ds) :
    Touched ds' s t := { h with kept := h.kept.congr hmem }

theorem Touched.eraseEdge (h : Touched ds s t) :
    Touched ds (s.eraseEdge e) (t.eraseEdge e) := ⟨h.kept, h.only.eraseEdge, h.files⟩

theorem touched_modNode (s : Master) (i : Nat)
    (hf : ∀ n, Kept false n (f n)) : Touched [] s (s.modNode i f) :=
  ⟨nodesKept_modNode hf, dataOnly_modNode, fun _ => rfl⟩

theorem touched_clearSnapshot : Touched [i] s (s.modNode i .clearSnapshot) :=
  ⟨nodesKept_clearSnapshot, dataOnly_modNode, fun _ => rfl⟩

theorem touched_modChunk (s : Master) (chunkid : Nat) {f : Chunk → Chunk}
    (hf : ∀ c, (f c).files = c.files) : Touched [] s (s.modChunk chunkid f) := by
  refine ⟨.of_eq rfl, ⟨_, _, _, _, rfl⟩, fun c => ?_⟩
  unfold modChunk
  dsimp only
  split
  · rw [Option.map_map]
    exact congrArg (fun g => (s.chunks c).map g) (funext hf)
  · rfl

/-- What setting the flag of a chunk keeps, setting those of a table keeps. -/
theorem setArchflags_kept {P : Master → Prop} {flag : Bool}
    (hP : ∀ s chunkid, P s → P (s.modChunk chunkid fun c => (chunkSetArchflagInt c flag).1))
    (tab : List Nat) {s : Master} (hs : P s) : P (s.setArchflags flag tab).1 := by
  induction tab generalizing s with
  | nil => exact hs
  | cons chunkid tab ih =>
    unfold setArchflags
    split
    · refine ih ?_
      unfold chunkSetArchflag
      split
      · exact hs
      · exact hP s chunkid hs
    · exact ih hs

theorem touched_setArchflags {flag : Bool} {tab : List Nat} :
    Touched [] s (s.setArchflags flag tab).1 :=
  setArchflags_kept (fun t c h => h.trans (touched_modChunk t c fun _ => rfl)) tab (.refl s)

theorem touched_fsnodesCheckarchmode {f : UInt8} :
    Touched [] s (s.fsnodesCheckarchmode i ts f).1 := by
  unfold fsnodesCheckarchmode
  split
  · exact .refl s
  dsimp only
  split
  · exact touched_setArchflags.trans
      (touched_modNode _ i FsNode.kept_setKeepmode)
  · exact .refl s

theorem touched_touchCtime :
    Touched [] s (s.touchCtime i ts) :=
  (touched_modNode s i FsNode.kept_setCtime).trans touched_fsnodesCheckarchmode

theorem touched_countEdge {d : Int} : Touched [] s (s.countEdge parent child d) := by
  have h1 := touched_modNode s parent (FsNode.kept_addElements d)
  unfold countEdge
  dsimp only
  split
  · exact h1.trans (touched_modNode _ parent FsNode.kept_addNlink)
  · exact h1.trans (touched_modNode _ child FsNode.kept_addNlink)

theorem touched_touchDir : Touched [parent] s (s.touchDir parent ts) :=
  (touched_modNode s parent FsNode.kept_setMtimeCtime).trans touched_clearSnapshot

theorem touched_uncountEdge : Touched e.parent.toList s (s.uncountEdge ts e) := by
  unfold uncountEdge
  cases e.parent with
  | none => exact .refl s
  | some p =>
    have h1 : Touched [] s (s.fsnodesSubStats p (s.fsnodesGetStats e.child)) :=
      .of_eq ⟨_, _, _, _, rfl⟩ rfl rfl
    exact (h1.trans touched_countEdge).trans touched_touchDir

theorem touched_fsnodesRemoveEdge (s : Master) (ts : UInt32) :
    Touched e.parent.toList (s.eraseEdge e) (s.fsnodesRemoveEdge ts e) := by
  refine Touched.eraseEdge ?_
  split
  · exact (touched_uncountEdge.trans touched_touchCtime).congr (by simp)
  · exact touched_uncountEdge

theorem touched_fsnodesLink (s : Master) (ts : UInt32) :
    Touched [parent] (s.addEdge ⟨some parent, name, child⟩)
      (s.fsnodesLink ts parent child name) := by
  have h1 : Touched [parent] (s.addEdge ⟨some parent, name, child⟩)
      (s.linkEdge ⟨some parent, name, child⟩ parent) :=
    (touched_countEdge.trans touched_clearSnapshot).trans
      (.of_eq ⟨_, _, _, _, rfl⟩ rfl rfl)
  unfold fsnodesLink
  split
  · refine ((h1.trans touched_touchDir).trans
      touched_touchCtime).congr ?_
    simp
  · exact h1

theorem nodesKept_fsnodesRemoveEdge (s : Master) (ts : UInt32) (e : FsEdge) :
    NodesKept e.parent.toList s (s.fsnodesRemoveEdge ts e) := (touched_fsnodesRemoveEdge s ts).kept

theorem nodesKept_fsnodesLink :
    NodesKept [parent] s (s.fsnodesLink ts parent child name) :=
  (touched_fsnodesLink s ts).kept

@[simp] theorem fsnodesRemoveEdge_edges (s : Master) (ts : UInt32) (e : FsEdge) :
    (s.fsnodesRemoveEdge ts e).edges = s.edges.erase e :=
  (touched_fsnodesRemoveEdge s ts).only.edges

@[simp] theorem fsnodesLink_edges :
    (s.fsnodesLink ts parent child name).edges = ⟨some parent, name, child⟩ :: s.edges :=
  (touched_fsnodesLink s ts).only.edges

theorem touched_fsnodesSettrashflag {flag : Bool} :
    Touched [] s (s.fsnodesSettrashflag i flag) := by
  unfold fsnodesSettrashflag
  split
  · exact .refl s
  refine List.foldlRecOn (motive := Touched [] s) _ _ (.refl s) fun t ht chunkid _ => ?_
  split
  · refine ht.trans (touched_modChunk t chunkid fun c => ?_)
    unfold chunkSetTrashflagInt
    split <;> rfl
  · exact ht

theorem dataOnly_relink {p : Nat} :
    DataOnly ((s.addEdge ⟨some p, name, e.child⟩).eraseEdge e) (s.relink ts e p name) := by
  have h1 : DataOnly s ((s.modNode e.child (.setType .file)).touchCtime e.child ts) :=
    dataOnly_modNode.trans touched_touchCtime.only
  have h2 := (h1.addEdge ⟨some p, name, e.child⟩).trans
    (touched_fsnodesLink _ ts).only
  exact (h2.eraseEdge.trans (touched_fsnodesRemoveEdge _ ts).only).trans
    touched_fsnodesSettrashflag.only

@[simp] theorem relink_edges (s : Master) (ts : UInt32) (e : FsEdge) (p : Nat) (name : Name) :
    (s.relink ts e p name).edges = (⟨some p, name, e.child⟩ :: s.edges).erase e :=
  dataOnly_relink.edges

end Master

end MfsMaster
