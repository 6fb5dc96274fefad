/-
  MfsMaster.Data.Refs
  **THE REFERENCES OF CHUNKS, FROM BOTH SIDES.**

  A chunk counts the files it belongs to by storage class (`Chunk.refs`); a file of
  class `k` names chunks in its table.  `Sound` says that the two books agree, with
  what is needed to keep them so: file lists without empty counters, new chunk numbers
  and new inodes that are new.

      SameData   — nothing the books are about has changed
      Retable    — the class and table of one node have changed, and the counters of
                   chunks have gained `gain` and lost `loss`
      Sound.retable — `Retable` keeps `Sound` when gain and loss are what the node
                   gained and lost
-/
import MfsMaster.Lib.Ledger
import MfsMaster.Chunk.Keep
import MfsMaster.Data.Tables
import MfsMaster.Fs.Linked

namespace MfsMaster

/-! ## §1. The two books. -/

/-- A chunk and a storage class. -/
abbrev RefKey := Nat × Nat

/-- The references of a chunk table of a file of class `k`. -/
def tabUses (k : Nat) (tab : List Nat) (a : RefKey) : Nat :=
  if a.1 ≠ 0 ∧ a.2 = k then tab.count a.1 else 0

/-- The class and the chunk table of a node that has them. -/
def FsNode.data (n : FsNode) : Option (Nat × List Nat) :=
  if n.type.hasData then some (n.sclassid, n.chunktab) else none

/-- The references of a node with the given data. -/
def dataUses : Option (Option (Nat × List Nat)) → RefKey → Nat
  | some (some (k, tab)), a => tabUses k tab a
  | _, _ => 0

namespace Master

/-- The data of the node `i`. -/
def dataAt (s : Master) (i : Nat) : Option (Option (Nat × List Nat)) :=
  (s.nodes i).map FsNode.data

/-- The references the node `i` holds. -/
def uses (s : Master) (i : Nat) (a : RefKey) : Nat := dataUses (s.dataAt i) a

/-- The references a chunk counts. -/
def refsOf (s : Master) (a : RefKey) : Nat :=
  match s.chunks a.1 with
  | some c => c.refs a.2
  | none => 0

/-- File lists have no empty counter, and the next chunk number is not in use. -/
structure ChunksOk (s : Master) : Prop where
  pos : 0 < s.nextchunkid
  fresh : ∀ c, s.nextchunkid ≤ c → s.chunks c = none
  files : ∀ c ch, s.chunks c = some ch → ch.FilesWf

/-- The pool knows every node. -/
def PoolOk (s : Master) : Prop :=
  s.pool.Covers fun i => (s.nodes i).isSome = true

/-- **The books agree.** -/
structure Sound (s : Master) : Prop where
  balanced : Lib.Balanced s.uses s.refsOf
  chunks : s.ChunksOk
  pool : s.PoolOk

/-! ## §2. Tables. -/

end Master

variable {i chunkid : Nat} {tab : List Nat} {a : RefKey} {c : Chunk} {f : Chunk → Chunk}
  {s t : Master} {u : Master} {k : Nat} {g g' l l' gain loss : RefKey → Nat} {o : Option Nat}

section Tab

variable (k : Nat) (a : RefKey)

@[simp] theorem tabUses_nil : tabUses k [] a = 0 := by
  unfold tabUses
  split <;> rfl

theorem tabUses_cons (c : Nat) (tab : List Nat) :
    tabUses k (c :: tab) a = tabUses k [c] a + tabUses k tab a := by
  unfold tabUses
  split
  · rw [List.count_cons, List.count_singleton, Nat.add_comm]
  · rfl

theorem tabUses_append (tab tab' : List Nat) :
    tabUses k (tab ++ tab') a = tabUses k tab a + tabUses k tab' a := by
  unfold tabUses
  split
  · exact List.count_append
  · rfl

@[simp] theorem tabUses_zero : tabUses k [0] a = 0 := by
  unfold tabUses
  split
  next h => rw [List.count_singleton, if_neg (by simpa using h.1.symm)]
  · rfl

@[simp] theorem tabUses_replicate_zero (n : Nat) : tabUses k (List.replicate n 0) a = 0 := by
  induction n with
  | zero => exact tabUses_nil k a
  | succ n ih => rw [List.replicate_succ, tabUses_cons, tabUses_zero, ih]

theorem tabUses_growTab (n : Nat) (tab : List Nat) :
    tabUses k (growTab n tab) a = tabUses k tab a := by
  unfold growTab
  rw [tabUses_append, tabUses_replicate_zero, Nat.add_zero]

/-- Overwriting an entry gives up the old one. -/
theorem tabUses_set (hi : i < tab.length) (c : Nat) :
    tabUses k (tab.set i c) a + tabUses k [tab.getD i 0] a = tabUses k tab a + tabUses k [c] a := by
  induction tab generalizing i with
  | nil => exact absurd hi (Nat.not_lt_zero i)
  | cons x tab ih =>
    cases i with
    | zero =>
      rw [List.set_cons_zero, List.getD_cons_zero, tabUses_cons k a c tab, tabUses_cons k a x tab]
      omega
    | succ i =>
      have := ih (Nat.lt_of_succ_lt_succ hi)
      rw [List.set_cons_succ, List.getD_cons_succ, tabUses_cons, tabUses_cons k a x tab]
      omega

theorem tabUses_take_drop (n : Nat) (tab : List Nat) :
    tabUses k (tab.take n) a + tabUses k (tab.drop n) a = tabUses k tab a := by
  rw [← tabUses_append, List.take_append_drop]

theorem tabUses_pos {c : Nat} (hc : c ≠ 0) (hmem : c ∈ tab) : 0 < tabUses k tab (c, k) := by
  unfold tabUses
  rw [if_pos ⟨hc, rfl⟩]
  exact List.count_pos_iff.mpr hmem

end Tab

namespace Master

variable {e : FsEdge} {n : FsNode}

/-! ## §3. Nothing changed. -/

/-- Nodes have the same data, chunks the same files, and nothing was made or removed. -/
structure SameData (s t : Master) : Prop where
  nodes : ∀ i, t.dataAt i = s.dataAt i
  chunks : ∀ c, (t.chunks c).map Chunk.files = (s.chunks c).map Chunk.files
  pool : t.pool = s.pool
  next : t.nextchunkid = s.nextchunkid

theorem SameData.of_eq (hn : t.nodes = s.nodes) (hc : t.chunks = s.chunks)
    (hp : t.pool = s.pool) (hx : t.nextchunkid = s.nextchunkid) : SameData s t where
  nodes := fun i => by unfold dataAt; rw [hn]
  chunks := fun c => by rw [hc]
  pool := hp
  next := hx

theorem SameData.refl (s : Master) : SameData s s := .of_eq rfl rfl rfl rfl

theorem SameData.trans (h : SameData s t) (h' : SameData t u) : SameData s u where
  nodes := fun i => (h'.nodes i).trans (h.nodes i)
  chunks := fun c => (h'.chunks c).trans (h.chunks c)
  pool := h'.pool.trans h.pool
  next := h'.next.trans h.next

theorem dataAt_modNode (s : Master) (i j : Nat) (f : FsNode → FsNode) :
    (s.modNode i f).dataAt j = if j = i then (s.nodes j).map fun n => (f n).data else s.dataAt j := by
  unfold dataAt
  rw [modNode_nodes]
  split
  · rw [Option.map_map]
    rfl
  · rfl

theorem sameData_modNode (f : FsNode → FsNode)
    (hf : ∀ n, s.nodes i = some n → (f n).data = n.data) : SameData s (s.modNode i f) where
  nodes := by
    intro j
    rw [dataAt_modNode]
    split
    next hj =>
      subst hj
      unfold dataAt
      cases hn : s.nodes j with
      | none => rfl
      | some n =>
        show some (f n).data = some n.data
        rw [hf n hn]
    · rfl
  chunks := fun _ => rfl
  pool := rfl
  next := rfl

/-- Counters, times and marks are not in the books. -/
theorem KeptAt.dataAt {ds : List Nat} (h : KeptAt ds s t i) : t.dataAt i = s.dataAt i := by
  refine h.map fun n n' hk => ?_
  unfold FsNode.data
  rw [hk.type, hk.sclassid, hk.chunktab]

theorem Touched.sameData {ds : List Nat} (h : Touched ds s t) : SameData s t where
  nodes := fun j => (h.kept j).dataAt
  chunks := h.files
  pool := h.only.pool
  next := by
    obtain ⟨_, _, _, _, rfl⟩ := h.only
    rfl

theorem sameData_putChunk {c' : Chunk} (hc : s.chunks chunkid = some c) (hf : c'.files = c.files) :
    SameData s (s.putChunk chunkid c') where
  nodes := fun _ => rfl
  chunks := by
    intro j
    unfold putChunk
    dsimp only
    split
    next hj =>
      rw [hj, hc]
      exact congrArg some hf
    · rfl
  pool := rfl
  next := rfl

/-- The fields that hold no data of the books may change. -/
theorem sameData_fixRatio : SameData s (s.fixRatio i) :=
  .of_eq rfl rfl rfl rfl

theorem sameData_mapStats {dirs : List Nat} {f : StatsRecord → StatsRecord} :
    SameData s (s.mapStats dirs f) := .of_eq rfl rfl rfl rfl

theorem sameData_fsnodesCheckRealsize :
    SameData s (s.fsnodesCheckRealsize i) := .of_eq rfl rfl rfl rfl

theorem sameData_addEdge : SameData s (s.addEdge e) :=
  .of_eq rfl rfl rfl rfl

theorem sameData_eraseEdge : SameData s (s.eraseEdge e) :=
  .of_eq rfl rfl rfl rfl

theorem touched_touchData (s : Master) (i : Nat) (ts : UInt32) (canmodmtime : Bool) :
    Touched [] s (s.touchData i ts canmodmtime) := by
  unfold touchData
  split
  · exact (touched_modNode s i FsNode.kept_setMtimeCtime).trans
      touched_fsnodesCheckarchmode
  · exact .refl s

/-- What a change of a node and the flag of a chunk keep, touching the data keeps. -/
theorem touchData_kept {P : Master → Prop} (hnode : ∀ s i f, P s → P (s.modNode i f))
    (hchunk : ∀ s chunkid, P s → P (s.modChunk chunkid fun c => (chunkSetArchflagInt c false).1))
    (i : Nat) (ts : UInt32) (canmodmtime : Bool) (hs : P s) : P (s.touchData i ts canmodmtime) := by
  unfold touchData
  split
  · unfold fsnodesCheckarchmode
    split
    · exact hnode s i _ hs
    dsimp only
    split
    · exact hnode _ i _ (setArchflags_kept hchunk _ (hnode s i _ hs))
    · exact hnode s i _ hs
  · exact hs

theorem sameData_fsnodesRemoveEdge {ts : UInt32} :
    SameData s (s.fsnodesRemoveEdge ts e) :=
  sameData_eraseEdge.trans (touched_fsnodesRemoveEdge s ts).sameData

theorem sameData_fsnodesLink (s : Master) (ts : UInt32) (parent child : Nat) (name : Name) :
    SameData s (s.fsnodesLink ts parent child name) :=
  sameData_addEdge.trans (touched_fsnodesLink s ts).sameData

/-! ## §4. One node changes. -/

theorem uses_of_dataAt {j : Nat} (h : t.dataAt i = s.dataAt j) : t.uses i = s.uses j := by
  funext a
  unfold uses
  rw [h]

theorem uses_eq_tabUses
    (h : s.dataAt i = some (some (k, tab))) (a : RefKey) : s.uses i a = tabUses k tab a := by
  unfold uses
  rw [h]
  rfl

theorem dataAt_of_hasData (hn : s.nodes i = some n)
    (hd : n.type.hasData = true) : s.dataAt i = some (some (n.sclassid, n.chunktab)) := by
  unfold dataAt FsNode.data
  rw [hn, Option.map_some, if_pos hd]

theorem isSome_of_dataAt (h : t.dataAt i = s.dataAt i) :
    (t.nodes i).isSome = (s.nodes i).isSome := by
  have := congrArg Option.isSome h
  unfold dataAt at this
  rwa [Option.isSome_map, Option.isSome_map] at this

/-- Nodes other than `i` keep their data, the pool and the chunks stay in order, and the
counters have gained `gain` and lost `loss`. -/
structure Retable (s t : Master) (i : Nat) (gain loss : RefKey → Nat) : Prop where
  nodes : ∀ j, j ≠ i → t.dataAt j = s.dataAt j
  pool : s.PoolOk → t.PoolOk
  chunks : s.ChunksOk → t.ChunksOk
  refs : ∀ a, t.refsOf a + loss a = s.refsOf a + gain a

theorem Retable.trans
    (h : Retable s t i g l) (h' : Retable t u i g' l') : Retable s u i (g + g') (l + l') where
  nodes := fun j hj => (h'.nodes j hj).trans (h.nodes j hj)
  pool := fun hs => h'.pool (h.pool hs)
  chunks := fun hs => h'.chunks (h.chunks hs)
  refs := by
    intro a
    have h1 := h.refs a
    have h2 := h'.refs a
    show u.refsOf a + (l a + l' a) = s.refsOf a + (g a + g' a)
    omega

/-- **The books stay balanced** when the counters change as the node does. -/
theorem Sound.retable (h : s.Sound) (hr : Retable s t i gain loss)
    (hu : ∀ a, gain a + s.uses i a = loss a + t.uses i a) : t.Sound where
  balanced := by
    refine h.balanced.change (fun j hj => uses_of_dataAt (hr.nodes j hj)) fun a => ?_
    have h1 := hr.refs a
    have h2 := hu a
    omega
  chunks := hr.chunks h.chunks
  pool := hr.pool h.pool

theorem refsOf_of_files (h : (t.chunks a.1).map Chunk.files = (s.chunks a.1).map Chunk.files) :
    t.refsOf a = s.refsOf a := by
  unfold refsOf
  cases hs : s.chunks a.1 with
  | none =>
    rw [hs] at h
    rw [Option.map_eq_none_iff.mp h]
  | some c =>
    rw [hs] at h
    obtain ⟨c', hc', hf⟩ := Option.map_eq_some_iff.mp h
    rw [hc']
    exact Chunk.refs_of_files hf a.2

theorem SameData.chunksOk (h : SameData s t) (hs : s.ChunksOk) : t.ChunksOk where
  pos := h.next ▸ hs.pos
  fresh := by
    intro c hc
    have := h.chunks c
    rw [hs.fresh c (h.next ▸ hc)] at this
    exact Option.map_eq_none_iff.mp this
  files := by
    intro c ch hch
    have := h.chunks c
    rw [hch] at this
    obtain ⟨ch', hch', hf⟩ := Option.map_eq_some_iff.mp this.symm
    have hwf := hs.files c ch' hch'
    unfold Chunk.FilesWf at hwf ⊢
    have hhead : ch'.fhead = ch.fhead := congrArg Prod.fst hf
    rwa [← hhead]

theorem SameData.retable (h : SameData s t) (i : Nat) : Retable s t i 0 0 where
  nodes := fun j _ => h.nodes j
  pool := by
    intro hs
    unfold PoolOk
    rw [h.pool]
    exact hs.mono fun j hj => by rwa [isSome_of_dataAt (h.nodes j)] at hj
  chunks := h.chunksOk
  refs := fun a => congrArg (· + 0) (refsOf_of_files (h.chunks a.1))

theorem Sound.sameData (h : s.Sound) (hd : SameData s t) : t.Sound := by
  refine h.retable (hd.retable 0) fun a => ?_
  rw [uses_of_dataAt (hd.nodes 0)]

theorem retable_modNode {f : FsNode → FsNode} : Retable s (s.modNode i f) i 0 0 where
  nodes := by
    intro j hj
    rw [dataAt_modNode, if_neg hj]
  pool := by
    intro hs
    exact hs.mono fun j hj => by rwa [modNode_isSome] at hj
  chunks := fun hs => ⟨hs.pos, hs.fresh, hs.files⟩
  refs := fun _ => rfl

/-! ## §5. Chunks. -/

theorem refsOf_some (hc : s.chunks chunkid = some c)
    (k : Nat) : s.refsOf (chunkid, k) = c.refs k := by
  unfold refsOf
  rw [hc]

theorem isSome_of_refsOf (h : 0 < s.refsOf a) : (s.chunks a.1).isSome = true := by
  unfold refsOf at h
  revert h
  cases s.chunks a.1 with
  | none => exact fun h => absurd h (Nat.lt_irrefl 0)
  | some c => exact fun _ => rfl

theorem retable_chunkAt (hnodes : t.nodes = s.nodes) (hpool : t.pool = s.pool)
    (hnext : s.nextchunkid ≤ t.nextchunkid)
    (hoff : ∀ j, j ≠ chunkid → t.chunks j = s.chunks j ∧ ∀ k, gain (j, k) = loss (j, k))
    (hfresh : s.ChunksOk → t.nextchunkid ≤ chunkid → t.chunks chunkid = none)
    (hwf : s.ChunksOk → ∀ c, t.chunks chunkid = some c → c.FilesWf)
    (hrefs : ∀ k, t.refsOf (chunkid, k) + loss (chunkid, k)
      = s.refsOf (chunkid, k) + gain (chunkid, k)) : Retable s t i gain loss where
  nodes := by
    intro j _
    unfold dataAt
    rw [hnodes]
  pool := by
    intro hs
    unfold PoolOk
    rw [hnodes, hpool]
    exact hs
  chunks := by
    intro hs
    refine ⟨Nat.lt_of_lt_of_le hs.pos hnext, fun j hj => ?_, fun j c hc => ?_⟩
    · by_cases heq : j = chunkid
      · exact heq ▸ hfresh hs (heq ▸ hj)
      · rw [(hoff j heq).1]
        exact hs.fresh j (Nat.le_trans hnext hj)
    · by_cases heq : j = chunkid
      · exact hwf hs c (heq ▸ hc)
      · rw [(hoff j heq).1] at hc
        exact hs.files j c hc
  refs := by
    intro a
    obtain ⟨j, k⟩ := a
    by_cases heq : j = chunkid
    · exact heq ▸ hrefs k
    · rw [refsOf_of_files (congrArg _ (hoff j heq).1), (hoff j heq).2]

theorem retable_modChunk (hc : s.chunks chunkid = some c) (hwf : c.FilesWf → (f c).FilesWf)
    (hrefs : ∀ k, (f c).refs k + loss (chunkid, k) = c.refs k + gain (chunkid, k))
    (hoff : ∀ a, a.1 ≠ chunkid → gain a = loss a) :
    Retable s (s.modChunk chunkid f) i gain loss := by
  have hnew : (s.modChunk chunkid f).chunks chunkid = some (f c) := by
    show (if chunkid = chunkid then (s.chunks chunkid).map f else _) = _
    rw [if_pos rfl, hc]
    rfl
  refine retable_chunkAt rfl rfl (Nat.le_refl _) (fun j hj => ⟨if_neg hj, fun k => hoff _ hj⟩)
    (fun hs hle => ?_) (fun hs c' hc' => ?_) fun k => ?_
  · rw [hs.fresh chunkid hle] at hc
    cases hc
  · cases hnew.symm.trans hc'
    exact hwf (hs.files chunkid c hc)
  · rw [refsOf_some hnew, refsOf_some hc]
    exact hrefs k

theorem tabUses_single_off {c : Nat} (h : a.1 ≠ c) : tabUses k [c] a = 0 := by
  unfold tabUses
  split
  · rw [List.count_singleton, if_neg (by simpa using Ne.symm h)]
  · rfl

theorem tabUses_single {c : Nat} (hc : c ≠ 0) (k' : Nat) :
    tabUses k [c] (c, k') = if k' = k then 1 else 0 := by
  unfold tabUses
  rw [List.count_singleton_self]
  simp only [ne_eq, hc, not_false_eq_true, true_and]

theorem Retable.congr (h : Retable s t i g l)
    (hg : ∀ a, g' a = g a) (hl : ∀ a, l' a = l a) : Retable s t i g' l' := by
  rw [funext hg, funext hl]
  exact h

/-- The references of a table whose file has the class `o`, or is none of the books. -/
def optUses (o : Option Nat) (tab : List Nat) (a : RefKey) : Nat :=
  match o with
  | some k => tabUses k tab a
  | none => 0

@[simp] theorem optUses_nil : optUses o [] a = 0 := by
  cases o with
  | none => rfl
  | some k => exact tabUses_nil k a

theorem optUses_cons (o : Option Nat) (c : Nat) (tab : List Nat) (a : RefKey) :
    optUses o (c :: tab) a = optUses o [c] a + optUses o tab a := by
  cases o with
  | none => rfl
  | some k => exact tabUses_cons k a c tab

@[simp] theorem optUses_zero : optUses o [0] a = 0 := by
  cases o with
  | none => rfl
  | some k => exact tabUses_zero k a

theorem optUses_single {c : Nat} (hc : c ≠ 0) (k : Nat) :
    optUses o [c] (c, k) = if o = some k then 1 else 0 := by
  cases o with
  | none => rfl
  | some k' =>
    show tabUses k' [c] (c, k) = _
    rw [tabUses_single hc]
    simp only [Option.some.injEq, eq_comm (a := k)]

theorem optUses_single_off {c : Nat} (h : a.1 ≠ c) : optUses o [c] a = 0 := by
  cases o with
  | none => rfl
  | some k => exact tabUses_single_off h

/-- One operation on every chunk of a table. -/
def onChunks (s : Master) (h : SClassTab → Chunk → Chunk) (tab : List Nat) : Master :=
  tab.foldl (fun s chunkid => if 0 < chunkid then s.modChunk chunkid (h s.sclasses) else s) s

theorem onChunks_frame (h : SClassTab → Chunk → Chunk) (tab : List Nat) (s : Master) :
    (s.onChunks h tab).nodes = s.nodes ∧ (s.onChunks h tab).pool = s.pool := by
  refine List.foldlRecOn (motive := fun t : Master => t.nodes = s.nodes ∧ t.pool = s.pool)
    tab _ ⟨rfl, rfl⟩ fun t ht c _ => ?_
  split <;> exact ht

/-- The operation counts a class `g` up and a class `l` down, where there is one. -/
def Recounts (h : SClassTab → Chunk → Chunk) (g l : Option Nat) : Prop :=
  ∀ t c, c.FilesWf → (∀ k, l = some k → 0 < c.refs k) →
    (h t c).FilesWf ∧ ∀ k, (h t c).refs k + (if l = some k then 1 else 0)
      = c.refs k + if g = some k then 1 else 0

theorem modChunk_isSome {d : Nat} :
    ((s.modChunk chunkid f).chunks d).isSome = (s.chunks d).isSome := by
  show (if d = chunkid then (s.chunks d).map f else s.chunks d).isSome = _
  split
  · exact Option.isSome_map
  · rfl

/-- **A table is counted chunk by chunk.** -/
theorem retable_onChunks {h : SClassTab → Chunk → Chunk} {g l : Option Nat} (hrec : Recounts h g l)
    (hs : s.ChunksOk) (i : Nat)
    (hex : ∀ c ∈ tab, c ≠ 0 → (s.chunks c).isSome = true)
    (hle : ∀ a, optUses l tab a ≤ s.refsOf a) :
    Retable s (s.onChunks h tab) i (optUses g tab) (optUses l tab) := by
  induction tab generalizing s with
  | nil =>
    exact ((SameData.refl s).retable i).congr (fun a => optUses_nil) fun a => optUses_nil
  | cons c tab ih =>
    have hex' := fun d hd => hex d (List.mem_cons_of_mem c hd)
    unfold onChunks
    rw [List.foldl_cons]
    by_cases hc : 0 < c
    · rw [if_pos hc]
      have hc0 : c ≠ 0 := Nat.pos_iff_ne_zero.mp hc
      obtain ⟨ch, hch⟩ := Option.isSome_iff_exists.mp (hex c List.mem_cons_self hc0)
      -- the class that is counted down is counted, since the whole table is
      have hpos : ∀ k, l = some k → 0 < ch.refs k := by
        intro k hk
        have := hle (c, k)
        rw [optUses_cons, optUses_single hc0, if_pos hk, refsOf_some hch] at this
        omega
      obtain ⟨hwf, hrefs⟩ := hrec s.sclasses ch (hs.files c ch hch) hpos
      have h1 : Retable s (s.modChunk c (h s.sclasses)) i (optUses g [c]) (optUses l [c]) := by
        refine retable_modChunk hch (fun _ => hwf) (fun k => ?_) fun a ha => ?_
        · rw [optUses_single hc0, optUses_single hc0]
          exact hrefs k
        · rw [optUses_single_off ha, optUses_single_off ha]
      have h2 := ih (h1.chunks hs) (fun d hd hd0 => modChunk_isSome.trans (hex' d hd hd0)) fun a => by
        have hr := h1.refs a
        have ha := hle a
        have hcons := optUses_cons l c tab a
        omega
      exact (h1.trans h2).congr (fun a => optUses_cons g c tab a) fun a => optUses_cons l c tab a
    · have hc0 : c = 0 := Nat.eq_zero_of_not_pos hc
      subst hc0
      rw [if_neg hc]
      have h0 : ∀ o a, optUses o (0 :: tab) a = optUses o tab a := by
        intro o a
        rw [optUses_cons, optUses_zero, Nat.zero_add]
      exact (ih hs hex' fun a => h0 l a ▸ hle a).congr (h0 g) (h0 l)

theorem recounts_add : Recounts (fun t c => chunkAddFileInt t c k) (some k) none := by
  intro t c hc _
  refine ⟨filesWf_chunkAddFileInt t hc, fun k' => ?_⟩
  rw [refs_chunkAddFileInt]
  simp only [Option.some.injEq, eq_comm (a := k'), reduceCtorEq, if_false, Nat.add_zero]

theorem recounts_delete : Recounts (fun t c => (chunkDeleteFileInt t c k).2) none (some k) := by
  intro t c hc hpos
  obtain ⟨hwf, hrefs⟩ := chunkDeleteFileInt_spec t hc (hpos k rfl)
  refine ⟨hwf, fun k' => ?_⟩
  simp only [Option.some.injEq, eq_comm (a := k), reduceCtorEq, if_false, Nat.add_zero]
  exact hrefs k'

theorem recounts_change {prev new : Nat} (hne : prev ≠ new) :
    Recounts (fun t c => (chunkChangeFileInt t c prev new).2) (some new) (some prev) := by
  intro t c hc hpos
  obtain ⟨hwf, hrefs⟩ := chunkChangeFileInt_spec t hc hne (hpos prev rfl)
  refine ⟨hwf, fun k' => ?_⟩
  simp only [Option.some.injEq, eq_comm (a := prev), eq_comm (a := new)]
  exact hrefs k'

theorem Sound.tabUses_le (h : s.Sound)
    (hd : s.dataAt i = some (some (k, tab))) (a : RefKey) : tabUses k tab a ≤ s.refsOf a := by
  have := h.balanced.le i a
  rwa [uses_eq_tabUses hd] at this

/-- Every entry of a table names a chunk that counts it. -/
theorem Sound.entry (h : s.Sound) (hd : s.dataAt i = some (some (k, tab)))
    {c : Nat} (hc : c ∈ tab) (hc0 : c ≠ 0) : 0 < s.refsOf (c, k) :=
  Nat.lt_of_lt_of_le (tabUses_pos k hc0 hc) (h.tabUses_le hd (c, k))

theorem exists_of_tabUses_le (h : ∀ a, tabUses k tab a ≤ s.refsOf a) {c : Nat}
    (hc : c ∈ tab) (hc0 : c ≠ 0) : (s.chunks c).isSome = true :=
  isSome_of_refsOf (a := (c, k)) (Nat.lt_of_lt_of_le (tabUses_pos k hc0 hc) (h (c, k)))

theorem retable_addFiles (hs : s.ChunksOk) (i k : Nat)
    (hex : ∀ c ∈ tab, c ≠ 0 → (s.chunks c).isSome = true) :
    Retable s (s.addFiles k tab) i (tabUses k tab) 0 :=
  retable_onChunks recounts_add hs i hex fun _ => Nat.zero_le _

theorem retable_deleteFiles (hs : s.ChunksOk) (i k : Nat)
    (hle : ∀ a, tabUses k tab a ≤ s.refsOf a) :
    Retable s (s.deleteFiles k tab) i 0 (tabUses k tab) :=
  retable_onChunks recounts_delete hs i (fun _ hc hc0 => exists_of_tabUses_le hle hc hc0) hle

theorem onChunks_isSome (h : SClassTab → Chunk → Chunk) {c : Nat} :
    ((s.onChunks h tab).chunks c).isSome = (s.chunks c).isSome := by
  refine List.foldlRecOn (motive := fun t : Master => (t.chunks c).isSome = (s.chunks c).isSome)
    tab _ rfl fun t ht d _ => ?_
  split
  · exact modChunk_isSome.trans ht
  · exact ht

theorem retable_addChunk (hs : s.ChunksOk) (i : Nat) (hc : c.files = (.few 1, k)) :
    Retable s (s.addChunk c) i (tabUses k [s.nextchunkid]) 0 := by
  have hnew : (s.addChunk c).chunks s.nextchunkid = some c := if_pos rfl
  have hhead : c.fhead = .few 1 := congrArg Prod.fst hc
  have hclass : c.sclassid = k := congrArg Prod.snd hc
  refine retable_chunkAt rfl rfl (Nat.le_succ _)
    (fun j hj => ⟨if_neg hj, fun k' => tabUses_single_off hj⟩)
    (fun _ hle => absurd hle (Nat.not_succ_le_self _)) (fun _ c' hc' => ?_) fun k' => ?_
  · cases hnew.symm.trans hc'
    unfold Chunk.FilesWf
    rw [hhead]
    trivial
  · have hold : s.refsOf (s.nextchunkid, k') = 0 := by
      unfold refsOf
      rw [hs.fresh _ (Nat.le_refl _)]
    rw [hold, refsOf_some hnew, tabUses_single (Nat.pos_iff_ne_zero.mp hs.pos)]
    unfold Chunk.refs
    rw [hhead, hclass]
    simp only [FHead.refs, eq_comm (a := k), Pi.zero_apply, Nat.add_zero, Nat.zero_add]

theorem retable_chunkDelete (i : Nat) (hc : s.chunks chunkid = some c) (hf : c.fhead = .few 0) :
    Retable s (s.chunkDelete chunkid) i 0 0 := by
  have hgone : (s.chunkDelete chunkid).chunks chunkid = none := if_pos rfl
  refine retable_chunkAt rfl rfl (Nat.le_refl _) (fun j hj => ⟨if_neg hj, fun _ => rfl⟩)
    (fun _ _ => hgone) (fun _ c' hc' => ?_) fun k => ?_
  · rw [hgone] at hc'
    cases hc'
  · rw [refsOf_some hc, Chunk.refs_of_empty hf]
    unfold refsOf
    rw [hgone]

theorem putChunk_eq_modChunk (hc : s.chunks chunkid = some c) (c' : Chunk) :
    s.putChunk chunkid c' = s.modChunk chunkid fun _ => c' := by
  unfold putChunk modChunk
  congr 1
  funext j
  split
  next hj =>
    rw [hj, hc]
    rfl
  · rfl

theorem retable_deleteOne (hs : s.ChunksOk) (hc : s.chunks chunkid = some c) (h0 : chunkid ≠ 0)
    {c' : Chunk} (hfiles : c'.files = c.files) (hpos : 0 < c.refs k) :
    Retable s (s.putChunk chunkid (chunkDeleteFileInt s.sclasses c' k).2) i 0
      (tabUses k [chunkid]) := by
  have hwf : c'.FilesWf := by
    have hhead : c'.fhead = c.fhead := congrArg Prod.fst hfiles
    unfold Chunk.FilesWf
    rw [hhead]
    exact hs.files chunkid c hc
  rw [← Chunk.refs_of_files hfiles] at hpos
  obtain ⟨hwf', hrefs⟩ := chunkDeleteFileInt_spec s.sclasses hwf hpos
  rw [putChunk_eq_modChunk hc]
  refine retable_modChunk hc (fun _ => hwf') (fun k' => ?_) fun a ha => ?_
  · rw [tabUses_single h0, ← Chunk.refs_of_files hfiles]
    exact hrefs k'
  · exact (tabUses_single_off ha).symm

/-- What is gained is lost again. -/
theorem SameData.retable_refl (h : SameData s t) : Retable s t i g g where
  nodes := (h.retable i).nodes
  pool := (h.retable i).pool
  chunks := (h.retable i).chunks
  refs := fun a => congrArg (· + g a) (refsOf_of_files (h.chunks a.1))

/-- A node that is changed after the counters, and what keeps the data after that. -/
theorem Retable.modNode_same (h : Retable s t i g l) {f : FsNode → FsNode}
    (hu : SameData (t.modNode i f) u) : Retable s u i g l :=
  ((h.trans retable_modNode).trans (hu.retable i)).congr (fun _ => rfl) fun _ => rfl

/-- The data of a node that was changed like this. -/
theorem SameData.dataAt_modNode {f : FsNode → FsNode} (hu : SameData (t.modNode i f) u)
    (hn : t.nodes i = some n) : u.dataAt i = some (f n).data := by
  rw [hu.nodes i, Master.dataAt_modNode, if_pos rfl, hn]
  rfl

/-- The equation to prove for a node with data before and after. -/
theorem Sound.change (h : s.Sound)
    (hr : Retable s t i gain loss) (hd : s.dataAt i = some (some (k, tab))) (k' : Nat)
    (tab' : List Nat) (hd' : t.dataAt i = some (some (k', tab')))
    (hu : ∀ a, gain a + tabUses k tab a = loss a + tabUses k' tab' a) : t.Sound := by
  refine h.retable hr fun a => ?_
  rw [uses_eq_tabUses hd, uses_eq_tabUses hd']
  exact hu a

theorem Sound.changeNode (h : s.Sound) (hn : s.nodes i = some n) (hd : n.type.hasData = true)
    (hr : Retable s t i gain loss) (hnode : t.nodes i = some n) {f : FsNode → FsNode} {k' : Nat}
    (hu : SameData (t.modNode i f) u) (hf : (f n).data = some (k', tab'))
    (huses : ∀ a, gain a + tabUses n.sclassid n.chunktab a = loss a + tabUses k' tab' a) :
    u.Sound :=
  h.change (hr.modNode_same hu) (dataAt_of_hasData hn hd) k' tab'
    ((hu.dataAt_modNode hnode).trans (congrArg some hf)) huses

/-- A file gives up the chunks `del` of its table and gets the chunks `add`. -/
theorem Sound.exchange (h : s.Sound) (hn : s.nodes i = some n) (hd : n.type.hasData = true)
    (del add : List Nat) (hadd : ∀ c ∈ add, c ≠ 0 → (s.chunks c).isSome = true)
    {f : FsNode → FsNode}
    (hu : SameData (((s.deleteFiles n.sclassid del).addFiles n.sclassid add).modNode i f) u)
    (hf : (f n).data = some (n.sclassid, tab'))
    (hdel : ∀ a, tabUses n.sclassid del a ≤ tabUses n.sclassid n.chunktab a)
    (huses : ∀ a, tabUses n.sclassid tab' a + tabUses n.sclassid del a
      = tabUses n.sclassid n.chunktab a + tabUses n.sclassid add a) : u.Sound := by
  have hle : ∀ a, tabUses n.sclassid del a ≤ s.refsOf a := fun a =>
    Nat.le_trans (hdel a) (h.tabUses_le (dataAt_of_hasData hn hd) a)
  have hr1 := retable_deleteFiles h.chunks i n.sclassid hle
  have hadd1 : ∀ c ∈ add, c ≠ 0 → ((s.deleteFiles n.sclassid del).chunks c).isSome = true :=
    fun c hc hc0 => (onChunks_isSome (fun t c => (chunkDeleteFileInt t c n.sclassid).2)).trans
      (hadd c hc hc0)
  have hr := hr1.trans (retable_addFiles (hr1.chunks h.chunks) i n.sclassid hadd1)
  have hnodes := (onChunks_frame (fun t c => chunkAddFileInt t c n.sclassid) add _).1.trans
    (onChunks_frame (fun t c => (chunkDeleteFileInt t c n.sclassid).2) del s).1
  refine h.changeNode hn hd hr ((congrFun hnodes i).trans hn) hu hf fun a => ?_
  have := huses a
  show (0 + _) + _ = (_ + 0) + _
  omega

end Master

end MfsMaster
