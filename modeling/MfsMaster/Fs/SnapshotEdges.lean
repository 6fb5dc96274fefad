/-
  MfsMaster.Fs.SnapshotEdges
  **THE EDGES OF A SNAPSHOT**: copying over an existing tree and removing a tree of
  snapshots take away and add what the marks allow.

  The copy follows the tests of `fsnodes_snapshot_test`, which run before it on the same
  tree.  Two things could make it leave the tested way: a source that changes while it is
  copied, and a destination it made itself.  The first does not happen, since no directory
  of the source is a destination (`not_above_child`); in the second case the entry leads
  to a new node, about which no mark says anything.

      Copying.fsnodesSnapshot           — the invariant of the copy
      Removing.fsnodesRemoveSnapshot    — the invariant of the removal
      fsUnivSnapshot_change             — the request
-/
import MfsMaster.Fs.EdgeChange
import MfsMaster.Fs.Snapshot

namespace MfsMaster.Master

/-! ## §1. Parts that keep the edges. -/

variable {s : Master} {src : FsNode} {dst k : Nat} {psr : StatsRecord} {a : SnapArgs}

theorem dataOnly_addFiles {sclassid : Nat} {tab : List Nat} :
    DataOnly s (s.addFiles sclassid tab) := by
  refine DataOnly.foldl (fun s chunkid => ?_) tab s
  split
  · exact ⟨_, _, _, _, rfl⟩
  · exact .refl s

theorem dataOnly_copyChunks {parent : Nat} : DataOnly s (s.copyChunks src parent dst psr) :=
  dataOnly_addFiles.trans ⟨_, _, _, _, rfl⟩

theorem dataOnly_snapFinishExisting : DataOnly s (snapFinishExisting a src dst s) :=
  (dataOnly_modNode.trans touched_fsnodesCheckarchmode.only).trans
    dataOnly_modNode

theorem dataOnly_snapFinishNew : DataOnly s (snapFinishNew a src dst s) := by
  refine DataOnly.trans ?_ dataOnly_modNode
  split
  · exact .refl s
  · exact dataOnly_modNode.trans touched_fsnodesCheckarchmode.only

theorem dataOnly_snapContents {parent : Nat} : DataOnly s (snapContents src parent dst psr s) := by
  unfold snapContents
  split
  · exact dataOnly_copyChunks
  · exact ⟨_, _, _, _, rfl⟩
  · exact dataOnly_modNode
  · exact dataOnly_modNode
  · exact .refl s

theorem edgeChange_snapTake {out into : FsEdge → Prop} {srcinode : Nat} :
    EdgeChange out into s (snapTake a srcinode src dst s) := by
  unfold snapTake
  split
  · exact .refl
  · exact .of_eq rfl rfl

/-- The quota test of a copy only looks at statistics and brings them up to date. -/
theorem sameNs_snapshotTestQuota :
    ∀ (k srcinode parent : Nat) (name : Name) (r : Option Demand × Master),
      SameNs r.2 (snapshotTestQuota k srcinode parent name r).2 := by
  intro k
  induction k with
  | zero => exact fun _ _ _ r => .refl
  | succ k ih =>
    intro srcinode parent name r
    obtain ⟨common, s⟩ := r
    have hfold : ∀ (dst : Nat) (l : List FsEdge) (r : Option Demand × Master), SameNs r.2
        (l.foldl (fun r c => snapshotTestQuota k c.child dst c.name r) r).2 := fun dst l r =>
      List.foldlRecOn (motive := fun t => SameNs r.2 t.2) l _ .refl fun t ht c _ =>
        ht.trans (ih c.child dst c.name t)
    unfold snapshotTestQuota
    split
    next common e _ =>
      dsimp only
      split
      · exact .refl
      split
      · have h1 := (sameNs_fsnodesCheckRealsize s srcinode).trans (hfold e.child
          ((s.fsnodesCheckRealsize srcinode).children srcinode)
          (some ⟨0, 0, 0, 0⟩, s.fsnodesCheckRealsize srcinode))
        split
        · exact h1
        · split <;> exact h1
      · exact .refl
    · exact .refl

theorem sameNs_snapCopyQuota (s : Master) (src dwd : Nat) (name : Name) :
    SameNs s (s.snapCopyQuota src dwd name).2 := by
  have h1 := (sameNs_fsnodesCheckRealsize s src).trans (sameNs_snapshotTestQuota
    (s.fsnodesCheckRealsize src).depth src dwd name (some ⟨0, 0, 0, 0⟩, s.fsnodesCheckRealsize src))
  unfold snapCopyQuota
  dsimp only
  split <;> exact h1

/-! ## §2. The tests. -/

/-- A loop that stops at the first error accepted every element. -/
theorem foldl_status_ok {α : Type} {f : α → Status} {l : List α}
    (h : l.foldl (fun st c => if st = .ok then f c else st) .ok = .ok) : ∀ c ∈ l, f c = .ok := by
  have hstuck : ∀ (l : List α) (st : Status), st ≠ .ok →
      l.foldl (fun st c => if st = .ok then f c else st) st = st := by
    intro l st hst
    induction l with
    | nil => rfl
    | cons c l ih => rw [List.foldl_cons, if_neg hst, ih]
  induction l with
  | nil => exact nofun
  | cons c l ih =>
    rw [List.foldl_cons, if_pos rfl] at h
    have hc : f c = .ok := by
      by_contra hne
      rw [hstuck l _ hne] at h
      exact hne h
    rw [hc] at h
    exact List.forall_mem_cons.mpr ⟨hc, ih h⟩

variable {e c : FsEdge} {name : Name} {parent srcinode : Nat} {a : SnapArgs} {n : FsNode}
  {st : Snap} {t : Master} {q : SnapRequest}

/-- What the tests say about an existing object in the place of a copy. -/
theorem snapshotTest_ok {origsrc : Nat} {canoverwrite : Bool} {dst : FsNode}
    (h : s.fsnodesSnapshotTest origsrc canoverwrite (k + 1) srcinode parent name = .ok)
    (he : s.fsnodesLookup parent name = some e) (hsrc : s.nodes srcinode = some src)
    (hdst : s.nodes e.child = some dst) :
    e.child ≠ origsrc ∧ ¬ s.Protected e.child ∧ dst.type = src.type
      ∧ (src.type = .directory → ∀ c ∈ s.children srcinode,
        s.fsnodesSnapshotTest origsrc canoverwrite k c.child e.child c.name = .ok) := by
  unfold fsnodesSnapshotTest at h
  rw [he, hsrc] at h
  dsimp only at h
  rw [hdst] at h
  dsimp only at h
  split at h
  · cases h
  next horig =>
  split at h
  · cases h
  next hbit =>
  split at h
  · cases h
  next htype =>
  split at h
  · cases h
  refine ⟨horig, not_protected hdst (Bool.eq_false_iff.mpr hbit), Decidable.not_not.mp htype, ?_⟩
  intro hdir
  rw [if_pos hdir] at h
  exact foldl_status_ok h

/-! ## §3. Copying. -/

section Copy

variable {s : Master} {src : Nat} {canoverwrite : Bool}

/-- An edge a copy may add: to a new node, in a directory that is neither frozen nor part of the
source. -/
def CopyInto (s : Master) (src : Nat) (e : FsEdge) : Prop :=
  ∀ p, e.parent = some p →
    ¬ s.Frozen p ∧ ¬ Lib.Above (dirsOf s.edges) src p ∧ s.nodes e.child = none

/-- **The invariant of a copy** of `src` that started in `s`. -/
structure Copying (s : Master) (src : Nat) (st : Snap) : Prop where
  change : EdgeChange s.Removable (s.CopyInto src) s st.fs
  copies : ∀ c ∈ st.copies, s.nodes c.2 = none

/-- A place for copies: a directory of this copy, or one the tests went through. -/
structure CopyPlace (s : Master) (src : Nat) (parent : Nat) : Prop where
  free : ¬ s.Frozen parent
  apart : ¬ Lib.Above (dirsOf s.edges) src parent

/-- What is known of a call of `fsnodes_snapshot` with fuel `k`: the object belongs to the
source, and an existing directory to put it into was tested for it. -/
structure CopyCall (s : Master) (src : Nat) (canoverwrite : Bool) (k srcinode parent : Nat)
    (name : Name) : Prop where
  node : (s.nodes srcinode).isSome = true
  below : Lib.Above (dirsOf s.edges) src srcinode
  place : s.CopyPlace src parent
  tested : s.nodes parent = none ∨ s.fsnodesSnapshotTest src canoverwrite k srcinode parent name = .ok

theorem Copying.modData (h : Copying s src st) {f : Master → Master}
    (hf : DataOnly st.fs (f st.fs)) : Copying s src (st.modFs f) :=
  ⟨h.change.trans hf.edgeChange, h.copies⟩

/-- Nothing that is new belongs to the source. -/
theorem copyPlace_new (h : s.WellFormed) (hsrc : (s.nodes src).isSome = true) {p : Nat}
    (hp : s.nodes p = none) : s.CopyPlace src p := by
  refine ⟨fun ⟨n, hn, _⟩ => ?_, fun habove => ?_⟩
  · rw [hp] at hn
    cases hn
  -- no edge leads to a node that is not there
  rcases Relation.ReflTransGen.cases_head habove with heq | ⟨q, hq, _⟩
  · rw [← heq, hp] at hsrc
    cases hsrc
  obtain ⟨e, he, _, hchild⟩ := mem_dirsOf.mp hq
  have hsome := h.child e he
  rw [hchild, hp] at hsome
  cases hsome

/-- An entry of a directory outside of the source is outside as well, unless it is the source
itself. -/
theorem not_above_child (h : s.WellFormed) (he : e ∈ s.edges)
    (hpar : e.parent = some parent) (hdir : s.isDir e.child = true) (hne : e.child ≠ src)
    (hout : ¬ Lib.Above (dirsOf s.edges) src parent) :
    ¬ Lib.Above (dirsOf s.edges) src e.child := by
  intro habove
  have hmem : parent ∈ dirsOf s.edges e.child := mem_dirsOf.mpr ⟨e, he, hpar, rfl⟩
  obtain ⟨l, hl⟩ := h.tree.chains e.child hdir
  have hin := hl.mem_iff_above.mpr habove
  cases hl with
  | top htop =>
    rw [htop] at hmem
    cases hmem
  | step hstep hp =>
    rw [hstep, List.mem_singleton] at hmem
    subst hmem
    rcases List.mem_cons.mp hin with heq | hin
    · exact hne heq.symm
    · exact hout (hp.mem_iff_above.mp hin)

/-- The objects below an object of the source. -/
theorem CopyCall.child (h : s.WellFormed) {l : Nat}
    (hcall : s.CopyCall src canoverwrite l srcinode parent name) (hc : c ∈ s.edges)
    (hpar : c.parent = some srcinode) (hplace : s.CopyPlace src dst)
    (htested : s.nodes dst = none
      ∨ s.fsnodesSnapshotTest src canoverwrite k c.child dst c.name = .ok) :
    s.CopyCall src canoverwrite k c.child dst c.name where
  node := h.child c hc
  below := .head (mem_dirsOf.mpr ⟨c, hc, hpar, rfl⟩) hcall.below
  place := hplace
  tested := htested

/-- The source is there. -/
theorem CopyCall.source (h : s.WellFormed)
    (hcall : s.CopyCall src canoverwrite k srcinode parent name) : (s.nodes src).isSome = true := by
  rcases Relation.ReflTransGen.cases_tail hcall.below with heq | ⟨q, _, hq⟩
  · rw [heq]
    exact hcall.node
  · obtain ⟨e, he, hpar, _⟩ := mem_dirsOf.mp hq
    exact h.linked.parent e he src hpar

/-- An entry found in the place of a copy: it leads to a new node, or the tests saw it. -/
theorem Copying.found (h : s.WellFormed) (hst : Copying s src st)
    (hcall : s.CopyCall src canoverwrite (k + 1) srcinode parent name)
    (he : st.fs.fsnodesLookup parent name = some e) :
    ¬ s.Protected e.child ∧ ∀ c ∈ s.edges, c.parent = some srcinode →
      s.CopyCall src canoverwrite k c.child e.child c.name := by
  obtain ⟨hmem, hpar, hname⟩ := fsnodesLookup_some he
  by_cases hold : e ∈ s.edges
  · -- an entry of the old tree: the directory was there, so it was tested
    obtain ⟨srcn, hsrcn⟩ := Option.isSome_iff_exists.mp hcall.node
    obtain ⟨dstn, hdstn⟩ := Option.isSome_iff_exists.mp (h.child e hold)
    have hlookup := h.lookup_of_mem hold hpar
    rw [hname] at hlookup
    have htest : s.fsnodesSnapshotTest src canoverwrite (k + 1) srcinode parent name = .ok := by
      rcases hcall.tested with hnone | hok
      · have hthere := h.linked.parent e hold parent hpar
        rw [hnone] at hthere
        cases hthere
      · exact hok
    obtain ⟨hne, hfree, htype, hchildren⟩ := snapshotTest_ok htest hlookup hsrcn hdstn
    refine ⟨hfree, fun c hc hcpar => ?_⟩
    -- what has an entry is a directory, and so is the object of the same type in its place
    have hsrcdir := (isDir_iff s hsrcn).mp (h.tree.parent c hc srcinode hcpar)
    have hdstdir := (isDir_iff s hdstn).mpr (htype.trans hsrcdir)
    have hplace : s.CopyPlace src e.child := ⟨not_frozen_of_unprotected hfree,
      not_above_child h hold hpar hdstdir hne hcall.place.apart⟩
    have hcmem : c ∈ s.children srcinode := List.mem_filter.mpr ⟨hc, beq_iff_eq.mpr hcpar⟩
    exact hcall.child h hc hcpar hplace (.inr (hchildren hsrcdir c hcmem))
  · -- an entry of this copy
    obtain ⟨_, _, hnew⟩ := hst.change.added e hmem hold parent hpar
    refine ⟨fun ⟨n, hn, _⟩ => ?_, fun c hc hcpar =>
      hcall.child h hc hcpar (copyPlace_new h (hcall.source h) hnew) (.inl hnew)⟩
    rw [hnew] at hn
    cases hn

/-- The entries of a directory of the source are those it had. -/
theorem Copying.children (hst : Copying s src st) (hbelow : Lib.Above (dirsOf s.edges) src srcinode)
    (hc : c ∈ st.fs.children srcinode) : c ∈ s.edges ∧ c.parent = some srcinode := by
  obtain ⟨hmem, hpar⟩ := List.mem_filter.mp hc
  have hpar : c.parent = some srcinode := beq_iff_eq.mp hpar
  refine ⟨?_, hpar⟩
  by_contra hnew
  exact (hst.change.added c hmem hnew srcinode hpar).2.1 hbelow

/-- The three ways to create a copy differ in mode and owner. -/
theorem snapCreate_some {r : Nat × Master} (hr : snapCreate a t parent name n = some r) :
    ∃ wd mode cumask uid gid, t.nodes parent = some wd
      ∧ r = t.fsnodesCreateNode a.ts parent name n.type mode cumask uid gid false := by
  obtain ⟨wd, hwd, hr⟩ := Option.map_eq_some_iff.mp hr
  subst hr
  split
  · exact ⟨wd, _, _, _, _, hwd, rfl⟩
  split <;> exact ⟨wd, _, _, _, _, hwd, rfl⟩

/-- The node of a copy is new, and so is its edge. -/
theorem snapCreate_change
    {r : Nat × Master} (hpool : t.pool.Covers fun i => (s.nodes i).isSome = true)
    (hplace : s.CopyPlace src parent) (hr : snapCreate a t parent name n = some r) :
    EdgeChange s.Removable (s.CopyInto src) t r.2 ∧ s.nodes r.1 = none := by
  have hfresh : s.nodes t.pool.fsnodesGetNextId.1 = none :=
    Option.not_isSome_iff_eq_none.mp hpool.fresh
  have hinto : s.CopyInto src ⟨some parent, name, t.pool.fsnodesGetNextId.1⟩ := by
    intro p hp
    cases hp
    exact ⟨hplace.free, hplace.apart, hfresh⟩
  obtain ⟨wd, mode, cumask, uid, gid, hwd, rfl⟩ := snapCreate_some hr
  refine ⟨edgeChange_fsnodesCreateNode hinto, ?_⟩
  rw [fsnodesCreateNode_inode hwd]
  exact hfresh

/-- Replacing a file: the old one is unlinked and a new one made. -/
theorem snapReplace_change (hpool : t.pool.Covers fun i => (s.nodes i).isSome = true)
    (hplace : s.CopyPlace src parent) (hpar : e.parent = some parent)
    (hfree : ¬ s.Protected e.child) :
    EdgeChange s.Removable (s.CopyInto src) t (snapReplace a t n parent name e).2 := by
  have hunlink : EdgeChange s.Removable (s.CopyInto src) t (t.fsnodesUnlink a.ts e) :=
    edgeChange_fsnodesUnlink (removable_entry hpar hplace.free hfree) fun path p hp => nomatch hp
  unfold snapReplace
  dsimp only
  cases hr : snapCreate a (t.fsnodesUnlink a.ts e) parent name n with
  | none => exact hunlink
  | some r =>
    have hcreate := (snapCreate_change (hunlink.pool _ hpool) hplace hr).1
    exact (hunlink.trans hcreate).trans
      (dataOnly_modNode.trans dataOnly_copyChunks).edgeChange

theorem Copying.snapExisting (h : s.WellFormed) (hst : Copying s src st) {name : Name}
    (hplace : s.CopyPlace src parent) (hpar : e.parent = some parent)
    (hfree : ¬ s.Protected e.child) : Copying s src (snapExisting a n parent name e st).2 := by
  have hdata : ∀ {u : Master}, DataOnly st.fs u →
      EdgeChange s.Removable (s.CopyInto src) s u := fun hu => hst.change.trans hu.edgeChange
  unfold Master.snapExisting
  cases hdst : st.fs.nodes e.child with
  | none => exact hst
  | some dst =>
    cases n.type <;> dsimp only
    case file =>
      split
      · exact ⟨hst.change, hst.copies⟩
      · exact ⟨hst.change.trans (snapReplace_change (hst.change.pool _ h.linked.pool) hplace hpar
          hfree), hst.copies⟩
    case symlink => exact ⟨hdata ⟨_, _, _, _, rfl⟩, hst.copies⟩
    case blockdev => exact ⟨hdata dataOnly_modNode, hst.copies⟩
    case chardev => exact ⟨hdata dataOnly_modNode, hst.copies⟩
    all_goals exact ⟨hst.change, hst.copies⟩

theorem Copying.snapMake (h : s.WellFormed) {st' : Snap} (hst : Copying s src st)
    (hplace : s.CopyPlace src parent)
    (hmake : snapMake a srcinode n parent name st = some (dst, psr, st')) :
    Copying s src st' ∧ s.nodes dst = none := by
  obtain ⟨r, hr, heq⟩ := Option.map_eq_some_iff.mp hmake
  cases heq
  obtain ⟨hcreate, hnew⟩ := snapCreate_change (hst.change.pool _ h.linked.pool) hplace hr
  refine ⟨⟨(hst.change.trans hcreate).trans edgeChange_snapTake, ?_⟩, hnew⟩
  dsimp only
  split
  · exact List.forall_mem_cons.mpr ⟨hnew, hst.copies⟩
  · exact hst.copies

/-- **A copy keeps to the tested places.**  The induction is on the depth. -/
theorem Copying.fsnodesSnapshot (h : s.WellFormed) :
    ∀ (k srcinode parent : Nat) (name : Name) (newflag : Bool) (st : Snap), Copying s src st →
      s.CopyCall src canoverwrite k srcinode parent name →
      Copying s src (fsnodesSnapshot a k srcinode parent name newflag st) := by
  intro k
  induction k with
  | zero => exact fun _ _ _ _ st hst _ => hst
  | succ k ih =>
    intro srcinode parent name newflag st hst hcall
    unfold Master.fsnodesSnapshot
    cases hsrc : st.fs.nodes srcinode with
    | none => exact hst
    | some n =>
      -- the loop over the entries, into a directory that takes all of them
      have hbelow : ∀ (may : Bool) (dst : Nat) (new : Bool) (st : Snap), Copying s src st →
          (∀ c ∈ s.edges, c.parent = some srcinode →
            s.CopyCall src canoverwrite k c.child dst c.name) →
          Copying s src (if n.type = .directory ∧ may = true then
            (st.fs.children srcinode).foldl
              (fun st e => Master.fsnodesSnapshot a k e.child dst e.name new st) st
          else st) := by
        intro may dst new st hst hdst
        split
        · refine List.foldlRecOn (motive := Copying s src) _ _ hst fun st' hst' c hc => ?_
          obtain ⟨hmem, hpar⟩ := hst.children hcall.below hc
          exact ih c.child dst c.name new st' hst' (hdst c hmem hpar)
        · exact hst
      dsimp only
      split
      · exact hst
      split
      next e hlook =>
        have hfound : st.fs.fsnodesLookup parent name = some e := by
          cases newflag with
          | true => cases hlook
          | false => exact hlook
        obtain ⟨hfree, hchildren⟩ := hst.found h hcall hfound
        split
        · refine Copying.modData ?_ dataOnly_snapFinishExisting
          exact hbelow _ e.child false _ ⟨hst.change, hst.copies⟩ hchildren
        · exact (hst.snapExisting h hcall.place (fsnodesLookup_some hfound).2.1
            hfree).modData dataOnly_snapFinishExisting
      · split
        · exact hst
        split
        next c hcopy =>
          have hnew : s.nodes c.2 = none := by
            split at hcopy
            · exact hst.copies c (List.mem_of_find?_eq_some hcopy)
            · cases hcopy
          refine ⟨hst.change.trans (edgeChange_fsnodesLink _ a.ts ?_), hst.copies⟩
          intro p hp
          cases hp
          exact ⟨hcall.place.free, hcall.place.apart, hnew⟩
        · cases hmake : Master.snapMake a srcinode n parent name st with
          | none => exact hst
          | some r =>
            obtain ⟨dst, psr, st'⟩ := r
            obtain ⟨hst', hnew⟩ := hst.snapMake h hcall.place hmake
            refine Copying.modData ?_ dataOnly_snapFinishNew
            split
            · exact hbelow _ dst true st' hst' fun c hc hpar =>
                hcall.child h hc hpar (copyPlace_new h (hcall.source h) hnew) (.inl hnew)
            · exact hst'.modData dataOnly_snapContents

end Copy

/-! ## §4. Removing. -/

/-- A removal keeps what changes of attributes and unlinking without the trash keep. -/
theorem fsnodesRemoveSnapshot_rule {P : Master → Prop}
    (heattr : ∀ s i x, P s → P (s.modNode i (.setEattr x)))
    (hunlink : ∀ s e, P s → P ((s.modNode e.child (.setTrashretention 0)).fsnodesUnlink a.ts e)) :
    ∀ (k : Nat) (e : FsEdge) (allowed : Bool) (st : Snap), P st.fs →
      P (fsnodesRemoveSnapshot a k e allowed st).fs := by
  have hone : ∀ (allowed : Bool) (e : FsEdge) (st : Snap), P st.fs →
      P (removeOne a allowed e st).fs := by
    intro allowed e st h
    unfold removeOne
    split
    · exact h
    split
    · exact hunlink _ e h
    · exact h
  intro k
  induction k with
  | zero => exact fun _ _ _ h => h
  | succ k ih =>
    intro e allowed st h
    unfold fsnodesRemoveSnapshot
    split
    · exact h
    next n _ =>
    split
    · dsimp only
      generalize hst : (if st.fs.fsnodesAccessExt e.child n a.cred (modeMaskW ||| modeMaskX)
        a.flags then _ else st) = st'
      have h1 : P st'.fs := by
        rw [← hst]
        split
        · exact List.foldlRecOn (motive := fun st => P st.fs) _ _ h fun st hs ie _ => ih ie _ st hs
        · exact h
      split
      · exact hone allowed e _ (heattr _ e.child n.eattr h1)
      · exact h1
    · exact hone allowed e st h

section Remove

variable {s : Master}

/-- The attributes without the snapshot mark, which the removal takes off and puts back. -/
def unmarked (n : FsNode) : UInt8 := n.eattr &&& ~~~eattrSnapshot

/-- **The invariant of a removal** that started in `s`: protected objects are there and have
their marks. -/
structure Removing (s : Master) (st : Snap) : Prop where
  change : EdgeChange s.Removable s.Addable s st.fs
  marks : ∀ i n, s.nodes i = some n → hasBit n.eattr eattrGuards = true →
    ∃ n', st.fs.nodes i = some n' ∧ unmarked n' = unmarked n

/-- The snapshot mark plays no part in the other tests. -/
theorem hasBit_of_unmarked {n' : FsNode} (h : unmarked n' = unmarked n) {mask : UInt8}
    (hmask : ~~~eattrSnapshot &&& mask = mask) : hasBit n'.eattr mask = hasBit n.eattr mask := by
  have hcut : ∀ x : UInt8, x &&& mask = x &&& ~~~eattrSnapshot &&& mask := by
    intro x
    rw [UInt8.and_assoc, hmask]
  unfold unmarked at h
  unfold hasBit
  rw [hcut n'.eattr, hcut n.eattr, h]

theorem unmarked_of_kept {b : Bool} {n' : FsNode} (h : Kept b n n') : unmarked n' = unmarked n := by
  unfold unmarked
  rw [h.eattr]
  unfold eattrAfter
  cases b with
  | true =>
    rw [if_pos rfl, UInt8.and_assoc, UInt8.and_self]
  | false => rfl

/-- A change of nodes that keeps the marks of protected objects. -/
theorem Removing.step (hst : Removing s st) {c : SnapCounters}
    (hchange : EdgeChange s.Removable s.Addable st.fs t)
    (hmarks : ∀ i, s.Protected i → ∀ n, st.fs.nodes i = some n →
      ∃ n', t.nodes i = some n' ∧ unmarked n' = unmarked n) :
    Removing s { st with fs := t, counters := c } := by
  refine ⟨hst.change.trans hchange, fun i n hn hbit => ?_⟩
  obtain ⟨n', hn', hsame⟩ := hst.marks i n hn hbit
  obtain ⟨n'', hn'', hsame'⟩ := hmarks i ⟨n, hn, hbit⟩ n' hn'
  exact ⟨n'', hn'', hsame'.trans hsame⟩

/-- An object without marks now had none. -/
theorem Removing.unprotected (hst : Removing s st) {i : Nat} (hn : st.fs.nodes i = some n)
    (hbit : hasBit n.eattr eattrGuards = false) : ¬ s.Protected i := by
  rintro ⟨n₀, hn₀, hbit₀⟩
  obtain ⟨n', hn', hsame⟩ := hst.marks i n₀ hn₀ hbit₀
  rw [hn] at hn'
  cases hn'
  rw [hasBit_of_unmarked hsame (by decide), hbit₀] at hbit
  cases hbit

theorem Removing.removeOne (hst : Removing s st) {allowed : Bool}
    (hdir : allowed = true → ∀ d, e.parent = some d → ¬ s.Frozen d) :
    Removing s (removeOne a allowed e st) := by
  unfold Master.removeOne
  cases hn : st.fs.nodes e.child with
  | none => exact hst
  | some n =>
    dsimp only
    split
    next hcond =>
      obtain ⟨hrem, hallowed⟩ := hcond
      unfold snapshotRemovable at hrem
      rw [Bool.and_eq_true] at hrem
      have hfree : ¬ s.Protected e.child :=
        hst.unprotected hn ((Bool.not_eq_true' _).mp hrem.2)
      have hout : s.Removable e := fun d hd => ⟨hdir hallowed d hd, hfree⟩
      refine hst.step (dataOnly_modNode.edgeChange.trans
        (edgeChange_fsnodesUnlink hout fun path => addable_trash rfl)) ?_
      -- the object that goes is not a protected one
      intro i hi n' hn'
      have hne : i ≠ e.child := fun heq => hfree (heq ▸ hi)
      have hkept := keptAt_fsnodesUnlink_ne (st.fs.modNode e.child (.setTrashretention 0)) a.ts hne
      obtain ⟨n'', hn'', hk⟩ := hkept.some (n := n') (by rw [modNode_nodes, if_neg hne, hn'])
      exact ⟨n'', hn'', unmarked_of_kept hk⟩
    · exact hst

/-- **A removal respects the marks.**  The induction is on the depth. -/
theorem Removing.fsnodesRemoveSnapshot :
    ∀ (k : Nat) (e : FsEdge) (allowed : Bool) (st : Snap), Removing s st →
      (allowed = true → ∀ d, e.parent = some d → ¬ s.Frozen d) →
      Removing s (fsnodesRemoveSnapshot a k e allowed st) := by
  intro k
  induction k with
  | zero => exact fun _ _ st hst _ => hst
  | succ k ih =>
    intro e allowed st hst hdir
    -- the entries of the directory, each allowed by the marks the directory has at that time
    have hloop : ∀ (l : List FsEdge), (∀ ie ∈ l, ie.parent = some e.child) →
        ∀ st, Removing s st → Removing s (l.foldl (fun st ie =>
          Master.fsnodesRemoveSnapshot a k ie
            (!hasBit (((st.fs.nodes e.child).map FsNode.eattr).getD 0)
              (eattrAppendonly ||| eattrImmutable)) st) st) := by
      intro l hl st hst
      refine List.foldlRecOn (motive := Removing s) l _ hst fun st hst ie hie => ih ie _ st hst ?_
      intro hallowed d hd hfrozen
      rw [hl ie hie] at hd
      cases hd
      obtain ⟨n, hn, _, hbit⟩ := hfrozen
      obtain ⟨n', hn', hsame⟩ := hst.marks e.child n hn (by
        by_contra hnot
        rw [hasBit_of_submask (by decide) (Bool.eq_false_iff.mpr hnot)] at hbit
        cases hbit)
      rw [hn'] at hallowed
      have hclear : hasBit n'.eattr eattrImmutable = false :=
        hasBit_of_submask (by decide) ((Bool.not_eq_true' _).mp hallowed)
      rw [hasBit_of_unmarked hsame (by decide), hbit] at hclear
      cases hclear
    unfold Master.fsnodesRemoveSnapshot
    cases hn : st.fs.nodes e.child with
    | none => exact hst
    | some n =>
      dsimp only
      split
      · generalize hst' : (if st.fs.fsnodesAccessExt e.child n a.cred (modeMaskW ||| modeMaskX)
          a.flags then _ else st) = st'
        have h1 : Removing s st' := by
          rw [← hst']
          split
          · refine hloop _ (fun ie hie => ?_) st hst
            exact beq_iff_eq.mp (List.mem_filter.mp hie).2
          · exact hst
        split
        · refine Removing.removeOne ?_ hdir
          -- the directory gets back the attributes it had when its removal began
          refine h1.step dataOnly_modNode.edgeChange ?_
          intro i hi n' hn'
          rw [modNode_nodes]
          split
          next heq =>
            obtain ⟨n₀, hn₀, hbit₀⟩ := hi
            obtain ⟨x, hx, hsame⟩ := hst.marks i n₀ hn₀ hbit₀
            obtain ⟨y, hy, hsame'⟩ := h1.marks i n₀ hn₀ hbit₀
            rw [heq, hn] at hx
            cases hx
            rw [hn'] at hy
            cases hy
            exact ⟨n'.setEattr n.eattr, by rw [hn']; rfl, hsame.trans hsame'.symm⟩
          · exact ⟨n', hn', rfl⟩
        · exact h1
      · exact hst.removeOne hdir

end Remove

/-! ## §5. The request. -/

section Request

variable {s : Master}

/-- What the test for ancestors excludes. -/
theorem not_above_of_check (h : s.WellFormed) {src dwd : Nat}
    (hsrc : s.nodes src = some n) (hdwd : s.isDir dwd = true)
    (hchk : (n.type == .directory && (src == dwd || s.fsnodesIsancestor src dwd)) = false) :
    ¬ Lib.Above (dirsOf s.edges) src dwd := by
  intro habove
  obtain ⟨l, hl⟩ := h.tree.chains dwd hdwd
  have hmem := hl.mem_iff_above.mpr habove
  have htype := (isDir_iff s hsrc).mp (h.tree.isDir_of_way hdwd hl hmem)
  rw [htype, beq_self_eq_true, Bool.true_and, Bool.or_eq_false_iff, beq_eq_false_iff_ne] at hchk
  obtain ⟨hne, hanc⟩ := hchk
  rcases (h.tree.eq_or_isancestor_iff hdwd).mpr habove with heq | hanc'
  · exact hne heq
  · rw [hanc] at hanc'
    cases hanc'

/-- The tests before a removal find an entry of the directory. -/
theorem snapRemoveCheck_spec {dwd : FsNode} (h : s.snapRemoveCheck a q = .ok (dwd, e)) :
    ∃ d, s.nodes d = some dwd ∧ e.parent = some d := by
  simp only [snapRemoveCheck, except_bind_eq_ok, require_eq_ok, refuse_eq_ok, exists_const] at h
  obtain ⟨_, wd, hwd, _, _, _, e', he', child, _, _, hrest⟩ := h
  have hret : (wd.2, e') = (dwd, e) := by
    split at hrest
    · simp only [except_bind_eq_ok, refuse_eq_ok, exists_const] at hrest
      obtain ⟨_, hrest⟩ := hrest
      split at hrest
      · cases hrest
      · exact Except.ok.inj hrest
    · exact Except.ok.inj hrest
  cases hret
  exact ⟨wd.1, findExt_node hwd, (fsnodesLookup_some he').2.1⟩

/-- The tests before a copy lead to a call in order. -/
theorem snapCopyCheck_spec (h : s.WellFormed) (ha : a.flags.metarestore = false)
    {src dwd : Nat} (hchk : s.snapCopyCheck a q = .ok (src, dwd)) :
    s.CopyCall src (hasBit a.smode snapshotModeCanOverwrite) s.depth src dwd q.nameDst := by
  simp only [snapCopyCheck, except_bind_eq_ok, require_eq_ok, refuse_eq_ok, exists_const] at hchk
  obtain ⟨_, sp, hsp, wd, hwd, hbit, _, hdir, hanc, _, _, hrest⟩ := hchk
  split at hrest
  · cases hrest
  next htest =>
  cases hrest
  rw [ha] at hbit
  have hnode := findExt_node hwd
  have hwddir : s.isDir wd.1 = true := (isDir_iff s hnode).mpr (by simpa using hdir)
  exact {
    node := by
      rw [findExt_node hsp]
      rfl
    below := .refl
    place := ⟨not_frozen hnode hbit, not_above_of_check h (findExt_node hsp) hwddir hanc⟩
    tested := .inr (Decidable.not_not.mp htest) }

/-- **`fs_snapshot` respects the marks**, in both modes. -/
theorem fsUnivSnapshot_change (h : s.WellFormed) (ha : a.flags.metarestore = false) :
    EdgeChange s.Removable s.Addable s (s.fsUnivSnapshot a q).2.2 := by
  unfold fsUnivSnapshot
  split
  · exact .refl
  split
  · cases hchk : s.snapRemoveCheck a q with
    | error st => exact .refl
    | ok r =>
      obtain ⟨dwd, e⟩ := r
      obtain ⟨d, hd, hpar⟩ := snapRemoveCheck_spec hchk
      refine (Removing.fsnodesRemoveSnapshot s.depth e _ ⟨s, .zero, []⟩
        ⟨.refl, fun i n hn _ => ⟨n, hn, rfl⟩⟩ ?_).change
      intro hallowed
      exact addable_entry hpar
        (not_frozen hd (hasBit_of_submask (by decide) ((Bool.not_eq_true' _).mp hallowed)))
  · cases hchk : s.snapCopyCheck a q with
    | error st => exact .refl
    | ok r =>
      obtain ⟨src, dwd⟩ := r
      have hcall := snapCopyCheck_spec h ha hchk
      have hsame := sameNs_snapCopyQuota s src dwd q.nameDst
      have hstart : Copying s src ⟨(s.snapCopyQuota src dwd q.nameDst).2, .zero, []⟩ :=
        ⟨hsame.edgeChange, nofun⟩
      rw [ha]
      simp only [Bool.false_eq_true, if_false]
      split
      · exact hsame.edgeChange
      refine (Copying.fsnodesSnapshot h s.depth src dwd q.nameDst false _ hstart
        hcall).change.mono (fun e he => he) ?_
      intro e he d hd
      exact (he d hd).1

end Request

end MfsMaster.Master
