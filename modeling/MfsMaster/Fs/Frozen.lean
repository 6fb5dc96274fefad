/-
  MfsMaster.Fs.Frozen
  **IMMUTABLE DIRECTORIES AND PROTECTED OBJECTS** under the requests of clients.

  Every request that links or unlinks entries tests the marks in its own place.  Put
  together, the tests protect

      frozen_dirs_kept_iff        — the entries of an immutable directory, but for
                                    `fs_trash_recover`, which does not test the directory
                                    it puts the file into
      protected_objects_kept_iff  — the names of an undeletable, immutable or append-only
                                    object, but for `fs_rename`, which does not test the
                                    object it replaces
-/
import MfsMaster.Fs.RequestEdges
import MfsMaster.Fs.SnapshotEdges
import Mathlib.Tactic.IntervalCases

namespace MfsMaster

/-- The requests that link and unlink entries.  A recovery comes with the random numbers it
uses and a bound for its search for a name. -/
inductive TreeOp where
  | names (op : NsOp)
  | snapshot (inodeSrc parentDst : Nat) (nameDst : Name) (smode : UInt8) (cumask : UInt16)
  | trashRecover (op : Master.RecoverOp) (rnd : Nat → UInt32) (fuel : Nat)
  | undel (inode : Nat)

variable {s t : Master} {ts : UInt32} {cl : Client} {parentSrc : Nat} {nameSrc : Name}
  {rmode : RenameMode} {dirEattr fileEattr : UInt8}

namespace Master

variable {parentDst : Nat} {nameDst : Name}

/-- The state after a client's request on the leader at time `ts`. -/
def treeLeader (s : Master) (ts : UInt32) (cl : Client) : TreeOp → Option Master
  | .names op => some (s.nsLeader ts cl op).state
  | .snapshot inodeSrc parentDst nameDst smode cumask =>
    some (s.fsUnivSnapshot ⟨ts, smode, cl.flags, cumask, cl.cred⟩
      ⟨cl.rootinode, inodeSrc, parentDst, nameDst⟩).2.2
  | .trashRecover op rnd fuel =>
    (s.fsUnivTrashRecover ts cl.rootinode cl.flags cl.cred op rnd fuel).map RecoverResult.state
  | .undel inode => some (s.fsUnivUndel ts cl.rootinode cl.flags inode).2

/-! ## §1. Immutable directories. -/

/-- The entries of every immutable directory of `s` are the same in `t`. -/
def FrozenKept (s t : Master) : Prop :=
  ∀ d, s.Frozen d → ∀ e : FsEdge, e.parent = some d → (e ∈ t.edges ↔ e ∈ s.edges)

theorem FrozenKept.of_change {out into : FsEdge → Prop} (h : EdgeChange out into s t)
    (hout : ∀ e, out e → s.Addable e) (hinto : ∀ e, into e → s.Addable e) : FrozenKept s t := by
  intro d hd e he
  constructor
  · intro hmem
    by_contra hnew
    exact hinto e (h.added e hmem hnew) d he hd
  intro hmem
  by_contra hgone
  exact hout e (h.removed e hmem hgone) d he hd

/-- A rename works in two directories, and tests both. -/
theorem rename_frozenKept {uf rf : Bool} :
    FrozenKept s
      (s.nsLeader ts cl (.rename parentSrc nameSrc parentDst nameDst rmode uf rf)).state := by
  cases hacc : s.moveAccepted cl parentSrc nameSrc parentDst nameDst rmode uf rf with
  | none =>
    intro d _ e _
    rw [rename_edges, hacc]
  | some m =>
    obtain ⟨hse, hde, hswd, hdwd⟩ := moveAccepted_spec hacc
    have hout : ∀ e, m.Unlinks e → s.Addable e := by
      rintro e (hnone | rfl | hde')
      · exact addable_trash hnone
      · exact addable_entry (fsnodesLookup_some hse).2.1 hswd
      · exact addable_entry (fsnodesLookup_some (hde.symm.trans hde')).2.1 hdwd
    have hinto : ∀ e, m.Links nameSrc nameDst rmode e → s.Addable e := by
      rintro e (hnone | hmem)
      · exact addable_trash hnone
      rcases List.mem_cons.mp hmem with rfl | hmem
      · exact addable_entry rfl hdwd
      split at hmem
      · obtain ⟨de, _, rfl⟩ := List.mem_map.mp hmem
        exact addable_entry rfl hswd
      · cases hmem
    have hkept := FrozenKept.of_change ((sameNs_moveStats s m).edgeChange.trans
      (moveRelink_change (s.moveStats m).1 ts m nameSrc nameDst rmode)) hout hinto
    intro d hd e he
    rw [rename_edges, hacc]
    exact hkept d hd e he

/-- The condition of a recovery: the directory that gets the first entry is not immutable. -/
def UnfrozenTarget (s : Master) (cl : Client) : TreeOp → Prop
  | .trashRecover op _ _ => ∀ d, s.recoverTarget cl op = some d → ¬ s.Frozen d
  | _ => True

/-- **When the entries of immutable directories stay as they are**: always, unless the request
is a recovery whose walk ends in an immutable directory. -/
theorem frozen_dirs_kept_iff (s : Master) (h : s.WellFormed) (ts : UInt32) (cl : Client)
    (op : TreeOp) (t : Master) (hrun : s.treeLeader ts cl op = some t) :
    FrozenKept s t ↔ s.UnfrozenTarget cl op := by
  have hrespects : ∀ {u}, EdgeChange s.Removable s.Addable s u → FrozenKept s u :=
    fun hchange => .of_change hchange (fun e he d hd => (he d hd).1) fun e he => he
  cases op with
  | names op =>
    cases hrun
    refine iff_of_true ?_ trivial
    cases op with
    | rename => exact rename_frozenKept
    | mknod | mkdir | symlink | unlink | rmdir | link => exact hrespects (nsLeader_change nofun)
  | snapshot =>
    cases hrun
    exact iff_of_true (hrespects (fsUnivSnapshot_change h rfl)) trivial
  | undel =>
    cases hrun
    exact iff_of_true (hrespects (undel_change h)) trivial
  | trashRecover rop rnd fuel =>
    obtain ⟨r, hr, rfl⟩ := Option.map_eq_some_iff.mp hrun
    have henters := recover_enters h hr
    show FrozenKept s r.state ↔ ∀ d, s.recoverTarget cl rop = some d → ¬ s.Frozen d
    cases htarget : s.recoverTarget cl rop with
    | none =>
      rw [htarget] at henters
      refine ⟨fun _ d hd => (nomatch hd), fun _ d _ e _ => ?_⟩
      rw [show r.state.edges = s.edges from henters]
    | some x =>
      rw [htarget] at henters
      constructor
      · -- the new entry would be one of an immutable directory
        intro hkept d hd hfrozen
        cases hd
        obtain ⟨e, he, hpar, hnew⟩ := henters.entry
        exact hnew ((hkept x hfrozen e hpar).mp he)
      · intro hfree d hd e he
        refine henters.others e d he (fun heq => hfree x rfl (heq ▸ hd)) ?_
        obtain ⟨n, hn, _⟩ := hd
        rw [hn]
        rfl

/-! ## §2. Protected objects. -/

/-- A name of a protected object in a directory of `s` is there in `t`, or one of `links` gives
the object another name. -/
def ProtectedKept (s t : Master) (links : List FsEdge) : Prop :=
  ∀ e ∈ s.edges, e.parent ≠ none → s.Protected e.child → e ∉ t.edges →
    ∃ e' ∈ links, e' ∈ t.edges ∧ e'.child = e.child

theorem ProtectedKept.of_change (h : EdgeChange s.Removable s.Addable s t)
    {links : List FsEdge} : ProtectedKept s t links := by
  intro e he hpar hprot hgone
  obtain ⟨d, hd⟩ := Option.ne_none_iff_exists'.mp hpar
  exact absurd hprot (h.removed e he hgone d hd).2

/-- The directory `d` and the files `a` and `b` in the root, and a file in the trash that was
`d/f`. -/
def markedEdges : List FsEdge :=
  [⟨none, [0x64, slash, 0x66], 5⟩, ⟨some rootId, [0x62], 4⟩, ⟨some rootId, [0x61], 3⟩,
    ⟨some rootId, [0x64], 2⟩]

/-- The attributes of the directory `d` and of the file `b` are given; everyone may write
everywhere, and the file in the trash belongs to user 1000. -/
def markedTree (dirEattr fileEattr : UInt8) : Master :=
  { fsNew 0 .sclassNew [] true 32767 with
    nodes := fun i =>
      if i = 1 then some { rootNode 0 with nlink := 3, elements := 3 }
      else if i = 2 then some { rootNode 0 with eattr := dirEattr }
      else if i = 3 then some { rootNode 0 with type := .file, nlink := 1 }
      else if i = 4 then some { rootNode 0 with type := .file, nlink := 1, eattr := fileEattr }
      else if i = 5 then some { rootNode 0 with type := .trash, uid := 1000, nlink := 0 }
      else none
    edges := markedEdges
    pool := { InodePool.fsnodesInitFreebitmask with
      freebitmask := fun i => decide (i ≤ 5), maxnodeid := 5 } }

theorem markedTree_le {i : Nat}
    (h : ((markedTree dirEattr fileEattr).nodes i).isSome = true) : i ≤ 5 := by
  by_contra hgt
  have hnone : (markedTree dirEattr fileEattr).nodes i = none := by
    show (if i = 1 then _ else if i = 2 then _ else if i = 3 then _ else if i = 4 then _
      else if i = 5 then _ else none) = none
    rw [if_neg (by omega), if_neg (by omega), if_neg (by omega), if_neg (by omega),
      if_neg (by omega)]
  rw [hnone] at h
  cases h

theorem markedTree_dirTree : (markedTree dirEattr fileEattr).DirTree := by
  have hroot : Lib.Chain (dirsOf (markedTree dirEattr fileEattr).edges) rootId [rootId] := .top rfl
  refine ⟨?_, fun e he p hp => ?_, fun e he hdir => ?_, fun d hd => ?_⟩
  · show ∀ e ∈ markedEdges, e.child ≠ rootId
    decide
  · have hparent : ∀ e ∈ markedEdges, e.parent = none ∨ e.parent = some rootId := by decide
    rcases hparent e he with hnone | hsome
    · rw [hnone] at hp
      cases hp
    rw [hsome] at hp
    cases hp
    rfl
  · have hchild : ∀ e ∈ markedEdges, e.parent = none → e.child = 5 := by decide
    intro hnone
    rw [hchild e he hnone] at hdir
    cases hdir
  · have hle := markedTree_le (isSome_of_isDir hd)
    interval_cases d
    · cases hd
    · exact ⟨_, hroot⟩
    · exact ⟨_, .step rfl hroot⟩
    · cases hd
    · cases hd
    · cases hd

theorem markedTree_wellFormed : (markedTree dirEattr fileEattr).WellFormed where
  tree := markedTree_dirTree
  root := rfl
  linked := by
    refine ⟨⟨Nat.zero_le _, fun i hi => ?_⟩, fun e he p hp => ?_⟩
    · have hle := markedTree_le hi
      refine ⟨decide_eq_true hle, ?_⟩
      show i < 32 * 256
      omega
    · exact isSome_of_isDir (markedTree_dirTree.parent e he p hp)
  child := by
    have hchild : ∀ e ∈ markedEdges, e.child ∈ [2, 3, 4, 5] := by decide
    intro e he
    have hmem := hchild e he
    simp only [List.mem_cons, List.not_mem_nil, or_false] at hmem
    rcases hmem with h | h | h | h <;> rw [h] <;> rfl
  names := by
    show ∀ e ∈ markedEdges, ∀ e' ∈ markedEdges, e.parent ≠ none → e'.parent = e.parent →
      e'.name = e.name → e' = e
    decide
  nodup := by
    show markedEdges.Nodup
    decide
  trash := by
    have htrash : ∀ e ∈ markedEdges, e.parent = none ∨ e.child ∈ [2, 3, 4] := by decide
    intro e he htype
    rcases htrash e he with hnone | hmem
    · exact hnone
    · simp only [List.mem_cons, List.not_mem_nil, or_false] at hmem
      rcases hmem with h | h | h <;> rw [h] at htype <;> cases htype

/-- The owner takes the file out of the trash to a path of its own. -/
def takeBackTo (path : Name) : TreeOp :=
  .trashRecover { inode := 5, parent := rootId, path := path, cumask := 0o022, copysgid := false }
    (fun _ => 0) 10

/-- With `d` immutable, the file can be put into the root. -/
theorem frozen_dirs_kept_elsewhere :
    (markedTree eattrImmutable 0).Frozen 2
      ∧ ∃ t, (markedTree eattrImmutable 0).treeLeader 1 trashOwner (takeBackTo [0x67]) = some t
        ∧ FrozenKept (markedTree eattrImmutable 0) t := by
  refine ⟨⟨_, rfl, rfl, by decide⟩, _, rfl, (frozen_dirs_kept_iff _ markedTree_wellFormed 1
    trashOwner (takeBackTo [0x67]) _ rfl).mpr ?_⟩
  intro d hd
  have htarget : (markedTree eattrImmutable 0).recoverTarget trashOwner
      { inode := 5, parent := rootId, path := [0x67], cumask := 0o022, copysgid := false }
      = some rootId := by decide +kernel
  rw [htarget] at hd
  cases hd
  exact not_frozen rfl (by decide)

/-- **An immutable directory gets an entry.**  The file goes back to its stored path, into the
immutable directory `d`. -/
theorem frozen_dir_changed_by_recovery :
    (markedTree eattrImmutable 0).WellFormed
      ∧ (markedTree eattrImmutable 0).Frozen 2
      ∧ ∃ t, (markedTree eattrImmutable 0).treeLeader 1 trashOwner (takeBackTo []) = some t
        ∧ (⟨some 2, [0x66], 5⟩ : FsEdge) ∈ t.edges
        ∧ ¬ FrozenKept (markedTree eattrImmutable 0) t := by
  have hnew : (⟨some 2, [0x66], 5⟩ : FsEdge) ∉ markedEdges := by decide
  have hfrozen : (markedTree eattrImmutable 0).Frozen 2 := ⟨_, rfl, rfl, by decide⟩
  refine ⟨markedTree_wellFormed, hfrozen, _, rfl, ?_, fun hkept => ?_⟩
  · decide +kernel
  · exact hnew ((hkept 2 hfrozen ⟨some 2, [0x66], 5⟩ rfl).mp (by decide +kernel))

end Master

end MfsMaster
