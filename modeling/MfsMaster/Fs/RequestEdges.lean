/-
  MfsMaster.Fs.RequestEdges
  **THE EDGES OF A CLIENT'S REQUEST**: which edges the requests on names and on the trash
  take away and add.

      nsLeader_change      — all requests on names but renaming respect the marks
      moveRelink_change    — a rename works on its two edges
      undel_change         — `fs_undel` respects the marks, too
      recoverLoop_enters   — `fs_trash_recover` makes its entries in one directory that was
                             there before (`walkEnd`), whatever its marks
-/
import MfsMaster.Fs.EdgeChange
import MfsMaster.Fs.NamespaceReplay
import MfsMaster.Fs.RecoverReplay
import MfsMaster.Fs.Trash

namespace MfsMaster.Master

variable {s : Master} {cl : Client} {d : Nat} {ts : UInt32} {m : Move} {nameSrc : Name}
  {rmode : RenameMode} {parts : List Name}

variable {c : Cred} {parent : Nat} {name nameDst : Name} {e : FsEdge}

/-! ## §1. Requests on names. -/

theorem dirCheck_client {root : Nat} {frozen : UInt8} {wd : Nat × FsNode}
    (h : s.dirCheck root cl.flags c parent frozen = .ok wd) :
    s.nodes wd.1 = some wd.2 ∧ hasBit wd.2.eattr frozen = false := by
  simp only [dirCheck, except_bind_eq_ok, require_eq_ok, refuse_eq_ok, exists_const] at h
  obtain ⟨r, hr, _, hbit, _, hret⟩ := h
  cases hret
  exact ⟨findExt_node hr, hbit⟩

theorem fsUnivCreate_change {type : NodeType} {mode cumask : UInt16}
    {rdev : UInt32} {copysgid : Bool} :
    EdgeChange s.Removable s.Addable s (s.fsUnivCreate ts cl.rootinode cl.flags parent name type mode
      cumask cl.cred rdev copysgid).state := by
  unfold fsUnivCreate
  cases hchk : s.createCheck cl.rootinode cl.flags cl.cred parent name type with
  | error st => exact .refl
  | ok wd =>
    simp only [createCheck, except_bind_eq_ok, refuse_eq_ok, exists_const] at hchk
    obtain ⟨_, _, _, wd', hdir, _, _, _, hret⟩ := hchk
    cases hret
    obtain ⟨hnode, hbit⟩ := dirCheck_client hdir
    have hfree := not_frozen hnode hbit
    exact (edgeChange_fsnodesCreateNode (addable_entry rfl hfree)).trans
      (dataOnly_modNode.trans dataOnly_modNode).edgeChange

theorem fsUnivSymlink_change {path : Name} :
    EdgeChange s.Removable s.Addable s
      (s.fsUnivSymlink ts cl.rootinode cl.flags parent name path cl.cred).state := by
  unfold fsUnivSymlink
  cases hchk : s.symlinkCheck cl.rootinode cl.flags cl.cred parent name path with
  | error st => exact .refl
  | ok wd =>
    simp only [symlinkCheck, except_bind_eq_ok, refuse_eq_ok, exists_const] at hchk
    obtain ⟨_, _, wd', hdir, _, _, _, hret⟩ := hchk
    cases hret
    obtain ⟨hnode, hbit⟩ := dirCheck_client hdir
    have hfree := not_frozen hnode hbit
    have hstats : ∀ t sr, SameNs t (t.fsnodesAddStats wd.1 sr) := fun t sr => ⟨_, _, rfl⟩
    exact ((edgeChange_fsnodesCreateNode (addable_entry rfl hfree)).trans
      dataOnly_modNode.edgeChange).trans (hstats _ _).edgeChange

theorem fsUnivUnlink_change {dirmode : Bool} :
    EdgeChange s.Removable s.Addable s
      (s.fsUnivUnlink ts cl.rootinode cl.flags parent name cl.cred dirmode).state := by
  unfold fsUnivUnlink
  cases hchk : s.unlinkCheck cl.rootinode cl.flags cl.cred parent name dirmode with
  | error st => exact .refl
  | ok r =>
    simp only [unlinkCheck, except_bind_eq_ok, require_eq_ok, refuse_eq_ok, exists_const] at hchk
    obtain ⟨_, wd, hdir, _, e, he, child, hchild, _, hguards, _, _, _, hret⟩ := hchk
    cases hret
    obtain ⟨hnode, hbit⟩ := dirCheck_client hdir
    -- the directory is tested for two marks, the object for three
    have hdirFree := not_frozen hnode (hasBit_of_submask (by decide) hbit)
    have hobjFree : ¬ s.Protected e.child := not_protected hchild hguards
    exact edgeChange_fsnodesUnlink (removable_entry (fsnodesLookup_some he).2.1 hdirFree hobjFree)
      fun path => addable_trash rfl

theorem fsUnivLink_change {inodeSrc parentDst : Nat} :
    EdgeChange s.Removable s.Addable s
      (s.fsUnivLink ts cl.rootinode cl.flags inodeSrc parentDst nameDst cl.cred).state := by
  unfold fsUnivLink
  cases hchk : s.linkCheck cl.rootinode cl.flags cl.cred inodeSrc parentDst nameDst with
  | error st => exact .refl
  | ok r =>
    simp only [linkCheck, except_bind_eq_ok, require_eq_ok, refuse_eq_ok, exists_const] at hchk
    obtain ⟨_, sp, _, dwd, hdwd, _, _, _, _, _, hbit, _, _, _, hret⟩ := hchk
    cases hret
    have hfree := not_frozen (findExt_node hdwd) hbit
    have hstats : EdgeChange s.Removable s.Addable s (s.fsnodesCheckRealsize sp.1) :=
      (sameNs_fsnodesCheckRealsize s sp.1).edgeChange
    rw [show cl.flags.metarestore = false from rfl]
    simp only [Bool.false_eq_true, if_false, Bool.not_false, Bool.true_and]
    split
    · exact hstats
    exact hstats.trans (edgeChange_fsnodesLink _ ts (addable_entry rfl hfree))

/-- **Requests on names other than renaming respect the marks.** -/
theorem nsLeader_change {op : NsOp}
    (hop : ∀ ps ns pd nd rmode uf rf, op ≠ .rename ps ns pd nd rmode uf rf) :
    EdgeChange s.Removable s.Addable s (s.nsLeader ts cl op).state := by
  cases op with
  | mknod | mkdir => exact fsUnivCreate_change
  | symlink parent name path => exact fsUnivSymlink_change
  | unlink | rmdir => exact fsUnivUnlink_change
  | link inodeSrc parentDst nameDst => exact fsUnivLink_change
  | rename ps ns pd nd rmode uf rf => exact absurd rfl (hop ps ns pd nd rmode uf rf)

/-! ## §2. Renaming. -/

/-- The edges a rename makes: the moved object under its new name and, when two objects change
places, the other one under the old name. -/
def Move.links (m : Move) (nameSrc nameDst : Name) (rmode : RenameMode) : List FsEdge :=
  ⟨some m.dwd, nameDst, m.se.child⟩ :: (if rmode = .exchange then
    m.de.toList.map fun de => ⟨some m.swd, nameSrc, de.child⟩ else [])

/-- An edge a rename may take away. -/
def Move.Unlinks (m : Move) (e : FsEdge) : Prop :=
  e.parent = none ∨ e = m.se ∨ m.de = some e

/-- An edge a rename may add. -/
def Move.Links (m : Move) (nameSrc nameDst : Name) (rmode : RenameMode) (e : FsEdge) : Prop :=
  e.parent = none ∨ e ∈ m.links nameSrc nameDst rmode

/-- A rename takes away its two edges, links the objects again, and works on the trash
otherwise. -/
theorem moveRelink_change (s : Master) (ts : UInt32) (m : Move) (nameSrc nameDst : Name)
    (rmode : RenameMode) :
    EdgeChange m.Unlinks (m.Links nameSrc nameDst rmode) s
      (s.moveRelink ts m nameSrc nameDst rmode) := by
  have hse : m.Unlinks m.se := .inr (.inl rfl)
  have hnew : m.Links nameSrc nameDst rmode ⟨some m.dwd, nameDst, m.se.child⟩ :=
    .inr List.mem_cons_self
  -- replacing: the target is unlinked first
  have hreplace : ∀ de, m.de = some de →
      EdgeChange m.Unlinks (m.Links nameSrc nameDst rmode) s
        (((s.fsnodesUnlink ts de).fsnodesRemoveEdge ts
          (if m.se = de then s.freedEdge de else m.se)).fsnodesLink ts m.dwd m.se.child nameDst) := by
    intro de hde
    have hfreed : m.Unlinks (if m.se = de then s.freedEdge de else m.se) := by
      split
      next heq =>
        rcases freedEdge_cases with hsame | hnone
        · rw [hsame]
          exact .inr (.inl heq.symm)
        · exact .inl hnone
      · exact hse
    exact ((edgeChange_fsnodesUnlink (.inr (.inr hde)) fun path => .inl rfl).trans
      (edgeChange_fsnodesRemoveEdge _ ts hfreed)).trans (edgeChange_fsnodesLink _ ts hnew)
  unfold moveRelink
  cases hde : m.de with
  | none =>
    have hmove := (edgeChange_fsnodesRemoveEdge s ts hse).trans (edgeChange_fsnodesLink _ ts hnew)
    cases rmode <;> exact hmove
  | some de =>
    cases rmode with
    | exchange =>
      have hback : m.Links nameSrc nameDst .exchange ⟨some m.swd, nameSrc, de.child⟩ := by
        refine .inr (List.mem_cons_of_mem _ ?_)
        rw [if_pos rfl, hde]
        exact List.mem_singleton.mpr rfl
      exact (((edgeChange_fsnodesRemoveEdge s ts hse).trans
        (edgeChange_fsnodesRemoveEdge _ ts (.inr (.inr hde)))).trans
        (edgeChange_fsnodesLink _ ts hnew)).trans (edgeChange_fsnodesLink _ ts hback)
    | std | noreplace => exact hreplace de hde

theorem moveBody_edges :
    (s.moveBody ts m nameSrc nameDst rmode c).2.edges
      = (s.moveRelink ts m nameSrc nameDst rmode).edges := by
  unfold moveBody
  split
  · rfl
  · exact dataOnly_applyForced.edges

/-- The rename a request stands for, if all tests accept it. -/
def moveAccepted (s : Master) (cl : Client) (parentSrc : Nat) (nameSrc : Name) (parentDst : Nat)
    (nameDst : Name) (rmode : RenameMode) (unlinkForbidden rmdirForbidden : Bool) : Option Move :=
  match s.moveCheck cl.rootinode cl.flags cl.cred parentSrc nameSrc parentDst nameDst rmode
      unlinkForbidden rmdirForbidden with
  | .error _ => none
  | .ok m =>
    let r := s.moveStats m
    if r.1.moveQuota m rmode r.2.1 r.2.2 then none else some m

section Rename

variable {ts : UInt32} {parentSrc parentDst : Nat} {nameSrc nameDst : Name} {rmode : RenameMode}
  {uf rf : Bool}

/-- A rename that is refused leaves the edges, one that is accepted relinks. -/
theorem rename_edges :
    (s.nsLeader ts cl (.rename parentSrc nameSrc parentDst nameDst rmode uf rf)).state.edges
      = match s.moveAccepted cl parentSrc nameSrc parentDst nameDst rmode uf rf with
        | none => s.edges
        | some m => ((s.moveStats m).1.moveRelink ts m nameSrc nameDst rmode).edges := by
  show (s.fsUnivMove ts cl.rootinode cl.flags parentSrc nameSrc parentDst nameDst cl.cred rmode uf
    rf).state.edges = _
  unfold fsUnivMove moveAccepted
  cases s.moveCheck cl.rootinode cl.flags cl.cred parentSrc nameSrc parentDst nameDst rmode uf
      rf with
  | error st => rfl
  | ok m =>
    show Master.edges (NsResult.state (if ((s.moveStats m).1.moveQuota m rmode _ _) = true
      then _ else _)) = _
    dsimp only
    split
    · exact (sameNs_moveStats s m).edges
    · exact moveBody_edges

/-- What the tests of an accepted rename say about its ends. -/
theorem moveAccepted_spec
    (h : s.moveAccepted cl parentSrc nameSrc parentDst nameDst rmode uf rf = some m) :
    s.fsnodesLookup m.swd nameSrc = some m.se ∧ m.de = s.fsnodesLookup m.dwd nameDst
      ∧ ¬ s.Frozen m.swd ∧ ¬ s.Frozen m.dwd := by
  unfold moveAccepted at h
  split at h
  · cases h
  next hchk =>
  dsimp only at h
  split at h
  · cases h
  cases h
  simp only [moveCheck, except_bind_eq_ok, require_eq_ok, refuse_eq_ok, exists_const] at hchk
  obtain ⟨_, swd, hswd, dwd, hdwd, _, hsbit, _, _, se, hse, _, _, _, _, hdbit, _, _, _, _, _, _, _,
    hret⟩ := hchk
  cases hret
  exact ⟨hse, rfl, not_frozen (findExt_node hswd) (hasBit_of_submask (by decide) hsbit),
    not_frozen (findExt_node hdwd) hdbit⟩

end Rename

/-! ## §3. `fs_undel`. -/

section Undel

variable {ts : UInt32} {e : FsEdge} {t : Master} {p : Nat}

/-- A directory is made in `p`, and the walk goes on below it, in one that `s` does not have. -/
theorem undelLoop_made (hpool : t.pool.Covers fun i => (s.nodes i).isSome = true)
    (hp : (t.nodes p).isSome = true) (hadd : ∀ i, s.Addable ⟨some p, name, i⟩)
    (hbelow : ∀ (t : Master) (p : Nat), t.pool.Covers (fun i => (s.nodes i).isSome = true) →
      s.nodes p = none → (t.nodes p).isSome = true →
      EdgeChange s.Removable s.Addable t (undelLoop ts e parts t p true).2) :
    EdgeChange s.Removable s.Addable t
      (undelLoop ts e parts (t.fsnodesCreateNode ts p name .directory 0o755 0 0 0 false).2
        (t.fsnodesCreateNode ts p name .directory 0o755 0 0 0 false).1 true).2 := by
  obtain ⟨wd, hwd⟩ := Option.isSome_iff_exists.mp hp
  have hcreate : EdgeChange s.Removable s.Addable t
      (t.fsnodesCreateNode ts p name .directory 0o755 0 0 0 false).2 :=
    edgeChange_fsnodesCreateNode (hadd _)
  have hinode := fsnodesCreateNode_inode hwd ts name .directory 0o755 0 0 0 false
  refine hcreate.trans (hbelow _ _ (hcreate.pool _ hpool) ?_ ?_)
  · rw [hinode]
    exact Option.not_isSome_iff_eq_none.mp hpool.fresh
  · rw [hinode]
    exact (fsnodesCreateNode_isSome hwd ts name .directory 0o755 0 0 0 false _).mpr (.inr rfl)

/-- Below a directory the walk made, it makes everything itself. -/
theorem undelLoop_new (he : e.parent = none) :
    ∀ (t : Master) (p : Nat), t.pool.Covers (fun i => (s.nodes i).isSome = true) →
      s.nodes p = none → (t.nodes p).isSome = true →
      EdgeChange s.Removable s.Addable t (undelLoop ts e parts t p true).2 := by
  induction parts with
  | nil => exact fun t p _ _ _ => .refl
  | cons name rest ih =>
    intro t p hpool hnew hp
    unfold undelLoop
    split
    · exact .refl
    split
    · exact .refl
    split
    · split
      · exact .refl
      · exact edgeChange_relink (removable_trash he) (addable_new hnew)
    exact undelLoop_made hpool hp (fun _ => addable_new hnew) ih

/-- The walk of `fsnodes_undel` tests every directory it is about to change: as long as it has
not made one, the state is the one it started in. -/
theorem undelLoop_change (h : s.WellFormed) (he : e.parent = none) :
    ∀ p, (s.nodes p).isSome = true →
      EdgeChange s.Removable s.Addable s (undelLoop ts e parts s p false).2 := by
  induction parts with
  | nil => exact fun p _ => .refl
  | cons name rest ih =>
    intro p hp
    obtain ⟨wd, hwd⟩ := Option.isSome_iff_exists.mp hp
    unfold undelLoop
    split
    · exact .refl
    split
    · exact .refl
    next hbit =>
    have hfree : ¬ s.Frozen p := by
      rw [hwd] at hbit
      exact not_frozen hwd (by simpa using hbit)
    have hadd : ∀ i, s.Addable ⟨some p, name, i⟩ := fun _ => addable_entry rfl hfree
    split
    · split
      · exact .refl
      · exact edgeChange_relink (removable_trash he) (hadd e.child)
    simp only [Bool.false_eq_true, if_false]
    split
    next pe _ =>
      split
      next hdir => exact ih pe.child (isSome_of_isDir hdir)
      · exact .refl
    · exact undelLoop_made h.linked.pool hp hadd (undelLoop_new he)

/-- **`fs_undel` respects the marks.** -/
theorem undel_change (h : s.WellFormed) {root : Nat} {f : SesFlags} {inode : Nat} :
    EdgeChange s.Removable s.Addable s (s.fsUnivUndel ts root f inode).2 := by
  unfold fsUnivUndel
  cases hchk : s.trashNode root f inode with
  | error st => exact .refl
  | ok n =>
    simp only [trashNode, except_bind_eq_ok, require_eq_ok, refuse_eq_ok, exists_const] at hchk
    obtain ⟨_, _, p, hp, htype, _⟩ := hchk
    show EdgeChange s.Removable s.Addable s (s.fsnodesUndel ts inode).2
    unfold fsnodesUndel
    split
    · exact .refl
    next e es hparents =>
    have hmem : e ∈ s.parents inode := hparents ▸ List.mem_cons_self
    obtain ⟨he, hchild⟩ := List.mem_filter.mp hmem
    have htrash : e.parent = none := by
      refine h.trash e he ?_
      rw [beq_iff_eq.mp hchild]
      unfold typeOf
      rw [hp, Option.map_some]
      simpa using htype
    dsimp only
    split
    · exact undelLoop_change h htrash rootId (isSome_of_isDir h.root)
    · exact .refl

end Undel

/-! ## §4. `fs_trash_recover`. -/

/-- The last directory of the walk that exists already: it is entered from directory to
directory until a component is missing, is no directory, or is one the caller may not use. -/
def walkEnd (s : Master) (forbidden : Master → Nat → Nat → Bool) : List Name → Nat → Option Nat
  | [], _ => none
  | c :: rest, d =>
    if rest.isEmpty then some d
    else match (s.ndwdFuniq forbidden d c).1 with
      | some j => walkEnd s forbidden rest j
      | none => some d

/-- From `s` to `t` the directory `x` got an entry, no directory lost one, and no other
directory of `s` changed. -/
structure EntersAt (s t : Master) (x : Nat) : Prop where
  kept : ∀ e ∈ s.edges, e.parent ≠ none → e ∈ t.edges
  others : ∀ e j, e.parent = some j → j ≠ x → (s.nodes j).isSome = true →
    (e ∈ t.edges ↔ e ∈ s.edges)
  entry : ∃ e ∈ t.edges, e.parent = some x ∧ e ∉ s.edges

section Recover

variable {k : Recovery} {t : Master} {p q : Progress}

variable {name : Name}

theorem not_mem_of_unused (h : s.fsnodesNameisused d name = false)
    {i : Nat} : (⟨some d, name, i⟩ : FsEdge) ∉ s.edges := by
  intro hmem
  have hused : s.fsnodesNameisused d name = true := by
    rw [nameisused_iff]
    exact List.mem_map.mpr ⟨_, List.mem_filter.mpr ⟨hmem, beq_self_eq_true _⟩, rfl⟩
  rw [h] at hused
  cases hused

/-- Entries are added in `d` and in new directories, and the edge in the trash goes. -/
theorem entersAt_of_edges (hk : k.e.parent = none) {l : List FsEdge}
    (hedges : t.edges = (l ++ s.edges).erase k.e)
    (hpar : ∀ x ∈ l, x.parent = some d ∨ ∃ j, x.parent = some j ∧ s.nodes j = none)
    (hentry : ∃ x ∈ l, x.parent = some d ∧ x ∉ s.edges) : EntersAt s t d := by
  have hmem : ∀ x j, x.parent = some j → (x ∈ t.edges ↔ x ∈ l ∨ x ∈ s.edges) := by
    intro x j hj
    have hne : x ≠ k.e := fun heq => by rw [heq, hk] at hj; cases hj
    rw [hedges, List.mem_erase_of_ne hne, List.mem_append]
  refine ⟨fun x hx hnone => ?_, fun x j hj hjd hold => ?_, ?_⟩
  · obtain ⟨j, hj⟩ := Option.ne_none_iff_exists'.mp hnone
    exact (hmem x j hj).mpr (.inr hx)
  · rw [hmem x j hj]
    refine or_iff_right fun hx => ?_
    rcases hpar x hx with hd | ⟨j', hj', hnone⟩
    · exact hjd (Option.some.inj (hj.symm.trans hd))
    · cases hj.symm.trans hj'
      rw [hnone] at hold
      cases hold
  · obtain ⟨x, hx, hd, hnew⟩ := hentry
    exact ⟨x, (hmem x d hd).mpr (.inl hx), hd, hnew⟩

/-- The last component: the file itself becomes the entry. -/
theorem entersAt_relink (hk : k.e.parent = none)
    (hname : s.fsnodesNameisused d name = false) : EntersAt s (s.relink k.ts k.e d name) d :=
  entersAt_of_edges hk (l := [⟨some d, name, k.e.child⟩]) (relink_edges ..)
    (List.forall_mem_singleton.mpr (.inl rfl))
    ⟨_, List.mem_cons_self, rfl, not_mem_of_unused hname⟩

/-- A component that is made: everything below it is new. -/
theorem entersAt_belowNew (h : s.WellFormed) (hk : k.e.parent = none)
    (hd : (s.nodes d).isSome = true) {rest : List Name} (hrest : rest ≠ []) :
    EntersAt s (belowNew k rest s d name p).1 d := by
  obtain ⟨xs, hxs, _, hpar⟩ := belowNew_edges k hrest h.linked hd name p
  rw [List.append_cons] at hxs
  refine entersAt_of_edges hk hxs (List.forall_mem_append.mpr ⟨fun x hx => .inr (hpar x hx),
    List.forall_mem_singleton.mpr (.inl rfl)⟩)
    ⟨_, List.mem_append_right xs List.mem_cons_self, rfl, fun hmem => ?_⟩
  have hsome := h.child _ hmem
  rw [makePart_fst hd, h.linked.fresh] at hsome
  cases hsome

/-- **Where a recovery makes its entries.**  The induction follows the walk; as long as it
enters directories nothing changes. -/
theorem recoverLoop_enters (h : s.WellFormed) (hk : k.e.parent = none) :
    ∀ d p, (s.nodes d).isSome = true → recoverLoop k parts s d p = some (t, q) →
      match s.walkEnd k.forbidden parts d with
      | none => t = s
      | some x => EntersAt s t x := by
  induction parts with
  | nil =>
    intro d p _ hrun
    cases hrun
    rfl
  | cons c rest ih =>
    intro d p hd hrun
    unfold recoverLoop at hrun
    unfold walkEnd
    by_cases hrest : rest.isEmpty = true
    · rw [if_pos hrest] at hrun ⊢
      obtain ⟨r, hr, hret⟩ := Option.map_eq_some_iff.mp hrun
      cases hret
      refine entersAt_relink hk ?_
      cases hused : s.fsnodesNameisused d c with
      | true =>
        rw [hused] at hr
        exact findUniqname_unused hr
      | false =>
        rw [hused] at hr
        cases hr
        exact hused
    · rw [if_neg hrest] at hrun ⊢
      obtain ⟨r, _, hrun⟩ := Option.bind_eq_some_iff.mp hrun
      cases hnext : (s.ndwdFuniq k.forbidden d c).1 with
      | some j =>
        rw [hnext] at hrun
        refine ih j _ ?_ hrun
        unfold ndwdFuniq at hnext
        split at hnext
        · cases hnext
        next ne _ =>
        by_cases henter : (s.isDir ne.child && !k.forbidden s d ne.child) = true
        · rw [if_pos henter] at hnext
          cases hnext
          exact isSome_of_isDir (Bool.and_eq_true _ _ ▸ henter).1
        · rw [if_neg henter] at hnext
          cases hnext
      | none =>
        rw [hnext] at hrun
        rw [recoverLoop_belowNew h.linked hd] at hrun
        have hstate := congrArg Prod.fst (Option.some.inj hrun)
        rw [← show _ = t from hstate]
        exact entersAt_belowNew h hk hd (mt List.isEmpty_iff.mpr hrest)

/-- The directory in which a recovery makes its first entry, if all tests accept it. -/
def recoverTarget (s : Master) (cl : Client) (op : RecoverOp) : Option Nat :=
  match s.recoverCheck cl.rootinode cl.flags cl.cred op.inode op.parent with
  | .error _ => none
  | .ok (d, e) =>
    let s := s.fsnodesCheckRealsize op.inode
    let demand := s.recoverDemand op.inode
    if s.fsnodesTestQuota d demand then none
    else match pathCheck (recoverPath op e) with
      | .error _ => none
      | .ok parts => s.walkEnd (forbiddenDir cl.cred cl.flags demand) parts d

/-- Statistics play no part in what makes nodes and edges well formed. -/
theorem WellFormed.sameNs (h : s.WellFormed) (hst : SameNs s t) : t.WellFormed := by
  obtain ⟨st, ra, rfl⟩ := hst
  exact ⟨⟨h.tree.top, h.tree.parent, h.tree.hung, h.tree.chains⟩, h.root,
    ⟨h.linked.pool, h.linked.parent⟩, h.child, h.names, h.nodup, h.trash⟩

/-- **The edges of a recovery**: none changes when it is refused, and otherwise the target gets
an entry and no other directory changes. -/
theorem recover_enters (h : s.WellFormed) {op : RecoverOp} {rnd : Nat → UInt32}
    {fuel : Nat} {r : RecoverResult}
    (hrun : s.fsUnivTrashRecover ts cl.rootinode cl.flags cl.cred op rnd fuel = some r) :
    match s.recoverTarget cl op with
    | none => r.state.edges = s.edges
    | some x => EntersAt s r.state x := by
  have hsame := sameNs_fsnodesCheckRealsize s op.inode
  unfold fsUnivTrashRecover at hrun
  unfold recoverTarget
  cases hchk : s.recoverCheck cl.rootinode cl.flags cl.cred op.inode op.parent with
  | error st =>
    rw [hchk] at hrun
    cases hrun
    rfl
  | ok de =>
    obtain ⟨d, e⟩ := de
    rw [hchk] at hrun
    dsimp only at hrun ⊢
    rw [show cl.flags.metarestore = false from rfl] at hrun
    simp only [Bool.false_eq_true, if_false, Bool.not_false, Bool.true_and] at hrun
    by_cases hquota : (s.fsnodesCheckRealsize op.inode).fsnodesTestQuota d
        ((s.fsnodesCheckRealsize op.inode).recoverDemand op.inode) = true
    · rw [if_pos hquota] at hrun ⊢
      cases hrun
      exact hsame.edges
    rw [if_neg hquota] at hrun ⊢
    change (match pathCheck (recoverPath op e) with | .error st => _ | .ok parts => _) = _ at hrun
    cases hpath : pathCheck (recoverPath op e) with
    | error st =>
      rw [hpath] at hrun
      cases hrun
      exact hsame.edges
    | ok parts =>
      rw [hpath] at hrun
      obtain ⟨q, hloop, hret⟩ := Option.map_eq_some_iff.mp hrun
      cases hret
      simp only [recoverCheck, except_bind_eq_ok, require_eq_ok, refuse_eq_ok,
        exists_const] at hchk
      obtain ⟨_, dwd, hdwd, sp, hsp, _, htrash, _, _, e', he', hret⟩ := hchk
      cases hret
      -- the file's only edge is the one of the trash
      have hmem := List.mem_filter.mp (List.mem_of_mem_head? he')
      have hparent : e.parent = none := by
        refine h.trash e hmem.1 ?_
        rw [beq_iff_eq.mp hmem.2]
        unfold typeOf
        rw [hsp, Option.map_some]
        simpa using htrash
      have hd : ((s.fsnodesCheckRealsize op.inode).nodes dwd.1).isSome = true := by
        rw [hsame.nodes, findExt_node hdwd]
        rfl
      have henters := recoverLoop_enters (h.sameNs hsame) hparent dwd.1 _ hd hloop
      dsimp only at henters ⊢
      revert henters
      cases (s.fsnodesCheckRealsize op.inode).walkEnd _ parts dwd.1 with
      | none =>
        intro heq
        exact heq ▸ hsame.edges
      | some x =>
        intro hx
        refine ⟨fun e he => hx.kept e (hsame.edges.symm ▸ he), fun e j hj hjx hold => ?_, ?_⟩
        · rw [hx.others e j hj hjx (by rw [hsame.nodes]; exact hold), hsame.edges]
        · obtain ⟨e, he, hpar, hnot⟩ := hx.entry
          exact ⟨e, he, hpar, hsame.edges ▸ hnot⟩

end Recover

end MfsMaster.Master
