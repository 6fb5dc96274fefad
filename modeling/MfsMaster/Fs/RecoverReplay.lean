/-
  MfsMaster.Fs.RecoverReplay
  **TRASH_RECOVER RECORDS.**

  The replica walks the path of the record again, without the leader's tests of the
  directories on the way, and with random numbers of its own.

      recover_replays_iff — the record of a successful recovery reproduces the tree,
                            for every sequence of random numbers of the replica
                              ↔ `RecoverIrrelevant`

  Once a directory was made, everything below it is new: the rest of the walk does not
  depend on tests or random numbers any more (`recoverLoop_new`).
-/
import MfsMaster.Fs.Linked
import MfsMaster.Fs.UniqName
import MfsMaster.Lib.Replay

namespace MfsMaster

open Lib

variable {c : Name} {d j root : Nat} {e x : FsEdge} {f : SesFlags} {k : Recovery} {p : Progress}
  {parts rest : List Name} {r : Name × Nat} {s t : Master} {p' : Progress} {n : Name}
  {s' : Master}

namespace Master

/-! ## §1. Below a new directory. -/

/-- The walk on a replica. -/
def Recovery.onReplica (k : Recovery) (rnd : Nat → UInt32) (fuel : Nat) : Recovery :=
  { k with rnd := rnd, fuel := fuel, forbidden := fun _ _ _ => false }

/-- The walk when nothing on the path exists. -/
def makeDown (k : Recovery) : List Name → Master → Nat → Progress → Master × Progress
  | [], s, _, p => (s, p)
  | c :: rest, s, d, p =>
    if rest.isEmpty then (s.relink k.ts k.e d c, p.add c false false p.pos)
    else
      let n := makePart k s d c
      makeDown k rest n.2 n.1 (p.add c false true p.pos)

theorem makePart_fst (hd : (s.nodes d).isSome = true)
    (name : Name) : (makePart k s d name).1 = s.pool.fsnodesGetNextId.1 := by
  obtain ⟨wd, hwd⟩ := Option.isSome_iff_exists.mp hd
  exact fsnodesCreateNode_inode hwd _ _ _ _ _ _ _ _

/-- A directory was made: it exists, it is empty, and the links are in order. -/
theorem makePart_new (h : s.WellLinked) (hd : (s.nodes d).isSome = true) {name : Name} :
    (makePart k s d name).2.WellLinked
      ∧ ((makePart k s d name).2.nodes (makePart k s d name).1).isSome = true
      ∧ (makePart k s d name).2.children (makePart k s d name).1 = []
      ∧ (makePart k s d name).2.edges = ⟨some d, name, (makePart k s d name).1⟩ :: s.edges := by
  obtain ⟨wd, hwd⟩ := Option.isSome_iff_exists.mp hd
  rw [makePart_fst hd]
  exact ⟨h.create hwd,
    (fsnodesCreateNode_isSome hwd _ _ _ _ _ _ _ _ _).mpr (.inr rfl),
    h.children_new hwd, fsnodesCreateNode_edges hwd _ _ _ _ _ _ _ _⟩

theorem isSome_makePart (hd : (s.nodes d).isSome = true) (k : Recovery) (name : Name)
    (hj : (s.nodes j).isSome = true) : ((makePart k s d name).2.nodes j).isSome = true := by
  obtain ⟨wd, hwd⟩ := Option.isSome_iff_exists.mp hd
  exact (fsnodesCreateNode_isSome hwd _ _ _ _ _ _ _ _ j).mpr (.inl hj)

theorem nameisused_of_edge (he : e ∈ s.edges)
    (hp : e.parent = some d) : s.fsnodesNameisused d e.name = true :=
  (nameisused_iff s d e.name).mpr
    (List.mem_map.mpr ⟨e, List.mem_filter.mpr ⟨he, beq_iff_eq.mpr hp⟩, rfl⟩)

theorem edgeFind_of_children (h : s.children d = []) (name : Name) :
    s.edgeFind d name = none := by
  have hnot := mt (nameisused_iff s d name).mp (by simp [h])
  exact Option.not_isSome_iff_eq_none.mp hnot

/-- In an empty directory the walk makes everything, whatever the tests and the random
numbers. -/
theorem recoverLoop_new (h : s.WellLinked)
    (hd : (s.nodes d).isSome = true) (hempty : s.children d = []) (p : Progress) :
    recoverLoop k parts s d p = some (makeDown k parts s d p) := by
  induction parts generalizing s d p with
  | nil => rfl
  | cons c rest ih =>
    have hfind := edgeFind_of_children hempty c
    unfold recoverLoop makeDown fsnodesNameisused ndwdFuniq fsnodesLookup
    rw [hfind, ite_self]
    split
    · rfl
    obtain ⟨hlinked, hnode, hchildren, _⟩ := makePart_new h hd
    exact ih hlinked hnode hchildren _

/-- A directory is made under the name `n`, and the walk goes on below it. -/
def belowNew (k : Recovery) (rest : List Name) (s : Master) (d : Nat) (n : Name) (p : Progress) :
    Master × Progress :=
  makeDown k rest (makePart k s d n).2 (makePart k s d n).1 p

theorem recoverLoop_belowNew (h : s.WellLinked) (hd : (s.nodes d).isSome = true) :
    recoverLoop k rest (makePart k s d n).2 (makePart k s d n).1 p
      = some (belowNew k rest s d n p) := by
  obtain ⟨hlinked, hnode, hchildren, _⟩ := makePart_new h hd
  exact recoverLoop_new hlinked hnode hchildren p

section Steps

variable {k : Recovery} {c : Name} {rest : List Name} {s : Master} {d : Nat} (p : Progress)

/-- A component that is there and may be entered. -/
theorem recoverLoop_enter (hrest : rest ≠ [])
    (hmid : s.ndwdFuniq k.forbidden d c = (some j, false)) :
    recoverLoop k (c :: rest) s d p = recoverLoop k rest s j (p.add c false true p.pos) := by
  conv_lhs => unfold recoverLoop
  rw [if_neg (mt List.isEmpty_iff.mp hrest), hmid]
  rfl

/-- A component that is made, under its own name or under a unique one. -/
theorem recoverLoop_make {funiq : Bool} (hlink : s.WellLinked) (hd : (s.nodes d).isSome = true)
    (hrest : rest ≠ []) (hmid : s.ndwdFuniq k.forbidden d c = (none, funiq)) :
    recoverLoop k (c :: rest) s d p
      = (usedName k s d c funiq p.pos).map fun r =>
        belowNew k rest s d r.1 (p.add r.1 funiq true r.2) := by
  conv_lhs => unfold recoverLoop
  rw [if_neg (mt List.isEmpty_iff.mp hrest), hmid]
  simp only [recoverLoop_belowNew hlink hd]
  rw [Option.map_eq_bind]
  rfl

end Steps

variable {ts : UInt32} {n' used path : Name} {inode : Nat} {mode : UInt16}

theorem makeDown_onReplica {rnd : Nat → UInt32} {fuel : Nat} :
    makeDown (k.onReplica rnd fuel) parts s d p = makeDown k parts s d p := by
  induction parts generalizing s d p with
  | nil => rfl
  | cons c rest ih =>
    unfold makeDown
    split
    · rfl
    · exact ih

theorem SameNs.makeDown (h : SameNs s t) (k : Recovery) (parts : List Name)
    (d : Nat) (p : Progress) :
    SameNs (Master.makeDown k parts s d p).1 (Master.makeDown k parts t d p).1
      ∧ (Master.makeDown k parts t d p).2 = (Master.makeDown k parts s d p).2 := by
  induction parts generalizing s t d p with
  | nil => exact ⟨h, rfl⟩
  | cons c rest ih =>
    unfold Master.makeDown
    split
    · exact ⟨h.relink, rfl⟩
    have hpart := h.fsnodesCreateNode k.ts d c .directory 0o777 k.cumask k.uid k.gid k.copysgid
    unfold makePart
    dsimp only
    rw [hpart.1]
    exact ih hpart.2 _ _

theorem SameNs.belowNew (h : SameNs s t) (k : Recovery) (rest : List Name) (d : Nat)
    (n : Name) (p : Progress) :
    SameNs (Master.belowNew k rest s d n p).1 (Master.belowNew k rest t d n p).1
      ∧ (Master.belowNew k rest t d n p).2 = (Master.belowNew k rest s d n p).2 := by
  have hpart := h.fsnodesCreateNode k.ts d n .directory 0o777 k.cumask k.uid k.gid k.copysgid
  unfold Master.belowNew makePart
  rw [hpart.1]
  exact hpart.2.makeDown k rest _ _

/-! ## §2. The edges a walk adds. -/

/-- Below a directory that was made the walk adds one edge a component, all of them in new
directories, and takes the edge in the trash away. -/
theorem belowNew_edges (k : Recovery) (hrest : rest ≠ []) (h : s.WellLinked)
    (hd : (s.nodes d).isSome = true) (n : Name) (p : Progress) :
    ∃ xs : List FsEdge, (belowNew k rest s d n p).1.edges
        = (xs ++ ⟨some d, n, (makePart k s d n).1⟩ :: s.edges).erase k.e
      ∧ xs.length = rest.length ∧ ∀ x ∈ xs, ∃ j, x.parent = some j ∧ s.nodes j = none := by
  induction rest generalizing s d n p with
  | nil => exact absurd rfl hrest
  | cons c rest ih =>
    obtain ⟨hlinked, hnode, _, hedges⟩ := makePart_new h hd
    have hfresh : s.nodes (makePart k s d n).1 = none := by
      rw [makePart_fst hd]
      exact h.fresh
    rw [← hedges]
    unfold belowNew makeDown
    split
    next hnil =>
      refine ⟨[⟨some _, c, k.e.child⟩], relink_edges .., ?_,
        List.forall_mem_singleton.mpr ⟨_, rfl, hfresh⟩⟩
      rw [List.isEmpty_iff.mp hnil]
      rfl
    next hcons =>
    obtain ⟨xs, hxs, hlen, hpar⟩ := ih (mt List.isEmpty_iff.mpr hcons) hlinked hnode c
      (p.add c false true p.pos)
    rw [List.append_cons] at hxs
    refine ⟨_, hxs, ?_, ?_⟩
    · rw [List.length_append, hlen]
      rfl
    refine List.forall_mem_append.mpr ⟨fun x hx => ?_,
      List.forall_mem_singleton.mpr ⟨_, rfl, hfresh⟩⟩
    -- what is not there after a creation was not there before
    obtain ⟨j, hj, hnone⟩ := hpar x hx
    refine ⟨j, hj, Option.not_isSome_iff_eq_none.mp fun hj => ?_⟩
    have hsome := isSome_makePart hd k n hj
    rw [hnone] at hsome
    cases hsome

/-- Any walk adds at most that. -/
theorem recoverLoop_length (hparts : parts ≠ []) (he : k.e ∈ s.edges)
    (h : recoverLoop k parts s d p = some (t, p')) :
    t.edges.length + 1 ≤ s.edges.length + parts.length := by
  induction parts generalizing s d p with
  | nil => exact absurd rfl hparts
  | cons c rest ih =>
    unfold recoverLoop at h
    split at h
    next hrest =>
      obtain ⟨r, _, hr⟩ := Option.map_eq_some_iff.mp h
      cases hr
      rw [relink_edges, List.length_erase_of_mem (List.mem_cons_of_mem _ he),
        List.isEmpty_iff.mp hrest]
      simp
    next hrest =>
      have hne : rest ≠ [] := fun heq => hrest (List.isEmpty_iff.mpr heq)
      obtain ⟨r, _, hr⟩ := Option.bind_eq_some_iff.mp h
      rw [List.length_cons]
      split at hr
      · have := ih hne he hr
        omega
      -- a directory is made, unless the one it is made in does not exist
      have hgrow : k.e ∈ (makePart k s d r.1).2.edges
          ∧ (makePart k s d r.1).2.edges.length ≤ s.edges.length + 1 := by
        cases hwd : s.nodes d with
        | none =>
          unfold makePart fsnodesCreateNode
          rw [hwd]
          exact ⟨he, Nat.le_succ _⟩
        | some wd =>
          unfold makePart
          rw [fsnodesCreateNode_edges hwd]
          exact ⟨List.mem_cons_of_mem _ he, by simp⟩
      have := ih hne hgrow.1 hr
      omega

/-! ## §3. The two walks. -/

/-- The tests and the random numbers do not decide: no existing directory on the way is
forbidden to the caller, and where a unique name is needed a numbered one is free. -/
def WalkIrrelevant (s : Master) (forbidden : Master → Nat → Nat → Bool) :
    List Name → Nat → Prop
  | [], _ => True
  | c :: rest, d =>
    if rest.isEmpty then s.fsnodesNameisused d c = true → s.NumberedFree d c
    else
      match s.fsnodesLookup d c with
      | none => True
      | some ne =>
        if s.isDir ne.child then
          forbidden s d ne.child = false ∧ WalkIrrelevant s forbidden rest ne.child
        else s.NumberedFree d c

/-- For every sequence of random numbers the walk on a replica ends, reports the path `used`
and shows the namespace of `t`. -/
def WalkReplays (s : Master) (k : Recovery) (parts : List Name) (d : Nat) (p : Progress)
    (t : Master) (used : Name) : Prop :=
  ∀ rnd, ∃ fuel t' p', recoverLoop (k.onReplica rnd fuel) parts s d p = some (t', p')
    ∧ p'.used = used ∧ SameNamespace t t'

theorem SameNs.findUniqname (h : SameNs s t) (d : Nat) (name : Name)
    (rnd : Nat → UInt32) (fuel cnt pos : Nat) :
    t.findUniqname d name rnd fuel cnt pos = s.findUniqname d name rnd fuel cnt pos := by
  induction fuel generalizing cnt pos with
  | zero => rfl
  | succ fuel ih =>
    unfold Master.findUniqname
    simp only [h.fsnodesNameisused, ih]

theorem SameNs.numberedFree (h : SameNs s t) (d : Nat) (name : Name) :
    t.NumberedFree d name ↔ s.NumberedFree d name := by
  unfold Master.NumberedFree
  simp only [h.fsnodesNameisused]

/-- Two walks that part in the name of the last component show different trees. -/
theorem relink_edges_ne (hedges : t.edges = s.edges) (he : e ∈ s.edges)
    (hn : s.fsnodesNameisused d n = false) (hn' : s.fsnodesNameisused d n' = false) (hne : n' ≠ n) :
    (s.relink ts e d n').edges ≠ (t.relink ts e d n).edges := by
  have hnot : ∀ m, s.fsnodesNameisused d m = false → (⟨some d, m, e.child⟩ : FsEdge) ≠ e := by
    intro m hm heq
    have hused := nameisused_of_edge he (d := d) (by rw [← heq])
    rw [← heq, hm] at hused
    cases hused
  rw [relink_edges, relink_edges, hedges, List.erase_cons_tail (by simpa using hnot n' hn'),
    List.erase_cons_tail (by simpa using hnot n hn)]
  intro heq
  injection heq with hhead _
  injection hhead with _ hname _
  exact hne hname

/-- Two walks that part in the name of a directory show different trees. -/
theorem makePart_edges_ne (h : s.WellLinked) (hd : (s.nodes d).isSome = true)
    (hrest : rest ≠ []) (he : k.e ∈ s.edges) (hn : s.fsnodesNameisused d n = false) (hne : n' ≠ n) :
    (belowNew k rest s d n' p').1.edges ≠ (belowNew k rest s d n p).1.edges := by
  obtain ⟨xs, hxs, _⟩ := belowNew_edges k hrest h hd n p
  obtain ⟨xs', hxs', _, hpar⟩ := belowNew_edges k hrest h hd n' p'
  -- no edge of the directory has the name `n` before
  have hunused : ∀ x ∈ s.edges, x.parent = some d → x.name ≠ n := by
    intro x hx hp hname
    have hused := nameisused_of_edge hx hp
    rw [hname, hn] at hused
    cases hused
  have hkept : (⟨some d, n, (makePart k s d n).1⟩ : FsEdge) ≠ k.e := fun hxe =>
    hunused k.e he (by rw [← hxe]) (by rw [← hxe])
  intro heq
  have hmem := (List.mem_erase_of_ne hkept).mpr
    (List.mem_append_right xs (List.mem_cons_self (l := s.edges)))
  rw [← hxs, ← heq, hxs', List.mem_erase_of_ne hkept, List.mem_append, List.mem_cons] at hmem
  rcases hmem with hx | hx | hx
  · -- the edges below are in new directories
    obtain ⟨j, hj, hnone⟩ := hpar _ hx
    cases hj
    rw [hnone] at hd
    cases hd
  · injection hx with _ hname _
    exact hne hname.symm
  · exact hunused _ hx rfl rfl

/-- **Where a unique name is needed**: random numbers do not decide exactly when a numbered name
is free.  `o` is what the walk leaves when it takes a name. -/
theorem walkReplays_uniq_iff {o : Name → Nat → Master × Progress}
    (hloop : ∀ rnd fuel, recoverLoop (k.onReplica rnd fuel) parts s d p
      = (s.findUniqname d c rnd fuel 0 p.pos).map fun r => o r.1 r.2)
    (hfit : (s.children d).length + 1 < 2 ^ 32)
    (hr : s.findUniqname d c k.rnd k.fuel 0 p.pos = some r)
    (hout : (o r.1 r.2).2.used = used ∧ SameNamespace t (o r.1 r.2).1)
    (hother : ∀ n pos, s.fsnodesNameisused d n = false → n ≠ r.1 →
      (o n pos).1.edges ≠ t.edges) :
    s.WalkReplays k parts d p t used ↔ s.NumberedFree d c := by
  constructor
  · intro hreplay
    by_contra hnot
    obtain ⟨x, hfree, hne⟩ := exists_other_random hfit c r.1
    obtain ⟨fuel, t', p', hrun, _, hsame⟩ := hreplay fun _ => x
    rw [hloop] at hrun
    obtain ⟨r', hr', hret⟩ := Option.map_eq_some_iff.mp hrun
    have hname := findUniqname_random hr' hnot rfl hfree
    refine hother r'.1 r'.2 ?_ ?_ ?_
    · rw [hname]
      exact hfree
    · rw [hname]
      exact hne
    · rw [hret]
      exact hsame.1
  · intro hfree rnd
    obtain ⟨n, hfound, honly⟩ := findUniqname_numbered s d c hfree
    cases honly _ _ _ _ hr
    exact ⟨9, _, _, by rw [hloop, hfound rnd 9 p.pos (Nat.le_refl 9), Option.map_some], hout⟩

/-- A unique name for the last component. -/
theorem relink_uniq_iff (h : SameNs s s') (he : k.e ∈ s.edges)
    (hfit : (s.children d).length + 1 < 2 ^ 32) (hused : s.fsnodesNameisused d c = true)
    (hr : s.findUniqname d c k.rnd k.fuel 0 p.pos = some r) :
    s.WalkReplays k [c] d p (s'.relink k.ts k.e d r.1) (p.add r.1 true false r.2).used
      ↔ s.NumberedFree d c := by
  refine walkReplays_uniq_iff
    (o := fun n pos => (s.relink k.ts k.e d n, p.add n true false pos)) (fun rnd fuel => ?_) hfit
    hr ⟨rfl, h.relink.sameNamespace⟩ fun n _ hfree hne =>
      relink_edges_ne h.edges he (findUniqname_unused hr) hfree hne
  unfold recoverLoop usedName
  rw [hused]
  rfl

/-- A unique name for a directory, when a replica needs one too. -/
theorem makePart_uniq_iff (h : SameNs s s') (hlink : s.WellLinked) (he : k.e ∈ s.edges)
    (hd : (s.nodes d).isSome = true) (hfit : (s.children d).length + 1 < 2 ^ 32) (hrest : rest ≠ [])
    (hmid : s.ndwdFuniq (fun _ _ _ => false) d c = (none, true))
    (hr : s.findUniqname d c k.rnd k.fuel 0 p.pos = some r) :
    s.WalkReplays k (c :: rest) d p (belowNew k rest s' d r.1 (p.add r.1 true true r.2)).1
        (belowNew k rest s' d r.1 (p.add r.1 true true r.2)).2.used
      ↔ s.NumberedFree d c := by
  have hdown := h.belowNew k rest d r.1 (p.add r.1 true true r.2)
  refine walkReplays_uniq_iff
    (o := fun n pos => belowNew k rest s d n (p.add n true true pos)) (fun rnd fuel => ?_) hfit hr
    ⟨by rw [hdown.2], hdown.1.sameNamespace⟩ fun n _ _ hne hedges => ?_
  · rw [recoverLoop_make p hlink hd hrest hmid]
    congr 1
    funext r
    exact makeDown_onReplica
  · rw [hdown.1.edges] at hedges
    exact makePart_edges_ne hlink hd hrest he (findUniqname_unused hr) hne hedges

/-- A walk that makes a directory where the replica enters one shows more edges. -/
theorem not_walkReplays_of_forbidden (h : SameNs s s') (hlink : s.WellLinked) (he : k.e ∈ s.edges)
    (hd : (s.nodes d).isSome = true) (hrest : rest ≠ [])
    (hmid : s.ndwdFuniq (fun _ _ _ => false) d c = (some j, false)) :
    ¬ s.WalkReplays k (c :: rest) d p (belowNew k rest s' d n p').1 used := by
  intro hreplay
  obtain ⟨fuel, t', p'', hrun, _, hsame⟩ := hreplay fun _ => 0
  rw [recoverLoop_enter p hrest hmid] at hrun
  have hle := recoverLoop_length (k := k.onReplica (fun _ => 0) fuel) hrest he hrun
  obtain ⟨xs, hxs, hlen, _⟩ := belowNew_edges k hrest hlink hd n p'
  have heq := congrArg List.length hsame.1
  rw [(h.belowNew k rest d n p').1.edges, hxs,
    List.length_erase_of_mem (List.mem_append_right _ (List.mem_cons_of_mem _ he)),
    List.length_append, List.length_cons, hlen] at heq
  omega

/-- The walk of the leader is repeated by every replica exactly when neither the tests nor the
random numbers decide. -/
theorem recoverLoop_replays_iff (h : SameNs s s') (hlink : s.WellLinked)
    (hfit : ∀ d, (s.children d).length + 1 < 2 ^ 32) (he : k.e ∈ s.edges)
    (hd : (s.nodes d).isSome = true) (hrun : recoverLoop k parts s' d p = some (t, p')) :
    s.WalkReplays k parts d p t p'.used ↔ s'.WalkIrrelevant k.forbidden parts d := by
  induction parts generalizing d p with
  | nil =>
    cases hrun
    refine iff_of_true (fun rnd => ⟨0, s, _, rfl, rfl, h.edges.symm, fun i => ?_⟩) trivial
    rw [h.nodes]
  | cons c rest ih =>
    unfold WalkIrrelevant
    by_cases hrest : rest.isEmpty = true
    · unfold recoverLoop usedName at hrun
      rw [if_pos hrest] at hrun ⊢
      have hnil := List.isEmpty_iff.mp hrest
      subst hnil
      simp only [h.fsnodesNameisused, h.findUniqname] at hrun
      rw [h.fsnodesNameisused, h.numberedFree]
      cases hused : s.fsnodesNameisused d c with
      | true =>
        rw [hused] at hrun
        obtain ⟨r, hr, hret⟩ := Option.map_eq_some_iff.mp hrun
        cases hret
        exact (relink_uniq_iff h he (hfit d) hused hr).trans (by simp)
      | false =>
        rw [hused] at hrun
        cases hrun
        refine iff_of_true (fun rnd => ⟨0, s.relink k.ts k.e d c, p.add c false false p.pos, ?_, rfl,
          ?_⟩) (by simp)
        · unfold recoverLoop usedName
          rw [hused]
          rfl
        · exact h.relink.sameNamespace
    · rw [if_neg hrest, h.fsnodesLookup]
      have hne : rest ≠ [] := mt List.isEmpty_iff.mpr hrest
      have hlink' : s'.WellLinked := by
        obtain ⟨st, ra, rfl⟩ := h
        exact ⟨hlink.pool, hlink.parent⟩
      have hd' : (s'.nodes d).isSome = true := by rwa [h.nodes]
      cases hlook : s.fsnodesLookup d c with
      | none =>
        have hmid : ∀ (u : Master) f, SameNs s u → u.ndwdFuniq f d c = (none, false) := by
          intro u f hu
          unfold ndwdFuniq
          rw [hu.fsnodesLookup, hlook]
        rw [recoverLoop_make p hlink' hd' hne (hmid s' _ h)] at hrun
        have hdone := h.belowNew k rest d c (p.add c false true p.pos)
        obtain ⟨rfl, rfl⟩ := Prod.ext_iff.mp (Option.some_inj.mp hrun)
        refine iff_of_true (fun rnd => ⟨0, _, _, ?_, congrArg Progress.used hdone.2.symm,
          hdone.1.sameNamespace⟩) trivial
        rw [recoverLoop_make p hlink hd hne (hmid s _ .refl)]
        exact congrArg some makeDown_onReplica
      | some ne =>
        dsimp only
        rw [h.isDir]
        -- the component is there; a directory is entered unless it is forbidden
        have hmid : ∀ (u : Master) f, SameNs s u → u.ndwdFuniq f d c
            = if !s.isDir ne.child || f u d ne.child then (none, true) else (some ne.child, false) := by
          intro u f hu
          unfold ndwdFuniq
          rw [hu.fsnodesLookup, hlook]
          dsimp only
          rw [hu.isDir]
          cases s.isDir ne.child <;> cases f u d ne.child <;> rfl
        have huniq : s'.ndwdFuniq k.forbidden d c = (none, true) → ∃ r,
            s.findUniqname d c k.rnd k.fuel 0 p.pos = some r
              ∧ (belowNew k rest s' d r.1 (p.add r.1 true true r.2)).1 = t
              ∧ (belowNew k rest s' d r.1 (p.add r.1 true true r.2)).2 = p' := by
          intro hmake
          rw [recoverLoop_make p hlink' hd' hne hmake] at hrun
          obtain ⟨r, hr, hret⟩ := Option.map_eq_some_iff.mp hrun
          exact ⟨r, (h.findUniqname d c k.rnd k.fuel 0 p.pos).symm.trans hr, Prod.ext_iff.mp hret⟩
        have hs := hmid s (fun _ _ _ => false) .refl
        have hs' := hmid s' k.forbidden h
        cases hdir : s.isDir ne.child with
        | false =>
          rw [hdir] at hs hs'
          obtain ⟨r, hr, rfl, rfl⟩ := huniq hs'
          rw [h.numberedFree]
          exact (makePart_uniq_iff h hlink he hd (hfit d) hne hs hr).trans (by simp)
        | true =>
          rw [hdir] at hs hs'
          cases hforb : k.forbidden s' d ne.child with
          | true =>
            rw [hforb] at hs'
            obtain ⟨r, hr, rfl, _⟩ := huniq hs'
            exact iff_of_false (not_walkReplays_of_forbidden h hlink he hd hne hs) (by simp)
          | false =>
            rw [hforb] at hs'
            rw [recoverLoop_enter p hne hs'] at hrun
            have hinto : ∀ rnd fuel, recoverLoop (k.onReplica rnd fuel) (c :: rest) s d p
                = recoverLoop (k.onReplica rnd fuel) rest s ne.child (p.add c false true p.pos) :=
              fun rnd fuel => recoverLoop_enter p hne hs
            have hiff := ih (isSome_of_isDir hdir) hrun
            unfold WalkReplays at hiff ⊢
            simp only [hinto, hiff]
            simp

/-! ## §4. The record. -/

/-- The record of a recovery, replayed with any random numbers, returns OK and shows the
leader's namespace. -/
def ReplaysRecovery (s : Master) (r : RecoverResult) : Prop :=
  ∀ rnd, ∃ fuel t, replay (recoverApply rnd fuel) s r.log = some t ∧ SameNamespace r.state t

/-- The leader's tests of the directories on the way. -/
def leaderForbidden (s : Master) (cl : Client) (inode : Nat) : Master → Nat → Nat → Bool :=
  forbiddenDir cl.cred cl.flags ((s.fsnodesCheckRealsize inode).recoverDemand inode)

/-- The walk on the leader. -/
def leaderWalk (s : Master) (ts : UInt32) (cl : Client) (op : RecoverOp) (e : FsEdge)
    (rnd : Nat → UInt32) (fuel : Nat) : Recovery :=
  { ts := ts, cumask := op.cumask, uid := cl.cred.uid, gid := cl.cred.gid, copysgid := op.copysgid
    e := e, rnd := rnd, fuel := fuel, forbidden := s.leaderForbidden cl op.inode }

/-- The path a request asks for: its own, or the one stored in the trash. -/
def recoverPath (op : RecoverOp) (e : FsEdge) : Name :=
  if op.path.isEmpty then e.name else op.path

/-- The recoveries that a record describes completely. -/
def RecoverIrrelevant (s : Master) (cl : Client) (op : RecoverOp) : Prop :=
  ∀ d e parts, s.fsnodesNodeFindExt cl.rootinode cl.flags op.parent = some d →
    (s.parents op.inode).head? = some e → pathCheck (recoverPath op e) = .ok parts →
    (s.fsnodesCheckRealsize op.inode).WalkIrrelevant (s.leaderForbidden cl op.inode) parts d.1

variable {c : Cred}

theorem recoverCheck_replica {parent : Nat} {r : Nat × FsEdge} {gids : List Nat}
    (h : s.recoverCheck root f c inode parent = .ok r) :
    s.recoverCheck 0 .replica ⟨c.uid, gids⟩ inode r.1 = .ok r
      ∧ (s.parents inode).head? = some r.2
      ∧ ∃ n, s.fsnodesNodeFindExt root f parent = some (r.1, n) := by
  simp only [recoverCheck, except_bind_eq_ok, require_eq_ok, refuse_eq_ok, exists_const] at h ⊢
  obtain ⟨_, dwd, hdwd, sp, hsp, huid, htrash, hdir, _, e, he, hret⟩ := h
  cases hret
  exact ⟨⟨rfl, dwd, findExt_replica (findExt_node hdwd), sp, hsp, huid, htrash, hdir, rfl, e, he, rfl⟩,
    he, dwd.2, hdwd⟩

theorem neverOk_recoverCheck {parent : Nat} : NeverOk (s.recoverCheck root f c inode parent) := by
  simp [recoverCheck]

theorem neverOk_pathCheck : NeverOk (pathCheck path) := by
  have hparts : ∀ l : List Name, NeverOk (l.forM partCheck) := by
    intro l
    induction l with
    | nil => exact neverOk_pure
    | cons c l ih => exact neverOk_bind.mpr ⟨by simp [partCheck], fun _ _ => ih⟩
  exact neverOk_bind.mpr ⟨neverOk_refuse nofun, fun _ _ => by simpa using hparts _⟩

theorem ne_nil_of_pathCheck (h : pathCheck path = .ok parts) : path.isEmpty = false := by
  simp only [pathCheck, except_bind_eq_ok, refuse_eq_ok, exists_const, Bool.or_eq_false_iff] at h
  exact h.1.1

/-- What a successful recovery on the leader did. -/
theorem fsUnivTrashRecover_ok {cl : Client} {op : RecoverOp}
    {rnd : Nat → UInt32} {fuel : Nat} {r : RecoverResult}
    (h : s.fsUnivTrashRecover ts cl.rootinode cl.flags cl.cred op rnd fuel = some r)
    (hok : r.status = .ok) :
    ∃ d e parts q, s.recoverCheck cl.rootinode cl.flags cl.cred op.inode op.parent = .ok (d, e)
      ∧ pathCheck (recoverPath op e) = .ok parts
      ∧ recoverLoop (s.leaderWalk ts cl op e rnd fuel) parts (s.fsnodesCheckRealsize op.inode) d
        ⟨[], false, 0⟩ = some (r.state, q)
      ∧ r.log = [{ ts := ts, inode := op.inode, parent := d, path := recoverPath op e
                   cumask := op.cumask, uid := cl.cred.uid, gid := cl.cred.gid
                   copysgid := op.copysgid, used := q.used }] := by
  unfold fsUnivTrashRecover at h
  obtain ⟨⟨d, e⟩, hchk⟩ := neverOk_recoverCheck.exists_ok fun st hst => by
    rw [hst] at h
    cases h
    exact hok
  rw [hchk, show cl.flags.metarestore = false from rfl] at h
  simp only [Bool.false_eq_true, if_false, Bool.not_false, Bool.true_and] at h
  split at h
  · cases h
    cases hok
  obtain ⟨parts, hpath⟩ := neverOk_pathCheck.exists_ok fun st hst => by
    rw [hst] at h
    cases h
    exact hok
  rw [hpath] at h
  obtain ⟨q, hq, hret⟩ := Option.map_eq_some_iff.mp h
  cases hret
  exact ⟨d, e, parts, q.2, hchk, hpath, hq, rfl⟩

/-- The record of a successful recovery reproduces the tree, whatever the random numbers of
the replica, exactly when no test and no random number decided the walk.  The links of the
state are in order, and every directory can take one more entry (`elements` has 32 bits). -/
theorem recover_replays_iff (s : Master) (hlink : s.WellLinked)
    (hfit : ∀ d, (s.children d).length + 1 < 2 ^ 32) (ts : UInt32) (cl : Client) (op : RecoverOp)
    (rnd : Nat → UInt32) (fuel : Nat) (r : RecoverResult)
    (hrun : s.fsUnivTrashRecover ts cl.rootinode cl.flags cl.cred op rnd fuel = some r)
    (hok : r.status = .ok) : s.ReplaysRecovery r ↔ s.RecoverIrrelevant cl op := by
  obtain ⟨d, e, parts, q, hchk, hpath, hloop, hlog⟩ := fsUnivTrashRecover_ok hrun hok
  obtain ⟨hchk', hhead, n, hfind⟩ := recoverCheck_replica hchk
  have he : e ∈ s.edges := by
    have hmem := List.mem_of_head? hhead
    exact (List.mem_filter.mp hmem).1
  have hd : (s.nodes d).isSome = true := by
    rw [findExt_node hfind]
    rfl
  have hwalk := recoverLoop_replays_iff (s.sameNs_fsnodesCheckRealsize op.inode) hlink hfit he hd hloop
  have hcond : s.RecoverIrrelevant cl op ↔ (s.fsnodesCheckRealsize op.inode).WalkIrrelevant
      (s.leaderForbidden cl op.inode) parts d := by
    constructor
    · intro h
      exact h (d, n) e parts hfind hhead hpath
    intro h d' e' parts' hfind' hhead' hpath'
    cases hfind.symm.trans hfind'
    cases hhead.symm.trans hhead'
    cases hpath.symm.trans hpath'
    exact h
  rw [hcond]
  refine Iff.trans ?_ hwalk
  refine forall_congr' fun rnd' => exists_congr fun fuel' => ?_
  -- the replica's call is the walk, and its answer is accepted when the paths agree
  have happly : replay (recoverApply rnd' fuel') s r.log
      = (recoverLoop ((s.leaderWalk ts cl op e rnd fuel).onReplica rnd' fuel') parts s d
          ⟨[], false, 0⟩).bind fun x => if x.2.used = q.used then some x.1 else none := by
    rw [hlog, replay_singleton]
    unfold recoverApply fsUnivTrashRecover
    rw [hchk']
    rw [ne_nil_of_pathCheck hpath]
    simp only [Bool.false_eq_true, if_false]
    rw [hpath]
    show Option.bind (Option.map _ (recoverLoop _ parts s d _)) _ = _
    rw [Option.bind_map]
    congr 1
    funext x
    show (if Status.ok = .ok ∧ x.2.used = q.used then some x.1 else none) = _
    simp
  rw [happly]
  constructor
  · rintro ⟨t, ht, hsame⟩
    obtain ⟨x, hx, hret⟩ := Option.bind_eq_some_iff.mp ht
    split at hret
    next hused =>
      cases hret
      exact ⟨x.1, x.2, hx, hused, hsame⟩
    · cases hret
  · rintro ⟨t, p', hx, hused, hsame⟩
    refine ⟨t, ?_, hsame⟩
    rw [hx, Option.bind_some, if_pos hused]

/-! ## §5. A directory that is closed to its user. -/

/-- The root with a directory `d` of the given mode that belongs to the superuser; a file of
user 1000 lies in the trash, with the path `d/f`. -/
def trashMaster (mode : UInt16) : Master :=
  { fsNew 0 .sclassNew [] true 32767 with
    nodes := fun i =>
      if i = 1 then some { rootNode 0 with nlink := 3, elements := 1 }
      else if i = 2 then some { rootNode 0 with mode := mode }
      else if i = 3 then some { rootNode 0 with type := .trash, uid := 1000, nlink := 0 }
      else none
    edges := [⟨none, [0x64, slash, 0x66], 3⟩, ⟨some 1, [0x64], 2⟩]
    pool := { InodePool.fsnodesInitFreebitmask with
      freebitmask := fun i => decide (i ≤ 3), maxnodeid := 3 } }

theorem trashMaster_wellLinked : (trashMaster mode).WellLinked := by
  refine ⟨⟨Nat.zero_le _, fun i hi => ?_⟩, fun e he p hp => ?_⟩
  · have hlt : i ≤ 3 := by
      by_contra hgt
      have hnone : (trashMaster mode).nodes i = none := by
        show (if i = 1 then _ else if i = 2 then _ else if i = 3 then _ else none) = none
        rw [if_neg (by omega), if_neg (by omega), if_neg (by omega)]
      rw [hnone] at hi
      cases hi
    refine ⟨decide_eq_true hlt, ?_⟩
    show i < 32 * 256
    omega
  · rcases List.mem_cons.mp he with rfl | he
    · cases hp
    rcases List.mem_singleton.mp he with rfl
    cases hp
    rfl

theorem trashMaster_fits (d : Nat) : ((trashMaster mode).children d).length + 1 < 2 ^ 32 := by
  have hle := List.length_filter_le (fun e : FsEdge => e.parent == some d) (trashMaster mode).edges
  have hlen : (trashMaster mode).edges.length = 2 := rfl
  unfold children
  omega

/-- The owner of the file. -/
def trashOwner : Client :=
  { rootinode := rootId, readonly := false, ignoregid := false, admin := false
    cred := ⟨1000, [1000]⟩ }

/-- The owner takes the file back to its stored path. -/
def takeBack : RecoverOp :=
  { inode := 3, parent := rootId, path := [], cumask := 0o022, copysgid := false }

/-- In an open directory the file is put where it was, on both sides. -/
theorem recover_replays_open_directory :
    ∃ r, (trashMaster 0o777).fsUnivTrashRecover 1 trashOwner.rootinode trashOwner.flags
        trashOwner.cred takeBack (fun _ => 0) 10 = some r
      ∧ r.status = .ok ∧ (trashMaster 0o777).ReplaysRecovery r := by
  refine ⟨_, rfl, by decide, (recover_replays_iff (trashMaster 0o777)
    trashMaster_wellLinked trashMaster_fits 1 trashOwner takeBack (fun _ => 0) 10 _ rfl
    (by decide)).mpr ?_⟩
  intro d e parts hd he hparts
  cases hd
  cases he
  cases hparts
  refine ⟨by decide, ?_⟩
  intro h
  exact absurd h (by decide)

/-- In a closed directory the leader makes `d (1)` for it; the replica enters `d` and finds
another path. -/
theorem recover_replay_closed_directory :
    ∃ r, (trashMaster 0o700).fsUnivTrashRecover 1 trashOwner.rootinode trashOwner.flags
        trashOwner.cred takeBack (fun _ => 0) 10 = some r
      ∧ r.status = .ok ∧ ¬ (trashMaster 0o700).ReplaysRecovery r := by
  refine ⟨_, rfl, by decide, fun h => ?_⟩
  obtain ⟨fuel, t, ht, _⟩ := h fun _ => 0
  cases ht

end Master
end MfsMaster
