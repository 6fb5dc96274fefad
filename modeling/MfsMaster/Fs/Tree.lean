/-
  MfsMaster.Fs.Tree
  **THE TREE OF DIRECTORIES** and the walks of `filesystem.c` in it.

  `DirTree s`: every directory has one way up.  In such a state the walks with fuel are
  that way: `upwards_eq` for the recursion over all parents, `chainUp_eq` for the loop
  over first parents, and `fsnodes_isancestor` is the order of the tree.
-/
import MfsMaster.Lib.Forest
import MfsMaster.Fs.State

namespace MfsMaster

/-- The directories that hold a node, once per name. -/
def dirsOf (es : List FsEdge) (i : Nat) : List Nat :=
  (es.filter fun e => e.child == i).filterMap FsEdge.parent

variable {es : List FsEdge} {i : Nat}

theorem mem_dirsOf {p : Nat} : p ∈ dirsOf es i ↔ ∃ e ∈ es, e.parent = some p ∧ e.child = i := by
  unfold dirsOf
  rw [List.mem_filterMap]
  constructor
  · rintro ⟨e, he, hp⟩
    obtain ⟨he, hc⟩ := List.mem_filter.mp he
    exact ⟨e, he, hp, beq_iff_eq.mp hc⟩
  · rintro ⟨e, he, hp, hc⟩
    exact ⟨e, List.mem_filter.mpr ⟨he, beq_iff_eq.mpr hc⟩, hp⟩

/-- What lies in a directory is the child of an edge. -/
theorem child_of_dirsOf {c : Nat} (h : dirsOf es c ≠ []) : c ∈ es.map FsEdge.child := by
  obtain ⟨p, hp⟩ := List.exists_mem_of_ne_nil _ h
  obtain ⟨e, he, _, heq⟩ := mem_dirsOf.mp hp
  exact List.mem_map.mpr ⟨e, he, heq⟩

namespace Master

/-- **The directories make a tree.** -/
structure DirTree (s : Master) : Prop where
  top : ∀ e ∈ s.edges, e.child ≠ rootId
  parent : ∀ e ∈ s.edges, ∀ p, e.parent = some p → s.isDir p = true
  /-- Directories are neither in the trash nor sustained. -/
  hung : ∀ e ∈ s.edges, s.isDir e.child = true → e.parent ≠ none
  chains : ∀ d, s.isDir d = true → ∃ l, Lib.Chain (dirsOf s.edges) d l

section Walks

variable {s : Master} {d : Nat} {l : List Nat}

theorem walkUp_eq (hl : Lib.Chain (dirsOf es) d l)
    (hroot : dirsOf es rootId = []) : ∀ n, l.length ≤ n → walkUp es n d = l := by
  induction hl with
  | @top d htop =>
    intro n hn
    cases n with
    | zero => exact absurd hn (by simp)
    | succ n =>
      change d :: (if d = rootId then [] else (dirsOf es d).flatMap _) = [d]
      rw [htop, List.flatMap_nil, ite_self]
  | @step d p l hstep _ ih =>
    intro n hn
    cases n with
    | zero => exact absurd hn (by simp)
    | succ n =>
      have hne : d ≠ rootId := by
        intro heq
        rw [heq, hroot] at hstep
        cases hstep
      change d :: (if d = rootId then [] else (dirsOf es d).flatMap _) = d :: l
      rw [if_neg hne, hstep, List.flatMap_singleton, ih n (Nat.le_of_succ_le_succ hn)]

/-- The edges of a state are enough fuel for a way up. -/
theorem length_way_le (hl : Lib.Chain (dirsOf s.edges) d l) : l.length ≤ s.edges.length + 1 := by
  have hle : l.length ≤ (s.edges.map FsEdge.child).length + 1 := by
    exact hl.length_le fun c _ hc => child_of_dirsOf hc
  rwa [List.length_map] at hle

theorem DirTree.dirsOf_root (h : s.DirTree) : dirsOf s.edges rootId = [] := by
  rw [List.eq_nil_iff_forall_not_mem]
  intro p hp
  obtain ⟨e, he, _, hc⟩ := mem_dirsOf.mp hp
  exact h.top e he hc

/-- The recursion over all parents walks the way up. -/
theorem DirTree.upwards_eq (h : s.DirTree) (hl : Lib.Chain (dirsOf s.edges) d l) :
    s.upwards d = l :=
  walkUp_eq hl h.dirsOf_root _ (length_way_le hl)

/-- The first edge of a directory leads to its parent. -/
theorem find_parent (h : ∀ e ∈ es, e.child = d → e.parent ≠ none) :
    (es.find? fun e => e.child == d).bind FsEdge.parent = (dirsOf es d).head? := by
  induction es with
  | nil => rfl
  | cons e es ih =>
    have htail := ih fun e' he' => h e' (List.mem_cons_of_mem e he')
    unfold dirsOf at htail ⊢
    rw [List.find?_cons, List.filter_cons]
    by_cases hc : e.child = d
    · obtain ⟨p, hp⟩ := Option.ne_none_iff_exists'.mp (h e List.mem_cons_self hc)
      simp [hc, hp]
    have hne : (e.child == d) = false := by simpa using hc
    simp only [hne, Bool.false_eq_true, ↓reduceIte]
    exact htail

/-- Every node on the way up from a directory is a directory. -/
theorem DirTree.isDir_of_way (h : s.DirTree) {c : Nat} (hd : s.isDir d = true)
    (hl : Lib.Chain (dirsOf s.edges) d l) (hc : c ∈ l) : s.isDir c = true := by
  induction hl with
  | top => rwa [List.mem_singleton.mp hc]
  | @step d p l hstep _ ih =>
    rcases List.mem_cons.mp hc with rfl | hc
    · exact hd
    have hp : p ∈ dirsOf s.edges d := hstep ▸ List.mem_cons_self
    obtain ⟨e, he, hpar, _⟩ := mem_dirsOf.mp hp
    exact ih (h.parent e he p hpar) hc

/-- What is above a node is a directory. -/
theorem DirTree.isDir_of_above (h : s.DirTree) (hd : d ∈ s.above i) : s.isDir d = true := by
  obtain ⟨p, hp, hup⟩ := List.mem_flatMap.mp hd
  obtain ⟨e, he, hpar, _⟩ := mem_dirsOf.mp hp
  have hpdir := h.parent e he p hpar
  obtain ⟨l, hl⟩ := h.chains p hpdir
  rw [h.upwards_eq hl] at hup
  exact h.isDir_of_way hpdir hl hup

/-- The walk from a node that is no directory: the node, then the ways of all its names. -/
theorem DirTree.upwards_of_file (h : s.DirTree) (hi : s.isDir i = false) :
    s.upwards i = i :: s.above i := by
  have hcons : s.upwards i = i :: (if i = rootId then []
      else (dirsOf s.edges i).flatMap (walkUp s.edges s.edges.length)) := rfl
  have habove : s.above i = (dirsOf s.edges i).flatMap s.upwards := rfl
  rw [hcons, habove]
  by_cases hroot : i = rootId
  · rw [if_pos hroot, hroot, h.dirsOf_root]
    rfl
  rw [if_neg hroot]
  refine congrArg (i :: ·) (List.flatMap_congr fun p hp => ?_)
  obtain ⟨e, he, hpar, hchild⟩ := mem_dirsOf.mp hp
  have hpdir := h.parent e he p hpar
  obtain ⟨l, hl⟩ := h.chains p hpdir
  -- the edge to `i` is on no way up, so that one edge less bounds this one
  have hmem : i ∈ s.edges.map FsEdge.child := List.mem_map.mpr ⟨e, he, hchild⟩
  have hlen : l.length ≤ ((s.edges.map FsEdge.child).erase i).length + 1 := by
    refine hl.length_le fun c hc hup => ?_
    have hne : c ≠ i := by
      intro heq
      have hcdir := h.isDir_of_way hpdir hl hc
      rw [heq, hi] at hcdir
      cases hcdir
    exact (List.mem_erase_of_ne hne).mpr (child_of_dirsOf hup)
  have hpos := List.length_pos_of_mem hmem
  rw [List.length_erase_of_mem hmem, Nat.sub_add_cancel hpos, List.length_map] at hlen
  rw [walkUp_eq hl h.dirsOf_root _ hlen, h.upwards_eq hl]

/-- The loop over first parents walks it, too. -/
theorem DirTree.chainUp_eq (h : s.DirTree) (hd : s.isDir d = true)
    (hl : Lib.Chain (dirsOf s.edges) d l) : ∀ n, l.length ≤ n → chainUp s.edges n (some d) = l := by
  have hfind : ∀ c, s.isDir c = true →
      (s.edges.find? fun e => e.child == c).bind FsEdge.parent = (dirsOf s.edges c).head? :=
    fun c hc => find_parent fun e he heq => h.hung e he (heq ▸ hc)
  induction hl with
  | @top d htop =>
    intro n hn
    obtain ⟨n, rfl⟩ := Nat.exists_eq_succ_of_ne_zero (Nat.ne_of_gt hn)
    rw [chainUp, hfind d hd, htop]
    cases n <;> rfl
  | @step d p l hstep hp ih =>
    intro n hn
    obtain ⟨n, rfl⟩ := Nat.exists_eq_succ_of_ne_zero (Nat.ne_of_gt (Nat.lt_of_lt_of_le (by simp) hn))
    have hpdir : s.isDir p = true :=
      h.isDir_of_way hd (.step hstep hp) (List.mem_cons_of_mem d hp.mem_self)
    rw [chainUp, hfind d hd, hstep, List.head?_cons, ih hpdir n (Nat.le_of_succ_le_succ hn)]

/-- `fsnodes_isancestor` and the case it does not look at are the order of the tree. -/
theorem DirTree.eq_or_isancestor_iff (h : s.DirTree) {r : Nat} (hd : s.isDir d = true) :
    r = d ∨ s.fsnodesIsancestor r d = true ↔ Lib.Above (dirsOf s.edges) r d := by
  obtain ⟨l, hl⟩ := h.chains d hd
  rw [← hl.mem_iff_above]
  have htype : s.typeOf d = some .directory := beq_iff_eq.mp hd
  -- the loop over the parents of a directory walks the rest of its way
  have hwalk : ∀ e ∈ s.parents d, e.parent ≠ none ∧ ∀ p, e.parent = some p → ∀ lp,
      Lib.Chain (dirsOf s.edges) p lp → chainUp s.edges (s.edges.length + 1) e.parent = lp := by
    intro e he
    obtain ⟨he, hc⟩ := List.mem_filter.mp he
    refine ⟨h.hung e he (beq_iff_eq.mp hc ▸ hd), fun p hp lp hlp => ?_⟩
    rw [hp]
    exact h.chainUp_eq (h.parent e he p hp) hlp _ (length_way_le hlp)
  constructor
  · rintro (rfl | hanc)
    · exact hl.mem_self
    unfold fsnodesIsancestor at hanc
    split at hanc
    · cases hanc
    obtain ⟨e, he, hmem⟩ := List.any_eq_true.mp hanc
    obtain ⟨hne, hway⟩ := hwalk e he
    obtain ⟨p, hp⟩ := Option.ne_none_iff_exists'.mp hne
    obtain ⟨hedge, hc⟩ := List.mem_filter.mp he
    have hpmem : p ∈ dirsOf s.edges d := mem_dirsOf.mpr ⟨e, hedge, hp, beq_iff_eq.mp hc⟩
    cases hl with
    | top htop =>
      rw [htop] at hpmem
      cases hpmem
    | step hstep hlp =>
      rw [hstep, List.mem_singleton] at hpmem
      subst hpmem
      rw [hway p hp _ hlp] at hmem
      exact List.mem_cons_of_mem d (List.contains_iff_mem.mp hmem)
  · intro hr
    have hdir : s.isDir r = true := h.isDir_of_way hd hl hr
    cases hl with
    | top => exact .inl (List.mem_singleton.mp hr)
    | @step _ p l hstep hlp =>
      rcases List.mem_cons.mp hr with heq | hr
      · exact .inl heq
      right
      have hpmem : p ∈ dirsOf s.edges d := hstep ▸ List.mem_cons_self
      obtain ⟨e, he, hp, hc⟩ := mem_dirsOf.mp hpmem
      have hpar : e ∈ s.parents d := List.mem_filter.mpr ⟨he, beq_iff_eq.mpr hc⟩
      unfold fsnodesIsancestor
      rw [if_neg (by simp [htype, hdir])]
      refine List.any_eq_true.mpr ⟨e, hpar, ?_⟩
      rw [(hwalk e hpar).2 p hp l hlp]
      exact List.contains_iff_mem.mpr hr

end Walks

end Master

end MfsMaster
