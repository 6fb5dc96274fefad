/-
  MfsMaster.Fs.RenameQuota
  **WHICH QUOTAS LIMIT A RENAME** (`fsnodes_test_quota_for_uncommon_nodes`).

  A rename from `src` to `dst` takes room in the directories above `dst` that are not
  above `src`.  The function finds those of them that have a quota (`quotaChain_drop`),
  but then calls the RECURSIVE test on each, which goes on to the directories above both:

      uncommon_test_iff        — what is really tested
      rename_quota_exact_iff   — when this is what a rename really consumes
-/
import MfsMaster.Fs.Access
import MfsMaster.Fs.Tree

namespace MfsMaster.Master

/-! ## §1. What a quota test should say. -/

/-- The tests of one kind of limit in exact arithmetic. -/
def exceedsLimits (q : QuotaNode) (psr : StatsRecord) (d : Demand) (hard : Bool) : Bool :=
  let flag := fun (h s : UInt8) => hasBit q.flags (if hard then h else s)
  (0 < d.inodes && flag quotaFlagHinodes quotaFlagSinodes
      && (if hard then q.hinodes else q.sinodes).toNat < psr.inodes.toNat + d.inodes.toNat)
    || (0 < d.length && flag quotaFlagHlength quotaFlagSlength
      && (if hard then q.hlength else q.slength).toNat < psr.length.toNat + d.length.toNat)
    || (0 < d.size && flag quotaFlagHsize quotaFlagSsize
      && (if hard then q.hsize else q.ssize).toNat < psr.size.toNat + d.size.toNat)
    || (0 < d.realsize && flag quotaFlagHrealsize quotaFlagSrealsize
      && (if hard then q.hrealsize else q.srealsize).toNat
        < psr.realsize.toNat + d.realsize.toNat)

/-- The directory `j` would exceed a hard limit, or a soft limit that has run out, by
receiving `d`. -/
def wouldExceed (s : Master) (j : Nat) (d : Demand) : Bool :=
  match s.quota j with
  | none => false
  | some q =>
    exceedsLimits q (s.stats j) d true || (q.exceeded && exceedsLimits q (s.stats j) d false)

/-- `j` is `d` or a directory above it. -/
def AtOrAbove (s : Master) (j d : Nat) : Prop :=
  Lib.Above (dirsOf s.edges) j d

/-- A directory with a quota in which a rename takes room. -/
structure UncommonHolder (s : Master) (dst src j : Nat) : Prop where
  quota : (s.quota j).isSome = true
  dst : s.AtOrAbove j dst
  src : ¬ s.AtOrAbove j src

/-- A directory with a quota above both ends of a rename. -/
structure CommonHolder (s : Master) (dst src j : Nat) : Prop where
  quota : (s.quota j).isSome = true
  dst : s.AtOrAbove j dst
  src : s.AtOrAbove j src

/-- A rename would break a limit where it takes room. -/
def RenameExceeds (s : Master) (dst src : Nat) (d : Demand) : Prop :=
  ∃ j, s.UncommonHolder dst src j ∧ s.wouldExceed j d = true

/-! ## §2. Sums that wrap only make the test milder. -/

theorem lt_of_lt_add_u32 {a b l : UInt32} (h : l < a + b) : l.toNat < a.toNat + b.toNat := by
  rw [UInt32.lt_iff_toNat_lt, UInt32.toNat_add] at h
  exact Nat.lt_of_lt_of_le h (Nat.mod_le _ _)

theorem lt_of_lt_add_u64 {a b l : UInt64} (h : l < a + b) : l.toNat < a.toNat + b.toNat := by
  rw [UInt64.lt_iff_toNat_lt, UInt64.toNat_add] at h
  exact Nat.lt_of_lt_of_le h (Nat.mod_le _ _)

variable {d : Demand} {j : Nat}

theorem exceedsLimits_of_over {q : QuotaNode} {psr : StatsRecord} {hard : Bool}
    (h : overLimits q psr d hard = true) : exceedsLimits q psr d hard = true := by
  unfold overLimits at h
  unfold exceedsLimits
  simp only [Bool.or_eq_true, Bool.and_eq_true, decide_eq_true_eq] at h ⊢
  rcases h with ((⟨hpos, hlt⟩ | ⟨hpos, hlt⟩) | ⟨hpos, hlt⟩) | ⟨hpos, hlt⟩
  · exact .inl (.inl (.inl ⟨hpos, lt_of_lt_add_u32 hlt⟩))
  · exact .inl (.inl (.inr ⟨hpos, lt_of_lt_add_u64 hlt⟩))
  · exact .inl (.inr ⟨hpos, lt_of_lt_add_u64 hlt⟩)
  · exact .inr ⟨hpos, lt_of_lt_add_u64 hlt⟩

theorem wouldExceed_of_refused {s : Master}
    (h : s.fsnodesTestQuotaNoparents j d = true) : s.wouldExceed j d = true := by
  unfold fsnodesTestQuotaNoparents at h
  unfold wouldExceed
  cases hq : s.quota j with
  | none =>
    rw [hq] at h
    cases h
  | some q =>
    rw [hq] at h
    simp only [Bool.and_eq_true, Bool.or_eq_true] at h ⊢
    rcases h.2 with hover | ⟨hexc, hover⟩
    · exact .inl (exceedsLimits_of_over hover)
    · exact .inr ⟨hexc, exceedsLimits_of_over hover⟩

theorem quota_of_refused {s : Master}
    (h : s.fsnodesTestQuotaNoparents j d = true) : (s.quota j).isSome = true := by
  unfold fsnodesTestQuotaNoparents at h
  split at h
  · cases h
  next q hq => rw [hq]; rfl

/-! ## §3. The two lists. -/

/-- The common beginning is dropped, and no more. -/
theorem dropCommon_append {m a b : List Nat} (hab : ∀ x ∈ a, x ∉ b) :
    dropCommon (m ++ a) (m ++ b) = a := by
  induction m with
  | nil =>
    cases a with
    | nil => cases b <;> rfl
    | cons x a =>
      cases b with
      | nil => rfl
      | cons y b =>
        have hne : x ≠ y := fun heq => hab x List.mem_cons_self (heq ▸ List.mem_cons_self)
        show (if x = y then dropCommon a b else x :: a) = x :: a
        rw [if_neg hne]
  | cons x m ih =>
    show (if x = x then dropCommon (m ++ a) (m ++ b) else _) = a
    rw [if_pos rfl, ih]

section Tree

variable {s : Master} {dst src : Nat} {l a b m : List Nat}

theorem quotaChain_eq (h : s.DirTree) {d : Nat} (hd : s.isDir d = true)
    (hl : Lib.Chain (dirsOf s.edges) d l) :
    s.quotaChain d = (l.filter fun j => (s.quota j).isSome).reverse := by
  unfold quotaChain
  rw [h.chainUp_eq hd hl _ (length_way_le hl)]

/-- **What is left of the first list:** the quotas on the part of the way that is not shared. -/
theorem quotaChain_drop (h : s.DirTree) (hd : s.isDir dst = true) (hs : s.isDir src = true)
    (hl : Lib.Chain (dirsOf s.edges) dst (a ++ m)) (hl' : Lib.Chain (dirsOf s.edges) src (b ++ m))
    (ha : ∀ x ∈ a, x ∉ b ++ m) :
    dropCommon (s.quotaChain dst) (s.quotaChain src)
      = (a.filter fun j => (s.quota j).isSome).reverse := by
  rw [quotaChain_eq h hd hl, quotaChain_eq h hs hl', List.filter_append, List.reverse_append,
    List.filter_append, List.reverse_append]
  refine dropCommon_append fun x hx hxb => ?_
  have hxa : x ∈ a := List.mem_of_mem_filter (List.mem_reverse.mp hx)
  have hxb : x ∈ b := List.mem_of_mem_filter (List.mem_reverse.mp hxb)
  exact ha x hxa (List.mem_append_left m hxb)

/-- The recursive test looks at everything at or above its start. -/
theorem fsnodesTestQuota_iff (h : s.DirTree) {u : Nat} (hl : Lib.Chain (dirsOf s.edges) u l) :
    s.fsnodesTestQuota u d = true ↔ ∃ j ∈ l, s.fsnodesTestQuotaNoparents j d = true := by
  unfold fsnodesTestQuota
  rw [h.upwards_eq hl, List.any_eq_true]

/-- **What is tested:** as soon as one quota holder is not shared, every quota above `dst`. -/
theorem uncommon_test_iff (h : s.DirTree) (hd : s.isDir dst = true) (hs : s.isDir src = true)
    (d : Demand) :
    s.fsnodesTestQuotaForUncommonNodes dst src d = true
      ↔ (∃ u, s.UncommonHolder dst src u)
        ∧ ∃ j, s.AtOrAbove j dst ∧ s.fsnodesTestQuotaNoparents j d = true := by
  obtain ⟨l, hl⟩ := h.chains dst hd
  obtain ⟨l', hl'⟩ := h.chains src hs
  unfold fsnodesTestQuotaForUncommonNodes
  by_cases heq : dst = src
  · rw [if_pos heq]
    refine ⟨fun hf => absurd hf Bool.false_ne_true, fun hu => ?_⟩
    obtain ⟨⟨u, hu⟩, _⟩ := hu
    exact absurd (heq ▸ hu.dst) hu.src
  rw [if_neg heq]
  obtain ⟨a, b, m, rfl, rfl, ha, hb⟩ := hl.diverge hl'
  rw [quotaChain_drop h hd hs hl hl' ha, List.any_eq_true]
  -- an uncommon holder is a quota holder on the part of the way that is not shared
  have hunc : ∀ u, u ∈ (a.filter fun j => (s.quota j).isSome).reverse
      ↔ s.UncommonHolder dst src u := by
    intro u
    rw [List.mem_reverse, List.mem_filter]
    constructor
    · rintro ⟨hua, hq⟩
      exact ⟨hq, hl.mem_iff_above.mp (List.mem_append_left m hua),
        fun habove => ha u hua (hl'.mem_iff_above.mpr habove)⟩
    · intro hu
      have hmem := List.mem_append.mp (hl.mem_iff_above.mpr hu.dst)
      refine ⟨hmem.resolve_right fun hm => ?_, hu.quota⟩
      exact hu.src (hl'.mem_iff_above.mp (List.mem_append_right b hm))
  simp only [hunc]
  constructor
  · rintro ⟨u, hu, htest⟩
    obtain ⟨lu, hlu, hsuf⟩ := hl.of_mem (hl.mem_iff_above.mpr hu.dst)
    obtain ⟨j, hj, hrefused⟩ := (fsnodesTestQuota_iff h hlu).mp htest
    exact ⟨⟨u, hu⟩, j, hl.mem_iff_above.mp (hsuf.subset hj), hrefused⟩
  · rintro ⟨⟨u, hu⟩, j, hj, hrefused⟩
    obtain ⟨lu, hlu, hsuf⟩ := hl.of_mem (hl.mem_iff_above.mpr hu.dst)
    obtain ⟨lj, hlj, hsuf'⟩ := hl.of_mem (hl.mem_iff_above.mpr hj)
    by_cases hsrc : s.AtOrAbove j src
    · -- what is shared is above every holder that is not
      refine ⟨u, hu, (fsnodesTestQuota_iff h hlu).mpr ⟨j, ?_, hrefused⟩⟩
      rcases List.suffix_or_suffix_of_suffix hsuf hsuf' with hshort | hlong
      · exact absurd (hsrc.trans (hlj.mem_iff_above.mp (hshort.subset hlu.mem_self))) hu.src
      · exact hlong.subset hlj.mem_self
    · exact ⟨j, ⟨quota_of_refused hrefused, hj, hsrc⟩,
        (fsnodesTestQuota_iff h hlj).mpr ⟨j, hlj.mem_self, hrefused⟩⟩

/-! ## §4. When the test is exact. -/

/-- The limits that are tested decide like the limits that count: a quota holder above both
ends that refuses does no harm (no other holder is there, or one that counts is exceeded as
well), and a holder that counts and is exceeded is not missed by a sum that wraps. -/
structure LimitsDecide (s : Master) (dst src : Nat) (d : Demand) : Prop where
  common : ∀ u c, s.UncommonHolder dst src u → s.CommonHolder dst src c →
    s.fsnodesTestQuotaNoparents c d = true → s.RenameExceeds dst src d
  wrap : ∀ u, s.UncommonHolder dst src u → s.wouldExceed u d = true →
    ∃ j, s.AtOrAbove j dst ∧ s.fsnodesTestQuotaNoparents j d = true

/-- **A rename is limited by the quotas it consumes exactly when `LimitsDecide`.** -/
theorem rename_quota_exact_iff (h : s.DirTree) (hd : s.isDir dst = true)
    (hs : s.isDir src = true) (d : Demand) :
    (s.fsnodesTestQuotaForUncommonNodes dst src d = true ↔ s.RenameExceeds dst src d)
      ↔ s.LimitsDecide dst src d := by
  rw [uncommon_test_iff h hd hs]
  constructor
  · intro hexact
    refine ⟨fun u c hu hc hrefused => ?_, fun u hu hexc => ?_⟩
    · exact hexact.mp ⟨⟨u, hu⟩, c, hc.dst, hrefused⟩
    · exact (hexact.mpr ⟨u, hu, hexc⟩).2
  · intro hdecide
    constructor
    · rintro ⟨⟨u, hu⟩, j, hj, hrefused⟩
      have hq := quota_of_refused hrefused
      by_cases hsrc : s.AtOrAbove j src
      · exact hdecide.common u j hu ⟨hq, hj, hsrc⟩ hrefused
      · exact ⟨j, ⟨hq, hj, hsrc⟩, wouldExceed_of_refused hrefused⟩
    · rintro ⟨u, hu, hwould⟩
      exact ⟨⟨u, hu⟩, hdecide.wrap u hu hwould⟩

end Tree

variable {limit : UInt32}

/-! ## §5. A small tree. -/

/-- A quota on the number of inodes. -/
def inodeQuota (limit : UInt32) : QuotaNode :=
  { exceeded := false, flags := quotaFlagHinodes, sinodes := 0, hinodes := limit
    slength := 0, hlength := 0, ssize := 0, hsize := 0, srealsize := 0, hrealsize := 0 }

/-- The root with the directories 2 and 3 and three files; the root may hold `limit` inodes,
directory 3 a hundred. -/
def quotaTree (limit : UInt32) : Master :=
  { fsNew 0 .sclassNew [] false 32767 with
    nodes := fun i => if i ∈ [rootId, 2, 3] then some (rootNode 0) else none
    edges := [⟨some rootId, [0x62], 3⟩, ⟨some rootId, [0x61], 2⟩]
    stats := fun i => if i = rootId then { StatsRecord.zero with inodes := 5, dirs := 2 } else .zero
    quota := fun i => if i = rootId then some (inodeQuota limit)
      else if i = 3 then some (inodeQuota 100) else none }

/-- One inode more. -/
def oneInode : Demand := { inodes := 1, length := 0, size := 0, realsize := 0 }

theorem quotaTree_isDir {d : Nat} : (quotaTree limit).isDir d = true ↔ d ∈ [rootId, 2, 3] := by
  unfold isDir typeOf quotaTree
  dsimp only
  split
  next h => simp only [h, iff_true]; rfl
  next h => simp only [h, iff_false]; decide

theorem quotaTree_dirTree : (quotaTree limit).DirTree := by
  have hroot : Lib.Chain (dirsOf (quotaTree limit).edges) rootId [rootId] := .top rfl
  refine ⟨?_, ?_, ?_, ?_⟩
  · show ∀ e ∈ [_, _], _
    decide
  · intro e he p hp
    rw [quotaTree_isDir]
    rcases List.mem_pair.mp he with rfl | rfl <;> cases hp <;> decide
  · intro e he _
    rcases List.mem_pair.mp he with rfl | rfl <;> exact Option.some_ne_none _
  intro d hd
  rw [quotaTree_isDir] at hd
  simp only [List.mem_cons, List.not_mem_nil, or_false] at hd
  rcases hd with rfl | rfl | rfl
  · exact ⟨_, hroot⟩
  · exact ⟨_, .step rfl hroot⟩
  · exact ⟨_, .step rfl hroot⟩

theorem quotaTree_holder (h : ((quotaTree limit).quota j).isSome = true) : j = rootId ∨ j = 3 := by
  unfold quotaTree at h
  dsimp only at h
  split at h
  next hj => exact .inl hj
  split at h
  next hj => exact .inr hj
  · cases h

/-- With room everywhere the rename from 2 to 3 is allowed, as it should be. -/
theorem rename_quota_exact_room :
    (quotaTree 100).fsnodesTestQuotaForUncommonNodes 3 2 oneInode = false
      ∧ ((quotaTree 100).fsnodesTestQuotaForUncommonNodes 3 2 oneInode = true
        ↔ (quotaTree 100).RenameExceeds 3 2 oneInode) := by
  refine ⟨by decide, (rename_quota_exact_iff quotaTree_dirTree
    (quotaTree_isDir.mpr (by decide)) (quotaTree_isDir.mpr (by decide)) oneInode).mpr ⟨?_, ?_⟩⟩
  · intro u c _ hc hrefused
    rcases quotaTree_holder hc.quota with rfl | rfl <;> exact absurd hrefused (by decide)
  · intro u hu hexc
    rcases quotaTree_holder hu.quota with rfl | rfl <;> exact absurd hexc (by decide)

/-- **A rename refused by a limit it does not touch.**  The root is full; a file moves from
directory 2 to directory 3, both in the root, and directory 3 has a quota with room. -/
theorem rename_quota_common_refused :
    (quotaTree 5).fsnodesTestQuotaForUncommonNodes 3 2 oneInode = true
      ∧ ¬ (quotaTree 5).RenameExceeds 3 2 oneInode := by
  refine ⟨by decide, ?_⟩
  rintro ⟨j, hj, hwould⟩
  rcases quotaTree_holder hj.quota with rfl | rfl
  · -- the root is above directory 2 as well
    refine hj.src (Relation.ReflTransGen.single ?_)
    exact List.mem_singleton_self rootId
  · exact absurd hwould (by decide)

end MfsMaster.Master
