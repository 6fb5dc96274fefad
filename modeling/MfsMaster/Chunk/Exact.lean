/-
  MfsMaster.Chunk.Exact
  **WHAT THE COUNTERS OF A CHUNK DEPEND ON.**

  `storage_mode`, `all_gequiv` and `reg_gequiv` are a cache: `chunk_state_fix` derives
  them from the list of copies and parts.  It looks at the usable entries only, and of
  each at the server, the part and the mark for removal (`seen`).

      Exact           — the counters are what `chunk_state_fix` derives
      Exact.of_seen   — the rule for functions that do not derive them again: keep `seen`
      exact_fastPath  — the rule for the one function that counts by itself
-/
import MfsMaster.Chunk.JobFrame

namespace MfsMaster

open SEntry

/-! ## §1. What `chunk_state_fix` looks at. -/

/-- An entry as `chunk_state_fix` sees it, if it does. -/
def SEntry.seen (s : SEntry) : Option SEntry :=
  if s.valid.usable then some ⟨s.csid, if s.valid.regular then .valid else .tdvalid, s.ecid, 0⟩
  else none

/-- The entries `chunk_state_fix` sees. -/
def seen (l : List SEntry) : List SEntry := l.filterMap SEntry.seen

variable {s s' : SEntry} {l : List SEntry} {p q : SEntry → Bool} {c : Chunk} {f : SEntry → SEntry}
  {c' : Chunk}

theorem SEntry.seen_of_not_usable (h : s.valid.usable = false) : s.seen = none :=
  if_neg (by rw [h]; exact Bool.false_ne_true)

theorem filter_seen (hp : ∀ s s', s.seen = some s' → p s' = q s) :
    (seen l).filter p = seen (l.filter q) := by
  unfold seen
  rw [List.filter_filterMap, List.filterMap_filter]
  refine List.filterMap_congr fun s _ => ?_
  cases hs : s.seen with
  | none => exact (ite_self none).symm
  | some s' => rw [Option.filter_some, hp s s' hs]

theorem eq_of_seen (h : s.seen = some s') :
    s' = ⟨s.csid, if s.valid.regular then .valid else .tdvalid, s.ecid, 0⟩ := by
  unfold SEntry.seen at h
  split at h
  · exact (Option.some.inj h).symm
  · cases h

theorem ecid_of_seen (h : s.seen = some s') : s'.ecid = s.ecid := by
  rw [eq_of_seen h]

theorem csid_of_seen (h : s.seen = some s') : s'.csid = s.csid := by
  rw [eq_of_seen h]

theorem regular_of_seen (h : s.seen = some s') : s'.valid.regular = s.valid.regular := by
  rw [eq_of_seen h]
  cases s.valid <;> rfl

/-- A list of usable entries, all of which are seen. -/
theorem map_seen {β : Type} {f : SEntry → β} (hf : ∀ s s', s.seen = some s' → f s' = f s)
    (hl : ∀ s ∈ l, s.valid.usable = true) : (seen l).map f = l.map f := by
  unfold seen
  rw [List.map_filterMap, ← List.filterMap_eq_map]
  refine List.filterMap_congr fun s hs => ?_
  have hsome : s.seen = some _ := if_pos (hl s hs)
  rw [hsome, Option.map_some, hf s _ hsome]
  rfl

theorem uniqServ_congr {l' : List SEntry} (h : l.map csid = l'.map csid)
    (last : Option Nat) : uniqServ last l = uniqServ last l' := by
  induction l generalizing l' last with
  | nil =>
    rw [List.map_eq_nil_iff.mp h.symm]
  | cons s l ih =>
    cases l' with
    | nil => cases h
    | cons s' l' =>
      obtain ⟨hs, hl⟩ := List.cons_eq_cons.mp h
      unfold uniqServ
      rw [hs, ih hl]

/-- The parts of one code, counted in the list of what is seen. -/
theorem partsGequiv_seen {dataParts : Nat} (hl : ∀ s ∈ l, s.valid.usable = true) :
    partsGequiv dataParts (seen l) = partsGequiv dataParts l := by
  unfold partsGequiv distinctParts
  rw [map_seen (fun _ _ => ecid_of_seen) hl,
    uniqServ_congr (map_seen (fun _ _ => csid_of_seen) hl)]

theorem isCopy_of_seen (h : s.seen = some s') : s'.isCopy = s.isCopy := by
  unfold isCopy
  rw [ecid_of_seen h]

theorem isEc8_of_seen (h : s.seen = some s') : s'.isEc8 = s.isEc8 := by
  unfold isEc8
  rw [ecid_of_seen h]

theorem isEc4_of_seen (h : s.seen = some s') : s'.isEc4 = s.isEc4 := by
  unfold isEc4
  rw [ecid_of_seen h]

section Usable

variable {l : List SEntry} (hl : ∀ s ∈ l, s.valid.usable = true)
include hl

theorem length_copies_seen :
    ((seen l).filter isCopy).length = (l.filter isCopy).length := by
  rw [filter_seen fun _ _ => isCopy_of_seen, ← List.length_map csid,
    map_seen (fun _ _ => csid_of_seen) fun s hs => hl s (List.mem_of_mem_filter hs),
    List.length_map]

theorem distinctParts_seen (hp : ∀ s s', s.seen = some s' → p s' = p s) :
    distinctParts ((seen l).filter p) = distinctParts (l.filter p) := by
  unfold distinctParts
  rw [filter_seen hp,
    map_seen (fun _ _ => ecid_of_seen) fun s hs => hl s (List.mem_of_mem_filter hs)]

theorem chunkCalcEcge_seen : chunkCalcEcge (seen l) = chunkCalcEcge l := by
  unfold chunkCalcEcge
  rw [filter_seen fun _ _ => isEc8_of_seen, filter_seen fun _ _ => isEc4_of_seen,
    partsGequiv_seen fun s hs => hl s (List.mem_of_mem_filter hs),
    partsGequiv_seen fun s hs => hl s (List.mem_of_mem_filter hs)]

theorem storageKindOf_seen : storageKindOf (seen l) = storageKindOf l := by
  unfold storageKindOf
  rw [length_copies_seen hl, chunkCalcEcge_seen hl,
    distinctParts_seen hl fun _ _ => isEc8_of_seen,
    distinctParts_seen hl fun _ _ => isEc4_of_seen]

end Usable

/-! ## §2. Exact counters. -/

/-- The three fields. -/
def Chunk.counters (c : Chunk) : StorageKind × Nat × Nat := (c.storageMode, c.allGequiv, c.regGequiv)

/-- The counters are what `chunk_state_fix` derives. -/
def Exact (c : Chunk) : Prop := chunkStateFix c = c

instance (c : Chunk) : Decidable (Exact c) := inferInstanceAs (Decidable (chunkStateFix c = c))

theorem exact_iff : Exact c ↔ c.counters = countersOf c.slist := by
  refine ⟨fun h => (congrArg Chunk.counters h).symm, fun h => ?_⟩
  unfold Exact chunkStateFix
  rw [← h]
  show { c with moves := if c.state = c.state then _ else _ } = c
  rw [if_pos rfl]

theorem exact_chunkStateFix : Exact (chunkStateFix c) := exact_iff.mpr rfl

theorem seen_filter (h : ∀ s ∈ l, p s = false → s.seen = none) : seen (l.filter p) = seen l := by
  unfold seen
  rw [List.filterMap_filter]
  refine List.filterMap_congr fun s hs => ?_
  cases hp : p s with
  | true => rfl
  | false => exact (h s hs hp).symm

theorem seen_filter_usable :
    seen (l.filter fun s => s.valid.usable) = seen l :=
  seen_filter fun _ _ => seen_of_not_usable

/-- **`chunk_state_fix` depends on `seen` only.** -/
theorem countersOf_seen : countersOf (seen l) = countersOf l := by
  have hall : ∀ s ∈ l.filter fun s => s.valid.usable, s.valid.usable = true :=
    fun s hs => (List.mem_filter.mp hs).2
  have hreg : ∀ s ∈ (l.filter fun s => s.valid.usable).filter fun s => s.valid.regular,
      s.valid.usable = true := fun s hs => hall s (List.mem_of_mem_filter hs)
  have hsame : (seen l).filter (fun s => s.valid.usable) = seen l := by
    refine List.filter_eq_self.mpr fun s' hs' => ?_
    obtain ⟨s, _, hs⟩ := List.mem_filterMap.mp hs'
    rw [eq_of_seen hs]
    cases s.valid <;> rfl
  unfold countersOf
  dsimp only
  rw [hsame, ← seen_filter_usable, filter_seen fun _ _ => regular_of_seen]
  rw [storageKindOf_seen hall, length_copies_seen hall, length_copies_seen hreg,
    chunkCalcEcge_seen hall, chunkCalcEcge_seen hreg]

/-- **The rule for a function that does not derive the counters again.** -/
theorem Exact.of_seen (h : Exact c) (hcounters : c'.counters = c.counters)
    (hseen : seen c'.slist = seen c.slist) : Exact c' := by
  rw [exact_iff] at h ⊢
  rw [hcounters, h, ← countersOf_seen, ← hseen, countersOf_seen]

/-! ## §3. Lists: what is seen, and the order. -/

theorem seen_map (h : ∀ s ∈ l, (f s).seen = s.seen) : seen (l.map f) = seen l := by
  unfold seen
  rw [List.filterMap_map]
  exact List.filterMap_congr h

theorem filter_chunkNewCopy (hs : p s = false) : (chunkNewCopy s l).filter p = l.filter p := by
  induction l with
  | nil => rw [chunkNewCopy, List.filter_cons, if_neg (by rw [hs]; exact Bool.false_ne_true)]
  | cons si l ih =>
    unfold chunkNewCopy
    split
    · rw [List.filter_cons, List.filter_cons, ih]
    · rw [List.filter_cons, if_neg (by rw [hs]; exact Bool.false_ne_true)]

theorem seen_chunkNewCopy (hs : s.valid.usable = false) : seen (chunkNewCopy s l) = seen l := by
  rw [← seen_filter_usable, filter_chunkNewCopy hs, seen_filter_usable]

theorem chunkNewCopy_perm (s : SEntry) (l : List SEntry) : (chunkNewCopy s l).Perm (s :: l) := by
  induction l with
  | nil => exact .refl _
  | cons si l ih =>
    unfold chunkNewCopy
    split
    · exact (ih.cons si).trans (.swap s si l)
    · exact .refl _

theorem Ordered.filter (h : Ordered l) (p : SEntry → Bool) : Ordered (l.filter p) :=
  List.Pairwise.sublist (List.filter_sublist.map csid) h

theorem Ordered.map (h : Ordered l) (hf : ∀ s, (f s).csid = s.csid) : Ordered (l.map f) := by
  refine h.congr ?_
  rw [List.map_map]
  exact List.map_congr_left fun s _ => hf s

theorem Ordered.filterMap (h : Ordered l) {f : SEntry → Option SEntry}
    (hf : ∀ s s', f s = some s' → s'.csid = s.csid) : Ordered (l.filterMap f) := by
  unfold Ordered at h ⊢
  rw [List.pairwise_map] at h ⊢
  refine h.filterMap f fun s x hle s' hs' x' hx' => ?_
  rw [hf s s' hs', hf x x' hx']
  exact hle

theorem Ordered.modFirst (h : Ordered l)
    (hf : ∀ s, (f s).csid = s.csid) : Ordered (modFirst p f l) := by
  refine h.congr ?_
  induction l with
  | nil => rfl
  | cons s l ih =>
    unfold MfsMaster.modFirst
    split
    · rw [List.map_cons, List.map_cons, hf]
    · rw [List.map_cons, List.map_cons, ih (ordered_cons.mp h).2]

/-! ## §4. One copy more. -/

theorem chunkCalcEcge_chunkNewCopy (hs : s.isCopy = true) :
    chunkCalcEcge ((chunkNewCopy s l).filter q) = chunkCalcEcge (l.filter q) := by
  have hecid : s.ecid = 0 := beq_iff_eq.mp hs
  have h8 : s.isEc8 = false := by unfold isEc8; rw [hecid]; rfl
  have h4 : s.isEc4 = false := by unfold isEc4; rw [hecid]; rfl
  unfold chunkCalcEcge
  simp only [List.filter_filter]
  rw [filter_chunkNewCopy (by rw [h8, Bool.false_and]),
    filter_chunkNewCopy (by rw [h4, Bool.false_and])]

theorem chunkCalcEcge_copies (h : (chunkCalcEcge l).2 = .copies) : (chunkCalcEcge l).1 = 0 := by
  unfold chunkCalcEcge at h ⊢
  dsimp only at h ⊢
  split at h
  · cases h
  split at h
  · cases h
  · rename_i hge4 hge8
    rw [if_neg hge4, if_neg hge8]

/-- In the mode of copies there are at least as many copies as the parts are worth. -/
theorem ecge_le_of_copies (h : storageKindOf l = .copies) :
    (chunkCalcEcge l).1 ≤ (l.filter isCopy).length % 256 := by
  unfold storageKindOf at h
  dsimp only at h
  split at h
  next hzero => omega
  split at h
  next hle => exact hle
  · rw [chunkCalcEcge_copies h]; exact Nat.zero_le _

/-- One copy more keeps the mode of copies. -/
theorem storageKindOf_of_copies (hpos : (l.filter isCopy).length % 256 ≠ 0)
    (hle : (chunkCalcEcge l).1 ≤ (l.filter isCopy).length % 256) :
    storageKindOf l = .copies := by
  unfold storageKindOf
  rw [if_neg fun h => hpos h.1, if_pos hle]

/-- The number of copies of a kind with one more of them. -/
theorem length_copies_chunkNewCopy (hs : s.isCopy = true) (hq : q s = true) :
    (((chunkNewCopy s l).filter q).filter isCopy).length
      = ((l.filter q).filter isCopy).length + 1 := by
  have hperm := ((chunkNewCopy_perm s l).filter q).filter isCopy
  rw [List.filter_cons, if_pos hq, List.filter_cons, if_pos hs] at hperm
  exact hperm.length_eq

/-- **The fast path counts right**: one full copy more, below the limit of the counters. -/
theorem exact_fastPath (h : Exact c) (hcopy : s.isCopy = true)
    (hu : s.valid.usable = true) (hmode : c.storageMode = .copies) (hall : c.allGequiv < 15)
    (hreg : s.valid.regular = true → c.regGequiv < 15)
    (hlist : c'.slist = chunkNewCopy s c.slist)
    (hcounters : c'.counters = (.copies, c.allGequiv + 1,
      c.regGequiv + if s.valid.regular then 1 else 0)) : Exact c' := by
  rw [exact_iff] at h ⊢
  unfold Chunk.counters countersOf at h
  simp only [Prod.mk.injEq] at h
  obtain ⟨hm, ha, hr⟩ := h
  rw [← hm, hmode] at ha hr
  rw [if_pos rfl] at ha hr
  have hecge := ecge_le_of_copies (hm.symm.trans hmode)
  have hmode' : storageKindOf ((chunkNewCopy s c.slist).filter fun s => s.valid.usable)
      = .copies := by
    apply storageKindOf_of_copies
    · rw [length_copies_chunkNewCopy hcopy hu]
      omega
    · rw [length_copies_chunkNewCopy hcopy hu, chunkCalcEcge_chunkNewCopy hcopy]
      omega
  rw [hcounters]
  unfold countersOf
  rw [hlist]
  dsimp only
  rw [hmode', if_pos rfl, if_pos rfl, length_copies_chunkNewCopy hcopy hu]
  rw [Prod.mk.injEq, Prod.mk.injEq]
  refine ⟨rfl, by omega, ?_⟩
  have hboth : ∀ l : List SEntry, (l.filter fun s => s.valid.usable).filter (fun s => s.valid.regular)
      = l.filter fun s => s.valid.regular && s.valid.usable := fun l => List.filter_filter
  rw [hboth] at hr ⊢
  cases hsr : s.valid.regular with
  | true =>
    rw [length_copies_chunkNewCopy hcopy (by rw [hsr, hu]; rfl), if_pos rfl]
    have hlt := hreg hsr
    omega
  | false =>
    rw [filter_chunkNewCopy (by rw [hsr]; rfl), if_neg Bool.false_ne_true]
    exact hr

end MfsMaster
