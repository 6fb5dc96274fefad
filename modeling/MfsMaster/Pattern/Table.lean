/-
  MfsMaster.Pattern.Table
  **CREATION PATTERNS** (`patterns.c`).

  A pattern gives new objects a storage class, a trash retention and extra attributes by
  their name and creator.  The table holds at most `PATTERNS_MAX` of them and is sorted
  after every change; the first one that matches is applied.

  `MfsMaster.SClass` has the patterns as far as the operations on files see them; here they
  are with everything the table is made of (`patternsFindMatching_toPattern`).

  The valid entries come first in the sorted table, so the table is the list of them.
  `qsort` may be any routine that sorts (`Sorter`).  A change that makes `glob_new` run
  for ever does not end (`none`).
-/
import MfsMaster.Lib.FirstMatch
import MfsMaster.SClass
import MfsMaster.Pattern.Glob

namespace MfsMaster

/-! ## §1. Patterns and their order. -/

/-- A name whose length is a byte. -/
abbrev NameBytes := { l : List UInt8 // l.length ≤ 255 }

/-- `pattern`. -/
structure PatternEntry where
  gname : NameBytes
  euid : UInt32
  egid : UInt32
  priority : UInt8
  omask : UInt8
  scid : UInt8
  trashretention : UInt16
  seteattr : UInt8
  clreattr : UInt8
  deriving DecidableEq

/-- `PATTERNS_MAX`. -/
def patternsMax : Nat := 1024

/-- `PATTERN_EUGID_ANY`. -/
def patternEugidAny : UInt32 := 0xFFFFFFFF

/-- `PATTERN_OMASK_SCLASS`, `PATTERN_OMASK_EATTR`. -/
def patternOmaskSclass : UInt8 := 0x01
def patternOmaskEattr : UInt8 := 0x04

/-- `strcmp`. -/
def strcmp : List UInt8 → List UInt8 → Ordering
  | [], [] => .eq
  | [], _ :: _ => .lt
  | _ :: _, [] => .gt
  | a :: as, b :: bs => if a < b then .lt else if b < a then .gt else strcmp as bs

/-- `patterns_compare` of valid patterns. -/
def patternsCompare (p q : PatternEntry) : Ordering :=
  if p.priority < q.priority then .gt
  else if q.priority < p.priority then .lt
  else if p.scid < q.scid then .lt
  else if q.scid < p.scid then .gt
  else strcmp (cstr p.gname) (cstr q.gname)

/-- The pattern may stand before the other one. -/
def PatternEntry.le (p q : PatternEntry) : Bool := patternsCompare p q != .gt

/-- `qsort`: some routine that sorts. -/
structure Sorter where
  sort : List PatternEntry → List PatternEntry
  perm : ∀ l, (sort l).Perm l
  ordered : ∀ l, Lib.Ordered PatternEntry.le (sort l)

/-- The order of `strcmp` is the lexicographic one. -/
theorem strcmp_eq_compare (a b : List UInt8) : strcmp a b = compare a b := by
  induction a generalizing b with
  | nil => cases b <;> rfl
  | cons x a ih =>
    cases b with
    | nil => rfl
    | cons y b =>
      rw [strcmp, ih, List.compare_eq_compareLex, List.compareLex_cons_cons]
      show _ = (if x < y then Ordering.lt else if x = y then .eq else .gt).then _
      by_cases hxy : x < y
      · rw [if_pos hxy, if_pos hxy]
        rfl
      rw [if_neg hxy, if_neg hxy]
      by_cases hyx : y < x
      · rw [if_pos hyx, if_neg (UInt8.ne_of_lt hyx).symm]
        rfl
      · rw [if_neg hyx, if_pos (UInt8.le_antisymm (UInt8.not_lt.mp hyx) (UInt8.not_lt.mp hxy))]
        rfl

theorem strcmp_swap (a b : List UInt8) : strcmp b a = (strcmp a b).swap := by
  rw [strcmp_eq_compare, strcmp_eq_compare]
  exact Std.OrientedCmp.eq_swap

theorem strcmp_trans {a b c : List UInt8} (hab : strcmp a b ≠ .gt) (hbc : strcmp b c ≠ .gt) :
    strcmp a c ≠ .gt := by
  rw [strcmp_eq_compare] at *
  exact Ordering.isLE_iff_ne_gt.mp (Std.TransCmp.isLE_trans (Ordering.ne_gt_iff_isLE.mp hab)
    (Ordering.ne_gt_iff_isLE.mp hbc))

variable {p : PatternEntry}

theorem PatternEntry.le_iff {q : PatternEntry} :
    p.le q = true ↔ q.priority.toNat < p.priority.toNat
    ∨ (p.priority.toNat = q.priority.toNat ∧ (p.scid.toNat < q.scid.toNat
      ∨ (p.scid.toNat = q.scid.toNat ∧ strcmp (cstr p.gname) (cstr q.gname) ≠ .gt))) := by
  unfold PatternEntry.le patternsCompare
  rw [bne_iff_ne]
  simp only [UInt8.lt_iff_toNat_lt]
  split
  next hlt => exact ⟨fun h => absurd rfl h, fun h => by omega⟩
  next hnlt =>
  split
  next hgt => exact ⟨fun _ => .inl hgt, fun _ => nofun⟩
  next hngt =>
  have hpri : p.priority.toNat = q.priority.toNat := by omega
  split
  next hs => exact ⟨fun _ => .inr ⟨hpri, .inl hs⟩, fun _ => nofun⟩
  next hns =>
  split
  next hs => exact ⟨fun h => absurd rfl h, fun h => by omega⟩
  next hns' =>
  exact ⟨fun h => .inr ⟨hpri, .inr ⟨by omega, h⟩⟩, fun h => by
    rcases h with h | ⟨_, h | h⟩
    · omega
    · omega
    · exact h.2⟩

theorem PatternEntry.le_trans (p q r : PatternEntry) (hpq : p.le q = true) (hqr : q.le r = true) :
    p.le r = true := by
  rw [PatternEntry.le_iff] at *
  rcases hpq with h | ⟨h, h' | ⟨h', hpq⟩⟩ <;> rcases hqr with g | ⟨g, g' | ⟨g', hqr⟩⟩
  · exact .inl (by omega)
  · exact .inl (by omega)
  · exact .inl (by omega)
  · exact .inl (by omega)
  · exact .inr ⟨by omega, .inl (by omega)⟩
  · exact .inr ⟨by omega, .inl (by omega)⟩
  · exact .inl (by omega)
  · exact .inr ⟨by omega, .inl (by omega)⟩
  · exact .inr ⟨by omega, .inr ⟨by omega, strcmp_trans hpq hqr⟩⟩

theorem PatternEntry.le_total (p q : PatternEntry) : (p.le q || q.le p) = true := by
  rw [Bool.or_eq_true, PatternEntry.le_iff, PatternEntry.le_iff, strcmp_swap (cstr p.gname)]
  rcases Nat.lt_trichotomy p.priority.toNat q.priority.toNat with h | h | h
  · exact .inr (.inl h)
  · rcases Nat.lt_trichotomy p.scid.toNat q.scid.toNat with g | g | g
    · exact .inl (.inr ⟨h, .inl g⟩)
    · cases hcmp : strcmp (cstr p.gname) (cstr q.gname) with
      | gt => exact .inr (.inr ⟨h.symm, .inr ⟨g.symm, nofun⟩⟩)
      | eq | lt => exact .inl (.inr ⟨h, .inr ⟨g, nofun⟩⟩)
    · exact .inr (.inr ⟨h.symm, .inl g⟩)
  · exact .inl (.inl h)

theorem PatternEntry.le_refl (p : PatternEntry) : p.le p = true := by
  have h := p.le_total p
  rwa [Bool.or_self] at h

/-- One routine that sorts. -/
def mergeSorter : Sorter where
  sort := fun l => l.mergeSort PatternEntry.le
  perm := fun l => List.mergeSort_perm l _
  ordered := Lib.ordered_mergeSort PatternEntry.le_trans PatternEntry.le_total

/-- What names a pattern. -/
def PatternEntry.key (p : PatternEntry) : NameBytes × UInt32 × UInt32 := (p.gname, p.euid, p.egid)

/-- What a pattern does: `omask`, `scid`, `trashretention`, `seteattr`, `clreattr`. -/
def PatternEntry.effect (p : PatternEntry) : UInt8 × UInt8 × UInt16 × UInt8 × UInt8 :=
  (p.omask, p.scid, p.trashretention, p.seteattr, p.clreattr)

/-! ## §2. The table. -/

/-- `MFS_STATUS_OK` and the errors of this file. -/
inductive PatternStatus where
  | ok
  | einval
  | patternexists
  | patlimitreached
  | nosuchclass
  | nosuchpattern
  deriving Repr, DecidableEq

/-- The entries of `patterntab` that are valid, in order. -/
abbrev PatternTab := List PatternEntry

/-- The tests of `patterns_univ_add` on the pattern itself. -/
def PatternEntry.acceptable (p : PatternEntry) : Bool :=
  !p.gname.val.isEmpty
    && !(p.omask &&& patternOmaskEattr != 0
      && ((p.seteattr == 0 && p.clreattr == 0) || p.seteattr &&& p.clreattr != 0))

/-- `patterns_have_changed`; `none` when the glob of a new pattern is never finished. -/
def patternsHaveChanged (q : Sorter) (fresh : List PatternEntry) (t : PatternTab) :
    Option PatternTab :=
  if fresh.all fun p => (globNew p.gname).isSome then some (q.sort t) else none

/-- `patterns_univ_add`. -/
def patternsUnivAdd (q : Sorter) (t : PatternTab) (p : PatternEntry) :
    Option (PatternStatus × PatternTab) :=
  if !p.acceptable then some (.einval, t)
  else if t.any fun p' => p'.key == p.key then some (.patternexists, t)
  else if patternsMax ≤ t.length then some (.patlimitreached, t)
  else (patternsHaveChanged q [p] (t ++ [p])).map (PatternStatus.ok, ·)

/-- `patterns_add`; `sclass` is what `sclass_find_by_name` answers. -/
def patternsAdd (q : Sorter) (t : PatternTab) (sclass : UInt8) (p : PatternEntry) :
    Option (PatternStatus × PatternTab) :=
  if p.omask &&& patternOmaskSclass != 0 then
    if sclass = 0 then some (.nosuchclass, t) else patternsUnivAdd q t { p with scid := sclass }
  else patternsUnivAdd q t { p with scid := 0 }

/-- `patterns_univ_delete`. -/
def patternsUnivDelete (q : Sorter) (t : PatternTab) (key : NameBytes × UInt32 × UInt32) :
    PatternStatus × PatternTab :=
  if t.any fun p => p.key == key then (.ok, q.sort (t.filter fun p => p.key != key))
  else (.nosuchpattern, t)

/-- `patterns_sclass_delete`. -/
def patternsSclassDelete (q : Sorter) (t : PatternTab) (scid : UInt8) : PatternTab :=
  q.sort (t.filter fun p => p.scid != scid)

/-! ## §3. The pattern of a new object. -/

/-- `pattern_check_ugids`. -/
def PatternEntry.checkUgids (p : PatternEntry) (uid : UInt32) (gid : List UInt32) : Bool :=
  (p.euid == patternEugidAny || p.euid == uid) && (p.egid == patternEugidAny || gid.contains p.egid)

/-- What is in memory from the name on. -/
def nameByte (name : NameBytes) (behind : Nat → UInt8) (i : Nat) : UInt8 :=
  if i < name.val.length then name.val.getD i 0 else behind i

/-- Who makes what: a user with groups, a name, and what stands behind it in memory. -/
structure NewObject where
  uid : UInt32
  gid : List UInt32
  name : NameBytes
  behind : Nat → UInt8

/-- The pattern is for the new object. -/
def PatternEntry.hits (o : NewObject) (p : PatternEntry) : Bool :=
  p.checkUgids o.uid o.gid
    && (globNew p.gname).any fun g =>
      globMatch (nameByte o.name o.behind) g (UInt8.ofNat o.name.val.length)

/-- `patterns_find_matching`; `none` when 0 is returned and nothing is set. -/
def PatternTab.patternsFindMatching (t : PatternTab) (o : NewObject) :
    Option (UInt8 × UInt8 × UInt16 × UInt8 × UInt8) :=
  (t.find? (PatternEntry.hits o)).map PatternEntry.effect

/-! ### What the operations on files see. -/

/-- `PATTERN_OMASK_TRASHRETENTION`. -/
def patternOmaskTrashretention : UInt8 := 0x02

/-- The parts of an effect that the mask asks for. -/
def forcedOf (f : UInt8 × UInt8 × UInt16 × UInt8 × UInt8) : Forced :=
  { sclass := if f.1 &&& patternOmaskSclass != 0 then some f.2.1.toNat else none
    trashretention := if f.1 &&& patternOmaskTrashretention != 0 then some f.2.2.1 else none
    eattr := if f.1 &&& patternOmaskEattr != 0 then some f.2.2.2 else none }

def eugidOf (id : UInt32) : Option Nat := if id == patternEugidAny then none else some id.toNat

/-- The pattern with the language of its glob. -/
def PatternEntry.toPattern (behind : Nat → UInt8) (p : PatternEntry) : Pattern :=
  { glob := fun name => decide (name.length ≤ 255) && (globNew p.gname).any fun g =>
      globMatch (fun i => if i < name.length then name.getD i 0 else behind i) g
        (UInt8.ofNat name.length)
    euid := eugidOf p.euid
    egid := eugidOf p.egid
    sclass := (forcedOf p.effect).sclass
    trashretention := (forcedOf p.effect).trashretention
    eattr := (forcedOf p.effect).eattr }

/-- The user and the groups. -/
def NewObject.cred (o : NewObject) : Cred := ⟨o.uid.toNat, o.gid.map UInt32.toNat⟩

theorem contains_map_toNat (l : List UInt32) (id : UInt32) :
    (l.map UInt32.toNat).contains id.toNat = l.contains id := by
  simp only [List.contains_eq_mem, List.mem_map_of_injective fun _ _ => UInt32.toNat_inj.mp]

theorem checkUgids_toPattern {o : NewObject} :
    patternCheckUgids (p.toPattern o.behind) o.cred = p.checkUgids o.uid o.gid := by
  unfold patternCheckUgids PatternEntry.checkUgids PatternEntry.toPattern eugidOf
  refine congrArg₂ (· && ·) ?_ ?_
  · cases hany : p.euid == patternEugidAny with
    | true => rfl
    | false =>
      show (p.euid.toNat == o.uid.toNat) = (false || p.euid == o.uid)
      rw [Bool.false_or, Bool.eq_iff_iff, beq_iff_eq, beq_iff_eq]
      exact UInt32.toNat_inj
  · cases hany : p.egid == patternEugidAny with
    | true => rfl
    | false =>
      show (o.gid.map UInt32.toNat).contains p.egid.toNat = (false || o.gid.contains p.egid)
      rw [Bool.false_or, contains_map_toNat]

theorem hits_toPattern {o : NewObject} :
    (patternCheckUgids (p.toPattern o.behind) o.cred && (p.toPattern o.behind).glob o.name)
      = p.hits o := by
  have hname : decide (o.name.val.length ≤ 255) = true := decide_eq_true o.name.property
  rw [checkUgids_toPattern]
  unfold PatternEntry.hits PatternEntry.toPattern
  dsimp only
  rw [hname, Bool.true_and]
  rfl

/-- **Both models choose the same pattern.** -/
theorem patternsFindMatching_toPattern (t : PatternTab) (o : NewObject) :
    patternsFindMatching (t.map (PatternEntry.toPattern o.behind)) o.cred o.name
      = ((t.patternsFindMatching o).map forcedOf).getD .nothing := by
  unfold patternsFindMatching PatternTab.patternsFindMatching
  rw [List.find?_map, show (fun p => patternCheckUgids p o.cred && p.glob o.name) ∘
    PatternEntry.toPattern o.behind = PatternEntry.hits o from funext fun p => hits_toPattern]
  cases t.find? (PatternEntry.hits o) with
  | none | some => rfl

end MfsMaster
