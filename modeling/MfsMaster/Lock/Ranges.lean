/-
  MfsMaster.Lock.Ranges
  **BYTE RANGES OF ONE OWNER** (`posixlocks.c`).

  An owner's locks on a file are a list of ranges `<start,end)` in increasing order.
  `posix_lock_apply_range` locks or unlocks a range by splitting, trimming and merging
  the list in place, as `Lib.assign` does.  What the list MEANS is a function from bytes to
  lock types (`typeAt`), and on this function the surgery is one update:

      apply_range_overwrites — the bytes of the range get the new type, the others keep theirs,
                               and the list stays in its only form
      rangesWf_applyRange — the list stays ordered, without empty or unlocked ranges
      testWlock_iff — the test for a conflict finds a byte where there is one
-/
import MfsMaster.Types
import MfsMaster.Lib.RecordLocks

namespace MfsMaster

/-- `POSIX_LOCK_*`. -/
inductive LockType where
  | unlck
  | rdlck
  | wrlck
  deriving Repr, DecidableEq

/-- `range`: the bytes `<start,stop)` and their type. -/
abbrev Range := Lib.Span LockType

/-! ## §1. The two functions. -/

/-- `posix_lock_apply_range`. -/
abbrev posixLockApplyRange (type : LockType) (start stop : Nat) (l : List Range) : List Range :=
  Lib.assign .unlck type start stop l

/-- `posix_lock_test_wlock`: the first range that stands in the way. -/
abbrev posixLockTestWlock (l : List Range) (type : LockType) (start stop : Nat) : Option Range :=
  Lib.firstInWay .wrlck l type start stop

/-! ## §2. What a list means. -/

/-- What a lock type leaves on a byte. -/
def LockType.held (type : LockType) : Option LockType :=
  if type = .unlck then none else some type

/-- The lock on a byte. -/
def typeAt (b : Nat) (l : List Range) : Option LockType := (Lib.labelAt .unlck b l).held

/-- Ranges from `lo` on, in order, none of them empty or unlocked. -/
structure RangesWf (lo : Nat) (l : List Range) : Prop where
  ordered : Lib.OrderedFrom (fun _ _ => True) lo none l
  locked : ∀ r ∈ l, r.label ≠ .unlck

variable {l : List Range} {lo start stop b hi : Nat} {r : Range} {type : LockType} {t : LockType}

theorem RangesWf.nil : RangesWf lo [] := ⟨trivial, List.forall_mem_nil _⟩

theorem RangesWf.mem (hl : RangesWf lo l) (hr : r ∈ l) : r.start < r.stop :=
  ((Lib.orderedFrom_iff.mp hl.ordered).1 r hr).2.2

/-! ## §3. The update. -/

/-- **The list stays ordered.** -/
theorem rangesWf_applyRange (hlo : lo ≤ start) (hlt : start < stop) (hl : RangesWf lo l) :
    RangesWf lo (posixLockApplyRange type start stop l) :=
  ⟨hl.ordered.assign (fun _ _ _ => trivial) hlo hlt fun _ => trivial, Lib.assign_labels hl.locked⟩

/-- **One update of the meaning.** -/
theorem typeAt_applyRange {touch : Option LockType → LockType → Prop} {before : Option LockType}
    (hlo : lo ≤ start) (hlt : start < stop) (hl : Lib.OrderedFrom touch lo before l) :
    typeAt b (posixLockApplyRange type start stop l)
      = if start ≤ b ∧ b < stop then type.held else typeAt b l := by
  unfold typeAt posixLockApplyRange
  rw [Lib.labelAt_assign hlo hlt hl]
  split <;> rfl

/-- Sorted, without empty ranges, any two of them apart, and none that touches another one of its
type. -/
structure RangesCanonical (l : List Range) : Prop where
  sorted : l.Pairwise fun a b => a.start ≤ b.start
  nonempty : ∀ r ∈ l, r.start < r.stop
  disjoint : l.Pairwise fun a b => a.stop ≤ b.start ∨ b.stop ≤ a.start
  separate : l.Pairwise fun a b => a.stop = b.start ∨ b.stop = a.start → a.label ≠ b.label

theorem rangesCanonical_iff : RangesCanonical l
    ↔ Lib.OrderedFrom (fun a b => a ≠ some b) 0 none l := by
  rw [Lib.orderedFrom_iff]
  constructor
  · rintro ⟨hsorted, hne, hdisj, hsep⟩
    refine ⟨fun r hr => ⟨Nat.zero_le _, fun _ => nofun, hne r hr⟩, ?_⟩
    refine (List.Pairwise.and_mem.mp ((hsorted.and hdisj).and hsep)).imp fun {a b} h => ?_
    obtain ⟨ha, hb, ⟨hle, hapart⟩, htypes⟩ := h
    have ha := hne a ha
    have hb := hne b hb
    exact ⟨by omega, fun heq hsame => htypes (.inl heq.symm) (Option.some.inj hsame)⟩
  · rintro ⟨hmem, hpair⟩
    have hne : ∀ r ∈ l, r.start < r.stop := fun r hr => (hmem r hr).2.2
    have hall := List.Pairwise.and_mem.mp hpair
    refine ⟨hall.imp fun {a b} h => ?_, hne, hpair.imp fun h => .inl h.1,
      hall.imp fun {a b} h => ?_⟩
    · obtain ⟨ha, _, hle, _⟩ := h
      exact Nat.le_trans (Nat.le_of_lt (hne a ha)) hle
    obtain ⟨ha, hb, hle, htypes⟩ := h
    have ha := hne a ha
    have hb := hne b hb
    rintro (htouch | htouch)
    · exact fun hsame => htypes htouch.symm (congrArg some hsame)
    · omega

/-- **The surgery is an overwrite, and keeps the form of the list**: a canonical list stays
canonical, the bytes of the range get what the type leaves on a byte, the others keep what they
have. -/
theorem apply_range_overwrites (hcan : RangesCanonical l) (hlt : start < stop) :
    RangesCanonical (posixLockApplyRange type start stop l)
      ∧ ∀ b, typeAt b (posixLockApplyRange type start stop l)
        = if start ≤ b ∧ b < stop then type.held else typeAt b l := by
  have hord := rangesCanonical_iff.mp hcan
  refine ⟨rangesCanonical_iff.mpr ?_, fun b => typeAt_applyRange (Nat.zero_le start) hlt hord⟩
  exact hord.assign (fun a b hne heq => hne (Option.some.inj heq)) (Nat.zero_le start) hlt
    fun _ => nofun

/-- A write lock in the middle of a read lock. -/
theorem apply_range_splits : RangesCanonical [⟨0, 30, .rdlck⟩]
    ∧ posixLockApplyRange .wrlck 10 20 [⟨0, 30, .rdlck⟩]
      = [⟨0, 10, .rdlck⟩, ⟨10, 20, .wrlck⟩, ⟨20, 30, .rdlck⟩]
    ∧ RangesCanonical (posixLockApplyRange .wrlck 10 20 [⟨0, 30, .rdlck⟩]) := by
  have hcan : RangesCanonical [⟨0, 30, .rdlck⟩] := ⟨by simp, by simp, by simp, by simp⟩
  exact ⟨hcan, by decide, (apply_range_overwrites hcan (by decide)).1⟩

/-! ## §4. Conflicts. -/

/-- A range that covers a byte is what the list says of it. -/
theorem typeAt_eq_some_iff (hl : RangesWf lo l) :
    typeAt b l = some type ↔ ∃ r ∈ l, r.start ≤ b ∧ b < r.stop ∧ r.label = type := by
  unfold typeAt LockType.held
  constructor
  · intro h
    split at h
    · cases h
    next hlabel =>
      have heq := Option.some.inj h
      exact (Lib.labelAt_eq_iff hl.ordered (heq ▸ hlabel)).mp heq
  · rintro ⟨r, hr, h1, h2, rfl⟩
    rw [(Lib.labelAt_eq_iff hl.ordered (hl.locked r hr)).mpr ⟨r, hr, h1, h2, rfl⟩,
      if_neg (hl.locked r hr)]

/-- Two locks on one byte exclude each other. -/
def LockType.excludes (a b : LockType) : Prop := a = .wrlck ∨ b = .wrlck

theorem LockType.excludes_symm {a b : LockType} (h : a.excludes b) : b.excludes a := Or.symm h

/-- **The test for a conflict is exact**: it answers with a range when a byte of the request has a
lock that excludes it. -/
theorem testWlock_iff (hl : RangesWf lo l) (hlt : start < stop) :
    (posixLockTestWlock l type start stop).isSome = true
      ↔ ∃ b held, (start ≤ b ∧ b < stop) ∧ typeAt b l = some held ∧ type.excludes held := by
  unfold posixLockTestWlock Lib.firstInWay
  rw [List.find?_isSome]
  constructor
  · rintro ⟨r, hmem, htest⟩
    simp only [Bool.and_eq_true, Bool.or_eq_true, beq_iff_eq, decide_eq_true_eq] at htest
    obtain ⟨htype, h1, h2⟩ := htest
    have hr : r.start < r.stop := hl.mem hmem
    -- the first common byte
    refine ⟨max start r.start, r.label, by omega, ?_, htype⟩
    exact (typeAt_eq_some_iff hl).mpr ⟨r, hmem, by omega, by omega, rfl⟩
  · rintro ⟨b, held, hb, hat, hex⟩
    obtain ⟨r, hmem, hr1, hr2, htype⟩ := (typeAt_eq_some_iff hl).mp hat
    refine ⟨r, hmem, ?_⟩
    simp only [Bool.and_eq_true, Bool.or_eq_true, beq_iff_eq, decide_eq_true_eq]
    exact ⟨htype ▸ hex, by omega, by omega⟩

/-- The ranges end no later than before or than the new one. -/
theorem stops_applyRange (hlt : start < stop) (hl : RangesWf lo l) (hstop : stop ≤ hi)
    (hstops : ∀ r ∈ l, r.stop ≤ hi) : ∀ r ∈ posixLockApplyRange type start stop l, r.stop ≤ hi := by
  intro r hr
  refine (Lib.assign_forall (p := (· ≤ hi)) (q := fun _ => True) hstop (fun _ => trivial)
    (by omega) (fun x hx => ?_) r hr).2.1
  have hx' := hl.mem hx
  have hle := hstops x hx
  exact ⟨by omega, hle, trivial⟩

end MfsMaster
