/-
  MfsMaster.Lock.PosixHeld
  **WHAT THE ACTIVE LOCKS OF AN INODE MEAN.**

  The list of active locks is a function from holders and bytes to lock types (`held`).
  On it the two functions everything else is made of are one assignment and one question:

      held_doApplyLock — `posix_lock_do_apply_lock` assigns a type to the bytes of a range
      offensive_iff — `posix_lock_find_offensive_lock` finds a byte another holder excludes

  `ActiveWf` is what the list keeps: one record a holder, none of them empty.
-/
import Mathlib
import MfsMaster.Lock.Posix
import MfsMaster.Lib.Exclusion

namespace MfsMaster

open Lib (rangesOf rangesOf_cons rangesOf_eq_nil)

/-- `UINT64_MAX`. -/
def uint64Max : Nat := 2 ^ 64 - 1

/-- The bytes of a request. -/
def InBytes (start stop : UInt64) (b : Nat) : Prop := start.toNat ≤ b ∧ b < stop.toNat

instance InBytes.decidable (start stop : UInt64) : DecidablePred (InBytes start stop) :=
  fun b => inferInstanceAs (Decidable (start.toNat ≤ b ∧ b < stop.toNat))

/-- The lock a holder has on a byte. -/
def held (active : List ALock) (h : Holder) (b : Nat) : Option LockType :=
  typeAt b (rangesOf h active)

/-- The same as a relation. -/
def Holds (active : List ALock) (h : Holder) (b : Nat) (type : LockType) : Prop :=
  held active h b = some type

/-- A record of a holder that has locks. -/
structure ALock.Wf (al : ALock) : Prop where
  nonempty : al.ranges ≠ []
  ordered : RangesWf 0 al.ranges
  bounded : ∀ r ∈ al.ranges, r.stop ≤ uint64Max

/-- The active locks of an inode: one record a holder. -/
structure ActiveWf (active : List ALock) : Prop where
  nodup : (active.map Lib.RecordLock.holder).Nodup
  each : ∀ al ∈ active, al.Wf

theorem ActiveWf.nil : ActiveWf [] := ⟨List.nodup_nil, fun _ h => by cases h⟩

variable {l : List ALock} {h : Holder} {al : ALock}

theorem ActiveWf.filter (h : ActiveWf l) {p : ALock → Bool} : ActiveWf (l.filter p) :=
  ⟨h.nodup.sublist (List.filter_sublist.map _), fun a ha => h.each a (List.mem_filter.mp ha).1⟩

/-! ## §1. The ranges of a holder. -/

theorem rangesWf_rangesOf (hwf : ActiveWf l) : RangesWf 0 (rangesOf h l) :=
  Lib.rangesOf_rule .nil fun al hal => (hwf.each al hal).ordered

/-! ## §2. `posix_lock_do_apply_lock`. -/

section
variable {h : Holder} {type : LockType} {start stop : UInt64} {pid : Nat}

/-- A range is applied to a list in order. -/
theorem applyRange_bounded (type : LockType) (hlt : start < stop) {l : List Range}
    (hl : RangesWf 0 l) (hstops : ∀ r ∈ l, r.stop ≤ uint64Max) :
    RangesWf 0 (posixLockApplyRange type start.toNat stop.toNat l)
      ∧ ∀ r ∈ posixLockApplyRange type start.toNat stop.toNat l, r.stop ≤ uint64Max := by
  have hlt : start.toNat < stop.toNat := UInt64.lt_iff_toNat_lt.mp hlt
  have hstop : stop.toNat ≤ uint64Max := by
    have := stop.toNat_lt
    unfold uint64Max
    omega
  exact ⟨rangesWf_applyRange (Nat.zero_le _) hlt hl,
    stops_applyRange hlt hl hstop hstops⟩

theorem activeWf_doApplyLock (hlt : start < stop) (hwf : ActiveWf l) :
    ActiveWf (posixLockDoApplyLock h type start stop pid l) := by
  refine ⟨Lib.nodup_applyLock hwf.nodup, fun al hal => ?_⟩
  rcases Lib.mem_applyLock hal with hal | ⟨_, hne, hranges⟩
  · exact hwf.each al hal
  have hbounded : ∀ r ∈ rangesOf h l, r.stop ≤ uint64Max :=
    Lib.rangesOf_rule (P := fun l => ∀ r ∈ l, r.stop ≤ uint64Max) (List.forall_mem_nil _)
      fun al hal => (hwf.each al hal).bounded
  have hb := applyRange_bounded type hlt (rangesWf_rangesOf hwf) hbounded
  exact ⟨hne, hranges.symm ▸ hb.1, hranges.symm ▸ hb.2⟩

/-- **One assignment.** -/
theorem held_doApplyLock (hlt : start < stop) (hwf : ActiveWf l) (h' : Holder) (b : Nat) :
    held (posixLockDoApplyLock h type start stop pid l) h' b
      = if h' = h ∧ InBytes start stop b then type.held else held l h' b := by
  unfold held
  rw [Lib.rangesOf_applyLock hwf.nodup]
  by_cases heq : h' = h
  · rw [if_pos heq, typeAt_applyRange (Nat.zero_le _) (UInt64.lt_iff_toNat_lt.mp hlt)
      (rangesWf_rangesOf hwf).ordered, heq]
    show (if InBytes start stop b then type.held else typeAt b (rangesOf h l)) = _
    by_cases hin : InBytes start stop b
    · rw [if_pos hin, if_pos ⟨rfl, hin⟩]
    · rw [if_neg hin, if_neg fun hc => hin hc.2]
  · rw [if_neg heq, if_neg fun hc => heq hc.1]

/-! ## §3. `posix_lock_find_offensive_lock`. -/

/-- The test reads nothing but the ranges of the other holders. -/
theorem offensive_iff_rangesOf (hl : ActiveWf l):
    posixLockFindOffensiveLock l h type start stop = true
      ↔ ∃ g, g ≠ h ∧ (posixLockTestWlock (rangesOf g l) type start.toNat stop.toNat).isSome := by
  unfold posixLockFindOffensiveLock Lib.offensive
  rw [List.any_eq_true]
  constructor
  · rintro ⟨al, hmem, htest⟩
    rw [Bool.and_eq_true, bne_iff_ne] at htest
    refine ⟨al.holder, htest.1, ?_⟩
    rw [Lib.rangesOf_of_mem hl.nodup hmem]
    exact htest.2
  · rintro ⟨g, hne, htest⟩
    have hranges : rangesOf g l ≠ [] := fun hnil => by
      rw [hnil] at htest
      cases htest
    obtain ⟨al, hmem, hal, heq⟩ := Lib.mem_of_rangesOf hranges
    refine ⟨al, hmem, ?_⟩
    rw [Bool.and_eq_true, bne_iff_ne, heq]
    exact ⟨hal ▸ hne, htest⟩

/-- **One question.** -/
theorem offensive_iff (hlt : start < stop) (hwf : ActiveWf l) :
    posixLockFindOffensiveLock l h type start stop = true
      ↔ Lib.Blocked LockType.excludes (Holds l) h type (InBytes start stop) := by
  have hlt : start.toNat < stop.toNat := UInt64.lt_iff_toNat_lt.mp hlt
  rw [offensive_iff_rangesOf hwf]
  constructor
  · rintro ⟨g, hne, htest⟩
    obtain ⟨b, t, hin, hat, hex⟩ := (testWlock_iff (rangesWf_rangesOf hwf) hlt).mp htest
    exact ⟨g, b, t, hne, hin, hat, hex⟩
  · rintro ⟨g, b, t, hne, hin, hat, hex⟩
    exact ⟨g, hne, (testWlock_iff (rangesWf_rangesOf hwf) hlt).mpr ⟨b, t, hin, hat, hex⟩⟩

end

/-! ## §4. Closing. -/

/-- The ranges of the session are gone, the others stay. -/
theorem rangesOf_dropSession {sessionid : Nat} (h : Holder) :
    rangesOf h (dropSession sessionid l) = if h.sessionid = sessionid then [] else rangesOf h l := by
  unfold dropSession
  by_cases hs : h.sessionid = sessionid
  · rw [if_pos hs]
    refine rangesOf_eq_nil fun al hal heq => ?_
    have hkept := (List.mem_filter.mp hal).2
    rw [bne_iff_ne, heq] at hkept
    exact hkept hs
  · rw [if_neg hs]
    induction l with
    | nil => rfl
    | cons al l ih =>
      by_cases hal : al.holder = h
      · have hkept : (al.holder.sessionid != sessionid) = true := by
          rw [bne_iff_ne, hal]
          exact hs
        rw [List.filter_cons, if_pos hkept, rangesOf_cons, rangesOf_cons, if_pos hal, if_pos hal]
      · rw [rangesOf_cons, if_neg hal, ← ih, List.filter_cons]
        split
        · rw [rangesOf_cons, if_neg hal]
        · rfl

theorem held_dropSession {sessionid : Nat} (h : Holder) {b : Nat} :
    held (dropSession sessionid l) h b = if h.sessionid = sessionid then none else held l h b := by
  unfold held
  rw [rangesOf_dropSession]
  split <;> rfl

end MfsMaster
