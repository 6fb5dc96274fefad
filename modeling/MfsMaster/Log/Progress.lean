/-
  MfsMaster.Log.Progress
  **THE PROGRESS REPORT OF A RESTORE** (`merger_loop` in `merger.c`).

  Before a record whose id is a multiple of 2497 the loop prints how far it is between the
  version of the metadata (`firstlv`) and the largest id found in the files (`lastlv`).  The time
  left is estimated by a division by the number of ids passed, which is 0 at the first one.

      progress            — the report before one record; `none` is a division by zero
      mergerReport        — the loop of `merger_loop` with its reports

  Main result: `progress_never_faults_iff`.
-/
import Mathlib
import MfsMaster.Log.Merge

namespace MfsMaster

/-- `(int64_t)x`. -/
def signed64 (x : UInt64) : Int :=
  if x.toNat < 2 ^ 63 then x.toNat else x.toNat - 2 ^ 64

/-- An unsigned division, which the processor refuses for the divisor 0. -/
def udiv (a b : UInt64) : Option UInt64 := if b = 0 then none else some (a / b)

/-- One report; `eta` is none where `etaok` is not set. -/
structure ProgressReport where
  perc : UInt8
  eta : Option UInt32
  deriving Repr, DecidableEq

/-- The report before the record `nextid` and the new `st`; `cu` is the clock. -/
def progress (firstlv lastlv st cu : UInt64) (nextid : Nat) :
    Option (Option ProgressReport × UInt64) :=
  if nextid % 2497 = 0 ∧ lastlv > firstlv then
    if nextid < signed64 firstlv then some (some ⟨0, none⟩, cu)
    else if nextid > signed64 lastlv then some (some ⟨100, some 0⟩, st)
    else do
      let id := UInt64.ofNat nextid
      let perc ← udiv ((id - firstlv) * 100) (lastlv - firstlv)
      let left ← udiv ((lastlv - id) * (cu - st)) (id - firstlv)
      let eta ← udiv left 1000000
      some (some ⟨perc.toUInt8, some eta.toUInt32⟩, st)
  else some (none, st)

section Loop

variable {σ : Type} (R : Restorable σ) (firstlv lastlv : UInt64)

/-- The merger, `st`, and the reports so far. -/
structure Reporting (σ : Type) where
  merger : Merger σ
  st : UInt64
  reports : List ProgressReport

/-- One turn of the loop, at the time `cu`. -/
def mergerReport (p : Reporting σ) (cu : UInt64) : Option (Reporting σ) :=
  if p.merger.heapsize = 0 then some p
  else (progress firstlv lastlv p.st cu (p.merger.heap 0).nextid).map fun r =>
    ⟨mergerTurn R p.merger, r.2, p.reports ++ r.1.toList⟩

/-- The ids of the records merged in `n` turns. -/
def mergedIds : Nat → Merger σ → List Nat
  | 0, _ => []
  | n + 1, s => if s.heapsize = 0 then [] else (s.heap 0).nextid :: mergedIds n (mergerTurn R s)

end Loop

/-! ## §1. One report. -/

variable {firstlv lastlv st cu : UInt64} {nextid : Nat}

/-- The record at which the estimate divides by zero. -/
def FaultsAt (firstlv lastlv : UInt64) (nextid : Nat) : Prop :=
  nextid = firstlv.toNat ∧ firstlv.toNat % 2497 = 0 ∧ firstlv < lastlv ∧ lastlv.toNat < 2 ^ 63

/-- Ids in the last branch lie between the two bounds. -/
theorem between_of_signed (h : ¬nextid < signed64 firstlv) (h' : ¬nextid > signed64 lastlv)
    (hlt : firstlv < lastlv) :
    firstlv.toNat ≤ nextid ∧ nextid ≤ lastlv.toNat ∧ lastlv.toNat < 2 ^ 63 := by
  have hlt := UInt64.lt_iff_toNat_lt.mp hlt
  have := lastlv.toNat_lt
  unfold signed64 at h h'
  split at h <;> split at h' <;> omega

theorem perc_le {a b : UInt64} (h : a.toNat ≤ b.toNat) : (a * 100 / b).toUInt8 ≤ 100 := by
  have hle : (a * 100 / b).toNat ≤ 100 := by
    rw [UInt64.toNat_div, UInt64.toNat_mul]
    refine (Nat.div_le_div_right (Nat.mod_le _ _)).trans (Nat.div_le_of_le_mul ?_)
    exact Nat.mul_le_mul_right 100 h
  rw [UInt8.le_iff_toNat_le, UInt64.toNat_toUInt8]
  exact (Nat.mod_le _ _).trans hle

theorem progress_spec :
    (progress firstlv lastlv st cu nextid = none ↔ FaultsAt firstlv lastlv nextid) ∧
      ∀ r ∈ progress firstlv lastlv st cu nextid, ∀ p ∈ r.1, p.perc ≤ 100 := by
  unfold progress
  by_cases hreport : nextid % 2497 = 0 ∧ lastlv > firstlv
  swap
  · rw [if_neg hreport]
    refine ⟨⟨nofun, fun ⟨hid, hmod, hlt, _⟩ => absurd ⟨hid ▸ hmod, hlt⟩ hreport⟩, ?_⟩
    rintro _ ⟨⟩ _ ⟨⟩
  rw [if_pos hreport]
  have hlt := UInt64.lt_iff_toNat_lt.mp hreport.2
  split
  · next hbelow =>
    refine ⟨⟨nofun, fun ⟨hid, _, _, hlast⟩ => ?_⟩, by rintro _ ⟨⟩ _ ⟨⟩; decide⟩
    rw [signed64, if_pos (by omega)] at hbelow
    omega
  split
  · next habove =>
    refine ⟨⟨nofun, fun ⟨hid, _, _, hlast⟩ => ?_⟩, by rintro _ ⟨⟩ _ ⟨⟩; decide⟩
    rw [signed64, if_pos hlast] at habove
    omega
  next hbelow habove =>
  obtain ⟨hle, hle', hlast⟩ := between_of_signed hbelow habove hreport.2
  have hid : (UInt64.ofNat nextid).toNat = nextid := UInt64.toNat_ofNat_of_lt
    (hle'.trans_lt (hlast.trans (by decide)))
  have hpassed : (UInt64.ofNat nextid - firstlv).toNat = nextid - firstlv.toNat := by
    rw [UInt64.toNat_sub_of_le _ _ (UInt64.le_iff_toNat_le.mpr (hid.symm ▸ hle)), hid]
  have hall : (lastlv - firstlv).toNat = lastlv.toNat - firstlv.toNat :=
    UInt64.toNat_sub_of_le _ _ (UInt64.le_of_lt hreport.2)
  have hnz : lastlv - firstlv ≠ 0 := fun h => by
    rw [h] at hall
    have : (0 : UInt64).toNat = 0 := rfl
    omega
  have hzero : UInt64.ofNat nextid - firstlv = 0 ↔ nextid = firstlv.toNat := by
    rw [← UInt64.toNat_inj, hpassed]
    show nextid - firstlv.toNat = 0 ↔ _
    omega
  dsimp only
  rw [udiv, if_neg hnz, Option.bind_eq_bind, Option.bind_some]
  by_cases heq : nextid = firstlv.toNat
  · rw [udiv, if_pos (hzero.mpr heq)]
    exact ⟨⟨fun _ => ⟨heq, heq ▸ hreport.1, hreport.2, hlast⟩, fun _ => rfl⟩, nofun⟩
  rw [udiv, if_neg fun h => heq (hzero.mp h)]
  refine ⟨⟨nofun, fun h => absurd h.1 heq⟩, ?_⟩
  rintro _ ⟨⟩ _ ⟨⟩
  exact perc_le (by omega)

/-! ## §2. The loop. -/

variable {σ : Type} {R : Restorable σ}

theorem mergedIds_empty {s : Merger σ} (h : s.heapsize = 0) (n : Nat) : mergedIds R n s = [] := by
  cases n with
  | zero => rfl
  | succ n => exact if_pos h

/-- Every percentage printed is one. -/
def Reporting.Sane (p : Reporting σ) : Prop := ∀ r ∈ p.reports, r.perc ≤ 100

theorem reports_iff (clock : List UInt64) (p : Reporting σ) (hp : p.Sane) :
    (∃ q, clock.foldlM (mergerReport R firstlv lastlv) p = some q ∧ q.Sane) ↔
      ∀ id ∈ mergedIds R clock.length p.merger, ¬FaultsAt firstlv lastlv id := by
  induction clock generalizing p with
  | nil => exact ⟨fun _ => nofun, fun _ => ⟨p, rfl, hp⟩⟩
  | cons cu clock ih =>
    rw [List.foldlM_cons, List.length_cons, mergerReport]
    by_cases hsize : p.merger.heapsize = 0
    · rw [if_pos hsize, mergedIds_empty hsize, ← mergedIds_empty hsize clock.length]
      exact ih p hp
    rw [if_neg hsize, mergedIds, if_neg hsize, List.forall_mem_cons]
    obtain ⟨hnone, hsane⟩ := @progress_spec firstlv lastlv p.st cu (p.merger.heap 0).nextid
    cases hr : progress firstlv lastlv p.st cu (p.merger.heap 0).nextid with
    | none => exact ⟨fun ⟨_, h, _⟩ => (nomatch h), fun h => absurd (hnone.mp hr) h.1⟩
    | some r =>
      have hno : ¬FaultsAt firstlv lastlv (p.merger.heap 0).nextid := fun h => by
        rw [hnone.mpr h] at hr
        cases hr
      refine (ih ⟨mergerTurn R p.merger, r.2, p.reports ++ r.1.toList⟩ fun q hq => ?_).trans
        (and_iff_right hno).symm
      rcases List.mem_append.mp hq with hq | hq
      · exact hp q hq
      · exact hsane r hr q (Option.mem_toList.mp hq)

/-- **Progress never faults** exactly when no record with the version of the metadata as its id is
merged, or that version is no multiple of 2497, or is not below the largest id found (which has
less than 64 bits). -/
theorem progress_never_faults_iff (R : Restorable σ) (data : σ)
    (files : List (Nat × List LogLine)) (firstlv lastlv st : UInt64) (clock : List UInt64) :
    (∃ q, clock.foldlM (mergerReport R firstlv lastlv) ⟨mergerStart data files, st, []⟩ = some q ∧
        ∀ r ∈ q.reports, r.perc ≤ 100) ↔
      ¬(firstlv.toNat ∈ mergedIds R clock.length (mergerStart data files) ∧
        firstlv.toNat % 2497 = 0 ∧ firstlv < lastlv ∧ lastlv.toNat < 2 ^ 63) := by
  refine (reports_iff clock _ fun _ h => absurd h List.not_mem_nil).trans ⟨?_, ?_⟩
  · rintro h ⟨hmem, hrest⟩
    exact h _ hmem ⟨rfl, hrest⟩
  · rintro h id hid ⟨rfl, hrest⟩
    exact h ⟨hid, hrest⟩

/-- Metadata of version 4994 and a file with the records 4994 and 4995. -/
theorem progress_faults_at_first :
    [0].foldlM (mergerReport countLines 4994 4995)
      ⟨mergerStart 4994 [(0, [⟨4994, []⟩, ⟨4995, []⟩])], 0, []⟩ = none := by
  decide

end MfsMaster
