/-
  MfsMaster.Lib.RecordLocks
  **RECORD LOCKS** (general, no files here).

  A holder has one record with the labelled ranges it has locked.  A request gives a label to a
  range of its holder; it is refused while another holder has a range in common with it and one
  of the two labels is the strong one.  Requests that wait are tried again in one pass.

      mem_applyLock, rangesOf_applyLock, nodup_applyLock — what a request does to the records
      grantLoop_kept, grantLoop_sublist                  — what a pass does
-/
import MfsMaster.Lib.Spans
import Mathlib.Data.List.Nodup

namespace MfsMaster.Lib

/-- What one holder has locked. -/
structure RecordLock (η ι τ : Type) where
  holder : η
  pid : ι
  ranges : List (Span τ)
  deriving Repr, DecidableEq

variable {η ι τ : Type} [DecidableEq η]

/-- The ranges of a holder. -/
def rangesOf (h : η) : List (RecordLock η ι τ) → List (Span τ)
  | [] => []
  | al :: l => if al.holder = h then al.ranges else rangesOf h l

/-! ## §1. The ranges of a holder. -/

section Holders

variable {l : List (RecordLock η ι τ)} {h : η} {al : RecordLock η ι τ}

theorem rangesOf_cons (h : η) :
    rangesOf h (al :: l) = if al.holder = h then al.ranges else rangesOf h l := rfl

theorem rangesOf_eq_nil (hno : ∀ al ∈ l, al.holder ≠ h) : rangesOf h l = [] := by
  induction l with
  | nil => rfl
  | cons al l ih =>
    rw [rangesOf_cons, if_neg (hno al List.mem_cons_self)]
    exact ih fun a ha => hno a (List.mem_cons_of_mem al ha)

omit [DecidableEq η] in
theorem holder_ne_of_nodup (hnodup : ((al :: l).map RecordLock.holder).Nodup) :
    ∀ a ∈ l, a.holder ≠ al.holder := by
  intro a ha heq
  exact (List.nodup_cons.mp hnodup).1 (heq ▸ List.mem_map_of_mem ha)

theorem rangesOf_of_mem (hnodup : (l.map RecordLock.holder).Nodup)
    (hmem : al ∈ l) : rangesOf al.holder l = al.ranges := by
  induction l with
  | nil => cases hmem
  | cons x l ih =>
    rw [rangesOf_cons]
    rcases List.mem_cons.mp hmem with heq | hmem
    · rw [heq, if_pos rfl]
    · rw [if_neg fun h => holder_ne_of_nodup hnodup al hmem h.symm]
      exact ih (List.nodup_cons.mp hnodup).2 hmem

/-- A holder with ranges has a record with them. -/
theorem mem_of_rangesOf (hne : rangesOf h l ≠ []) :
    ∃ al ∈ l, al.holder = h ∧ al.ranges = rangesOf h l := by
  induction l with
  | nil => exact absurd rfl hne
  | cons al l ih =>
    rw [rangesOf_cons] at hne ⊢
    split at hne
    next heq => exact ⟨al, List.mem_cons_self, heq, (if_pos heq).symm⟩
    next hother =>
      obtain ⟨a, hmem, ha⟩ := ih hne
      rw [if_neg hother]
      exact ⟨a, List.mem_cons_of_mem al hmem, ha⟩

/-- A property of lists that all records have, and the empty list. -/
theorem rangesOf_rule {P : List (Span τ) → Prop} (hnil : P []) (hl : ∀ al ∈ l, P al.ranges) :
    P (rangesOf h l) := by
  by_cases hne : rangesOf h l = []
  · rw [hne]
    exact hnil
  · obtain ⟨al, hmem, _, heq⟩ := mem_of_rangesOf hne
    exact heq ▸ hl al hmem

theorem mem_rangesOf {r : Span τ} (hr : r ∈ rangesOf h l) :
    ∃ al ∈ l, al.holder = h ∧ r ∈ al.ranges := by
  obtain ⟨al, hmem, hal, heq⟩ := mem_of_rangesOf (List.ne_nil_of_mem hr)
  exact ⟨al, hmem, hal, heq ▸ hr⟩

/-! ## §2. A request. -/

variable [DecidableEq τ]

/-- The first range that stands in the way of a request. -/
def firstInWay (strong : τ) (l : List (Span τ)) (label : τ) (start stop : Nat) : Option (Span τ) :=
  l.find? fun r => (label == strong || r.label == strong) && (r.start < stop && start < r.stop)

/-- Does another holder stand in the way? -/
def offensive (strong : τ) (active : List (RecordLock η ι τ)) (h : η) (label : τ)
    (start stop : Nat) : Bool :=
  active.any fun al => al.holder != h && (firstInWay strong al.ranges label start stop).isSome

/-- A request is granted; a record that has no range left is dropped. -/
def applyLock (free : τ) (h : η) (label : τ) (start stop : Nat) (pid : ι) :
    List (RecordLock η ι τ) → List (RecordLock η ι τ)
  | [] => if label = free then [] else [⟨h, pid, assign free label start stop []⟩]
  | al :: l =>
    if al.holder = h then
      let ranges := assign free label start stop al.ranges
      if ranges.isEmpty then l else { al with ranges := ranges } :: l
    else al :: applyLock free h label start stop pid l

variable {free label : τ} {start stop : Nat} {pid : ι}

theorem applyLock_cons :
    applyLock free h label start stop pid (al :: l)
      = if al.holder = h then
          if (assign free label start stop al.ranges).isEmpty then l
          else { al with ranges := assign free label start stop al.ranges } :: l
        else al :: applyLock free h label start stop pid l := rfl

/-- A record after the call is an old one, or that of the holder of the request: the range was
applied to the ranges the holder had. -/
theorem mem_applyLock (hmem : al ∈ applyLock free h label start stop pid l) :
    al ∈ l ∨ (al.holder = h ∧ al.ranges ≠ []
      ∧ al.ranges = assign free label start stop (rangesOf h l)) := by
  induction l with
  | nil =>
    unfold applyLock at hmem
    split at hmem
    · cases hmem
    next hlabel =>
    rw [List.mem_singleton.mp hmem]
    refine .inr ⟨rfl, ?_, rfl⟩
    rw [assign_nil hlabel]
    exact List.cons_ne_nil _ _
  | cons x l ih =>
    rw [applyLock_cons] at hmem
    rw [rangesOf_cons]
    split at hmem
    next heq =>
      split at hmem
      · exact .inl (List.mem_cons_of_mem x hmem)
      next hne =>
      rcases List.mem_cons.mp hmem with rfl | hmem
      · exact .inr ⟨heq, fun hnil => hne (List.isEmpty_iff.mpr hnil), by rw [if_pos heq]⟩
      · exact .inl (List.mem_cons_of_mem x hmem)
    next hother =>
      rw [if_neg hother]
      rcases List.mem_cons.mp hmem with rfl | hmem
      · exact .inl List.mem_cons_self
      · exact (ih hmem).imp_left (List.mem_cons_of_mem x)

/-- The ranges of every holder after the call. -/
theorem rangesOf_applyLock (hnodup : (l.map RecordLock.holder).Nodup) (h' : η) :
    rangesOf h' (applyLock free h label start stop pid l)
      = if h' = h then assign free label start stop (rangesOf h l) else rangesOf h' l := by
  induction l with
  | nil =>
    unfold applyLock
    by_cases hlabel : label = free
    · rw [if_pos hlabel, hlabel]
      simp [rangesOf, assign, addSpan]
    rw [if_neg hlabel, rangesOf_cons]
    by_cases heq : h' = h
    · rw [if_pos heq.symm, if_pos heq]
      rfl
    · rw [if_neg fun hs => heq hs.symm, if_neg heq]
  | cons al l ih =>
    have hother : ∀ a ∈ l, a.holder ≠ al.holder := holder_ne_of_nodup hnodup
    rw [applyLock_cons, rangesOf_cons, rangesOf_cons]
    by_cases hal : al.holder = h
    · rw [if_pos hal, if_pos hal]
      by_cases heq : h' = h
      · rw [if_pos heq]
        split
        next hempty =>
          rw [List.isEmpty_iff.mp hempty]
          exact rangesOf_eq_nil fun a ha => (heq.trans hal.symm) ▸ hother a ha
        · exact if_pos (hal.trans heq.symm)
      · have hne : al.holder ≠ h' := fun hs => heq (hs.symm.trans hal)
        rw [if_neg heq, if_neg hne]
        split
        · rfl
        · exact if_neg hne
    · rw [if_neg hal, if_neg hal, rangesOf_cons, ih (List.nodup_cons.mp hnodup).2]
      by_cases heq : h' = h
      · rw [if_neg fun hs => hal (hs.trans heq), if_pos heq]
        exact (if_pos heq).symm
      · rw [if_neg heq, if_neg heq]

theorem nodup_applyLock (hnodup : (l.map RecordLock.holder).Nodup) :
    ((applyLock free h label start stop pid l).map RecordLock.holder).Nodup := by
  induction l with
  | nil =>
    unfold applyLock
    split
    · exact List.nodup_nil
    · exact List.nodup_singleton _
  | cons al l ih =>
    have htail := (List.nodup_cons.mp hnodup).2
    rw [applyLock_cons]
    split
    · split
      · exact htail
      · exact hnodup
    next hal =>
    rw [List.map_cons, List.nodup_cons]
    refine ⟨fun hmem => ?_, ih htail⟩
    obtain ⟨a, ha, heq⟩ := List.mem_map.mp hmem
    rcases mem_applyLock ha with ha | ⟨ha, _⟩
    · exact holder_ne_of_nodup hnodup a ha heq
    · exact hal (heq.symm.trans ha)

end Holders

/-! ## §3. A pass over a queue. -/

section Queue

variable {σ ω : Type} {blocked : ω → σ → Bool} {apply : ω → σ → σ}

/-- The pass over a queue: the state, the requests that still wait, and those that were granted, in
order. -/
def grantLoop (blocked : ω → σ → Bool) (apply : ω → σ → σ) (s : σ) : List ω → σ × List ω × List ω
  | [] => (s, [], [])
  | w :: ws =>
    if blocked w s then
      let r := grantLoop blocked apply s ws
      (r.1, w :: r.2.1, r.2.2)
    else
      let r := grantLoop blocked apply (apply w s) ws
      (r.1, r.2.1, w :: r.2.2)

/-- What every grant keeps, the pass keeps. -/
theorem grantLoop_kept {P : σ → Prop} {ws : List ω}
    (happly : ∀ w ∈ ws, ∀ s, P s → blocked w s = false → P (apply w s)) {s : σ} (h : P s) :
    P (grantLoop blocked apply s ws).1 := by
  induction ws generalizing s with
  | nil => exact h
  | cons w ws ih =>
    obtain ⟨hw, hws⟩ := List.forall_mem_cons.mp happly
    unfold grantLoop
    split
    · exact ih hws h
    next hfree => exact ih hws (hw s h (Bool.not_eq_true _ ▸ hfree))

/-- Nobody is put into the queue by the pass. -/
theorem grantLoop_sublist (ws : List ω) (s : σ) :
    (grantLoop blocked apply s ws).2.1.Sublist ws := by
  induction ws generalizing s with
  | nil => exact List.Sublist.refl []
  | cons w ws ih =>
    unfold grantLoop
    split
    · exact (ih s).cons_cons w
    · exact (ih (apply w s)).cons w

end Queue

end MfsMaster.Lib
