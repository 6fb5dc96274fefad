/-
  MfsMaster.Lib.Spans
  **LISTS OF LABELLED SPANS** (general, no locks here).

  A span `<start,stop)` carries a label; what is in no span has the label `free`.  `assign`
  gives a label to a span: it goes through the list once and cuts, takes over or drops the spans
  in its way.  A list is CANONICAL when its spans are in order, none is empty or free, and two
  that touch differ in their labels: such a list is the only one with its meaning.

      labelAt_assign       — the positions of the span get the label, the others keep theirs
      OrderedFrom.assign   — the order is kept, and any relation of touching labels that
                             holds of different ones
      CanonicalFrom.assign — a span that is not empty keeps a list canonical
      assign_forall        — ends and labels are old ones or those of the new span
      covers_assign        — whatever the order, nothing new is covered but the new span
-/
import Mathlib.Data.List.Basic

namespace MfsMaster.Lib

/-- The positions `<start,stop)` and their label. -/
structure Span (τ : Type*) where
  start : Nat
  stop : Nat
  label : τ
  deriving Repr, DecidableEq

/-! ## §1. Ordered and canonical lists, and what a list means. -/

section Canonical

variable {τ : Type*} (touch : Option τ → τ → Prop) (free : τ)

/-- Spans from `lo` on, in order and none of them empty, where `before` is the label of what ends
at `lo` and `touch` holds of the labels of any two that touch. -/
def OrderedFrom (lo : Nat) (before : Option τ) : List (Span τ) → Prop
  | [] => True
  | r :: l => lo ≤ r.start ∧ (r.start = lo → touch before r.label) ∧ r.start < r.stop
      ∧ OrderedFrom r.stop (some r.label) l

/-- Spans from `lo` on, in order, where `before` is the label of what ends at `lo`. -/
def CanonicalFrom (lo : Nat) (before : Option τ) : List (Span τ) → Prop
  | [] => True
  | r :: l => lo ≤ r.start ∧ (r.start = lo → before ≠ some r.label) ∧ r.start < r.stop
      ∧ r.label ≠ free ∧ CanonicalFrom r.stop (some r.label) l

/-- The label of a position. -/
def labelAt (b : Nat) : List (Span τ) → τ
  | [] => free
  | r :: l => if r.start ≤ b ∧ b < r.stop then r.label else labelAt b l

variable {touch free} {lo lo' : Nat} {before before' : Option τ} {l : List (Span τ)}

/-- What starts behind an end may follow it. -/
theorem OrderedFrom.of_lt (h : OrderedFrom touch lo before l) (hlt : lo' < lo) :
    OrderedFrom touch lo' before' l := by
  cases l with
  | nil => trivial
  | cons r l => exact ⟨by have := h.1; omega, fun heq => by have := h.1; omega, h.2.2⟩

/-- What may follow a span may follow it when it is cut off. -/
theorem OrderedFrom.of_le (h : OrderedFrom touch lo before l) (hle : lo' ≤ lo) :
    OrderedFrom touch lo' before l := by
  rcases Nat.lt_or_eq_of_le hle with hlt | rfl
  · exact h.of_lt hlt
  · exact h

/-- The list as a whole: any two of its spans are apart, or touch as they may. -/
theorem orderedFrom_iff : OrderedFrom touch lo before l
    ↔ (∀ r ∈ l, lo ≤ r.start ∧ (r.start = lo → touch before r.label) ∧ r.start < r.stop)
      ∧ l.Pairwise fun a b =>
        a.stop ≤ b.start ∧ (b.start = a.stop → touch (some a.label) b.label) := by
  induction l generalizing lo before with
  | nil => simp [OrderedFrom]
  | cons r l ih =>
    rw [OrderedFrom, ih, List.forall_mem_cons, List.pairwise_cons]
    constructor
    · rintro ⟨hlo, hnew, hr, hl, hpair⟩
      refine ⟨⟨⟨hlo, hnew, hr⟩, fun x hx => ?_⟩, fun x hx => ⟨(hl x hx).1, (hl x hx).2.1⟩, hpair⟩
      have hx := hl x hx
      exact ⟨by omega, fun heq => by omega, hx.2.2⟩
    · rintro ⟨⟨⟨hlo, hnew, hr⟩, hl⟩, hfirst, hpair⟩
      exact ⟨hlo, hnew, hr, fun x hx => ⟨(hfirst x hx).1, (hfirst x hx).2, (hl x hx).2.2⟩, hpair⟩

theorem canonicalFrom_iff : CanonicalFrom free lo before l
    ↔ OrderedFrom (fun a b => a ≠ some b) lo before l ∧ ∀ r ∈ l, r.label ≠ free := by
  induction l generalizing lo before with
  | nil => simp [OrderedFrom, CanonicalFrom]
  | cons r l ih =>
    rw [OrderedFrom, CanonicalFrom, ih, List.forall_mem_cons]
    constructor
    · rintro ⟨hlo, hnew, hr, hfree, hl, hrest⟩
      exact ⟨⟨hlo, hnew, hr, hl⟩, hfree, hrest⟩
    · rintro ⟨⟨hlo, hnew, hr, hl⟩, hfree, hrest⟩
      exact ⟨hlo, hnew, hr, hfree, hl, hrest⟩

theorem labelAt_cons {b : Nat} {r : Span τ} : labelAt free b (r :: l)
    = if r.start ≤ b ∧ b < r.stop then r.label else labelAt free b l := rfl

/-- Nothing lies before the list. -/
theorem labelAt_below {b : Nat} (hl : OrderedFrom touch lo before l) (hb : b < lo) :
    labelAt free b l = free := by
  induction l generalizing lo before with
  | nil => rfl
  | cons r l ih =>
    obtain ⟨hlo, _, hr, hl⟩ := hl
    rw [labelAt_cons, if_neg (by omega)]
    exact ih hl (by omega)

/-- A span that covers a position is what the list says of it. -/
theorem labelAt_eq_iff {b : Nat} {label : τ} (hl : OrderedFrom touch lo before l)
    (hlabel : label ≠ free) :
    labelAt free b l = label ↔ ∃ r ∈ l, r.start ≤ b ∧ b < r.stop ∧ r.label = label := by
  induction l generalizing lo before with
  | nil =>
    refine ⟨fun h => absurd h.symm hlabel, ?_⟩
    rintro ⟨r, hmem, _⟩
    cases hmem
  | cons r l ih =>
    obtain ⟨_, _, hr, hl⟩ := hl
    rw [labelAt_cons]
    split
    next hin =>
      refine ⟨fun h => ⟨r, List.mem_cons_self, hin.1, hin.2, h⟩, ?_⟩
      rintro ⟨r', hmem, h1, h2, heq⟩
      rcases List.mem_cons.mp hmem with rfl | hmem
      · exact heq
      -- a span behind cannot cover the position as well
      have hsome := (ih hl).mpr ⟨r', hmem, h1, h2, heq⟩
      rw [labelAt_below hl hin.2] at hsome
      exact absurd hsome.symm hlabel
    next hout =>
      rw [ih hl]
      constructor
      · rintro ⟨r', hmem, h⟩
        exact ⟨r', List.mem_cons_of_mem r hmem, h⟩
      rintro ⟨r', hmem, h1, h2, heq⟩
      rcases List.mem_cons.mp hmem with rfl | hmem
      · exact absurd ⟨h1, h2⟩ hout
      · exact ⟨r', hmem, h1, h2, heq⟩

end Canonical

/-! ## §2. Assignment. -/

section Assign

variable {τ : Type*} [DecidableEq τ] (free : τ)

/-- A new span in front of the rest of the list, unless it is free. -/
def addSpan (label : τ) (start stop : Nat) (l : List (Span τ)) : List (Span τ) :=
  if label ≠ free then ⟨start, stop, label⟩ :: l else l

/-- **Give a label to a span.** -/
def assign (label : τ) (start stop : Nat) : List (Span τ) → List (Span τ)
  | [] => addSpan free label start stop []
  | r :: l =>
    -- the old span lies before
    if r.stop < start then r :: assign label start stop l
    -- it lies behind
    else if stop < r.start then addSpan free label start stop (r :: l)
    -- it is replaced
    else if start ≤ r.start ∧ r.stop ≤ stop then assign label start stop l
    -- its end is taken over or cut off
    else if r.start < start ∧ r.stop ≤ stop then
      if r.label = label then assign label r.start stop l
      else { r with stop := start } :: assign label start stop l
    -- its beginning is taken over or cut off
    else if start ≤ r.start ∧ stop < r.stop then
      if r.label = label then { r with start := start } :: l
      else addSpan free label start stop ({ r with start := stop } :: l)
    -- it is split
    else if r.label ≠ label then
      { r with stop := start } :: addSpan free label start stop ({ r with start := stop } :: l)
    else r :: l

variable {free} {touch : Option τ → τ → Prop} {lo b start stop : Nat} {before : Option τ}
  {label : τ} {l : List (Span τ)}

theorem OrderedFrom.addSpan (hlo : lo ≤ start) (hlt : start < stop)
    (hnew : start = lo → touch before label)
    (hfree : label = free → OrderedFrom touch lo before l)
    (hl : label ≠ free → OrderedFrom touch stop (some label) l) :
    OrderedFrom touch lo before (addSpan free label start stop l) := by
  unfold Lib.addSpan
  split
  · next hlabel => exact ⟨hlo, hnew, hlt, hl hlabel⟩
  · next hlabel => exact hfree (not_not.mp hlabel)

/-- **A list stays ordered.**  Induction on the list; the start moves down when a span of the
same label is taken over, never below `lo`, and what ends at it may touch the label. -/
theorem OrderedFrom.assign (htouch : ∀ a b : τ, a ≠ b → touch (some a) b) :
    ∀ {lo start : Nat} {before : Option τ}, lo ≤ start → start < stop →
      (start = lo → touch before label) → OrderedFrom touch lo before l →
      OrderedFrom touch lo before (assign free label start stop l) := by
  induction l with
  | nil =>
    intro lo start before hlo hlt hnew _
    exact .addSpan hlo hlt hnew (fun _ => trivial) fun _ => trivial
  | cons r l ih =>
    intro lo start before hlo hlt hnew hl
    obtain ⟨hrlo, hrnew, hr, hrest⟩ := id hl
    unfold Lib.assign
    split
    · next hbefore => exact ⟨hrlo, hrnew, hr, ih (by omega) hlt (fun heq => by omega) hrest⟩
    split
    · next hbehind =>
      exact .addSpan hlo hlt hnew (fun _ => hl)
        fun _ => ⟨by omega, fun heq => by omega, hr, hrest⟩
    split
    · exact ih hlo hlt hnew (hrest.of_lt (by omega))
    split
    · next hend =>
      split
      · next hsame =>
        exact ih hrlo (by omega) (fun heq => hsame ▸ hrnew heq) (hrest.of_lt (by omega))
      next hdiff =>
      -- the old label ends where the new one begins
      have hcut : OrderedFrom touch start (some r.label) l := hrest.of_le (by omega)
      exact ⟨hrlo, hrnew, hend.1, ih (Nat.le_refl start) hlt (fun _ => htouch _ _ hdiff) hcut⟩
    split
    · next hbegin =>
      split
      · next hsame =>
        exact ⟨hlo, fun heq => hsame ▸ hnew heq, by show start < r.stop; omega, hrest⟩
      next hdiff =>
      refine .addSpan hlo hlt hnew (fun _ => ?_) fun _ => ?_
      · exact ⟨by show lo ≤ stop; omega, fun heq => by change stop = lo at heq; omega,
          hbegin.2, hrest⟩
      · exact ⟨Nat.le_refl stop, fun _ => htouch _ _ (Ne.symm hdiff), hbegin.2, hrest⟩
    split
    · next hdiff =>
      refine ⟨hrlo, hrnew, by show r.start < start; omega, ?_⟩
      have hstop : stop < r.stop := by omega
      refine .addSpan (Nat.le_refl start) hlt (fun _ => htouch _ _ hdiff) (fun _ => ?_) fun _ => ?_
      · exact ⟨by show start ≤ stop; omega, fun heq => by change stop = start at heq; omega,
          hstop, hrest⟩
      · exact ⟨Nat.le_refl stop, fun _ => htouch _ _ (Ne.symm hdiff), hstop, hrest⟩
    · exact hl

/-- The list of an empty place. -/
theorem assign_nil {label : τ} (hlabel : label ≠ free) (start stop : Nat) :
    assign free label start stop [] = [⟨start, stop, label⟩] := by
  unfold assign addSpan
  rw [if_pos hlabel]

/-- The ends and labels in the result are old ones or those of the new span. -/
theorem assign_forall {p : Nat → Prop} {q : τ → Prop} (hstop : p stop)
    (hlabel : label ≠ free → q label) :
    ∀ {start : Nat}, p start → (∀ r ∈ l, p r.start ∧ p r.stop ∧ q r.label) →
      ∀ r ∈ assign free label start stop l, p r.start ∧ p r.stop ∧ q r.label := by
  have hadd : ∀ {start : Nat} {l : List (Span τ)}, p start →
      (∀ r ∈ l, p r.start ∧ p r.stop ∧ q r.label) →
      ∀ r ∈ addSpan free label start stop l, p r.start ∧ p r.stop ∧ q r.label := by
    intro start l hstart hl
    unfold addSpan
    split
    · next hne => exact List.forall_mem_cons.mpr ⟨⟨hstart, hstop, hlabel hne⟩, hl⟩
    · exact hl
  induction l with
  | nil =>
    intro start hstart hl
    exact hadd hstart hl
  | cons r l ih =>
    intro start hstart hl
    obtain ⟨hr, hrest⟩ := List.forall_mem_cons.mp hl
    -- what is left of `r` in front of the new span, and behind it
    have hfront : p r.start ∧ p start ∧ q r.label := ⟨hr.1, hstart, hr.2.2⟩
    have hback : p stop ∧ p r.stop ∧ q r.label := ⟨hstop, hr.2⟩
    unfold assign
    split
    · exact List.forall_mem_cons.mpr ⟨hr, ih hstart hrest⟩
    split
    · exact hadd hstart hl
    split
    · exact ih hstart hrest
    split
    · split
      · exact ih hr.1 hrest
      · exact List.forall_mem_cons.mpr ⟨hfront, ih hstart hrest⟩
    split
    · split
      · exact List.forall_mem_cons.mpr ⟨⟨hstart, hr.2⟩, hrest⟩
      · exact hadd hstart (List.forall_mem_cons.mpr ⟨hback, hrest⟩)
    split
    · exact List.forall_mem_cons.mpr
        ⟨hfront, hadd hstart (List.forall_mem_cons.mpr ⟨hback, hrest⟩)⟩
    · exact hl

/-- No span is ever free. -/
theorem assign_labels (hl : ∀ r ∈ l, r.label ≠ free) :
    ∀ r ∈ assign free label start stop l, r.label ≠ free := fun r hr =>
  (assign_forall (p := fun _ => True) (q := (· ≠ free)) trivial id trivial
    (fun x hx => ⟨trivial, trivial, hl x hx⟩) r hr).2.2

/-- **A list stays canonical.** -/
theorem CanonicalFrom.assign (hlo : lo ≤ start) (hlt : start < stop)
    (hnew : start = lo → before ≠ some label) (h : CanonicalFrom free lo before l) :
    CanonicalFrom free lo before (assign free label start stop l) := by
  obtain ⟨hord, hfree⟩ := canonicalFrom_iff.mp h
  exact canonicalFrom_iff.mpr ⟨hord.assign (fun a b hne heq => hne (Option.some.inj heq))
    hlo hlt hnew, assign_labels hfree⟩

/-! ## §3. What an assignment means. -/

theorem labelAt_addSpan (hl : start ≤ b → b < stop → labelAt free b l = free) :
    labelAt free b (addSpan free label start stop l)
      = if start ≤ b ∧ b < stop then label else labelAt free b l := by
  unfold addSpan
  split
  · rfl
  next hlabel =>
  split
  · next hin => rw [hl hin.1 hin.2, not_not.mp hlabel]
  · rfl

/-- **One update of the meaning.**  In each case of the surgery the position lies in the new span,
in what is left of the old one, or behind both. -/
theorem labelAt_assign : ∀ {lo start : Nat} {before : Option τ}, lo ≤ start → start < stop →
      OrderedFrom touch lo before l → labelAt free b (assign free label start stop l)
        = if start ≤ b ∧ b < stop then label else labelAt free b l := by
  induction l with
  | nil =>
    intro lo start before _ _ _
    exact labelAt_addSpan fun _ _ => rfl
  | cons r l ih =>
    rintro lo start before hlo hlt ⟨hrlo, _, hr, hl⟩
    have hnone : b < r.stop → labelAt free b l = free := labelAt_below hl
    -- what is left of `r` behind the new span hides nothing in it
    have hback : start ≤ b → b < stop → stop ≤ r.stop →
        labelAt free b ({ r with start := stop } :: l) = free := by
      intro _ hb hle
      rw [labelAt_cons, if_neg fun h => absurd h.1 (Nat.not_le.mpr hb)]
      exact hnone (by omega)
    unfold assign
    split
    · rw [labelAt_cons, ih (by omega) hlt hl, labelAt_cons]
      split_ifs <;> first | rfl | omega
    split
    · refine labelAt_addSpan fun hge hb => ?_
      rw [labelAt_cons, if_neg (by omega)]
      exact hnone (by omega)
    split
    · rw [ih hlo hlt (hl.of_le (by omega)), labelAt_cons]
      split_ifs <;> first | rfl | omega
    split
    · split
      · next hsame =>
        rw [ih hrlo (by omega) (hl.of_le (by omega)), labelAt_cons, hsame]
        split_ifs <;> first | rfl | omega
      have hrest : OrderedFrom touch start (some r.label) l := hl.of_le (by omega)
      rw [labelAt_cons, ih (Nat.le_refl start) hlt hrest, labelAt_cons]
      dsimp only
      split_ifs <;> first | rfl | omega
    split
    · split
      · next hsame =>
        rw [labelAt_cons, labelAt_cons, hsame]
        dsimp only
        split_ifs <;> first | rfl | omega
      · rw [labelAt_addSpan fun hge hb => hback hge hb (by omega), labelAt_cons, labelAt_cons]
        dsimp only
        split_ifs <;> first | rfl | omega
    split
    · rw [labelAt_cons, labelAt_addSpan fun hge hb => hback hge hb (by omega), labelAt_cons,
        labelAt_cons]
      dsimp only
      split_ifs <;> first | rfl | omega
    · next hsame =>
      rw [labelAt_cons, not_not.mp hsame]
      split_ifs <;> first | rfl | omega

/-! ## §4. What a list covers, in any order.

A new span may also be empty or turned round; then the list is no longer in order, but it still
covers nothing new. -/

variable {r : Span τ} {t : τ}

/-- A span of the list covers the position with the label. -/
def Covers (l : List (Span τ)) (b : Nat) (label : τ) : Prop :=
  ∃ r ∈ l, (r.start ≤ b ∧ b < r.stop) ∧ r.label = label

omit [DecidableEq τ] in
theorem covers_cons :
    Covers (r :: l) b label ↔ ((r.start ≤ b ∧ b < r.stop) ∧ r.label = label) ∨ Covers l b label :=
  by simp only [Covers, List.mem_cons, exists_eq_or_imp]

omit [DecidableEq τ] in
/-- A part of a span covers nothing that the span does not. -/
theorem covers_part {r' : Span τ} (h : Covers (r' :: l) b t) (hstart : r.start ≤ r'.start)
    (hstop : r'.stop ≤ r.stop) (htype : r'.label = r.label) :
    ((r.start ≤ b ∧ b < r.stop) ∧ r.label = t) ∨ Covers l b t := by
  rcases covers_cons.mp h with ⟨hin, ht⟩ | h
  · exact .inl ⟨by omega, htype.symm.trans ht⟩
  · exact .inr h

theorem covers_addSpan (h : Covers (addSpan free label start stop l) b t) :
    Covers l b t ∨ ((start ≤ b ∧ b < stop) ∧ t = label) := by
  unfold addSpan at h
  split at h
  · rcases covers_cons.mp h with hnew | hold
    · exact .inr ⟨hnew.1, hnew.2.symm⟩
    · exact .inl hold
  · exact .inl h

/-- **Nothing new but the span itself.** -/
theorem covers_assign :
    ∀ {start : Nat}, Covers (assign free label start stop l) b t →
      Covers l b t ∨ ((start ≤ b ∧ b < stop) ∧ t = label) := by
  induction l with
  | nil =>
    intro start h
    exact covers_addSpan h
  | cons r l ih =>
    intro start h
    rw [covers_cons]
    unfold assign at h
    split at h
    · rcases covers_cons.mp h with hr | h
      · exact .inl (.inl hr)
      · exact (ih h).imp .inr id
    next hbefore =>
    split at h
    · exact (covers_addSpan h).imp covers_cons.mp id
    next hbehind =>
    split at h
    · exact (ih h).imp .inr id
    next =>
    split at h
    next hend =>
      split at h
      next heq =>
        rcases ih h with hold | ⟨hin, ht⟩
        · exact .inl (.inr hold)
        -- the merged span: a position before the new one lies in the old one
        by_cases hb : start ≤ b
        · exact .inr ⟨⟨hb, hin.2⟩, ht⟩
        · exact .inl (.inl ⟨⟨hin.1, by omega⟩, heq.trans ht.symm⟩)
      · rcases covers_part h (Nat.le_refl r.start) (Nat.le_of_not_lt hbefore) rfl with hr | h
        · exact .inl (.inl hr)
        · exact (ih h).imp .inr id
    next =>
    split at h
    next hbegin =>
      split at h
      next heq =>
        rcases covers_cons.mp h with hr | h
        · have hge : start ≤ b := hr.1.1
          have hlt : b < r.stop := hr.1.2
          by_cases hb : r.start ≤ b
          · exact .inl (.inl ⟨⟨hb, hlt⟩, hr.2⟩)
          · exact .inr ⟨⟨hge, by omega⟩, hr.2.symm.trans heq⟩
        · exact .inl (.inr h)
      · rcases covers_addSpan h with h | h
        · exact .inl (covers_part h (Nat.le_of_not_lt hbehind) (Nat.le_refl r.stop) rfl)
        · exact .inr h
    next =>
    split at h
    · rcases covers_part h (Nat.le_refl r.start) (Nat.le_of_not_lt hbefore) rfl with hr | h
      · exact .inl (.inl hr)
      rcases covers_addSpan h with h | h
      · exact .inl (covers_part h (Nat.le_of_not_lt hbehind) (Nat.le_refl r.stop) rfl)
      · exact .inr h
    · exact .inl (covers_cons.mp h)

end Assign

end MfsMaster.Lib
