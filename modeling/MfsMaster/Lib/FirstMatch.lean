/-
  MfsMaster.Lib.FirstMatch
  **THE FIRST MATCH IN A SORTED LIST** (general, no file system here).

  A list is sorted by a comparison that may call different elements equal, by a routine
  that leaves the order among equal elements open.  The first element that matches is then
  some BEST match: one that no match stands strictly before.

      best_of_find?        — what the search finds is a best match
      exists_sorted_find?  — every best match is what the search finds in some sorted list
-/
import Mathlib.Data.List.Perm.Basic
import Mathlib.Data.List.Sort

namespace MfsMaster.Lib

variable {α : Type*} (le : α → α → Bool) (hit : α → Bool)

/-- A match that no match stands strictly before. -/
structure Best (l : List α) (a : α) : Prop where
  mem : a ∈ l
  matched : hit a = true
  least : ∀ b ∈ l, hit b = true → le a b = true

/-- The list is in the order of the comparison. -/
def Ordered (l : List α) : Prop := l.Pairwise fun a b => le a b = true

variable {le hit} {l l' : List α} {a : α}

theorem Best.of_mem_iff (h : Best le hit l a) (hsame : ∀ b, b ∈ l ↔ b ∈ l') : Best le hit l' a :=
  ⟨(hsame a).mp h.mem, h.matched, fun b hb => h.least b ((hsame b).mpr hb)⟩

section
variable (hrefl : ∀ a, le a a = true)
include hrefl

theorem best_of_find? (hord : Ordered le l) (h : l.find? hit = some a) : Best le hit l a := by
  obtain ⟨hhit, pre, post, rfl, hpre⟩ := List.find?_eq_some_iff_append.mp h
  refine ⟨List.mem_append_right _ List.mem_cons_self, hhit, fun b hb hbhit => ?_⟩
  rcases List.mem_append.mp hb with hb | hb
  · -- nothing in front of the first match matches
    have hno := hpre b hb
    rw [hbhit] at hno
    cases hno
  · rcases List.mem_cons.mp hb with rfl | hb
    · exact hrefl b
    · exact (List.pairwise_cons.mp (List.pairwise_append.mp hord).2.1).1 b hb

end

section
variable (htrans : ∀ a b c, le a b = true → le b c = true → le a c = true)
  (htotal : ∀ a b, (le a b || le b a) = true)
include htrans htotal

theorem ordered_mergeSort (l : List α) : Ordered le (l.mergeSort le) :=
  List.pairwise_mergeSort htrans htotal l

/-- **Every best match is found in some sorted list.** -/
theorem exists_sorted_find? [DecidableEq α] (h : Best le hit l a) :
    ∃ l', l'.Perm l ∧ Ordered le l' ∧ l'.find? hit = some a := by
  -- strictly before `a`, then `a`, then the others
  let front := l.filter fun b => !le a b
  let back := (l.filter fun b => le a b).erase a
  have hback : a ∈ l.filter fun b => le a b := by
    refine List.mem_filter.mpr ⟨h.mem, ?_⟩
    have := htotal a a
    rwa [Bool.or_self] at this
  have hfront : ∀ b ∈ front.mergeSort le, b ∈ l ∧ le a b = false := by
    intro b hb
    obtain ⟨hmem, hle⟩ := List.mem_filter.mp ((List.mergeSort_perm front le).mem_iff.mp hb)
    rw [Bool.not_eq_true'] at hle
    exact ⟨hmem, hle⟩
  have hbehind : ∀ b ∈ back.mergeSort le, le a b = true := fun b hb =>
    (List.mem_filter.mp (List.mem_of_mem_erase ((List.mergeSort_perm back le).mem_iff.mp hb))).2
  have hless : ∀ b ∈ front.mergeSort le, le b a = true := by
    intro b hb
    have := htotal a b
    rwa [(hfront b hb).2, Bool.false_or] at this
  refine ⟨front.mergeSort le ++ a :: back.mergeSort le, ?_, ?_, ?_⟩
  · have hsplit : (front ++ l.filter fun b => le a b).Perm l := by
      refine List.perm_append_comm.trans ?_
      exact List.filter_append_perm (fun b => le a b) l
    refine ((List.mergeSort_perm front le).append ?_).trans hsplit
    exact ((List.mergeSort_perm back le).cons a).trans (List.perm_cons_erase hback).symm
  · refine List.pairwise_append.mpr ⟨ordered_mergeSort htrans htotal front,
      List.pairwise_cons.mpr ⟨hbehind, ordered_mergeSort htrans htotal back⟩, fun b hb c hc => ?_⟩
    rcases List.mem_cons.mp hc with rfl | hc
    · exact hless b hb
    · exact htrans b a c (hless b hb) (hbehind c hc)
  · refine List.find?_eq_some_iff_append.mpr ⟨h.matched, _, _, rfl, fun b hb => ?_⟩
    obtain ⟨hmem, hle⟩ := hfront b hb
    rw [Bool.not_eq_true']
    by_contra hhit
    rw [h.least b hmem (eq_true_of_ne_false hhit)] at hle
    cases hle

end

end MfsMaster.Lib
