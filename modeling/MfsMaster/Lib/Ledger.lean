/-
  MfsMaster.Lib.Ledger
  **TWO BOOKS OF ONE RELATION** (general, no file system here).

  Holders `i` hold references to keys `a`, `held i a` of them.  Elsewhere a total per
  key is kept.  The books are BALANCED when every total is the sum over the holders.
  Whoever changes one holder and the totals has one equation to prove:

      Balanced.change   — `total' a + held i a = total a + held' i a`
      Balanced.le       — what a holder holds is counted in the total
-/
import Mathlib.Algebra.BigOperators.Finprod
import Mathlib.Algebra.Order.BigOperators.Group.Finset

namespace MfsMaster.Lib

variable {ι α : Type*}

/-- Finitely many holders hold anything, and the totals are the sums over all holders. -/
structure Balanced (held : ι → α → ℕ) (total : α → ℕ) : Prop where
  finite : {i | ∃ a, held i a ≠ 0}.Finite
  sum : ∀ a, total a = ∑ᶠ i, held i a

namespace Balanced

variable {held held' : ι → α → ℕ} {total total' : α → ℕ}

/-- The sum over any finite set that contains all holders. -/
theorem sum_finset (h : Balanced held total) (S : Finset ι)
    (hS : ∀ i a, held i a ≠ 0 → i ∈ S) (a : α) : total a = ∑ i ∈ S, held i a := by
  rw [h.sum a]
  refine finsum_eq_sum_of_support_subset _ ?_
  intro i hi
  exact hS i a hi

theorem of_finset (S : Finset ι) (hS : ∀ i a, held i a ≠ 0 → i ∈ S)
    (hsum : ∀ a, total a = ∑ i ∈ S, held i a) : Balanced held total where
  finite := by
    refine S.finite_toSet.subset ?_
    rintro i ⟨a, ha⟩
    exact hS i a ha
  sum := by
    intro a
    rw [hsum a]
    symm
    refine finsum_eq_sum_of_support_subset _ ?_
    intro i hi
    exact hS i a hi

/-- Nobody holds anything. -/
theorem empty : Balanced (fun (_ : ι) (_ : α) => 0) fun _ => 0 :=
  of_finset ∅ (fun _ _ h => absurd rfl h) fun _ => rfl

/-- What a holder holds is counted in the total. -/
theorem le (h : Balanced held total) (i : ι) (a : α) : held i a ≤ total a := by
  classical
  rw [h.sum_finset (insert i h.finite.toFinset) (fun j b hj => by
    simp only [Finset.mem_insert, Set.Finite.mem_toFinset, Set.mem_ofPred_eq]
    exact .inr ⟨b, hj⟩)]
  exact Finset.single_le_sum (f := fun j => held j a) (fun _ _ => Nat.zero_le _)
    (Finset.mem_insert_self i _)

/-- **One holder changes.**  The books stay balanced when the totals change by as much as the
holder does. -/
theorem change (h : Balanced held total) {i : ι} (hoff : ∀ j, j ≠ i → held' j = held j)
    (hi : ∀ a, total' a + held i a = total a + held' i a) : Balanced held' total' := by
  classical
  let S := insert i h.finite.toFinset
  have hS : ∀ j a, held j a ≠ 0 → j ∈ S := by
    intro j a hj
    simp only [S, Finset.mem_insert, Set.Finite.mem_toFinset, Set.mem_ofPred_eq]
    exact .inr ⟨a, hj⟩
  have hS' : ∀ j a, held' j a ≠ 0 → j ∈ S := by
    intro j a hj
    by_cases hji : j = i
    · rw [hji]
      exact Finset.mem_insert_self i _
    · rw [hoff j hji] at hj
      exact hS j a hj
  refine of_finset S hS' fun a => ?_
  -- the other holders contribute the same to both sums
  have hrest : ∑ j ∈ S.erase i, held' j a = ∑ j ∈ S.erase i, held j a :=
    Finset.sum_congr rfl fun j hj => by rw [hoff j (Finset.ne_of_mem_erase hj)]
  have hold := h.sum_finset S hS a
  have hmem : i ∈ S := Finset.mem_insert_self i _
  rw [← Finset.add_sum_erase S _ hmem] at hold
  rw [← Finset.add_sum_erase S _ hmem, hrest]
  have := hi a
  omega

end Balanced

end MfsMaster.Lib
