/-
  MfsMaster.Lib.Bits
  **WORDS OF 16 BITS, BIT BY BIT**, and the triplets of bits that words of permissions are made
  of.

      eq_of_bits   — two words are equal when their bits are
      low_eq_iff   — when replacing the low triplet of a word changes nothing
-/
import Mathlib.Tactic.IntervalCases

namespace MfsMaster.Lib

theorem eq_of_bits {x y : UInt16}
    (h : ∀ i < 16, x.toBitVec.getLsbD i = y.toBitVec.getLsbD i) : x = y := by
  rw [← UInt16.toBitVec_inj]
  exact BitVec.eq_of_getLsbD_eq h

/-- Replacing the low triplet by the one that is there changes nothing. -/
theorem low_eq_iff (x y : UInt16) : (x &&& 0xFFF8) ||| (y &&& 7) = x ↔ x &&& 7 = y &&& 7 := by
  constructor
  · intro h
    rw [← h]
    refine eq_of_bits fun i hi => ?_
    interval_cases i <;> simp
  · intro h
    rw [← h]
    refine eq_of_bits fun i hi => ?_
    interval_cases i <;> simp

end MfsMaster.Lib
