import Mathlib.Data.BitVec
import Mathlib.Logic.Function.Basic

/-!
# Packed bitmaps

A bitmap is a word array `Nat → BitVec w`; bit `i` is bit `i % w` of word
`i / w`. `set` and `clear` change one bit and `test` reads one. In a word of all
ones every bit is set (`test_of_word_full`).
-/

namespace Condor.Lib.Bitmap

variable {w : Nat}

/-- Bit `i` of the bitmap. -/
def test (m : Nat → BitVec w) (i : Nat) : Bool := (m (i / w)).getLsbD (i % w)

/-- Set bit `i`. -/
def set (m : Nat → BitVec w) (i : Nat) : Nat → BitVec w :=
  Function.update m (i / w) (m (i / w) ||| 1#w <<< (i % w))

/-- Clear bit `i`. -/
def clear (m : Nat → BitVec w) (i : Nat) : Nat → BitVec w :=
  Function.update m (i / w) (m (i / w) &&& ~~~(1#w <<< (i % w)))

theorem getLsbD_one_shiftLeft {k j : Nat} (hj : j < w) :
    (1#w <<< k).getLsbD j = decide (j = k) := by
  rw [BitVec.getLsbD_shiftLeft, BitVec.getLsbD_one, Bool.eq_iff_iff]
  simp only [Bool.and_eq_true, Bool.not_eq_true', decide_eq_true_eq, decide_eq_false_iff_not]
  omega

/-- Two bits of one word are the same bit exactly when their positions agree. -/
theorem pos_eq_iff {i j : Nat} (h : i / w = j / w) : i % w = j % w ↔ i = j := by
  constructor
  · intro hm
    rw [← Nat.div_add_mod i w, ← Nat.div_add_mod j w, h, hm]
  · rintro rfl; rfl

theorem test_set (hw : 0 < w) (m : Nat → BitVec w) (i j : Nat) :
    test (set m i) j = (test m j || decide (j = i)) := by
  by_cases h : j / w = i / w
  · simp only [test, set, h, Function.update_self, BitVec.getLsbD_or,
      getLsbD_one_shiftLeft (Nat.mod_lt j hw), pos_eq_iff h]
  · have hne : j ≠ i := fun e => h (by rw [e])
    simp [test, set, Function.update_of_ne h, hne]

theorem test_clear (hw : 0 < w) (m : Nat → BitVec w) (i j : Nat) :
    test (clear m i) j = (test m j && decide (j ≠ i)) := by
  by_cases h : j / w = i / w
  · have hj : j % w < w := Nat.mod_lt j hw
    simp only [test, clear, h, Function.update_self, BitVec.getLsbD_and, BitVec.getLsbD_not,
      getLsbD_one_shiftLeft hj, pos_eq_iff h, hj, decide_true, Bool.true_and, ne_eq, decide_not]
  · have hne : j ≠ i := fun e => h (by rw [e])
    simp [test, clear, Function.update_of_ne h, hne]

/-- The word of a bit, in words of 32 bits. -/
theorem shift5 (i : Nat) : i >>> 5 = i / 32 := Nat.shiftRight_eq_div_pow i 5

/-- The place of a bit in its word. -/
theorem mask5 (i : Nat) : i &&& 0x1F = i % 32 := Nat.and_two_pow_sub_one_eq_mod i 5

/-- A group and a place of `k` bits in it, put together. -/
theorem shiftLeft_or {g i k : Nat} (h : i < 2 ^ k) : (g <<< k) ||| i = 2 ^ k * g + i := by
  rw [← Nat.shiftLeft_add_eq_or_of_lt h, Nat.shiftLeft_eq, Nat.mul_comm]

/-- Every bit of a word of all ones is set. -/
theorem test_of_word_full {m : Nat → BitVec w} {i : Nat} (hw : 0 < w)
    (h : m (i / w) = BitVec.allOnes w) : test m i = true := by
  rw [test, h]
  simpa using Nat.mod_lt i hw

/-- A word is all ones exactly when its bits are set. -/
theorem word_full_iff {m : Nat → BitVec w} {k : Nat} (hw : 0 < w) :
    m k = BitVec.allOnes w ↔ ∀ i, i / w = k → test m i = true := by
  constructor
  · rintro h i rfl
    exact test_of_word_full hw h
  · intro h
    refine BitVec.eq_of_getLsbD_eq fun j hj => ?_
    have hword : (w * k + j) / w = k := by rw [Nat.mul_add_div hw, Nat.div_eq_of_lt hj, Nat.add_zero]
    have hbit := h _ hword
    rw [test, hword, Nat.mul_add_mod, Nat.mod_eq_of_lt hj] at hbit
    rw [hbit, BitVec.getLsbD_allOnes, decide_eq_true hj]

/-- The first `n` words agree exactly when their bits do. -/
theorem words_eq_iff {m m' : Nat → BitVec w} {n : Nat} :
    (∀ k < n, m k = m' k) ↔ ∀ i < w * n, test m i = test m' i := by
  constructor
  · intro h i hi
    rw [test, test, h (i / w) (Nat.div_lt_of_lt_mul hi)]
  · intro h k hk
    apply BitVec.eq_of_getLsbD_eq
    intro j hj
    have hlt : w * k + j < w * n := by
      calc w * k + j < w * k + w := by omega
        _ = w * (k + 1) := (Nat.mul_succ w k).symm
        _ ≤ w * n := Nat.mul_le_mul_left w hk
    have hbit := h (w * k + j) hlt
    rwa [test, test, Nat.mul_add_div (by omega), Nat.div_eq_of_lt hj, Nat.mul_add_mod,
      Nat.mod_eq_of_lt hj] at hbit

/-- `word & (1 << k)` is zero exactly when bit `k` is clear. -/
theorem and_mask_eq_zero_iff {x : BitVec w} {k : Nat} (hk : k < w) :
    x &&& 1#w <<< k = 0#w ↔ x.getLsbD k = false := by
  constructor
  · intro h
    have hb := congrArg (·.getLsbD k) h
    simpa only [BitVec.getLsbD_and, getLsbD_one_shiftLeft hk, decide_true, Bool.and_true,
      BitVec.getLsbD_zero] using hb
  · intro h
    apply BitVec.eq_of_getLsbD_eq
    intro j hj
    rw [BitVec.getLsbD_and, getLsbD_one_shiftLeft hj, BitVec.getLsbD_zero]
    by_cases hjk : j = k
    · rw [hjk, h, Bool.false_and]
    · simp [hjk]

end Condor.Lib.Bitmap
