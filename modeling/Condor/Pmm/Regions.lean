import Condor.Pmm.Summary

/-!
# What the entry points do to low memory

Each entry point's effect on the blocks below 4096, read off the loops of
`pmm.c`: the blocks a region touches (`Touches`), the blocks `pfree` clears, the
blocks an allocation marks.
-/

namespace Condor.Pmm

open Lib

/-- Block `b` is one the loops over a region visit. -/
def Touches (base size b : Nat) : Prop :=
  size ≠ 0 ∧ base / 4096 ≤ b ∧ b < region_end base size

instance (base size b : Nat) : Decidable (Touches base size b) := inferInstanceAs (Decidable (_ ∧ _))

theorem shift12 (n : Nat) : n >>> 12 = n / 4096 := Nat.shiftRight_eq_div_pow n 12

section
variable {σ : Type} {P : Paging σ} {s s' : State σ} {base size b : Nat}

/-- `pmm_clear_region` frees the blocks it visits and, if it visits any, reserves the first three. -/
theorem allocated_clear_region (h : pmm_clear_region P s base size = .ok s') (hb : b < 4096) :
    Allocated s'.low_bitmaps b ↔
      Allocated s.low_bitmaps b ∧ ¬ Touches base size b ∨ b < 3 ∧ ∃ c < 0xFFFFF, Touches base size c := by
  unfold pmm_clear_region at h
  by_cases h0 : size = 0
  · rw [if_pos h0] at h
    cases h
    simp [Touches, h0]
  rw [if_neg h0, forWhile_lt, shift12] at h
  by_cases hle : base / 4096 ≤ min (region_end base size) 0xFFFFF
  · have hloop := forUp_inv (I := fun i t => Allocated t.low_bitmaps b ↔
      Allocated s.low_bitmaps b ∧ ¬ (base / 4096 ≤ b ∧ b < i) ∨ b < 3 ∧ base / 4096 < i) hle
      (by simp) (fun i t t' h1 h2 ht hstep => ?_) h
    · rw [hloop]
      refine or_congr (and_congr_right fun _ => not_congr ?_) (and_congr_right fun _ => ?_)
      · simp only [Touches, h0, ne_eq, not_false_eq_true, true_and]
        omega
      · constructor
        · exact fun hlt => ⟨base / 4096, by omega, h0, Nat.le_refl _, by omega⟩
        · rintro ⟨c, hc, -, h1, h2⟩
          omega
    · rw [clear_block_bitmaps hstep, allocated_reserve_low, allocated_clear_bit hb, ht]
      by_cases hA : Allocated s.low_bitmaps b
      · simp only [hA, true_and]
        omega
      · simp only [hA, false_and, false_or]
        omega
  · rw [forUp_of_le (by omega)] at h
    cases h
    have hempty : ∀ c, c < 0xFFFFF → ¬ Touches base size c := fun c hc ht => by
      have := ht.2
      omega
    constructor
    · exact fun hA => .inl ⟨hA, hempty b (by omega)⟩
    · rintro (⟨hA, -⟩ | ⟨-, c, hc, ht⟩)
      · exact hA
      · exact absurd ht (hempty c hc)

/-- `pmm_set_region` allocates the blocks it visits. -/
theorem allocated_set_region (hb : b < 4096) :
    Allocated (pmm_set_region s base size).low_bitmaps b ↔
      Allocated s.low_bitmaps b ∨ Touches base size b := by
  unfold pmm_set_region
  by_cases h0 : size = 0
  · simp [h0, Touches]
  rw [if_neg h0]
  simp only [loopWhile_lt, shift12]
  by_cases hle : base / 4096 ≤ min (region_end base size) 0x01000
  · refine Iff.trans (loop_inv (I := fun i lb => Allocated lb b ↔
      Allocated s.low_bitmaps b ∨ (base / 4096 ≤ b ∧ b < i)) hle (by simp) fun i t h1 h2 ht => ?_) ?_
    · rw [allocated_set_bit hb, ht, or_assoc]
      refine or_congr_right ?_
      omega
    · refine or_congr_right ?_
      simp only [Touches, h0, ne_eq, not_false_eq_true, true_and]
      omega
  · rw [loop_of_le (by omega)]
    refine ⟨.inl, fun h => h.resolve_right fun ht => ?_⟩
    have := ht.2
    omega

/-- An allocation marks its first block, and the following ones if it is contiguous. -/
theorem allocated_mark_blocks {lb : LomemBitmaps} {flags : PallocFlags} {frame : Nat} (hb : b < 4096) :
    Allocated (mark_blocks lb flags frame) b ↔ Allocated lb b ∨ b = frame ∨
      flags.contiguous = true ∧ frame ≤ b ∧ b < frame + flags.page_alloc_num := by
  unfold mark_blocks
  by_cases hc : flags.contiguous = true
  · simp only [hc, if_true, true_and]
    by_cases hn : 1 ≤ flags.page_alloc_num
    · refine Iff.trans (loop_inv (I := fun i t => Allocated t b ↔ Allocated lb b ∨
        frame ≤ b ∧ b < frame + i) hn ?_ fun i t h1 h2 ht => ?_) ?_
      · rw [allocated_set_bit hb]
        exact or_congr_right (by omega)
      · rw [allocated_set_bit hb, ht, or_assoc]
        exact or_congr_right (by omega)
      · exact or_congr_right (by omega)
    · rw [loop_of_le (by omega), allocated_set_bit hb]
      exact or_congr_right (by omega)
  · simp [hc, allocated_set_bit hb]

/-- The blocks the last loop of `pfree` clears, in 32-bit arithmetic. -/
def Clears (base num b : Nat) : Prop := ∃ bit < num, b = (bit + base / 4096) % 2 ^ 32

theorem allocated_pfree_loop {lb : LomemBitmaps} {num : Nat} (hb : b < 4096) :
    Allocated (loop 0 num lb fun bit lb => paddm_clear_bit lb ((bit + base >>> 12) % 2 ^ 32)) b ↔
      Allocated lb b ∧ ¬ Clears base num b := by
  rw [shift12]
  refine loop_inv (I := fun i t => Allocated t b ↔ Allocated lb b ∧ ¬ Clears base i b) (Nat.zero_le _)
    (by simp [Clears]) fun i t _ hi ht => ?_
  rw [allocated_clear_bit hb, ht, and_assoc]
  refine and_congr_right fun _ => ?_
  simp only [Clears, Nat.lt_succ_iff_lt_or_eq, or_and_right, exists_or, exists_eq_left, not_or]

end

end Condor.Pmm
