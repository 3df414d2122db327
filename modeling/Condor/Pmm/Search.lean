import Condor.Pmm.Bitmap

/-!
# The first-fit search as a scan

`trace lb flags` lists the blocks `paddm_get_first_clear_bits` looks at, in its
order: a full summary word, a set summary bit and a full block word are skipped,
`align_64kb` resets the counter after every superblock, and `low_mem` gives up
after superblock 16 unless the first summary word is full. The search is
`Lib.Scan.scan` over that trace (`search_eq`), so it answers the start of the
first run of free blocks *of the trace*; skipped blocks leave no gap in it.
-/

namespace Condor.Pmm

open Lib

/-- The innermost loop runs for superblock `g`. -/
def Looked (lb : LomemBitmaps) (g : Nat) : Prop :=
  ¬ SuperSet lb g ∧ block_bitmap lb (g / 2) ≠ 0xFFFFFFFF#32

instance (lb : LomemBitmaps) (g : Nat) : Decidable (SuperSet lb g) :=
  inferInstanceAs (Decidable (_ = true))

instance (lb : LomemBitmaps) (g : Nat) : Decidable (Looked lb g) :=
  inferInstanceAs (Decidable (_ ∧ _))

/-- The blocks of superblock `g`. -/
def blocksOf (g : Nat) : List (Option Nat) := (List.range' 0 16).map fun j => some (16 * g + j)

/-- What one iteration of the superblock loop visits. -/
def superTrace (lb : LomemBitmaps) (flags : PallocFlags) (g : Nat) : List (Option Nat) :=
  (if Looked lb g then blocksOf g else []) ++ (if flags.align_64kb then [none] else [])

/-- What the first `n` superblocks of summary word `sb` contribute. -/
def wordTrace (lb : LomemBitmaps) (flags : PallocFlags) (n sb : Nat) : List (Option Nat) :=
  if superblock_bitmap lb sb ≠ 0xFFFFFFFF#32 then
    (List.range' 0 n).flatMap fun j => superTrace lb flags (32 * sb + j)
  else []

/-- `low_mem` ends the search inside the first summary word. -/
def Cut (lb : LomemBitmaps) (flags : PallocFlags) : Prop :=
  flags.low_mem = true ∧ superblock_bitmap lb 0 ≠ 0xFFFFFFFF#32

instance (lb : LomemBitmaps) (flags : PallocFlags) : Decidable (Cut lb flags) :=
  inferInstanceAs (Decidable (_ ∧ _))

/-- The blocks the search looks at, with its resets. -/
def trace (lb : LomemBitmaps) (flags : PallocFlags) : List (Option Nat) :=
  if Cut lb flags then wordTrace lb flags 17 0
  else (List.range' 0 MAX_SUPERBLOCKS).flatMap (wordTrace lb flags 32)

/-- Block `b` is free, as the search decides it. -/
def isFree (lb : LomemBitmaps) (b : Nat) : Bool := decide (FreeBlock lb b)

variable {lb : LomemBitmaps} {flags : PallocFlags}

/-! ## The loops fold over the trace -/

theorem visit_blocks_eq (g : Nat) (st : Scan.Run Nat) :
    visit_blocks lb flags g st =
      Scan.scanFrom (isFree lb) flags.page_alloc_num st (blocksOf g) := by
  unfold visit_blocks Scan.scanFrom blocksOf
  rw [List.foldlM_map, ← forUp_eq_foldlM]
  refine forUp_congr fun bit _ hbit st => ?_
  rw [block_index hbit]
  by_cases hf : FreeBlock lb (16 * g + bit)
  · simp [paddm_get_bit_eq_zero, Scan.step, isFree, hf]
  · simp [paddm_get_bit_eq_zero, Scan.step, isFree, hf]

theorem superSet_iff {sb j : Nat} (h : j < 32) :
    superblock_bitmap lb sb &&& 1#32 <<< (j &&& 0x1F) = 0#32 ↔ ¬ SuperSet lb (32 * sb + j) := by
  rw [Bitmap.mask5, Nat.mod_eq_of_lt h, Bitmap.and_mask_eq_zero_iff h, SuperSet, Bitmap.test,
    show (4096 + (32 * sb + j)) / 32 = MAX_BLOCKS + sb by unfold MAX_BLOCKS; omega,
    show (4096 + (32 * sb + j)) % 32 = j by omega, superblock_bitmap, Bool.not_eq_true]

theorem visit_superblock_eq {sb j : Nat} (h : j < 32) (st : Scan.Run Nat) :
    visit_superblock lb flags sb j st =
      (Scan.scanFrom (isFree lb) flags.page_alloc_num st (superTrace lb flags (32 * sb + j)) >>=
        fun st => if flags.low_mem && j > 15 && sb = 0 then .error none else .ok st) := by
  have hword : ((32 * sb + j) >>> 1) = (32 * sb + j) / 2 := Nat.shiftRight_eq_div_pow _ 1
  have hreset : ∀ st, Scan.scanFrom (isFree lb) flags.page_alloc_num st
      (if flags.align_64kb then [none] else []) =
        .ok (if flags.align_64kb then (⟨0, 0⟩ : Scan.Run Nat) else st) := by
    intro st
    cases flags.align_64kb <;> rfl
  simp only [visit_superblock, superTrace, superblock_index h, hword, Scan.scanFrom_append,
    superSet_iff h, hreset, visit_blocks_eq, Looked, bind_assoc]
  by_cases h1 : SuperSet lb (32 * sb + j)
  · simp only [h1, not_true_eq_false, if_false, false_and]
    rfl
  · by_cases h2 : block_bitmap lb ((32 * sb + j) / 2) = 0xFFFFFFFF#32
    · simp only [h1, h2, not_false_eq_true, if_true, ne_eq, not_true_eq_false, if_false, and_false]
      rfl
    · simp only [h1, h2, not_false_eq_true, if_true, ne_eq, and_self]
      rfl

/-- The superblock loop as long as `low_mem` does not end it. -/
theorem superblocks_eq {sb n : Nat} (hn : n ≤ 32) (st : Scan.Run Nat)
    (h : ∀ j < n, (flags.low_mem && j > 15 && sb = 0) = false) :
    forUp 0 n st (visit_superblock lb flags sb) =
      Scan.scanFrom (isFree lb) flags.page_alloc_num st
        ((List.range' 0 n).flatMap fun j => superTrace lb flags (32 * sb + j)) := by
  rw [Scan.scanFrom, ← forUp_foldlM]
  refine forUp_congr fun j _ hj st => ?_
  rw [visit_superblock_eq (by omega)]
  simp only [h j hj, Bool.false_eq_true, if_false]
  exact bind_pure _

/-- With `low_mem` the first summary word's loop ends the search at superblock 16. -/
theorem superblocks_low_mem (h : flags.low_mem = true) (st : Scan.Run Nat) :
    forUp 0 32 st (visit_superblock lb flags 0) =
      (Scan.scanFrom (isFree lb) flags.page_alloc_num st
        ((List.range' 0 17).flatMap fun j => superTrace lb flags (32 * 0 + j)) >>=
          fun _ => .error none) := by
  have hlast : ∀ st, forUp 16 32 st (visit_superblock lb flags 0) =
      (Scan.scanFrom (isFree lb) flags.page_alloc_num st (superTrace lb flags (32 * 0 + 16)) >>=
        fun _ => .error none) := by
    intro st
    rw [forUp_of_lt (by decide), visit_superblock_eq (by decide), bind_assoc]
    congr 1
    funext st'
    simp [h]
    rfl
  have hsplit : List.range' 0 17 = List.range' 0 16 ++ [16] := by decide
  rw [forUp_append (by decide : 0 ≤ 16) (by decide), superblocks_eq (by decide) _ (by
      intro j hj
      simp [show ¬ 15 < j by omega]),
    hsplit, List.flatMap_append, Scan.scanFrom_append, bind_assoc]
  congr 1
  funext st'
  simp [hlast]

theorem outcome_bind_none (r : Except (Option Nat) (Scan.Run Nat)) :
    Scan.outcome (r >>= fun _ => (.error none : Except (Option Nat) (Scan.Run Nat))) =
      Scan.outcome r := by
  cases r <;> rfl

/-- **The search answers from the scan of its trace.** -/
theorem search_eq (h : ¬ (flags.page_alloc_num = 0 ∧ flags.contiguous = true)) :
    paddm_get_first_clear_bits lb flags =
      Scan.outcome (Scan.scan (isFree lb) flags.page_alloc_num (trace lb flags)) := by
  unfold paddm_get_first_clear_bits
  rw [if_neg (by simpa using h)]
  by_cases hcut : Cut lb flags
  · rw [forUp_of_lt (by decide), if_pos hcut.2, superblocks_low_mem hcut.1, bind_assoc]
    rw [trace, if_pos hcut, wordTrace, if_pos hcut.2]
    exact outcome_bind_none _
  · rw [trace, if_neg hcut, Scan.scan, Scan.scanFrom, ← forUp_foldlM]
    congr 1
    refine forUp_congr fun sb _ hsb st => ?_
    by_cases hfull : superblock_bitmap lb sb ≠ 0xFFFFFFFF#32
    · rw [if_pos hfull, wordTrace, if_pos hfull]
      refine superblocks_eq (Nat.le_refl _) st fun j hj => ?_
      by_cases h0 : sb = 0
      · have : flags.low_mem = false := by
          subst h0
          simpa [Cut, hfull] using hcut
        simp [this]
      · simp [h0]
    · rw [if_neg hfull, wordTrace, if_neg hfull]
      rfl

/-! ## Which blocks the trace holds -/

theorem reduceOption_blocksOf (g : Nat) :
    (blocksOf g).reduceOption = List.range' (16 * g) 16 := by
  rw [blocksOf, List.reduceOption, List.filterMap_map]
  simpa using List.map_add_range' 0 16 1 (a := 16 * g)

theorem reduceOption_superTrace (g : Nat) :
    (superTrace lb flags g).reduceOption = if Looked lb g then List.range' (16 * g) 16 else [] := by
  rw [superTrace, List.reduceOption_append]
  have hreset : (if flags.align_64kb then [none] else [] : List (Option Nat)).reduceOption = [] := by
    cases flags.align_64kb <;> rfl
  rw [hreset, List.append_nil]
  split
  · exact reduceOption_blocksOf g
  · rfl

theorem reduceOption_wordTrace (n sb : Nat) :
    (wordTrace lb flags n sb).reduceOption =
      if superblock_bitmap lb sb ≠ 0xFFFFFFFF#32 then
        (List.range' 0 n).flatMap fun j =>
          if Looked lb (32 * sb + j) then List.range' (512 * sb + 16 * j) 16 else []
      else [] := by
  unfold wordTrace
  split
  · rw [List.reduceOption, List.filterMap_flatMap]
    congr 1
    funext j
    rw [show 512 * sb + 16 * j = 16 * (32 * sb + j) by omega]
    exact reduceOption_superTrace _
  · rfl

theorem wordTrace_sublist {n : Nat} (sb : Nat) :
    (wordTrace lb flags n sb).reduceOption.Sublist (List.range' (512 * sb) (16 * n)) := by
  rw [reduceOption_wordTrace]
  split
  · rw [← Scan.flatMap_range' (512 * sb) 16 n]
    refine List.Sublist.flatMap_right _ fun j _ => ?_
    split
    · exact List.Sublist.refl _
    · exact List.nil_sublist _
  · exact List.nil_sublist _

/-- The trace visits blocks below 4096 in increasing order. -/
theorem trace_sublist : (trace lb flags).reduceOption.Sublist (List.range' 0 4096) := by
  unfold trace
  split
  · exact (wordTrace_sublist 0).trans (List.range'_sublist_right.mpr (by decide))
  · rw [List.reduceOption, List.filterMap_flatMap]
    rw [show List.range' 0 4096 = (List.range' 0 MAX_SUPERBLOCKS).flatMap
      fun j => List.range' (0 + 512 * j) 512 from (Scan.flatMap_range' 0 512 8).symm]
    refine List.Sublist.flatMap_right _ fun sb _ => ?_
    rw [Nat.zero_add]
    exact wordTrace_sublist sb

theorem trace_pairwise : (trace lb flags).reduceOption.Pairwise (· < ·) :=
  List.Pairwise.sublist trace_sublist List.pairwise_lt_range'

/-- A summary word with a clear bit is not full. -/
theorem superWord_ne_full {g : Nat} (h : ¬ SuperSet lb g) :
    superblock_bitmap lb (g / 32) ≠ 0xFFFFFFFF#32 := by
  intro hf
  refine h (Bitmap.test_of_word_full (by decide) ?_)
  rw [show (4096 + g) / 32 = MAX_BLOCKS + g / 32 by unfold MAX_BLOCKS; omega]
  exact hf

theorem mem_wordTrace {n sb b : Nat} :
    b ∈ (wordTrace lb flags n sb).reduceOption ↔
      superblock_bitmap lb sb ≠ 0xFFFFFFFF#32 ∧ Looked lb (b / 16) ∧
        512 * sb ≤ b ∧ b < 512 * sb + 16 * n := by
  rw [reduceOption_wordTrace]
  split
  case isTrue h =>
    simp only [List.mem_flatMap, List.mem_range'_1, h, not_false_eq_true, ne_eq, true_and]
    constructor
    · rintro ⟨j, hj, hb⟩
      split at hb
      · rename_i hl
        rw [List.mem_range'_1] at hb
        rw [show b / 16 = 32 * sb + j by omega]
        exact ⟨hl, by omega, by omega⟩
      · cases hb
    · rintro ⟨hl, h1, h2⟩
      refine ⟨(b - 512 * sb) / 16, by omega, ?_⟩
      rw [show 32 * sb + (b - 512 * sb) / 16 = b / 16 by omega, if_pos hl, List.mem_range'_1]
      omega
  case isFalse h => simp [not_not.mp h]

/-- **The blocks the search looks at**: those of a superblock whose summary bit is clear and whose
block word is not full, below block 272 if `low_mem` cuts the search. -/
theorem mem_trace {b : Nat} :
    b ∈ (trace lb flags).reduceOption ↔
      b < 4096 ∧ Looked lb (b / 16) ∧ (Cut lb flags → b < 272) := by
  by_cases hcut : Cut lb flags
  · rw [trace, if_pos hcut, mem_wordTrace]
    constructor
    · rintro ⟨-, hl, -, h2⟩
      exact ⟨by omega, hl, fun _ => by omega⟩
    · rintro ⟨-, hl, h2⟩
      have := h2 hcut
      exact ⟨hcut.2, hl, by omega, by omega⟩
  · rw [trace, if_neg hcut, List.reduceOption, List.filterMap_flatMap, List.mem_flatMap]
    constructor
    · rintro ⟨sb, hsb, hb⟩
      obtain ⟨-, hl, h1, h2⟩ := mem_wordTrace.mp hb
      rw [List.mem_range'_1, MAX_SUPERBLOCKS] at hsb
      exact ⟨by omega, hl, fun h => absurd h hcut⟩
    · rintro ⟨hlt, hl, -⟩
      refine ⟨b / 512, by rw [List.mem_range'_1, MAX_SUPERBLOCKS]; omega,
        mem_wordTrace.mpr ⟨?_, hl, by omega, by omega⟩⟩
      rw [show b / 512 = b / 16 / 32 by omega]
      exact superWord_ne_full hl.1

end Condor.Pmm
