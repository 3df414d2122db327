import Condor.Pmm.Summary

/-!
# When a superblock is marked full

`paddm_set_bit` sets the summary bit of a superblock if `check_super_region` finds
16 words full, from the word of the block on. The 16 blocks of the superblock are
half of the first word, so the bit of a full superblock stays clear if another block
of these 512 is free, and from block 3616 on the words are not all in `block_bitmap`.
The check stops at the first word that is not full. `set_bit_summary_iff` says when
the bit is right and the check stays inside.
-/

namespace Condor.Pmm

open Lib

/-- The words from `i` on, up to the first that is not full: the loop of `check_super_region`. -/
def window_reads (lb : LomemBitmaps) : Nat → Nat → List Nat
  | 0, _ => []
  | n + 1, i => i :: if block_bitmap lb i = 0xFFFFFFFF#32 then window_reads lb n (i + 1) else []

/-- The words of `block_bitmap` that `check_super_region` reads. -/
def check_super_region_reads (lb : LomemBitmaps) (bit : Nat) : List Nat :=
  window_reads lb 16 ((bit &&& 0xFFFFFFF0) >>> 5)

/-- The words that the check in `paddm_set_bit` reads, behind the store of the block's bit. -/
def paddm_set_bit_reads (lb : LomemBitmaps) (bit : Nat) : List Nat :=
  if bit ≥ 4096 then []
  else
    let lb := set_block_word lb (bit >>> 5) (block_bitmap lb (bit >>> 5) ||| 1#32 <<< (bit &&& 0x1F))
    check_super_region_reads lb bit

/-- The summary bit is set if the superblock is full, and the check reads `block_bitmap` only. -/
structure SetBitOk (lb : LomemBitmaps) (bit : Nat) : Prop where
  summary : (∀ b, b / 16 = bit / 16 → Allocated (paddm_set_bit lb bit) b) →
    SuperSet (paddm_set_bit lb bit) (bit / 16)
  inside : ∀ i ∈ paddm_set_bit_reads lb bit, i < MAX_BLOCKS

/-- The blocks from `lo` on and below `hi` are allocated, but perhaps for `bit`. -/
def OthersAllocated (lb : LomemBitmaps) (bit lo hi : Nat) : Prop :=
  ∀ b, lo ≤ b → b < hi → b ≠ bit → Allocated lb b

/-- Another block of the superblock is free; or the 16 words are in the bitmap, and the summary bit is set already or
their other blocks are allocated; or the summary bit is set already, and there is a free block behind. -/
def SummaryDecided (lb : LomemBitmaps) (bit : Nat) : Prop :=
  ¬ OthersAllocated lb bit (16 * (bit / 16)) (16 * (bit / 16) + 16) ∨
  (bit / 32 + 16 ≤ MAX_BLOCKS ∧
    (SuperSet lb (bit / 16) ∨ OthersAllocated lb bit (32 * (bit / 32)) (32 * (bit / 32) + 512))) ∨
  (SuperSet lb (bit / 16) ∧ ¬ OthersAllocated lb bit (32 * (bit / 32)) 4096)

variable {lb : LomemBitmaps} {bit i n lo hi : Nat}

/-! ## The words read -/

theorem forall_window_reads {Q : Nat → Prop} : (∀ k ∈ window_reads lb (n + 1) i, Q k) ↔
    Q i ∧ (block_bitmap lb i = 0xFFFFFFFF#32 → ∀ k ∈ window_reads lb n (i + 1), Q k) := by
  rw [window_reads, List.forall_mem_cons]
  refine and_congr_right fun _ => ?_
  split
  · rename_i hfull
    exact (imp_iff_right hfull).symm
  · rename_i hfree
    exact iff_of_true (fun k hk => absurd hk List.not_mem_nil) fun hfull => absurd hfull hfree

/-- All words read are full if all words of the window are. -/
theorem window_reads_full_iff : (∀ k ∈ window_reads lb n i, block_bitmap lb k = 0xFFFFFFFF#32) ↔
    ∀ off < n, block_bitmap lb (i + off) = 0xFFFFFFFF#32 := by
  induction n generalizing i with
  | zero => exact iff_of_true (fun k hk => absurd hk List.not_mem_nil) fun off hoff => absurd hoff (Nat.not_lt_zero _)
  | succ n ih =>
    rw [forall_window_reads, ih, Nat.forall_lt_succ_left]
    simp only [Nat.add_zero, Nat.add_assoc, Nat.add_comm 1]
    exact ⟨fun h => ⟨h.1, h.2 h.1⟩, fun h => ⟨h.1, fun _ => h.2⟩⟩

/-- The words read stay below `hi` if the window does, or if a word in front of `hi` stops the loop. -/
theorem window_reads_lt_iff : (∀ k ∈ window_reads lb (n + 1) i, k < hi) ↔
    i + (n + 1) ≤ hi ∨ ∃ k, i ≤ k ∧ k < hi ∧ block_bitmap lb k ≠ 0xFFFFFFFF#32 := by
  induction n generalizing i with
  | zero =>
    rw [forall_window_reads]
    constructor
    · exact fun h => .inl h.1
    · rintro (h | ⟨k, hik, hk, -⟩)
      · exact ⟨h, fun _ k hk => absurd hk List.not_mem_nil⟩
      · exact ⟨Nat.lt_of_le_of_lt hik hk, fun _ k hk => absurd hk List.not_mem_nil⟩
  | succ n ih =>
    rw [forall_window_reads, ih]
    constructor
    · rintro ⟨hi, hrest⟩
      by_cases hfull : block_bitmap lb i = 0xFFFFFFFF#32
      · obtain h | ⟨k, hik, hk, hfree⟩ := hrest hfull
        · exact .inl (by omega)
        · exact .inr ⟨k, by omega, hk, hfree⟩
      · exact .inr ⟨i, Nat.le_refl i, hi, hfull⟩
    · rintro (h | ⟨k, hik, hk, hfree⟩)
      · exact ⟨by omega, fun _ => .inl (by omega)⟩
      · refine ⟨by omega, fun hfull => .inr ⟨k, ?_, hk, hfree⟩⟩
        -- the loop does not stop at `i`
        have hne : k ≠ i := by
          rintro rfl
          exact hfree hfull
        omega

/-- The check is decided by the words it reads. -/
theorem check_super_region_iff : check_super_region lb bit = true ↔
    ∀ k ∈ check_super_region_reads lb bit, block_bitmap lb k = 0xFFFFFFFF#32 := by
  unfold check_super_region check_super_region_reads
  rw [window_reads_full_iff, List.all_eq_true]
  simp only [List.mem_range, beq_iff_eq]

/-! ## Words and blocks -/

theorem window_start_set (h : bit < 4096) : check_super_region_reads lb bit = window_reads lb 16 (bit / 32) := by
  unfold check_super_region_reads
  rw [window_start h]

theorem paddm_set_bit_reads_eq (h : bit < 4096) :
    paddm_set_bit_reads lb bit = window_reads (Bitmap.set lb bit) 16 (bit / 32) := by
  unfold paddm_set_bit_reads
  rw [if_neg (by omega), ← window_start_set h]
  simp only [set_block_word, block_bitmap, Bitmap.shift5, Bitmap.mask5, Bitmap.set]

/-- A word is full behind the store if its other blocks were allocated before. -/
theorem word_full_iff {k : Nat} : block_bitmap (Bitmap.set lb bit) k = 0xFFFFFFFF#32 ↔
    OthersAllocated lb bit (32 * k) (32 * k + 32) := by
  refine (Bitmap.word_full_iff (m := Bitmap.set lb bit) (by decide)).trans (forall_congr' fun b => ?_)
  rw [Bitmap.test_set (by decide), Bool.or_eq_true, decide_eq_true_iff, or_comm]
  have hword : b / 32 = k ↔ 32 * k ≤ b ∧ b < 32 * k + 32 := by omega
  rw [hword, and_imp]
  exact forall₂_congr fun _ _ => Classical.or_iff_not_imp_left

theorem words_full_iff : (∀ k, lo ≤ k → k < hi → block_bitmap (Bitmap.set lb bit) k = 0xFFFFFFFF#32) ↔
    OthersAllocated lb bit (32 * lo) (32 * hi) := by
  simp only [word_full_iff]
  constructor
  · exact fun h b h1 h2 hne => h (b / 32) (by omega) (by omega) b (by omega) (by omega) hne
  · exact fun h k h1 h2 b hb1 hb2 hne => h b (by omega) (by omega) hne

/-- All words of the window are full. -/
theorem check_set_iff (h : bit < 4096) : check_super_region (Bitmap.set lb bit) bit = true ↔
    OthersAllocated lb bit (32 * (bit / 32)) (32 * (bit / 32 + 16)) := by
  rw [check_super_region_iff, window_start_set h, window_reads_full_iff, ← words_full_iff]
  constructor
  · intro hall k h1 h2
    have hword := hall (k - bit / 32) (by omega)
    rwa [Nat.add_sub_cancel' h1] at hword
  · exact fun hall off hoff => hall _ (Nat.le_add_right _ _) (by omega)

/-- The check stays inside if the window does, or if a free block stops it. -/
theorem inside_iff (h : bit < 4096) : (∀ i ∈ paddm_set_bit_reads lb bit, i < MAX_BLOCKS) ↔
    bit / 32 + 16 ≤ MAX_BLOCKS ∨ ¬ OthersAllocated lb bit (32 * (bit / 32)) 4096 := by
  rw [paddm_set_bit_reads_eq h, window_reads_lt_iff, show 4096 = 32 * MAX_BLOCKS from rfl, ← words_full_iff]
  refine or_congr_right ?_
  simp only [not_forall, exists_prop, ne_eq]

/-- The other blocks of the superblock. -/
theorem superblock_full_iff (h : bit < 4096) : (∀ b, b / 16 = bit / 16 → Allocated (paddm_set_bit lb bit) b) ↔
    OthersAllocated lb bit (16 * (bit / 16)) (16 * (bit / 16) + 16) := by
  constructor
  · intro hall b h1 h2 hne
    exact ((allocated_set_bit (by omega)).mp (hall b (by omega))).resolve_right hne
  · intro hall b hb
    rw [allocated_set_bit (by omega), or_comm, Classical.or_iff_not_imp_left]
    exact hall b (by omega) (by omega)

/-- **Marking a superblock full.** The summary bit is set whenever the superblock is full and the check reads
`block_bitmap` only, if and only if `SummaryDecided` held before. -/
theorem set_bit_summary_iff (lb : LomemBitmaps) (bit : Nat) (h : bit < 4096) :
    SetBitOk lb bit ↔ SummaryDecided lb bit := by
  have hok : SetBitOk lb bit ↔ (OthersAllocated lb bit (16 * (bit / 16)) (16 * (bit / 16) + 16) →
      SuperSet lb (bit / 16) ∨ OthersAllocated lb bit (32 * (bit / 32)) (32 * (bit / 32 + 16))) ∧
      (bit / 32 + 16 ≤ MAX_BLOCKS ∨ ¬ OthersAllocated lb bit (32 * (bit / 32)) 4096) := by
    rw [← superblock_full_iff h, ← check_set_iff h, ← inside_iff h]
    have hsuper := @superSet_set_bit lb bit (bit / 16) h
    rw [and_iff_left rfl] at hsuper
    rw [← hsuper]
    exact ⟨fun hok => ⟨hok.summary, hok.inside⟩, fun hok => ⟨hok.1, hok.2⟩⟩
  -- a free block of the superblock stops the check, and so does one behind a full window
  have hfree (hsuper : ¬ OthersAllocated lb bit (16 * (bit / 16)) (16 * (bit / 16) + 16)) :
      ¬ OthersAllocated lb bit (32 * (bit / 32)) 4096 := fun hall =>
    hsuper fun b h1 h2 hne => hall b (by omega) (by omega) hne
  have hbehind (hwindow : OthersAllocated lb bit (32 * (bit / 32)) (32 * (bit / 32) + 512))
      (hrest : ¬ OthersAllocated lb bit (32 * (bit / 32)) 4096) : bit / 32 + 16 ≤ MAX_BLOCKS := by
    by_contra hle
    unfold MAX_BLOCKS at hle
    exact hrest fun b h1 h2 hne => hwindow b h1 (by omega) hne
  rw [hok, Nat.mul_add]
  unfold SummaryDecided
  constructor
  · rintro ⟨hsummary, hinside⟩
    by_cases hsuper : OthersAllocated lb bit (16 * (bit / 16)) (16 * (bit / 16) + 16)
    · obtain hset | hwindow := hsummary hsuper
      · exact .inr (hinside.imp (fun hle => ⟨hle, .inl hset⟩) fun hrest => ⟨hset, hrest⟩)
      · exact .inr (.inl ⟨hinside.elim id (hbehind hwindow), .inr hwindow⟩)
    · exact .inl hsuper
  · rintro (hsuper | ⟨hle, hset⟩ | ⟨hset, hrest⟩)
    · exact ⟨fun hall => absurd hall hsuper, .inr (hfree hsuper)⟩
    · exact ⟨fun _ => hset, .inl hle⟩
    · exact ⟨fun _ => .inl hset, .inr hrest⟩

/-- Block 3 is the only free one, and setting it sets the summary bit that was clear. -/
theorem set_bit_summary_last : let lb := paddm_clear_bit initial_bitmaps 3
    ¬ SuperSet lb 0 ∧ SetBitOk lb 3 ∧ SuperSet (paddm_set_bit lb 3) 0 := by
  intro lb
  have hothers : OthersAllocated lb 3 0 512 := fun b _ hb hne =>
    (allocated_clear_bit (by omega)).mpr ⟨allocated_initial (by omega), hne⟩
  exact ⟨by decide, (set_bit_summary_iff lb 3 (by decide)).mpr (.inr (.inl ⟨by decide, .inr hothers⟩)), by decide⟩

/-- With blocks 3 and 32 free, block 3 is the last of its superblock, and its summary bit stays clear. -/
theorem set_bit_leaves_summary : ∃ s, Reachable AddrSpace.paging s ∧ ¬ SetBitOk s.low_bitmaps 3 := by
  have hinit : pmm_init AddrSpace.paging ⟨fun _ => 0, 0, false, ⟨fun _ => 0, fun _ _ => 0⟩⟩
    [⟨0x3000#64, 0x1000#64, MULTIBOOT_MEMORY_AVAILABLE⟩, ⟨0x20000#64, 0x1000#64, MULTIBOOT_MEMORY_AVAILABLE⟩] =
      .ok _ := rfl
  refine ⟨_, .init hinit, fun hok => ?_⟩
  refine absurd (hok.summary ((superblock_full_iff (by decide)).mpr fun b _ hb => ?_)) (by decide)
  revert b
  decide

end Condor.Pmm
