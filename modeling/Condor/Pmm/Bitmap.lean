import Condor.Lib.Bitmap
import Condor.Lib.Loop
import Condor.Lib.Scan

/-!
# The low-memory bitmaps of `pmm.c`

`lomem_bitmaps_t` is one page: 128 words of `block_bitmap` (one bit per 4 KiB
block below 16 MiB), 8 words of `superblock_bitmap` (one bit per 16 blocks) and
the reserved words. It is kept as one array of dwords, so an index that runs
past `block_bitmap` reads the words that follow it, as it does in memory.

The search is run as the four nested loops of the source, over the state of `Lib.Scan`.
-/

namespace Condor.Pmm

open Lib

def MAX_BLOCKS : Nat := 128
def MAX_SUPERBLOCKS : Nat := 8
def PADDING_SIZE : Nat := 0x400 - (MAX_BLOCKS + MAX_SUPERBLOCKS)

/-- The dwords of `lomem_bitmaps_t`. -/
abbrev LomemBitmaps := Nat → BitVec 32

def block_bitmap (lb : LomemBitmaps) (i : Nat) : BitVec 32 := lb i
def superblock_bitmap (lb : LomemBitmaps) (i : Nat) : BitVec 32 := lb (MAX_BLOCKS + i)

/-- `block_bitmap[i] = w`. -/
def set_block_word (lb : LomemBitmaps) (i : Nat) (w : BitVec 32) : LomemBitmaps :=
  Function.update lb i w

/-- `superblock_bitmap[i] = w`. -/
def set_superblock_word (lb : LomemBitmaps) (i : Nat) (w : BitVec 32) : LomemBitmaps :=
  Function.update lb (MAX_BLOCKS + i) w

/-- The fields of `palloc_flags_t` that the allocator reads. -/
structure PallocFlags where
  align_64kb : Bool := false
  low_mem : Bool := false
  contiguous : Bool := false
  low_4gb : Bool := false
  page_alloc_num : Nat := 0
  deriving DecidableEq, Repr

def check_super_region (lb : LomemBitmaps) (bit : Nat) : Bool :=
  (List.range 16).all fun off => block_bitmap lb (((bit &&& 0xFFFFFFF0) >>> 5) + off) == 0xFFFFFFFF#32

def paddm_set_bit (lb : LomemBitmaps) (bit : Nat) : LomemBitmaps :=
  if bit ≥ 4096 then lb
  else
    let lb := set_block_word lb (bit >>> 5) (block_bitmap lb (bit >>> 5) ||| 1#32 <<< (bit &&& 0x1F))
    if check_super_region lb bit then
      set_superblock_word lb (bit >>> 9)
        (superblock_bitmap lb (bit >>> 9) ||| 1#32 <<< ((bit >>> 4) &&& 0x1F))
    else lb

def paddm_clear_bit (lb : LomemBitmaps) (bit : Nat) : LomemBitmaps :=
  if bit ≥ 4096 then lb
  else
    let lb := set_block_word lb (bit >>> 5)
      (block_bitmap lb (bit >>> 5) &&& ~~~(1#32 <<< (bit &&& 0x1F)))
    set_superblock_word lb (bit >>> 9)
      (superblock_bitmap lb (bit >>> 9) &&& ~~~(1#32 <<< ((bit >>> 4) &&& 0x1F)))

def paddm_get_bit (lb : LomemBitmaps) (bit : Nat) : BitVec 32 :=
  if bit ≥ 4096 then 1#32 else block_bitmap lb (bit >>> 5) &&& 1#32 <<< (bit &&& 0x1F)

/-- The innermost loop: the 16 blocks of a superblock. -/
def visit_blocks (lb : LomemBitmaps) (flags : PallocFlags) (block_base : Nat) (st : Scan.Run Nat) :
    Except (Option Nat) (Scan.Run Nat) :=
  forUp 0 16 st fun bit st =>
    if paddm_get_bit lb ((block_base <<< 4) ||| bit) = 0#32 then
      let base_bit := if st.num = 0 then (block_base <<< 4) ||| bit else st.base
      if st.num + 1 ≥ flags.page_alloc_num then .error (some base_bit)
      else .ok ⟨base_bit, st.num + 1⟩
    else .ok ⟨st.base, 0⟩

/-- One iteration of the loop over the 32 superblocks of a summary word. -/
def visit_superblock (lb : LomemBitmaps) (flags : PallocFlags) (superblock_base super_bit : Nat)
    (st : Scan.Run Nat) : Except (Option Nat) (Scan.Run Nat) :=
  let block_base := (superblock_base <<< 5) ||| super_bit
  (if superblock_bitmap lb superblock_base &&& 1#32 <<< (super_bit &&& 0x1F) = 0#32 then
    if block_bitmap lb (block_base >>> 1) ≠ 0xFFFFFFFF#32 then visit_blocks lb flags block_base st
    else .ok st
  else .ok st) >>= fun st =>
  let st := if flags.align_64kb then ⟨0, 0⟩ else st
  if flags.low_mem && super_bit > 15 && superblock_base = 0 then .error none else .ok st

/-- The block to allocate from; `none` is the `-1` of the source. -/
def paddm_get_first_clear_bits (lb : LomemBitmaps) (flags : PallocFlags) : Option Nat :=
  if flags.page_alloc_num = 0 && flags.contiguous then none
  else Scan.outcome <| forUp 0 MAX_SUPERBLOCKS ⟨0, 0⟩ fun superblock_base st =>
    if superblock_bitmap lb superblock_base ≠ 0xFFFFFFFF#32 then
      forUp 0 32 st (visit_superblock lb flags superblock_base)
    else .ok st

/-! ## Bits -/

/-- Block `b` is marked allocated. -/
def Allocated (lb : LomemBitmaps) (b : Nat) : Prop := Bitmap.test lb b = true

/-- The summary bit of superblock `g` is set. -/
def SuperSet (lb : LomemBitmaps) (g : Nat) : Prop := Bitmap.test lb (4096 + g) = true

/-- Block `b` of low memory is free. -/
def FreeBlock (lb : LomemBitmaps) (b : Nat) : Prop := b < 4096 ∧ ¬ Allocated lb b

instance (lb : LomemBitmaps) (b : Nat) : Decidable (Allocated lb b) :=
  inferInstanceAs (Decidable (_ = true))

instance (lb : LomemBitmaps) (b : Nat) : Decidable (FreeBlock lb b) :=
  inferInstanceAs (Decidable (_ ∧ _))

theorem shift9 (bit : Nat) : bit >>> 9 = bit / 512 := Nat.shiftRight_eq_div_pow bit 9
theorem shift4 (bit : Nat) : bit >>> 4 = bit / 16 := Nat.shiftRight_eq_div_pow bit 4

/-- The blocks of superblock `g`, as the innermost loop writes them. -/
theorem block_index {g bit : Nat} (h : bit < 16) : (g <<< 4) ||| bit = 16 * g + bit :=
  Bitmap.shiftLeft_or (k := 4) h

/-- The superblocks of summary word `sb`, as the loop writes them. -/
theorem superblock_index {sb j : Nat} (h : j < 32) : (sb <<< 5) ||| j = 32 * sb + j :=
  Bitmap.shiftLeft_or (k := 5) h

/-- The first word of the window `check_super_region` reads is the word of the bit itself. -/
theorem window_start {bit : Nat} (h : bit < 4096) : (bit &&& 0xFFFFFFF0) >>> 5 = bit / 32 := by
  rw [← Bitmap.shift5]
  apply Nat.eq_of_testBit_eq
  intro i
  rw [Nat.testBit_shiftRight, Nat.testBit_shiftRight, Nat.testBit_and]
  by_cases hi : i < 7
  · have : (0xFFFFFFF0 : Nat).testBit (5 + i) = true := by
      revert i
      decide
    rw [this, Bool.and_true]
  · rw [Nat.testBit_lt_two_pow (show bit < 2 ^ (5 + i) from
      Nat.lt_of_lt_of_le h (Nat.pow_le_pow_right (show 2 > 0 by decide) (show 12 ≤ 5 + i by omega)))]
    rfl

/-- The word of the summary bit of `bit`, and its place there. -/
theorem superblock_div (bit : Nat) : (4096 + bit / 16) / 32 = MAX_BLOCKS + bit / 512 := by
  unfold MAX_BLOCKS
  omega

theorem superblock_mod (bit : Nat) : (4096 + bit / 16) % 32 = bit / 16 % 32 := by omega

theorem paddm_set_bit_eq {lb : LomemBitmaps} {bit : Nat} (h : bit < 4096) :
    paddm_set_bit lb bit = if check_super_region (Bitmap.set lb bit) bit then
      Bitmap.set (Bitmap.set lb bit) (4096 + bit / 16) else Bitmap.set lb bit := by
  unfold paddm_set_bit
  rw [if_neg (by omega)]
  simp only [set_block_word, set_superblock_word, block_bitmap, superblock_bitmap, Bitmap.shift5, shift9,
    shift4, Bitmap.mask5, Bitmap.set, superblock_div, superblock_mod]

theorem paddm_clear_bit_eq {lb : LomemBitmaps} {bit : Nat} (h : bit < 4096) :
    paddm_clear_bit lb bit = Bitmap.clear (Bitmap.clear lb bit) (4096 + bit / 16) := by
  unfold paddm_clear_bit
  rw [if_neg (by omega)]
  simp only [set_block_word, set_superblock_word, block_bitmap, superblock_bitmap, Bitmap.shift5, shift9,
    shift4, Bitmap.mask5, Bitmap.clear, superblock_div, superblock_mod]

theorem paddm_get_bit_eq_zero {lb : LomemBitmaps} {bit : Nat} :
    paddm_get_bit lb bit = 0#32 ↔ FreeBlock lb bit := by
  unfold paddm_get_bit FreeBlock Allocated
  by_cases h : bit ≥ 4096
  · rw [if_pos h]
    exact ⟨fun h1 => absurd h1 (by decide), fun h1 => by omega⟩
  · rw [if_neg h, Bitmap.mask5, Bitmap.shift5, block_bitmap,
      Bitmap.and_mask_eq_zero_iff (Nat.mod_lt _ (by decide))]
    simp [Bitmap.test, Nat.lt_of_not_le h]

/-- Setting a bit: that block becomes allocated and no other block changes. -/
theorem allocated_set_bit {lb : LomemBitmaps} {bit b : Nat} (hb : b < 4096) :
    Allocated (paddm_set_bit lb bit) b ↔ Allocated lb b ∨ b = bit := by
  by_cases h : bit < 4096
  · rw [paddm_set_bit_eq h]
    split
    · simp [Allocated, Bitmap.test_set, show b ≠ 4096 + bit / 16 by omega]
    · simp [Allocated, Bitmap.test_set]
  · rw [paddm_set_bit, if_pos (by omega)]
    exact ⟨.inl, fun h1 => h1.resolve_right (by omega)⟩

/-- Clearing a bit: that block becomes free and no other block changes. -/
theorem allocated_clear_bit {lb : LomemBitmaps} {bit b : Nat} (hb : b < 4096) :
    Allocated (paddm_clear_bit lb bit) b ↔ Allocated lb b ∧ b ≠ bit := by
  by_cases h : bit < 4096
  · rw [paddm_clear_bit_eq h]
    simp [Allocated, Bitmap.test_clear, show b ≠ 4096 + bit / 16 by omega]
  · rw [paddm_clear_bit, if_pos (by omega)]
    exact ⟨fun h1 => ⟨h1, by omega⟩, fun h1 => h1.1⟩

end Condor.Pmm
