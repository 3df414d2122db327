import Condor.Lib.Bitmap
import Condor.Lib.Loop
import Condor.Lib.Scan

/-!
# The virtual address manager of `vmm.c`

The 34 pages at `VADDM_BASE` are one array of dwords: `page_bitmap` from dword 0
(one bit per page) and `superpage_bitmap` from dword 33792, byte `0x21000` (one
bit per 1024 pages). `vaddm_init` maps them first; here they are memory.

The search starts each page loop at word `(superpage_base << 5) | super_bit`
and ends it at word 32, so it visits words below 32 only, and visits them again
for every clear bit of the first superpage word. `searchPages` lists the pages
in that order, and the search is `Lib.Scan.scan` over it (`search_eq`).
-/

namespace Condor.Vmm

open Lib

/-- The dwords from `VADDM_BASE` on. -/
abbrev Vaddm := Nat → BitVec 32

/-- The dword where `superpage_bitmap` starts. -/
def SUPERPAGE_BITMAP : Nat := 0x21000 / 4

def page_bitmap (m : Vaddm) (i : Nat) : BitVec 32 := m i
def superpage_bitmap (m : Vaddm) (i : Nat) : BitVec 32 := m (SUPERPAGE_BITMAP + i)

/-- `page_bitmap[i] = w`. -/
def set_page_word (m : Vaddm) (i : Nat) (w : BitVec 32) : Vaddm := Function.update m i w

/-- `superpage_bitmap[i] = w`. -/
def set_superpage_word (m : Vaddm) (i : Nat) (w : BitVec 32) : Vaddm :=
  Function.update m (SUPERPAGE_BITMAP + i) w

def check_super_region (m : Vaddm) (bit : Nat) : Bool :=
  (List.range 32).all fun off => page_bitmap m (((bit &&& 0xFFFFFFE0) >>> 5) + off) == 0xFFFFFFFF#32

def vaddm_set_bit (m : Vaddm) (bit : Nat) : Vaddm :=
  if bit > 32768 * 32 then m
  else
    let m := set_page_word m (bit >>> 5) (page_bitmap m (bit >>> 5) ||| 1#32 <<< (bit % 32))
    if check_super_region m bit then
      set_superpage_word m (bit >>> 15)
        (superpage_bitmap m (bit >>> 15) ||| 1#32 <<< ((bit >>> 10) &&& 0x1F))
    else m

def vaddm_clear_bit (m : Vaddm) (bit : Nat) : Vaddm :=
  if bit > 32768 * 32 then m
  else
    let m := set_page_word m (bit >>> 5) (page_bitmap m (bit >>> 5) &&& ~~~(1#32 <<< (bit % 32)))
    set_superpage_word m (bit >>> 15)
      (superpage_bitmap m (bit >>> 15) &&& ~~~(1#32 <<< ((bit >>> 10) &&& 0x1F)))

def vaddm_get_bit (m : Vaddm) (bit : Nat) : BitVec 32 :=
  if bit > 32768 * 32 then 1#32 else page_bitmap m (bit >>> 5) &&& 1#32 <<< (bit &&& 0x1F)

/-- The innermost loop: the 32 pages of a word. -/
def visit_pages (m : Vaddm) (num_bits page_base : Nat) (st : Scan.Run Nat) :
    Except (Option Nat) (Scan.Run Nat) :=
  forUp 0 32 st fun bit st =>
    if vaddm_get_bit m (bit ||| (page_base <<< 5)) = 0#32 then
      let base_bit := if st.num = 0 then (page_base <<< 5) + bit else st.base
      if st.num + 1 ≥ num_bits then .error (some base_bit) else .ok ⟨base_bit, st.num + 1⟩
    else .ok ⟨st.base, 0⟩

/-- The loop over the page words from `lo` on. -/
def visit_page_words (m : Vaddm) (num_bits lo : Nat) (st : Scan.Run Nat) :
    Except (Option Nat) (Scan.Run Nat) :=
  forUp lo 32 st fun page_base st =>
    if page_bitmap m page_base ≠ 0xFFFFFFFF#32 then visit_pages m num_bits page_base st else .ok st

/-- One iteration of the loop over the 32 bits of a superpage word. -/
def visit_superpage (m : Vaddm) (num_bits superpage_base super_bit : Nat) (st : Scan.Run Nat) :
    Except (Option Nat) (Scan.Run Nat) :=
  if superpage_bitmap m superpage_base &&& 1#32 <<< super_bit = 0#32 then
    visit_page_words m num_bits ((superpage_base <<< 5) ||| super_bit) st
  else .ok st

/-- The page to allocate from; `none` is the `-1` of the source. -/
def vaddm_get_first_clear_bits (m : Vaddm) (num_bits : Nat) : Option Nat :=
  if num_bits = 0 then none
  else Scan.outcome <| forUp 0 32 ⟨0, 0⟩ fun superpage_base st =>
    if superpage_bitmap m superpage_base ≠ 0xFFFFFFFF#32 then
      forUp 0 32 st (visit_superpage m num_bits superpage_base)
    else .ok st

/-- The address that stands for no address. -/
def NO_ADDRESS : Nat := 0xFFFFFFFF

def vmalloc (m : Vaddm) (num_addresses : Nat) : Nat × Vaddm :=
  if num_addresses = 0 then (0, m)
  else
    match vaddm_get_first_clear_bits m num_addresses with
    | none => (NO_ADDRESS, m)
    | some frame =>
      ((frame <<< 12) % 2 ^ 32,
        loop frame ((num_addresses + frame) % 2 ^ 32) m fun bit m => vaddm_set_bit m bit)

def vfree (m : Vaddm) (base_address num_addresses : Nat) : Vaddm :=
  if num_addresses = 0 ∨ base_address = NO_ADDRESS then m
  else
    let frame := base_address >>> 12
    loop frame ((num_addresses + frame) % 2 ^ 32) m fun bit m => vaddm_clear_bit m bit

def vaddm_set_region (m : Vaddm) (base size : Nat) : Vaddm :=
  if size = 0 then m
  else
    let m := loop (base >>> 12) (((size + 0xFFF) % 2 ^ 32) >>> 12) m fun bit m => vaddm_set_bit m bit
    set_page_word m 0 (page_bitmap m 0 ||| 1#32)

/-- `kmemset(VADDM_BASE, 0, 0x21000)`. -/
def clear_page_bitmap (m : Vaddm) : Vaddm := fun i => if i < 0x21000 / 4 then 0#32 else m i

/-- The source reads the dword at `KERNEL_VIRTUAL_BASE`, a linker symbol, not its address: `kvb` is
whatever stands there. -/
def vaddm_init (m : Vaddm) (kvb : Nat) : Vaddm :=
  let m := clear_page_bitmap m
  let m := vaddm_set_region m kvb (0xFFFFFFFF - kvb)
  let m := vaddm_set_region m 0 0x100000
  set_page_word m 0 (page_bitmap m 0 ||| 1#32)

/-! ## Bits -/

/-- Page `c` is marked allocated. -/
def Allocated (m : Vaddm) (c : Nat) : Prop := Bitmap.test m c = true

/-- Page `c` is free. -/
def FreePage (m : Vaddm) (c : Nat) : Prop := c ≤ 32768 * 32 ∧ ¬ Allocated m c

instance (m : Vaddm) (c : Nat) : Decidable (Allocated m c) := inferInstanceAs (Decidable (_ = true))

instance (m : Vaddm) (c : Nat) : Decidable (FreePage m c) := inferInstanceAs (Decidable (_ ∧ _))

theorem shift10 (bit : Nat) : bit >>> 10 = bit / 1024 := Nat.shiftRight_eq_div_pow bit 10
theorem shift15 (bit : Nat) : bit >>> 15 = bit / 32768 := Nat.shiftRight_eq_div_pow bit 15

/-- The first page word of superpage `j`, as the loop writes it. -/
theorem word_index {sb j : Nat} (h : j < 32) : (sb <<< 5) ||| j = 32 * sb + j :=
  Bitmap.shiftLeft_or (k := 5) h

/-- The pages of word `pg`, as the innermost loop writes them. -/
theorem page_index {pg bit : Nat} (h : bit < 32) : bit ||| (pg <<< 5) = 32 * pg + bit := by
  rw [Nat.or_comm, word_index h]

/-- The summary bit of page `bit` in the array of dwords. -/
def superBit (bit : Nat) : Nat := 32 * SUPERPAGE_BITMAP + bit / 1024

theorem superBit_div (bit : Nat) : superBit bit / 32 = SUPERPAGE_BITMAP + bit / 32768 := by
  unfold superBit
  omega

theorem superBit_mod (bit : Nat) : superBit bit % 32 = bit / 1024 % 32 := by
  unfold superBit
  omega

theorem ne_superBit {c : Nat} (bit : Nat) (h : c ≤ 32768 * 32) : c ≠ superBit bit := by
  unfold superBit SUPERPAGE_BITMAP
  omega

variable {m : Vaddm} {bit c : Nat}

theorem vaddm_set_bit_eq (h : bit ≤ 32768 * 32) :
    vaddm_set_bit m bit = if check_super_region (Bitmap.set m bit) bit then
      Bitmap.set (Bitmap.set m bit) (superBit bit) else Bitmap.set m bit := by
  unfold vaddm_set_bit
  rw [if_neg (by omega)]
  simp only [set_page_word, set_superpage_word, page_bitmap, superpage_bitmap, Bitmap.shift5, shift10,
    shift15, Bitmap.mask5, Bitmap.set, superBit_div, superBit_mod]

theorem vaddm_clear_bit_eq (h : bit ≤ 32768 * 32) :
    vaddm_clear_bit m bit = Bitmap.clear (Bitmap.clear m bit) (superBit bit) := by
  unfold vaddm_clear_bit
  rw [if_neg (by omega)]
  simp only [set_page_word, set_superpage_word, page_bitmap, superpage_bitmap, Bitmap.shift5, shift10,
    shift15, Bitmap.mask5, Bitmap.clear, superBit_div, superBit_mod]

theorem vaddm_get_bit_eq_zero : vaddm_get_bit m bit = 0#32 ↔ FreePage m bit := by
  unfold vaddm_get_bit FreePage Allocated
  by_cases h : bit > 32768 * 32
  · rw [if_pos h]
    exact ⟨fun h1 => absurd h1 (by decide), fun h1 => by omega⟩
  · rw [if_neg h, Bitmap.mask5, Bitmap.shift5, page_bitmap,
      Bitmap.and_mask_eq_zero_iff (Nat.mod_lt _ (by decide))]
    simp [Bitmap.test, Nat.le_of_not_lt h]

/-- Setting a bit: that page becomes allocated and no other page changes. -/
theorem allocated_set_bit (hc : c ≤ 32768 * 32) :
    Allocated (vaddm_set_bit m bit) c ↔ Allocated m c ∨ c = bit := by
  by_cases h : bit ≤ 32768 * 32
  · rw [vaddm_set_bit_eq h]
    split
    · simp [Allocated, Bitmap.test_set, ne_superBit bit hc]
    · simp [Allocated, Bitmap.test_set]
  · rw [vaddm_set_bit, if_pos (by omega)]
    exact ⟨.inl, fun h1 => h1.resolve_right (by omega)⟩

/-- Clearing a bit: that page becomes free and no other page changes. -/
theorem allocated_clear_bit (hc : c ≤ 32768 * 32) :
    Allocated (vaddm_clear_bit m bit) c ↔ Allocated m c ∧ c ≠ bit := by
  by_cases h : bit ≤ 32768 * 32
  · rw [vaddm_clear_bit_eq h]
    simp [Allocated, Bitmap.test_clear, ne_superBit bit hc]
  · rw [vaddm_clear_bit, if_pos (by omega)]
    exact ⟨fun h1 => ⟨h1, by omega⟩, fun h1 => h1.1⟩

/-- The pages of a full word are allocated. -/
theorem allocated_of_word_full (h : page_bitmap m (c / 32) = 0xFFFFFFFF#32) : Allocated m c :=
  Bitmap.test_of_word_full (by decide) h

/-- A word is full if its pages are allocated. -/
theorem word_full_of_allocated {pg : Nat} (h : ∀ c, c / 32 = pg → Allocated m c) :
    page_bitmap m pg = 0xFFFFFFFF#32 :=
  (Bitmap.word_full_iff (by decide)).mpr h

/-- The window of `check_super_region` starts at the word of the page, not at its superpage. -/
theorem window_start (h : bit < 2 ^ 32) : (bit &&& 0xFFFFFFE0) >>> 5 = bit / 32 := by
  rw [Nat.shiftRight_and_distrib, Bitmap.shift5, show (0xFFFFFFE0 : Nat) >>> 5 = 2 ^ 27 - 1 by decide,
    Nat.and_two_pow_sub_one_eq_mod]
  omega

end Condor.Vmm
