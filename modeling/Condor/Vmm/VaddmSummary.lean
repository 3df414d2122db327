import Condor.Lib.Runs
import Condor.Vmm.VaddmReach

/-!
# The superpage summary

A bit of `superpage_bitmap` should stand for 1024 allocated pages. Clearing a page
clears its bit as well, so only two things go wrong. `vaddm_init` leaves the bitmap
as the frames come (`InitOk`), and the check that sets a bit looks at the 32 words
from the changed one on, which are the superpage's own only for its first word
(`MarksOk`). `summary_iff` is about whole runs.
-/

namespace Condor.Vmm

open Lib

/-- The calls of the virtual address manager after `vaddm_init`. -/
inductive VaddmCall where
  | vmalloc (n : Nat)
  | vfree (a n : Nat)
  | set_region (base size : Nat)
  | clear_region (base size : Nat)

def exec (m : Vaddm) : VaddmCall → Vaddm
  | .vmalloc n => (vmalloc m n).2
  | .vfree a n => vfree m a n
  | .set_region base size => vaddm_set_region m base size
  | .clear_region base size => vaddm_clear_region m base size

/-- Bit `j` of `superpage_bitmap` is set. -/
def Summarised (m : Vaddm) (j : Nat) : Prop := (superpage_bitmap m (j / 32)).getLsbD (j % 32) = true

/-- A superpage whose bit is set has no free page, and the search skips no superpage that has one. -/
structure Summarises (m : Vaddm) : Prop where
  allocated : ∀ j < 1024, Summarised m j → ∀ c, c / 1024 = j → Allocated m c
  visited : ∀ c < 2 ^ 20, ¬ Allocated m c → superpage_bitmap m (c / 32768) ≠ 0xFFFFFFFF#32 ∧
    superpage_bitmap m (c / 32768) &&& 1#32 <<< (c / 1024 % 32) = 0#32

/-- The 32 words from the one of page `bit` on are full once the pages from `lo` to `bit` are
allocated. -/
def WindowFull (m : Vaddm) (lo bit : Nat) : Prop :=
  ∀ c, 32 * (bit / 32) ≤ c → c < 32 * (bit / 32) + 1024 → Allocated m c ∨ lo ≤ c ∧ c ≤ bit

/-- Where marking the pages from `lo` to `hi` fills a window, the superpage of the page has no free page
when the call is done. -/
def MarksOk (m : Vaddm) (lo hi : Nat) (after : Nat → Prop) : Prop :=
  ∀ bit, lo ≤ bit → bit < hi → WindowFull m lo bit → ∀ c, c / 1024 = bit / 1024 → after c

def StepOk (m : Vaddm) : VaddmCall → Prop
  | .vmalloc n => ∀ b, vaddm_get_first_clear_bits m n = some b →
      MarksOk m b (b + n) fun c => Allocated m c ∨ b ≤ c ∧ c < b + n
  | .set_region base size => 1 ≤ size →
      MarksOk m (base / 4096) ((size + 0xFFF) % 2 ^ 32 / 4096) fun c =>
        c = 0 ∨ Allocated m c ∨ Visits base size c
  | .vfree _ _ => True
  | .clear_region _ _ => True

/-- The bits that are set before `vaddm_init` are of superpages that it reserves. -/
def InitOk (m : Vaddm) (kvb : Nat) : Prop :=
  ∀ j < 1024, Summarised m j → ∀ c, c / 1024 = j →
    c < 256 ∨ 1 ≤ 0xFFFFFFFF - kvb ∧ Visits kvb (0xFFFFFFFF - kvb) c

variable {m m' : Vaddm} {lo hi bit c j n b : Nat}

theorem summarised_iff : Summarised m j ↔ Bitmap.test m (32 * SUPERPAGE_BITMAP + j) = true := by
  unfold Summarised Bitmap.test superpage_bitmap
  rw [show (32 * SUPERPAGE_BITMAP + j) / 32 = SUPERPAGE_BITMAP + j / 32 by omega,
    show (32 * SUPERPAGE_BITMAP + j) % 32 = j % 32 by omega]

/-- What the summary says of superpages, it says of the search. -/
theorem summarises_iff :
    Summarises m ↔ ∀ j < 1024, Summarised m j → ∀ c, c / 1024 = j → Allocated m c := by
  refine ⟨Summarises.allocated, fun h => ⟨h, fun c hc hfree => ?_⟩⟩
  have hclear : ¬ Summarised m (c / 1024) := fun hs => hfree (h _ (by omega) hs c rfl)
  unfold Summarised at hclear
  rw [Nat.div_div_eq_div_mul, Bool.not_eq_true] at hclear
  refine ⟨fun hfull => ?_, (Bitmap.and_mask_eq_zero_iff (Nat.mod_lt _ (by decide))).mpr hclear⟩
  rw [hfull, show 0xFFFFFFFF#32 = BitVec.allOnes 32 from rfl, BitVec.getLsbD_allOnes] at hclear
  exact absurd (Nat.mod_lt _ (by decide)) (of_decide_eq_false hclear)

/-! ## One page -/

theorem allocated_set_bit_within (hbit : bit ≤ 32768 * 32) (hc : c < 32 * SUPERPAGE_BITMAP) :
    Allocated (vaddm_set_bit m bit) c ↔ Allocated m c ∨ c = bit := by
  have hne : c ≠ superBit bit := by
    unfold superBit
    omega
  rw [vaddm_set_bit_eq hbit]
  split
  · simp [Allocated, Bitmap.test_set, hne]
  · simp [Allocated, Bitmap.test_set]

/-- The check of the window. -/
theorem check_super_region_iff (hbit : bit ≤ 32768 * 32) : check_super_region m bit = true ↔
    ∀ c, 32 * (bit / 32) ≤ c → c < 32 * (bit / 32) + 1024 → Allocated m c := by
  unfold check_super_region
  rw [window_start (by omega), List.all_eq_true]
  simp only [List.mem_range, beq_iff_eq]
  constructor
  · intro h c h1 h2
    have hword := h (c / 32 - bit / 32) (by omega)
    rw [show bit / 32 + (c / 32 - bit / 32) = c / 32 by omega] at hword
    exact allocated_of_word_full hword
  · intro h off hoff
    exact word_full_of_allocated fun c hc => h c (by omega) (by omega)

theorem summarised_set_bit (hbit : bit ≤ 32768 * 32) : Summarised (vaddm_set_bit m bit) j ↔
    Summarised m j ∨ check_super_region (Bitmap.set m bit) bit = true ∧ j = bit / 1024 := by
  have hne : 32 * SUPERPAGE_BITMAP + j ≠ bit := by
    unfold SUPERPAGE_BITMAP
    omega
  have hsuper : 32 * SUPERPAGE_BITMAP + j = superBit bit ↔ j = bit / 1024 := by
    unfold superBit
    omega
  rw [summarised_iff, summarised_iff, vaddm_set_bit_eq hbit]
  split <;> simp [Bitmap.test_set, *]

theorem summarised_clear_bit (hbit : bit ≤ 32768 * 32) :
    Summarised (vaddm_clear_bit m bit) j ↔ Summarised m j ∧ j ≠ bit / 1024 := by
  have hne : 32 * SUPERPAGE_BITMAP + j ≠ bit := by
    unfold SUPERPAGE_BITMAP
    omega
  have hsuper : 32 * SUPERPAGE_BITMAP + j = superBit bit ↔ j = bit / 1024 := by
    unfold superBit
    omega
  rw [summarised_iff, summarised_iff, vaddm_clear_bit_eq hbit]
  simp [Bitmap.test_clear, hne, hsuper]

theorem summarised_set_first :
    Summarised (set_page_word m 0 (page_bitmap m 0 ||| 1#32)) j ↔ Summarised m j := by
  have hne : SUPERPAGE_BITMAP + j / 32 ≠ 0 := by
    unfold SUPERPAGE_BITMAP
    omega
  unfold Summarised superpage_bitmap set_page_word
  rw [Function.update_of_ne hne]

/-! ## The loops -/

/-- What marking the pages from `lo` to `hi` leaves in both bitmaps. -/
theorem set_loop_spec (m : Vaddm) (lo : Nat) (hhi : hi ≤ 32768 * 32) :
    (∀ c < 32 * SUPERPAGE_BITMAP, Allocated (loop lo hi m fun bit m => vaddm_set_bit m bit) c ↔
      Allocated m c ∨ lo ≤ c ∧ c < hi) ∧
    ∀ j, Summarised (loop lo hi m fun bit m => vaddm_set_bit m bit) j ↔
      Summarised m j ∨ ∃ bit, lo ≤ bit ∧ bit < hi ∧ WindowFull m lo bit ∧ j = bit / 1024 := by
  by_cases hle : lo ≤ hi
  · refine loop_inv (I := fun i t => (∀ c < 32 * SUPERPAGE_BITMAP, Allocated t c ↔
        Allocated m c ∨ lo ≤ c ∧ c < i) ∧ ∀ j, Summarised t j ↔
          Summarised m j ∨ ∃ bit, lo ≤ bit ∧ bit < i ∧ WindowFull m lo bit ∧ j = bit / 1024) hle
      ⟨fun c _ => (or_iff_left (by omega)).symm, fun j => (or_iff_left ?_).symm⟩
      fun i t h1 h2 ⟨hpages, hsuper⟩ => ⟨fun c hc => ?_, fun j => ?_⟩
    · rintro ⟨bit, h1, h2, -⟩
      omega
    · rw [allocated_set_bit_within (by omega) hc, hpages c hc, or_assoc]
      exact or_congr_right (by omega)
    · have hwindow : check_super_region (Bitmap.set t i) i = true ↔ WindowFull m lo i := by
        rw [check_super_region_iff (by omega)]
        refine forall_congr' fun c => forall_congr' fun _ => forall_congr' fun hc => ?_
        show Bitmap.test (Bitmap.set t i) c = true ↔ _
        rw [Bitmap.test_set (by decide), Bool.or_eq_true, decide_eq_true_iff]
        rw [show Bitmap.test t c = true ↔ _ from hpages c (by unfold SUPERPAGE_BITMAP; omega), or_assoc]
        exact or_congr_right (by omega)
      rw [summarised_set_bit (by omega), hsuper, hwindow, or_assoc]
      refine or_congr_right ⟨?_, ?_⟩
      · rintro (⟨bit, hlo, hlt, hfull, rfl⟩ | ⟨hfull, rfl⟩)
        · exact ⟨bit, hlo, by omega, hfull, rfl⟩
        · exact ⟨i, h1, by omega, hfull, rfl⟩
      · rintro ⟨bit, hlo, hlt, hfull, rfl⟩
        by_cases hi : bit = i
        · subst hi
          exact .inr ⟨hfull, rfl⟩
        · exact .inl ⟨bit, hlo, by omega, hfull, rfl⟩
  · rw [loop_of_le (by omega)]
    refine ⟨fun c _ => (or_iff_left (by omega)).symm, fun j => (or_iff_left ?_).symm⟩
    rintro ⟨bit, h1, h2, -⟩
    omega

/-- Marking pages keeps the summary right exactly if it is `MarksOk`; `after` is what is allocated when
the call is done. -/
theorem summarises_marks_iff {after : Nat → Prop} (hm : Summarises m) (hhi : hi ≤ 32768 * 32)
    (hsuper : ∀ j, Summarised m' j ↔ Summarised (loop lo hi m fun bit m => vaddm_set_bit m bit) j)
    (hafter : ∀ c < 2 ^ 20, Allocated m' c ↔ after c) (hkeep : ∀ c, Allocated m c → after c) :
    Summarises m' ↔ MarksOk m lo hi after := by
  have hspec := (set_loop_spec m lo hhi).2
  rw [summarises_iff]
  constructor
  · intro h bit h1 h2 hfull c hc
    have hs : Summarised m' (bit / 1024) := (hsuper _).mpr
      ((hspec _).mpr (.inr ⟨bit, h1, h2, hfull, rfl⟩))
    exact (hafter c (by omega)).mp (h _ (by omega) hs c hc)
  · intro h j hj hs c hc
    refine (hafter c (by omega)).mpr ?_
    rcases (hspec j).mp ((hsuper j).mp hs) with hs | ⟨bit, h1, h2, hfull, rfl⟩
    · exact hkeep c (hm.allocated j hj hs c hc)
    · exact h bit h1 h2 hfull c hc

/-- The bits of the summary that a region sets. -/
theorem summarised_set_region (m : Vaddm) (base size j : Nat) :
    Summarised (vaddm_set_region m base size) j ↔ Summarised m j ∨
      1 ≤ size ∧ ∃ bit, Visits base size bit ∧ WindowFull m (base / 4096) bit ∧ j = bit / 1024 := by
  by_cases hsize : 1 ≤ size
  · unfold vaddm_set_region Visits
    rw [if_neg (by omega), and_iff_right hsize]
    simp only [Nat.shiftRight_eq_div_pow]
    rw [summarised_set_first, (set_loop_spec m _ (by omega)).2]
    simp only [and_assoc]
  · have hsame : vaddm_set_region m base size = m := if_pos (by omega)
    rw [hsame]
    exact (or_iff_left fun h => hsize h.1).symm

theorem Summarises.clear_bit (h : Summarises m) (bit : Nat) : Summarises (vaddm_clear_bit m bit) := by
  by_cases hbit : bit ≤ 32768 * 32
  · refine summarises_iff.mpr fun j hj hs c hc => ?_
    obtain ⟨hs, hne⟩ := (summarised_clear_bit hbit).mp hs
    rw [allocated_clear_bit (by omega)]
    refine ⟨h.allocated j hj hs c hc, ?_⟩
    rintro rfl
    exact hne hc.symm
  · rwa [vaddm_clear_bit, if_pos (by omega)]

theorem Summarises.clear_loop (h : Summarises m) (lo hi : Nat) :
    Summarises (loop lo hi m fun bit m => vaddm_clear_bit m bit) :=
  loop_keeps h fun bit _ _ _ ht => ht.clear_bit bit

theorem Summarises.set_first (h : Summarises m) :
    Summarises (set_page_word m 0 (page_bitmap m 0 ||| 1#32)) :=
  summarises_iff.mpr fun j hj hs c hc =>
    allocated_set_first.mpr (.inr (h.allocated j hj (summarised_set_first.mp hs) c hc))

/-! ## Runs -/

theorem summarised_clear_page_bitmap : Summarised (clear_page_bitmap m) j ↔ Summarised m j := by
  unfold Summarised superpage_bitmap clear_page_bitmap
  rw [if_neg (by unfold SUPERPAGE_BITMAP; omega)]

/-- A window that the first megabyte fills up is followed by the rest of its superpage. -/
theorem superpage_of_window (hbit : bit < 256) (hfull : WindowFull m 0 bit) (hc : c / 1024 = bit / 1024) :
    c < 256 ∨ Allocated m c := by
  by_cases h : c < 256
  · exact .inl h
  · exact .inr ((hfull c (by omega) (by omega)).resolve_right (by omega))

theorem summarises_init_iff (m : Vaddm) (kvb : Nat) : Summarises (vaddm_init m kvb) ↔ InitOk m kvb := by
  have hbits (j : Nat) : Summarised (vaddm_init m kvb) j ↔
      (Summarised m j ∨ 1 ≤ 0xFFFFFFFF - kvb ∧ ∃ bit, Visits kvb (0xFFFFFFFF - kvb) bit ∧
        WindowFull (clear_page_bitmap m) (kvb / 4096) bit ∧ j = bit / 1024) ∨
      1 ≤ 0x100000 ∧ ∃ bit, Visits 0 0x100000 bit ∧
        WindowFull (vaddm_set_region (clear_page_bitmap m) kvb (0xFFFFFFFF - kvb)) (0 / 4096) bit ∧
        j = bit / 1024 := by
    unfold vaddm_init
    simp only [summarised_set_first, summarised_set_region, summarised_clear_page_bitmap]
  rw [summarises_iff]
  constructor
  · intro h j hj hs c hc
    exact (allocated_init m kvb (by omega)).mp (h j hj ((hbits j).mpr (.inl (.inl hs))) c hc)
  · intro h j hj hs c hc
    refine (allocated_init m kvb (by omega)).mpr ?_
    rcases (hbits j).mp hs with (hs | ⟨-, bit, hvisit, hfull, rfl⟩) | ⟨-, bit, hvisit, hfull, rfl⟩
    · exact h j hj hs c hc
    · -- the last page of the window is neither allocated before nor marked yet
      unfold Visits at hvisit
      rcases hfull (32 * (bit / 32) + 1023) (by omega) (by omega) with hlast | hlast
      · exact absurd hlast (allocated_clear_page_bitmap (by unfold SUPERPAGE_BITMAP; omega))
      · omega
    · have hbit : bit < 256 := by
        unfold Visits at hvisit
        omega
      rcases superpage_of_window hbit hfull hc with hlt | hpage
      · exact .inl hlt
      · rw [allocated_set_region_le _ _ (by omega)] at hpage
        have hclear : ¬ Allocated (clear_page_bitmap m) c :=
          allocated_clear_page_bitmap (by unfold SUPERPAGE_BITMAP; omega)
        obtain ⟨hsize, rfl | hvisit⟩ := hpage.resolve_left hclear
        · exact .inl (by decide)
        · exact .inr ⟨hsize, hvisit⟩

theorem search_range (hs : vaddm_get_first_clear_bits m n = some b) : 1 ≤ n ∧ b < 1024 ∧
    n ≤ 32 * 1024 := by
  have hn : 1 ≤ n := by
    by_contra h0
    rw [vaddm_get_first_clear_bits, if_pos (by omega)] at hs
    cases hs
  obtain ⟨w, hw, hb⟩ := (search_eq_some hn).mp hs
  exact ⟨hn, hw.lt (List.mem_of_mem_head? hb), hw.le⟩

theorem summarises_vmalloc_iff (hm : Summarises m) (n : Nat) :
    Summarises (vmalloc m n).2 ↔ StepOk m (.vmalloc n) := by
  cases hs : vaddm_get_first_clear_bits m n with
  | none =>
    have hsame : (vmalloc m n).2 = m := by
      unfold vmalloc
      rw [hs]
      split <;> rfl
    rw [hsame]
    exact iff_of_true hm fun b hb => by rw [hs] at hb; cases hb
  | some b =>
    obtain ⟨hn, hb, hle⟩ := search_range hs
    have hstep : StepOk m (.vmalloc n) ↔ MarksOk m b (b + n) fun c => Allocated m c ∨ b ≤ c ∧
      c < b + n := by
      refine ⟨fun h => h b hs, fun h b' hb' => ?_⟩
      cases hs.symm.trans hb'
      exact h
    rw [hstep, vmalloc_of_some hn hs hb hle]
    exact summarises_marks_iff hm (by omega) (fun _ => Iff.rfl)
      (fun c hc => allocated_set_loop _ _ (by omega)) fun _ => .inl

theorem summarises_set_region_iff (hm : Summarises m) (base size : Nat) :
    Summarises (vaddm_set_region m base size) ↔ StepOk m (.set_region base size) := by
  by_cases hsize : 1 ≤ size
  · have hstep : StepOk m (.set_region base size) ↔
        MarksOk m (base / 4096) ((size + 0xFFF) % 2 ^ 32 / 4096) fun c =>
          c = 0 ∨ Allocated m c ∨ Visits base size c := ⟨fun h => h hsize, fun h _ => h⟩
    rw [hstep]
    refine summarises_marks_iff hm (by omega) (fun j => ?_)
      (fun c hc => allocated_set_region hsize (by omega)) fun _ h => .inr (.inl h)
    unfold vaddm_set_region
    rw [if_neg (by omega)]
    simp only [Nat.shiftRight_eq_div_pow]
    exact summarised_set_first
  · have hsame : vaddm_set_region m base size = m := if_pos (by omega)
    rw [hsame]
    exact iff_of_true hm fun h => absurd h hsize

/-- A call keeps the summary right exactly if it is `StepOk`. -/
theorem summarises_exec_iff (m : Vaddm) (call : VaddmCall) (hm : Summarises m) :
    Summarises (exec m call) ↔ StepOk m call := by
  cases call with
  | vmalloc n => exact summarises_vmalloc_iff hm n
  | set_region base size => exact summarises_set_region_iff hm base size
  | vfree a n =>
    refine iff_of_true ?_ trivial
    show Summarises (vfree m a n)
    unfold vfree
    split
    · exact hm
    · exact hm.clear_loop _ _
  | clear_region base size =>
    refine iff_of_true ?_ trivial
    show Summarises (vaddm_clear_region m base size)
    unfold vaddm_clear_region
    split
    · exact hm
    · exact (hm.clear_loop _ _).set_first

/-- **The summary** is right in every state of a run exactly if `vaddm_init` finds it right and every
call is `StepOk`. -/
theorem summary_iff (m : Vaddm) (kvb : Nat) (calls : List VaddmCall) :
    Always exec Summarises (vaddm_init m kvb) calls ↔
      InitOk m kvb ∧ Under exec StepOk (vaddm_init m kvb) calls := by
  rw [always_iff summarises_exec_iff, summarises_init_iff]

/-- Frames that come full of ones: page 256 is free and its superpage's bit is set. With empty ones, two
regions of pages from 320 to 1311 and from 288 on set the bit of the superpage of page 256. -/
theorem summary_wrong : ¬ Summarises (vaddm_init (fun _ => 0xFFFFFFFF#32) 0) ∧
    ¬ Always exec Summarises (vaddm_init (fun _ => 0) 0)
      [.set_region 0x140000 0x520000, .set_region 0x120000 0x140000] := by
  have hfree (m : Vaddm) : ¬ Allocated (vaddm_init m 0) 256 := by
    rw [allocated_init m 0 (by decide)]
    rintro (h | ⟨-, h⟩)
    · exact absurd h (by decide)
    · exact absurd h.2 (by decide)
  refine ⟨fun h => ?_, fun h => ?_⟩
  · rw [summarises_init_iff] at h
    rcases h 0 (by decide) (show (0xFFFFFFFF#32).getLsbD 0 = true by decide) 256 rfl with h | ⟨-, h⟩
    · exact absurd h (by decide)
    · exact absurd h.2 (by decide)
  · obtain ⟨-, h1, h2⟩ := h
    have hmarks : StepOk _ (.set_region 0x120000 0x140000) := (summarises_set_region_iff h1 _ _).mp h2
    have hpages : ∀ c ≤ 32768 * 32,
        Allocated (exec (vaddm_init (fun _ => 0) 0) (.set_region 0x140000 0x520000)) c ↔
          c = 0 ∨ Allocated (vaddm_init (fun _ => 0) 0) c ∨ 320 ≤ c ∧ c < 1312 :=
      fun c hc => allocated_set_region (by decide) hc
    have hwindow : WindowFull (exec (vaddm_init (fun _ => 0) 0) (.set_region 0x140000 0x520000)) 288 319 := by
      intro c h1 h2
      rw [hpages c (by omega)]
      omega
    rcases hmarks (by decide) 319 (by decide) (by decide) hwindow 256 rfl with h | h | h
    · cases h
    · rcases (hpages 256 (by decide)).mp h with h | h | h
      · cases h
      · exact hfree _ h
      · exact absurd h.1 (by decide)
    · exact absurd h.1 (by decide)

end Condor.Vmm
