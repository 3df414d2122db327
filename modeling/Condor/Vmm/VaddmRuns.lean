import Condor.Vmm.VaddmSearch

/-!
# Whether `vmalloc` hands out free pages

A range starts at the first page of the run that the search counts. It is free
exactly if no word the search skipped as full lies in it and no page past 1023,
where the search turns back, is allocated in it (`CountedRun.free_iff`). In runs
whose calls meet that, outstanding ranges stay apart.
-/

namespace Condor.Vmm

open Lib

/-- Page `c` belongs to the range `r`: an address and a number of pages. -/
def Held (r : Nat × Nat) (c : Nat) : Prop :=
  r.1 ≠ NO_ADDRESS ∧ r.1 / 4096 ≤ c ∧ c < r.1 / 4096 + r.2

/-- Two ranges that share no page. -/
def Apart (r r' : Nat × Nat) : Prop := ∀ c, Held r c → ¬ Held r' c

/-- No full word below page 1024, and no allocated page from there on, within `w.length` pages from
the first page of `w`. -/
def Unbroken (m : Vaddm) (w : List Nat) : Prop :=
  ∀ b, w.head? = some b → ∀ c, b ≤ c → c < b + w.length →
    (c < 1024 → page_bitmap m (c / 32) ≠ 0xFFFFFFFF#32) ∧ (1024 ≤ c → ¬ Allocated m c)

/-- The run that the search counts is unbroken. -/
def VmallocOk (m : Vaddm) (n : Nat) : Prop := ∀ w, CountedRun m n w → Unbroken m w

inductive VaddmOp where
  | vmalloc (n : Nat)
  | vfree (a n : Nat)

/-- An allocation is `VmallocOk`; a free names an outstanding range, or touches none. -/
def VaddmOk (m : Vaddm) (live : List (Nat × Nat)) : VaddmOp → Prop
  | .vmalloc n => VmallocOk m n
  | .vfree a n => (a, n) ∈ live ∨ ∀ r ∈ live, Apart (a, n) r

/-- Runs from `vaddm_init` whose calls all meet `C`, with the ranges `vmalloc` answered and those of
them that are outstanding. -/
inductive VaddmRun (C : Vaddm → List (Nat × Nat) → VaddmOp → Prop) :
    Vaddm → List (Nat × Nat) → List (Nat × Nat) → Prop
  | init {m kvb} (hsuper : ∀ i < 32, superpage_bitmap m i = 0#32) : VaddmRun C (vaddm_init m kvb) [] []
  | vmalloc {m ranges live} (hrun : VaddmRun C m ranges live) (n) (hc : C m live (.vmalloc n)) :
      VaddmRun C (vmalloc m n).2 (((vmalloc m n).1, n) :: ranges) (((vmalloc m n).1, n) :: live)
  | vfree {m ranges live a n} (hrun : VaddmRun C m ranges live) (hmem : (a, n) ∈ ranges)
      (hc : C m live (.vfree a n)) : VaddmRun C (vfree m a n) ranges (live.erase (a, n))

variable {m : Vaddm} {n b c : Nat} {w : List Nat}

/-! ## One call -/

/-- The range from the first page counted is free exactly if the run is unbroken. -/
theorem CountedRun.free_iff (hw : CountedRun m n w) (hb : w.head? = some b) :
    (∀ c, b ≤ c → c < b + n → FreePage m c) ↔ Unbroken m w := by
  have hlen : w.length = n := Scan.FirstRun.length hw
  have hlt := hw.lt (List.mem_of_mem_head? hb)
  have hn := hw.le
  constructor
  · intro hfree b' hb' c h1 h2
    rw [hb] at hb'
    cases hb'
    have hc := (hfree c h1 (by omega)).2
    exact ⟨fun _ hfull => hc (allocated_of_word_full hfull), fun _ => hc⟩
  · intro hu c h1 h2
    by_cases hc : c < 1024
    · -- up to page 1024 the run has every page of the range
      have hget := hw.getElem?_eq hb (j := c - b) (by omega) (by omega) fun d hd1 hd2 =>
        (hu b hb d hd1 (by omega)).1 (by omega)
      rw [show b + (c - b) = c by omega] at hget
      exact hw.freePage (List.mem_of_getElem? hget)
    · exact ⟨by omega, (hu b hb c h1 (by omega)).2 (by omega)⟩

theorem vmalloc_of_none (hn : 1 ≤ n) (h : ∀ w, ¬ CountedRun m n w) : vmalloc m n = (NO_ADDRESS, m) := by
  unfold vmalloc
  rw [if_neg (by omega), search_eq_none hn |>.mpr h]

theorem vmalloc_of_some (hn : 1 ≤ n) (hs : vaddm_get_first_clear_bits m n = some b) (hb : b < 1024)
    (hle : n ≤ 32 * 1024) :
    vmalloc m n = (b * 4096, loop b (b + n) m fun bit m => vaddm_set_bit m bit) := by
  unfold vmalloc
  rw [if_neg (by omega), hs]
  simp only [Nat.shiftLeft_eq]
  rw [Nat.mod_eq_of_lt (by omega), Nat.mod_eq_of_lt (by omega), Nat.add_comm n b]

/-- What a successful search makes of `vmalloc`. -/
theorem CountedRun.vmalloc_eq (hw : CountedRun m n w) (hn : 1 ≤ n) (hb : w.head? = some b) :
    vmalloc m n = (b * 4096, loop b (b + n) m fun bit m => vaddm_set_bit m bit) :=
  vmalloc_of_some hn ((search_eq_some hn).mpr ⟨w, hw, hb⟩) (hw.lt (List.mem_of_mem_head? hb)) hw.le

theorem CountedRun.exists_head (hw : CountedRun m n w) (hn : 1 ≤ n) : ∃ b, w.head? = some b := by
  have hlen : w.length = n := Scan.FirstRun.length hw
  cases w with
  | nil =>
    rw [List.length_nil] at hlen
    omega
  | cons x _ => exact ⟨x, rfl⟩

theorem held_range (hb : b < 1024) : Held (b * 4096, n) c ↔ b ≤ c ∧ c < b + n := by
  unfold Held NO_ADDRESS
  rw [Nat.mul_div_cancel b (by decide)]
  exact and_iff_right (by omega)

/-- **The pages `vmalloc` answers were free exactly if the call is `VmallocOk`.** -/
theorem vmalloc_free_iff (hn : 1 ≤ n) :
    (∀ c, Held ((vmalloc m n).1, n) c → FreePage m c) ↔ VmallocOk m n := by
  by_cases hex : ∃ w, CountedRun m n w
  · obtain ⟨w, hw⟩ := hex
    obtain ⟨b, hb⟩ := hw.exists_head hn
    have hlt := hw.lt (List.mem_of_mem_head? hb)
    have hok : VmallocOk m n ↔ Unbroken m w :=
      ⟨fun h => h w hw, fun h w' hw' => by rwa [← Scan.FirstRun.unique hw hw']⟩
    rw [hw.vmalloc_eq hn hb, hok, ← hw.free_iff hb]
    simp only [held_range hlt, and_imp]
  · have hno : ∀ w, ¬ CountedRun m n w := fun w hw => hex ⟨w, hw⟩
    rw [vmalloc_of_none hn hno]
    exact ⟨fun _ w hw => absurd hw (hno w), fun _ c hc => absurd rfl hc.1⟩

/-! ## The marking loops -/

theorem allocated_set_loop (lo hi : Nat) (hc : c ≤ 32768 * 32) :
    Allocated (loop lo hi m fun bit m => vaddm_set_bit m bit) c ↔ Allocated m c ∨ lo ≤ c ∧ c < hi := by
  by_cases hle : lo ≤ hi
  · refine loop_inv (I := fun i t => Allocated t c ↔ Allocated m c ∨ lo ≤ c ∧ c < i) hle
      ⟨.inl, fun h => h.resolve_right (by omega)⟩ fun i t h1 _ ih => ?_
    rw [allocated_set_bit hc, ih, or_assoc]
    exact or_congr_right (by omega)
  · rw [loop_of_le (by omega)]
    exact ⟨.inl, fun h => h.resolve_right (by omega)⟩

theorem allocated_clear_loop (lo hi : Nat) (hc : c ≤ 32768 * 32) :
    Allocated (loop lo hi m fun bit m => vaddm_clear_bit m bit) c ↔
      Allocated m c ∧ ¬ (lo ≤ c ∧ c < hi) := by
  by_cases hle : lo ≤ hi
  · refine loop_inv (I := fun i t => Allocated t c ↔ Allocated m c ∧ ¬ (lo ≤ c ∧ c < i)) hle
      ⟨fun h => ⟨h, by omega⟩, And.left⟩ fun i t h1 _ ih => ?_
    rw [allocated_clear_bit hc, ih, and_assoc]
    exact and_congr_right fun _ => by omega
  · rw [loop_of_le (by omega)]
    exact ⟨fun h => ⟨h, by omega⟩, And.left⟩

theorem CountedRun.allocated_vmalloc (hw : CountedRun m n w) (hn : 1 ≤ n) (hb : w.head? = some b)
    (hc : c ≤ 32768 * 32) :
    Allocated (vmalloc m n).2 c ↔ Allocated m c ∨ b ≤ c ∧ c < b + n := by
  rw [hw.vmalloc_eq hn hb]
  exact allocated_set_loop b (b + n) hc

/-- An allocation keeps what is allocated, and allocates its own range. -/
theorem allocated_vmalloc (n : Nat) :
    (∀ c ≤ 32768 * 32, Allocated m c → Allocated (vmalloc m n).2 c) ∧
      ∀ c, Held ((vmalloc m n).1, n) c → c ≤ 32768 * 32 ∧ Allocated (vmalloc m n).2 c := by
  rcases Nat.eq_zero_or_pos n with rfl | hn
  · exact ⟨fun c _ h => h, fun c hc => by
      have := hc.2
      omega⟩
  · by_cases hex : ∃ w, CountedRun m n w
    · obtain ⟨w, hw⟩ := hex
      obtain ⟨b, hb⟩ := hw.exists_head hn
      have hlt := hw.lt (List.mem_of_mem_head? hb)
      have hle := hw.le
      refine ⟨fun c hc h => (hw.allocated_vmalloc hn hb hc).mpr (.inl h), fun c hc => ?_⟩
      rw [hw.vmalloc_eq hn hb, held_range hlt] at hc
      exact ⟨by omega, (hw.allocated_vmalloc hn hb (by omega)).mpr (.inr hc)⟩
    · rw [vmalloc_of_none hn fun w hw => hex ⟨w, hw⟩]
      exact ⟨fun c _ h => h, fun c hc => absurd rfl hc.1⟩

/-- A free only frees pages of the range it names. -/
theorem allocated_vfree {a : Nat} (hc : c ≤ 32768 * 32) (h : Allocated m c) (hout : ¬ Held (a, n) c) :
    Allocated (vfree m a n) c := by
  unfold vfree
  split
  · exact h
  case isFalse hcond =>
    refine (allocated_clear_loop _ _ hc).mpr ⟨h, fun hin => hout ?_⟩
    rw [Nat.shiftRight_eq_div_pow] at hin
    have := Nat.mod_le (n + a / 2 ^ 12) (2 ^ 32)
    refine ⟨fun ha => hcond (.inr ha), hin.1, ?_⟩
    show c < a / 4096 + n
    omega

/-! ## Runs -/

variable {ranges live : List (Nat × Nat)}

/-- Outstanding ranges are allocated and share no page. -/
structure VaddmInv (m : Vaddm) (live : List (Nat × Nat)) : Prop where
  allocated : ∀ r ∈ live, ∀ c, Held r c → c ≤ 32768 * 32 ∧ Allocated m c
  apart : live.Pairwise Apart

theorem Apart.symm {r r' : Nat × Nat} (h : Apart r r') : Apart r' r := fun c hc hc' => h c hc' hc

/-- A range of free pages is apart from all outstanding ones. -/
theorem VaddmInv.apart_of_free (hi : VaddmInv m live) {r : Nat × Nat}
    (hfree : ∀ c, Held r c → FreePage m c) : ∀ r' ∈ live, Apart r r' := fun r' hr' c hc hc' =>
  (hfree c hc).2 (hi.allocated r' hr' c hc').2

theorem VaddmInv.vmalloc (hi : VaddmInv m live) (hok : VmallocOk m n) :
    VaddmInv (vmalloc m n).2 (((vmalloc m n).1, n) :: live) where
  allocated r hr c hc := by
    obtain ⟨hkeep, hnew⟩ := allocated_vmalloc (m := m) n
    rcases List.mem_cons.mp hr with rfl | hr
    · exact hnew c hc
    · obtain ⟨hlt, ha⟩ := hi.allocated r hr c hc
      exact ⟨hlt, hkeep c hlt ha⟩
  apart := by
    refine List.pairwise_cons.mpr ⟨fun r hr => ?_, hi.apart⟩
    rcases Nat.eq_zero_or_pos n with rfl | hn
    · exact fun c hc _ => by
        have := hc.2
        omega
    · exact hi.apart_of_free ((vmalloc_free_iff hn).mpr hok) r hr

theorem VaddmInv.vfree {a : Nat} (hi : VaddmInv m live)
    (hok : (a, n) ∈ live ∨ ∀ r ∈ live, Apart (a, n) r) :
    VaddmInv (vfree m a n) (live.erase (a, n)) where
  allocated r hr c hc := by
    have hmem := List.mem_of_mem_erase hr
    obtain ⟨hlt, ha⟩ := hi.allocated r hmem c hc
    refine ⟨hlt, allocated_vfree hlt ha fun hin => ?_⟩
    rcases hok with hlive | hout
    · have hperm := (List.perm_cons_erase hlive).pairwise_iff (R := Apart) Apart.symm |>.mp hi.apart
      exact (List.pairwise_cons.mp hperm).1 r hr c hin hc
    · exact hout r hmem c hin hc
  apart := hi.apart.sublist List.erase_sublist

theorem VaddmRun.inv (hrun : VaddmRun VaddmOk m ranges live) : VaddmInv m live := by
  induction hrun with
  | init _ => exact ⟨List.forall_mem_nil _, List.Pairwise.nil⟩
  | vmalloc _ n hc ih => exact ih.vmalloc hc
  | vfree _ _ hc ih => exact ih.vfree hc

theorem VaddmRun.mono {C C' : Vaddm → List (Nat × Nat) → VaddmOp → Prop} (h : ∀ m live op, C m live op → C' m live op)
    (hrun : VaddmRun C m ranges live) : VaddmRun C' m ranges live := by
  induction hrun with
  | init hsuper => exact .init hsuper
  | vmalloc _ n hc ih => exact ih.vmalloc n (h _ _ _ hc)
  | vfree _ hmem hc ih => exact ih.vfree hmem (h _ _ _ hc)

/-- **Virtual address allocations.** In a run whose calls have all been `VaddmOk`, the pages that
`vmalloc` answers were free exactly if the call is `VmallocOk`, and then the range is apart from
every outstanding one. -/
theorem vmalloc_ranges (hrun : VaddmRun VaddmOk m ranges live) (hn : 1 ≤ n) :
    ((∀ c, Held ((vmalloc m n).1, n) c → FreePage m c) ↔ VmallocOk m n) ∧
      ((∀ c, Held ((vmalloc m n).1, n) c → FreePage m c) →
        ∀ r ∈ live, Apart ((vmalloc m n).1, n) r) :=
  ⟨vmalloc_free_iff hn, hrun.inv.apart_of_free⟩

/-! ## Runs on the first words -/

/-- The page words below 32 are those of `l`, the last of them clear, and so is the first superpage
word. -/
structure Like (l m : Vaddm) : Prop where
  words : ∀ i < 32, m i = l i
  last : l 31 = 0#32
  super : superpage_bitmap m 0 = 0#32

variable {l l' : Vaddm}

theorem Like.congr (h : Like l m) (hl : ∀ i < 32, l i = l' i) : Like l' m :=
  ⟨fun i hi => (h.words i hi).trans (hl i hi), (hl 31 (by decide)).symm.trans h.last, h.super⟩

theorem Like.freePage (h : Like l m) (hc : c < 1024) : FreePage m c ↔ FreePage l c := by
  unfold FreePage Allocated Bitmap.test
  rw [h.words (c / 32) (by omega)]

/-- The search depends on these words only. -/
theorem Like.search_eq (h : Like l m) (h' : Like l l) (hn : n ≠ 0) :
    vaddm_get_first_clear_bits m n = vaddm_get_first_clear_bits l n := by
  have hwords : ∀ pg < 32, wordPages m pg = wordPages l pg := fun pg hpg => by
    unfold wordPages page_bitmap
    rw [h.words pg hpg]
  have hpages : searchPages m = searchPages l := by
    unfold searchPages
    rw [h.super, h'.super]
    congr 2
    funext s
    unfold passPages
    rw [h.super, h'.super]
    congr 1
    exact List.flatMap_congr fun pg hpg => hwords pg (by
      rw [List.mem_range'_1] at hpg
      omega)
  have hfree : ∀ c ∈ searchPages l, isFree m c = isFree l c := fun c hc =>
    decide_eq_decide.mpr (h.freePage (mem_searchPages hc).2)
  rw [Vmm.search_eq hn, Vmm.search_eq hn, hpages]
  exact congrArg _ (Scan.scan_congr fun c hc => hfree c (by simpa using hc))

theorem Like.set_bit (h : Like l m) {bit : Nat} (hbit : bit < 992) :
    Like (Bitmap.set l bit) (vaddm_set_bit m bit) := by
  have hword : bit / 32 < 31 := by omega
  have hset : ∀ i < 32, Bitmap.set m bit i = Bitmap.set l bit i := fun i hi => by
    unfold Bitmap.set Function.update
    rw [h.words i hi, h.words (bit / 32) (by omega)]
  have hlast : Bitmap.set l bit 31 = 0#32 := by
    unfold Bitmap.set
    rw [Function.update_of_ne (by omega), h.last]
  -- the window of 32 words always reaches the last word, which is clear
  have hcheck : check_super_region (Bitmap.set m bit) bit = false := by
    unfold check_super_region
    rw [window_start (by omega), List.all_eq_false]
    refine ⟨31 - bit / 32, by simp; omega, ?_⟩
    rw [show bit / 32 + (31 - bit / 32) = 31 by omega, page_bitmap, hset 31 (by decide), hlast]
    decide
  rw [vaddm_set_bit_eq (by omega), if_neg (by simp [hcheck])]
  refine ⟨hset, hlast, ?_⟩
  unfold superpage_bitmap Bitmap.set
  rw [Function.update_of_ne (by unfold SUPERPAGE_BITMAP; omega)]
  exact h.super

theorem Like.clear_bit (h : Like l m) {bit : Nat} (hbit : bit < 992) :
    Like (Bitmap.clear l bit) (vaddm_clear_bit m bit) := by
  have hclear : ∀ i < 32, Bitmap.clear m bit i = Bitmap.clear l bit i := fun i hi => by
    unfold Bitmap.clear Function.update
    rw [h.words i hi, h.words (bit / 32) (by omega)]
  have hsuper : ∀ k i, i ≠ k / 32 → ∀ m' : Vaddm, Bitmap.clear m' k i = m' i := fun k i hne m' =>
    Function.update_of_ne hne ..
  rw [vaddm_clear_bit_eq (by omega)]
  refine ⟨fun i hi => ?_, ?_, ?_⟩
  · rw [hsuper _ _ (by rw [superBit_div]; unfold SUPERPAGE_BITMAP; omega), hclear i hi]
  · rw [hsuper _ _ (by omega), h.last]
  · have hz : Bitmap.clear m bit SUPERPAGE_BITMAP = 0#32 := by
      rw [hsuper _ _ (by unfold SUPERPAGE_BITMAP; omega)]
      exact h.super
    unfold superpage_bitmap Bitmap.clear
    rw [superBit_div, show bit / 32768 = 0 by omega, Function.update_self]
    show Bitmap.clear m bit SUPERPAGE_BITMAP &&& _ = _
    rw [hz, BitVec.zero_and]

theorem Like.set_loop (h : Like l m) (lo : Nat) {hi : Nat} (hhi : hi ≤ 992) :
    Like (loop lo hi l fun bit l => Bitmap.set l bit)
      (loop lo hi m fun bit m => vaddm_set_bit m bit) :=
  loop_relates h fun _ _ _ _ hlt hlike => hlike.set_bit (by omega)

theorem Like.clear_loop (h : Like l m) (lo : Nat) {hi : Nat} (hhi : hi ≤ 992) :
    Like (loop lo hi l fun bit l => Bitmap.clear l bit)
      (loop lo hi m fun bit m => vaddm_clear_bit m bit) :=
  loop_relates h fun _ _ _ _ hlt hlike => hlike.clear_bit (by omega)

theorem Like.set_first (h : Like l m) :
    Like (Bitmap.set l 0) (set_page_word m 0 (page_bitmap m 0 ||| 1#32)) := by
  have hwords : ∀ i < 32, set_page_word m 0 (page_bitmap m 0 ||| 1#32) i = Bitmap.set l 0 i := by
    intro i hi
    unfold set_page_word page_bitmap Bitmap.set Function.update
    rw [h.words i hi, h.words 0 (by decide)]
    rfl
  refine ⟨hwords, ?_, ?_⟩
  · unfold Bitmap.set
    rw [Function.update_of_ne (by decide), h.last]
  · unfold superpage_bitmap set_page_word
    rw [Function.update_of_ne (by decide)]
    exact h.super

theorem Like.vmalloc (h : Like l m) (h' : Like l l) (hn : 1 ≤ n)
    (hs : vaddm_get_first_clear_bits l n = some b) (hle : b + n ≤ 992) :
    (Vmm.vmalloc m n).1 = b * 4096 ∧
      Like (loop b (b + n) l fun bit l => Bitmap.set l bit) (Vmm.vmalloc m n).2 := by
  rw [vmalloc_of_some hn ((h.search_eq h' (by omega)).trans hs) (by omega) (by omega)]
  exact ⟨rfl, h.set_loop b hle⟩

/-- A request that finds free pages. -/
theorem Like.vmallocOk (h : Like l m) (h' : Like l l) (hn : 1 ≤ n) (hs : vaddm_get_first_clear_bits l n = some b)
    (hle : b + n ≤ 992) (hfree : ∀ i < n, FreePage l (b + i)) : VmallocOk m n := by
  refine (vmalloc_free_iff hn).mp fun c hc => ?_
  rw [(h.vmalloc h' hn hs hle).1, held_range (by omega)] at hc
  rw [h.freePage (by omega), show c = b + (c - b) by omega]
  exact hfree _ (by omega)

theorem Like.vfree (h : Like l m) (hn : 1 ≤ n) (hle : b + n ≤ 992) :
    Like (loop b (b + n) l fun bit l => Bitmap.clear l bit) (Vmm.vfree m (b * 4096) n) := by
  unfold Vmm.vfree NO_ADDRESS
  rw [if_neg (by omega), Nat.shiftRight_eq_div_pow]
  simp only [show b * 4096 / 2 ^ 12 = b by omega]
  rw [Nat.mod_eq_of_lt (by omega), Nat.add_comm n b]
  exact h.clear_loop b hle

/-- The first `k` words are full and the others empty. -/
def fullWords (k : Nat) : Vaddm := fun i => if i < k then 0xFFFFFFFF#32 else 0#32

theorem like_fullWords {k : Nat} (h : k ≤ 31) : Like (fullWords k) (fullWords k) :=
  ⟨fun _ _ => rfl, if_neg (by omega), if_neg (by unfold SUPERPAGE_BITMAP; omega)⟩

/-- `vaddm_init` reserves the first 256 pages; of the kernel's pages nothing, if the dword it reads
is 0. -/
theorem like_init (h : ∀ i < 32, superpage_bitmap m i = 0#32) : Like (fullWords 8) (vaddm_init m 0) := by
  have hzero : Like (fullWords 0) (clear_page_bitmap m) := by
    refine ⟨fun i hi => if_pos (by omega), rfl, ?_⟩
    show (if SUPERPAGE_BITMAP + 0 < 0x21000 / 4 then 0#32 else superpage_bitmap m 0) = 0#32
    rw [if_neg (by decide)]
    exact h 0 (by decide)
  have hlow := (hzero.set_first.set_loop 0 (show 256 ≤ 992 by decide)).set_first.set_first
  exact hlow.congr (by decide +kernel)

/-- Of the pages from 256 on, 259 and 260 are taken. -/
def two_held : Vaddm := Function.update (fullWords 8) 8 0x18#32

theorem like_two_held : Like two_held two_held := ⟨fun _ _ => rfl, rfl, rfl⟩

/-- Three pages and two pages are handed out, and the three are freed. -/
theorem exists_two_held : ∃ m, VaddmRun VaddmOk m [(0x103000, 2), (0x100000, 3)] [(0x103000, 2)] ∧
    Like two_held m := by
  have h0 : Like (fullWords 8) (vaddm_init (fun _ => 0) 0) := like_init fun _ _ => rfl
  have run0 : VaddmRun VaddmOk (vaddm_init (fun _ => 0) 0) [] [] := .init fun _ _ => rfl
  generalize vaddm_init (fun _ => 0) 0 = m0 at h0 run0
  have like0 : Like (fullWords 8) (fullWords 8) := like_fullWords (by decide)
  have run1 := run0.vmalloc 3 (h0.vmallocOk like0 (b := 256) (by decide) (by decide +kernel) (by decide) (by decide))
  obtain ⟨ha, h1⟩ := h0.vmalloc like0 (show 1 ≤ 3 by decide) (show _ = some 256 by decide +kernel) (by decide)
  generalize vmalloc m0 3 = r1 at ha h1 run1
  let three : Vaddm := Function.update (fullWords 8) 8 0x7#32
  have like1 : Like three three := ⟨fun _ _ => rfl, rfl, rfl⟩
  replace h1 : Like three r1.2 := h1.congr (by decide +kernel)
  have run2 := run1.vmalloc 2 (h1.vmallocOk like1 (b := 259) (by decide) (by decide +kernel) (by decide) (by decide))
  obtain ⟨hb, h2⟩ := h1.vmalloc like1 (show 1 ≤ 2 by decide) (show _ = some 259 by decide +kernel) (by decide)
  generalize vmalloc r1.2 2 = r2 at hb h2 run2
  rw [ha, hb] at run2
  have run3 := run2.vfree (a := 256 * 4096) (n := 3) (by decide) (.inl (by decide))
  have h3 := h2.vfree (b := 256) (show 1 ≤ 3 by decide) (by decide)
  exact ⟨_, run3, h3.congr (by decide +kernel)⟩

/-- A request for four pages passes the free ones in front of the held ones by. -/
theorem vmalloc_ranges_beside_held : ∃ m, VaddmRun VaddmOk m [(0x103000, 2), (0x100000, 3)] [(0x103000, 2)] ∧
    (vmalloc m 4).1 = 0x105000 ∧ (∀ c, Held ((vmalloc m 4).1, 4) c → FreePage m c) ∧
      Apart ((vmalloc m 4).1, 4) (0x103000, 2) := by
  obtain ⟨m, hrun, hlike⟩ := exists_two_held
  have hfound : vaddm_get_first_clear_bits two_held 4 = some 261 := by decide +kernel
  obtain ⟨haddr, -⟩ := hlike.vmalloc like_two_held (by decide) hfound (by decide)
  obtain ⟨hiff, hapart⟩ := vmalloc_ranges (n := 4) hrun (by decide)
  have hfree := hiff.mpr (hlike.vmallocOk like_two_held (by decide) hfound (by decide) (by decide))
  exact ⟨m, hrun, haddr, hfree, hapart hfree _ (by simp)⟩

/-- Two ranges of 32 pages are handed out and the first is freed; a request for 33 pages gets the
pages from the first one on, across the full word of the second. -/
theorem vmalloc_over_full_word : ∃ m ranges live, VaddmRun (fun _ _ _ => True) m ranges live ∧
    (0x120000, 32) ∈ live ∧ (vmalloc m 33).1 = 0x100000 ∧ Held (0x120000, 32) 288 ∧
      Held ((vmalloc m 33).1, 33) 288 ∧ ¬ FreePage m 288 := by
  have h0 : Like (fullWords 8) (vaddm_init (fun _ => 0) 0) := like_init fun _ _ => rfl
  have run0 : VaddmRun (fun _ _ _ => True) (vaddm_init (fun _ => 0) 0) [] [] := .init fun _ _ => rfl
  generalize vaddm_init (fun _ => 0) 0 = m0 at h0 run0
  have run1 := run0.vmalloc 32 trivial
  obtain ⟨ha, h1⟩ := h0.vmalloc (like_fullWords (by decide)) (show 1 ≤ 32 by decide)
    (show _ = some 256 by decide +kernel) (by decide)
  generalize vmalloc m0 32 = r1 at ha h1 run1
  replace h1 : Like (fullWords 9) r1.2 := h1.congr (by decide +kernel)
  have run2 := run1.vmalloc 32 trivial
  obtain ⟨hb, h2⟩ := h1.vmalloc (like_fullWords (by decide)) (show 1 ≤ 32 by decide)
    (show _ = some 288 by decide +kernel) (by decide)
  generalize vmalloc r1.2 32 = r2 at hb h2 run2
  replace h2 : Like (fullWords 10) r2.2 := h2.congr (by decide +kernel)
  rw [ha, hb] at run2
  have hmem : (256 * 4096, 32) ∈ [(288 * 4096, 32), (256 * 4096, 32)] := by decide
  have run3 := run2.vfree hmem trivial
  have h3 := h2.vfree (b := 256) (show 1 ≤ 32 by decide) (by decide)
  generalize vfree r2.2 (256 * 4096) 32 = m3 at h3 run3
  replace h3 : Like (Function.update (fullWords 10) 8 0#32) m3 := h3.congr (by decide +kernel)
  have h3' : Like (Function.update (fullWords 10) 8 0#32) (Function.update (fullWords 10) 8 0#32) :=
    ⟨fun _ _ => rfl, rfl, rfl⟩
  obtain ⟨hc, -⟩ := h3.vmalloc h3' (show 1 ≤ 33 by decide) (show _ = some 256 by decide +kernel)
    (by decide)
  have hfull : page_bitmap m3 9 = 0xFFFFFFFF#32 := h3.words 9 (by decide)
  refine ⟨_, _, _, run3, by decide, hc, ?_, ?_, fun hfree => hfree.2 (allocated_of_word_full hfull)⟩
  · exact ⟨by decide, by decide, by decide⟩
  · rw [hc]
    exact ⟨by decide, by decide, by decide⟩

end Condor.Vmm
