import Condor.Pmm.Regions
import Condor.Pmm.FrameStack

/-!
# What one allocation hands out

A frame is free if its bitmap bit is clear or the frame stack holds it as an
entry. `Handed` is the promise of an allocation of `k` frames. The search counts
free blocks along its trace, which leaves out full words and superblocks with a
set summary bit without resetting the counter, and the fallback pops a single
frame whatever the request. `kpmalloc_handed_iff`: the promise is kept exactly
if the run of blocks has no such gap (`GapFree`) or, when there is no run, the
stack can answer (`CallOk`).
-/

namespace Condor.Pmm

open Lib

/-- Frame `f` is free: a clear block of low memory, or an entry of the frame stack. -/
def Free (s : State AddrSpace) (h : History) (f : Nat) : Prop :=
  FreeBlock s.low_bitmaps f ∨ f ∈ h.entries.map (· / 4096)

/-- How many frames a request is for. -/
def PallocFlags.count (flags : PallocFlags) : Nat :=
  if flags.contiguous then Scan.need flags.page_alloc_num else 1

/-- The history after an allocation that returned `r`. -/
def History.kpmalloc (h : History) (lb : LomemBitmaps) (flags : PallocFlags) (r : Nat) : History :=
  match paddm_get_first_clear_bits lb flags with
  | none => h.pop r
  | some _ => h

/-- The promise of an allocation of `k` frames: failure, or `k` frames from `r` on that were free,
are not free any more, and are all that changes. -/
def Handed (s s' : State AddrSpace) (h h' : History) (k r : Nat) : Prop :=
  r = FAIL ∨ (∀ f, r / 4096 ≤ f → f < r / 4096 + k → Free s h f ∧ ¬ Free s' h' f) ∧
    ∀ f, ¬ (r / 4096 ≤ f ∧ f < r / 4096 + k) → (Free s' h' f ↔ Free s h f)

/-- `w` is the first run of free blocks that the search counts. -/
def CountedRun (lb : LomemBitmaps) (flags : PallocFlags) (w : List Nat) : Prop :=
  ¬ (flags.page_alloc_num = 0 ∧ flags.contiguous = true) ∧
    Scan.FirstRun (isFree lb) (Scan.need flags.page_alloc_num) (trace lb flags) w

/-- No block between two blocks of the run is skipped by the search. -/
def GapFree (lb : LomemBitmaps) (w : List Nat) : Prop :=
  ∀ a ∈ w, ∀ b ∈ w, ∀ c, a < c → c < b → Looked lb (c / 16)

/-- The request meets a run without gaps or, failing any run, a stack that can answer it. -/
def CallOk (s : State AddrSpace) (h : History) (flags : PallocFlags) : Prop :=
  (flags.contiguous = true → ∀ w, CountedRun s.low_bitmaps flags w → GapFree s.low_bitmaps w) ∧
    ((∀ w, ¬ CountedRun s.low_bitmaps flags w) → PopOk h ∧ (flags.count = 1 ∨ h.entries = []))

section
variable {lb : LomemBitmaps} {flags : PallocFlags} {w : List Nat} {b : Nat}

/-! ## The search and its runs -/

theorem search_eq_some :
    paddm_get_first_clear_bits lb flags = some b ↔ ∃ w, CountedRun lb flags w ∧ w.head? = some b := by
  by_cases h : flags.page_alloc_num = 0 ∧ flags.contiguous = true
  · unfold paddm_get_first_clear_bits
    rw [if_pos (by simpa using h)]
    exact ⟨(nomatch ·), fun ⟨w, hw, _⟩ => absurd h hw.1⟩
  · rw [search_eq h, Scan.outcome_scan_iff]
    simp only [CountedRun, h, not_false_eq_true, true_and]

theorem search_eq_none :
    paddm_get_first_clear_bits lb flags = none ↔ ∀ w, ¬ CountedRun lb flags w := by
  by_cases h : flags.page_alloc_num = 0 ∧ flags.contiguous = true
  · unfold paddm_get_first_clear_bits
    rw [if_pos (by simpa using h)]
    exact ⟨fun _ w hw => hw.1 h, fun _ => rfl⟩
  · rw [search_eq h, Scan.outcome_scan_eq_none]
    simp only [CountedRun, h, not_false_eq_true, true_and]

theorem CountedRun.unique {w' : List Nat} (hw : CountedRun lb flags w) (hw' : CountedRun lb flags w') :
    w = w' :=
  hw.2.unique hw'.2

theorem CountedRun.freeBlock (hw : CountedRun lb flags w) {c : Nat} (hc : c ∈ w) : FreeBlock lb c :=
  of_decide_eq_true (hw.2.free hc)

theorem CountedRun.nodup (hw : CountedRun lb flags w) : w.Nodup :=
  (hw.2.pairwise trace_pairwise).imp Nat.ne_of_lt

/-- A block between two blocks of the run is one of them if the search looks at it. -/
theorem CountedRun.between (hw : CountedRun lb flags w) {a c d : Nat} (ha : a ∈ w) (hd : d ∈ w)
    (hac : a ≤ c) (hcd : c ≤ d) : c ∈ w ↔ Looked lb (c / 16) := by
  obtain ⟨hlt, -, hcut⟩ := mem_trace.mp (hw.2.mem hd)
  refine ⟨fun hc => (mem_trace.mp (hw.2.mem hc)).2.1, fun hl => ?_⟩
  exact hw.2.between trace_pairwise ha hd hac hcd
    (mem_trace.mpr ⟨by omega, hl, fun h => by have := hcut h; omega⟩)

/-- The run reaches at least as far as a run without gaps would. -/
theorem CountedRun.exists_last (hw : CountedRun lb flags w) (hb : w.head? = some b) :
    ∃ d ∈ w, b + Scan.need flags.page_alloc_num ≤ d + 1 :=
  Scan.exists_ge_of_length hw.nodup hw.2.length (Scan.need_pos _)
    fun _ hc => hw.2.head_le trace_pairwise hb hc

/-- If every block from `b` on is in the run, the run is exactly that range. -/
theorem CountedRun.mem_iff (hw : CountedRun lb flags w) (hb : w.head? = some b)
    (hall : ∀ c, b ≤ c → c < b + Scan.need flags.page_alloc_num → c ∈ w) {c : Nat} :
    c ∈ w ↔ b ≤ c ∧ c < b + Scan.need flags.page_alloc_num :=
  ⟨fun hc => ⟨hw.2.head_le trace_pairwise hb hc, Scan.lt_of_window hw.2.length hall hc⟩,
    fun hc => hall c hc.1 hc.2⟩

/-- A run without gaps is the range of blocks from its first one on. -/
theorem CountedRun.gapFree_iff (hw : CountedRun lb flags w) (hb : w.head? = some b) :
    GapFree lb w ↔ ∀ c, b ≤ c → c < b + Scan.need flags.page_alloc_num → c ∈ w := by
  have hbw : b ∈ w := List.mem_of_mem_head? hb
  obtain ⟨d, hd, hlast⟩ := hw.exists_last hb
  constructor
  · intro hgap c h1 h2
    rcases Nat.eq_or_lt_of_le h1 with rfl | h1
    · exact hbw
    rcases Nat.lt_or_ge c d with h3 | h3
    · exact (hw.between hbw hd (Nat.le_of_lt h1) (Nat.le_of_lt h3)).mpr (hgap b hbw d hd c h1 h3)
    · rwa [show c = d by omega]
  · intro hall a ha d hd c h1 h2
    refine (hw.between ha hd (Nat.le_of_lt h1) (Nat.le_of_lt h2)).mp ?_
    have hmem := fun {x} => hw.mem_iff hb hall (c := x)
    rw [hmem] at ha hd ⊢
    omega

end

section
variable {s s' : State AddrSpace} {h : History} {flags : PallocFlags}

/-! ## Frames of the stack -/

/-- The frames on the stack lie above low memory. -/
theorem Sound.entry_frame (hs : Sound s h) {f : Nat} (hf : f ∈ h.entries.map (· / 4096)) :
    4096 ≤ f := by
  obtain ⟨e, he, rfl⟩ := List.mem_map.mp hf
  have := (hs.entry e he).1
  omega

theorem Sound.free_low (hs : Sound s h) {f : Nat} (hf : f < 4096) :
    Free s h f ↔ FreeBlock s.low_bitmaps f :=
  or_iff_left fun hmem => by
    have := hs.entry_frame hmem
    omega

theorem free_high {f : Nat} (hf : 4096 ≤ f) : Free s h f ↔ f ∈ h.entries.map (· / 4096) :=
  or_iff_right fun hlow => by
    have := hlow.1
    omega

/-- A pop takes the frame it answers, and no other, off the entries. -/
theorem Sound.mem_pop (hs : Sound s h) {r f : Nat} (hr : r ≠ FAIL) (hmem : r ∈ h.entries) :
    f ∈ (h.pop r).entries.map (· / 4096) ↔ f ∈ h.entries.map (· / 4096) ∧ f ≠ r / 4096 := by
  have hperm : (r :: (h.pop r).entries).Perm h.entries := by
    rw [History.pop, if_neg hr]
    exact (List.perm_cons_erase hmem).symm
  have hmap := hperm.map (· / 4096)
  have hnd : (h.entries.map (· / 4096)).Nodup := (List.nodup_append.mp hs.nodup).1
  rw [← hmap.nodup_iff, List.map_cons, List.nodup_cons] at hnd
  rw [← hmap.mem_iff, List.map_cons, List.mem_cons]
  refine ⟨fun hf => ⟨.inr hf, ?_⟩, fun hf => hf.1.resolve_left hf.2⟩
  rintro rfl
  exact hnd.1 hf

/-! ## An allocation from the bitmaps -/

theorem kpmalloc_found {σ : Type} {s : State σ} {b : Nat}
    (hsearch : paddm_get_first_clear_bits s.low_bitmaps flags = some b) {P : Paging σ} :
    kpmalloc P s flags =
      .ok (b * 4096, { s with low_bitmaps := mark_blocks s.low_bitmaps flags b }) := by
  rw [kpmalloc, hsearch]
  simp only [Nat.shiftLeft_eq]

/-- The blocks an allocation marks are those it is for. -/
theorem marked_iff (b c : Nat) :
    (c = b ∨ flags.contiguous = true ∧ b ≤ c ∧ c < b + flags.page_alloc_num) ↔
      b ≤ c ∧ c < b + flags.count := by
  unfold PallocFlags.count Scan.need
  cases flags.contiguous with
  | true =>
    rw [if_pos rfl]
    simp only [true_and]
    omega
  | false =>
    rw [if_neg (by simp)]
    simp only [Bool.false_eq_true, false_and, or_false]
    omega

theorem count_le : flags.count ≤ Scan.need flags.page_alloc_num := by
  unfold PallocFlags.count
  split
  · exact Nat.le_refl _
  · exact Scan.need_pos _

/-- After marking, a block is free if it was and is not marked. -/
theorem freeBlock_mark {lb : LomemBitmaps} {b c : Nat} :
    FreeBlock (mark_blocks lb flags b) c ↔ FreeBlock lb c ∧ ¬ (b ≤ c ∧ c < b + flags.count) := by
  unfold FreeBlock
  by_cases hc : c < 4096
  · rw [allocated_mark_blocks hc, marked_iff, not_or, and_assoc]
  · simp [hc]

/-- A request served from the bitmaps keeps its promise exactly if all it marks was free. -/
theorem Sound.handed_found (hs : Sound s h) {w : List Nat} {b : Nat}
    (hw : CountedRun s.low_bitmaps flags w) (hb : w.head? = some b) :
    Handed s { s with low_bitmaps := mark_blocks s.low_bitmaps flags b } h h flags.count (b * 4096) ↔
      ∀ c, b ≤ c → c < b + flags.count → FreeBlock s.low_bitmaps c := by
  obtain ⟨d, hd, hlast⟩ := hw.exists_last hb
  have hcount : flags.count ≤ _ := count_le
  have hlow : ∀ c, c < b + flags.count → c < 4096 := by
    have := (hw.freeBlock hd).1
    omega
  have hfree : ∀ f, Free { s with low_bitmaps := mark_blocks s.low_bitmaps flags b } h f ↔
      FreeBlock s.low_bitmaps f ∧ ¬ (b ≤ f ∧ f < b + flags.count) ∨ f ∈ h.entries.map (· / 4096) :=
    fun f => or_congr_left freeBlock_mark
  unfold Handed
  rw [Nat.mul_div_cancel b (by decide)]
  constructor
  · rintro (hfail | ⟨hin, -⟩) c h1 h2
    · have := (hw.freeBlock (List.mem_of_mem_head? hb)).1
      unfold FAIL at hfail
      omega
    · exact (hs.free_low (hlow c h2)).mp (hin c h1 h2).1
  · intro hall
    refine .inr ⟨fun f h1 h2 => ⟨.inl (hall f h1 h2), fun hf => ?_⟩, fun f hf => ?_⟩
    · rcases (hfree f).mp hf with ⟨-, hout⟩ | hmem
      · exact hout ⟨h1, h2⟩
      · have := hs.entry_frame hmem
        have := hlow f h2
        omega
    · rw [hfree]
      exact or_congr_left (and_iff_left hf)

/-- All blocks from the first one on are free exactly if the run has no gap. -/
theorem CountedRun.free_iff {lb : LomemBitmaps} (hsum : SummaryOk lb) {w : List Nat} {b : Nat}
    (hw : CountedRun lb flags w) (hb : w.head? = some b) :
    (∀ c, b ≤ c → c < b + flags.count → FreeBlock lb c) ↔ (flags.contiguous = true → GapFree lb w) := by
  have hbw : b ∈ w := List.mem_of_mem_head? hb
  by_cases hc : flags.contiguous = true
  · have hcount : flags.count = Scan.need flags.page_alloc_num := by rw [PallocFlags.count, if_pos hc]
    rw [hcount, imp_iff_right hc, hw.gapFree_iff hb]
    refine ⟨fun hall c h1 h2 => ?_, fun hall c h1 h2 => hw.freeBlock (hall c h1 h2)⟩
    obtain ⟨d, hd, hlast⟩ := hw.exists_last hb
    exact (hw.between hbw hd h1 (by omega)).mpr (hsum.looked (hall c h1 h2))
  · have hcount : flags.count = 1 := by rw [PallocFlags.count, if_neg hc]
    rw [hcount]
    refine ⟨fun _ h => absurd h hc, fun _ c h1 h2 => ?_⟩
    rw [show c = b by omega]
    exact hw.freeBlock hbw

/-- The search finds block `b`, and the blocks of the request are free from there on. -/
def FoundFree (lb : LomemBitmaps) (flags : PallocFlags) (b : Nat) : Prop :=
  paddm_get_first_clear_bits lb flags = some b ∧ ∀ i < flags.count, FreeBlock lb (b + i)

instance (lb : LomemBitmaps) (flags : PallocFlags) (b : Nat) : Decidable (FoundFree lb flags b) :=
  inferInstanceAs (Decidable (_ ∧ _))

theorem FoundFree.callOk {b : Nat} (hfound : FoundFree s.low_bitmaps flags b) (hsum : SummaryOk s.low_bitmaps) :
    CallOk s h flags := by
  obtain ⟨w, hw, hb⟩ := search_eq_some.mp hfound.1
  refine ⟨fun hc w' hw' => ?_, fun hno => absurd hw (hno w)⟩
  rw [hw'.unique hw]
  refine (hw.free_iff hsum hb).mp (fun c h1 h2 => ?_) hc
  rw [show c = b + (c - b) by omega]
  exact hfound.2 _ (by omega)

/-! ## An allocation from the stack -/

/-- A pop that answers an entry makes its frame, and no other, not free. -/
theorem Sound.free_pop (hs : Sound s h) {r f : Nat} (hr : r ≠ FAIL) (hmem : r ∈ h.entries) :
    Free s.popped (h.pop r) f ↔ Free s h f ∧ f ≠ r / 4096 := by
  have hhigh := hs.entry_frame (List.mem_map_of_mem hmem)
  unfold Free
  rw [hs.mem_pop hr hmem, or_and_right]
  refine or_congr_left (and_iff_left_of_imp fun hlow => ?_).symm
  have := hlow.1
  omega

/-- A list page is not free. -/
theorem Sound.page_not_free (hs : Sound s h) {q : Nat} (hq : q ∈ h.pages) : ¬ Free s h q := by
  have hlo := (hs.page q hq).1
  rw [free_high (by omega)]
  intro hmem
  obtain ⟨e, he, rfl⟩ := List.mem_map.mp hmem
  exact hs.not_page he hq

/-- A pop of an entry keeps the promise of one frame, and of no more. -/
theorem Sound.handed_entry (hs : Sound s h) {k r : Nat} (hk : 1 ≤ k) (hr : r ≠ FAIL)
    (hmem : r ∈ h.entries) : Handed s s.popped h (h.pop r) k r ↔ k = 1 := by
  have hfree := fun {f} => hs.free_pop (f := f) hr hmem
  constructor
  · rintro (hfail | ⟨hin, -⟩)
    · exact absurd hfail hr
    · by_contra hne
      obtain ⟨h1, h2⟩ := hin (r / 4096 + 1) (by omega) (by omega)
      exact h2 (hfree.mpr ⟨h1, by omega⟩)
  · rintro rfl
    refine .inr ⟨fun f h1 h2 => ?_, fun f hf => ?_⟩
    · obtain rfl : f = r / 4096 := by omega
      exact ⟨.inr (List.mem_map_of_mem hmem), fun hf => (hfree.mp hf).2 rfl⟩
    · rw [hfree]
      exact and_iff_left (by omega)

/-- A request that goes to the stack keeps its promise exactly if the pop does, and the stack is
empty or one frame is enough. -/
theorem Sound.handed_fallback (hs : Sound s h) {k : Nat} (hk : 1 ≤ k) :
    (∃ r s', stack_pop32 AddrSpace.paging s flags = .ok (r, s') ∧ Handed s s' h (h.pop r) k r) ↔
      PopOk h ∧ (k = 1 ∨ h.entries = []) := by
  constructor
  · rintro ⟨r, s', hpop, hh⟩
    have hp : PopOk h := by
      by_contra hp
      obtain ⟨q, hq, rfl⟩ := hs.pop_page flags hp hpop
      rcases hh with hfail | ⟨hin, -⟩
      · unfold FAIL at hfail
        omega
      · rw [Nat.mul_div_cancel q (by decide)] at hin
        exact hs.page_not_free hq (hin q (Nat.le_refl q) (by omega)).1
    obtain ⟨r', hpop', hr, -⟩ := hs.pop flags hp
    rw [hpop'] at hpop
    cases hpop
    rcases hr with ⟨-, hemp⟩ | ⟨hne, hmem, -⟩
    · exact ⟨hp, .inr hemp⟩
    · exact ⟨hp, .inl ((hs.handed_entry hk hne hmem).mp hh)⟩
  · rintro ⟨hp, hok⟩
    obtain ⟨r, hpop, hr, -⟩ := hs.pop flags hp
    refine ⟨r, _, hpop, ?_⟩
    rcases hr with ⟨hfail, -⟩ | ⟨hne, hmem, -⟩
    · exact .inl hfail
    · refine (hs.handed_entry hk hne hmem).mpr (hok.resolve_right fun hemp => ?_)
      rw [hemp] at hmem
      cases hmem

theorem PallocFlags.count_pos (flags : PallocFlags) : 1 ≤ flags.count := by
  unfold PallocFlags.count
  split
  · exact Scan.need_pos _
  · exact Nat.le_refl 1

/-- **An allocation keeps its promise exactly if it is `CallOk`.** -/
theorem Sound.kpmalloc_handed_iff (hs : Sound s h) (hsum : SummaryOk s.low_bitmaps)
    (flags : PallocFlags) :
    (∃ r s', kpmalloc AddrSpace.paging s flags = .ok (r, s') ∧
      Handed s s' h (h.kpmalloc s.low_bitmaps flags r) flags.count r) ↔ CallOk s h flags := by
  cases hsearch : paddm_get_first_clear_bits s.low_bitmaps flags with
  | none =>
    have hno := search_eq_none.mp hsearch
    simp only [kpmalloc, History.kpmalloc, hsearch]
    rw [hs.handed_fallback flags.count_pos]
    exact ⟨fun hok => ⟨fun _ w hw => absurd hw (hno w), fun _ => hok⟩, fun hok => hok.2 hno⟩
  | some b =>
    obtain ⟨w, hw, hb⟩ := search_eq_some.mp hsearch
    have hgap := (hs.handed_found hw hb).trans (hw.free_iff hsum hb)
    simp only [kpmalloc_found hsearch, History.kpmalloc, hsearch]
    constructor
    · rintro ⟨r, s', hok, hh⟩
      cases hok
      refine ⟨fun hc w' hw' => ?_, fun hno => absurd hw (hno w)⟩
      rw [hw'.unique hw]
      exact hgap.mp hh hc
    · exact fun hok => ⟨_, _, rfl, hgap.mpr fun hc => hok.1 hc w hw⟩

end

end Condor.Pmm
