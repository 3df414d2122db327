import Condor.Vmm.VaddmRegions

/-!
# What `vmalloc` can reach

The first megabyte is reserved and no matching call frees it, so every range
starts above it. It starts in one of the pages that the search visits, which lie
below page 1024, and it is as long as the run that the search counted: all passes
together visit 15744 pages that can be free (`length_searchPages_le`). Ranges stay
far below the kernel half for that reason only (`within_user`), and for the same
reason the search misses most of the free pages there are (`complete_iff`).
-/

namespace Condor.Vmm

open Lib

/-- Runs from `vaddm_init` on any memory, with the ranges that `vmalloc` answered. -/
inductive MatchedRun : Vaddm → List (Nat × Nat) → Prop
  | init (m kvb) : MatchedRun (vaddm_init m kvb) []
  | vmalloc {m ranges} (hrun : MatchedRun m ranges) (n) :
      MatchedRun (vmalloc m n).2 (((vmalloc m n).1, n) :: ranges)
  | vfree {m ranges a n} (hrun : MatchedRun m ranges) (hmem : (a, n) ∈ ranges) :
      MatchedRun (vfree m a n) ranges

theorem VaddmRun.matched {C : Vaddm → List (Nat × Nat) → VaddmOp → Prop} {m : Vaddm}
    {ranges live : List (Nat × Nat)} (hrun : VaddmRun C m ranges live) : MatchedRun m ranges := by
  induction hrun with
  | init _ => exact .init _ _
  | vmalloc _ n _ ih => exact ih.vmalloc n
  | vfree _ hmem _ ih => exact ih.vfree hmem

variable {m : Vaddm} {ranges : List (Nat × Nat)} {n b c : Nat} {w : List Nat}

/-! ## The first megabyte -/

/-- The pages of the first megabyte are allocated. -/
def LowReserved (m : Vaddm) : Prop := ∀ c < 256, Allocated m c

theorem allocated_clear_page_bitmap (hc : c < 32 * SUPERPAGE_BITMAP) :
    ¬ Allocated (clear_page_bitmap m) c := by
  have hword : clear_page_bitmap m (c / 32) = 0#32 := if_pos (by unfold SUPERPAGE_BITMAP at hc; omega)
  unfold Allocated Bitmap.test
  rw [hword, BitVec.getLsbD_zero]
  exact Bool.false_ne_true

theorem allocated_set_region_le (base size : Nat) (hc : c ≤ 32768 * 32) :
    Allocated (vaddm_set_region m base size) c ↔
      Allocated m c ∨ 1 ≤ size ∧ (c = 0 ∨ Visits base size c) := by
  by_cases h : 1 ≤ size
  · rw [allocated_set_region h hc, and_iff_right h]
    tauto
  · have h0 : vaddm_set_region m base size = m := if_pos (by omega)
    rw [h0]
    exact ⟨.inl, fun hor => hor.resolve_right fun hand => h hand.1⟩

/-- What `vaddm_init` reserves: the pages it visits for the kernel and the first megabyte. -/
theorem allocated_init (m : Vaddm) (kvb : Nat) (hc : c ≤ 32768 * 32) :
    Allocated (vaddm_init m kvb) c ↔
      c < 256 ∨ 1 ≤ 0xFFFFFFFF - kvb ∧ Visits kvb (0xFFFFFFFF - kvb) c := by
  have hlow : Visits 0 0x100000 c ↔ c < 256 := by
    unfold Visits
    omega
  have hclear : ¬ Allocated (clear_page_bitmap m) c :=
    allocated_clear_page_bitmap (by unfold SUPERPAGE_BITMAP; omega)
  unfold vaddm_init
  simp only [allocated_set_first, allocated_set_region_le _ _ hc, hlow]
  have hfirst : c = 0 → c < 256 := by omega
  have hsize : 1 ≤ 0x100000 := by decide
  tauto

theorem lowReserved_init (m : Vaddm) (kvb : Nat) : LowReserved (vaddm_init m kvb) :=
  fun _ hc => (allocated_init m kvb (by omega)).mpr (.inl hc)

theorem LowReserved.le_of_free (h : LowReserved m) (hc : ¬ Allocated m c) : 256 ≤ c := by
  by_contra hlt
  exact hc (h c (by omega))

/-- The first page of a run is above the first megabyte and below page 1024. -/
theorem CountedRun.head_bounds (hw : CountedRun m n w) (h : LowReserved m) (hb : w.head? = some b) :
    256 ≤ b ∧ b < 1024 := by
  have hmem := List.mem_of_mem_head? hb
  exact ⟨h.le_of_free (hw.freePage hmem).2, hw.lt hmem⟩

/-- `vmalloc` fails, or answers the first page of the run that was counted. -/
theorem vmalloc_cases (hn : 1 ≤ n) :
    vmalloc m n = (NO_ADDRESS, m) ∨ ∃ w b, CountedRun m n w ∧ w.head? = some b ∧
      vmalloc m n = (b * 4096, loop b (b + n) m fun bit m => vaddm_set_bit m bit) := by
  by_cases hex : ∃ w, CountedRun m n w
  · obtain ⟨w, hw⟩ := hex
    obtain ⟨b, hb⟩ := hw.exists_head hn
    exact .inr ⟨w, b, hw, hb, hw.vmalloc_eq hn hb⟩
  · exact .inl (vmalloc_of_none hn fun w hw => hex ⟨w, hw⟩)

/-- An outstanding or freed range lies above the first megabyte, if it has a page. -/
def AboveLow (r : Nat × Nat) : Prop := r.1 ≠ NO_ADDRESS → 1 ≤ r.2 → 0x100000 ≤ r.1

theorem aboveLow_vmalloc (h : LowReserved m) (n : Nat) : AboveLow ((vmalloc m n).1, n) := by
  intro hne hn
  rcases vmalloc_cases (m := m) hn with heq | ⟨w, b, hw, hb, heq⟩
  · rw [heq] at hne
    exact absurd rfl hne
  · have := (hw.head_bounds h hb).1
    rw [heq]
    dsimp only
    omega

theorem LowReserved.vmalloc (h : LowReserved m) (n : Nat) : LowReserved (Vmm.vmalloc m n).2 :=
  fun c hc => (allocated_vmalloc n).1 c (by omega) (h c hc)

theorem LowReserved.vfree {a : Nat} (h : LowReserved m) (hr : AboveLow (a, n)) :
    LowReserved (Vmm.vfree m a n) := by
  intro c hc
  refine allocated_vfree (by omega) (h c hc) fun ⟨hne, h1, h2⟩ => ?_
  dsimp only at h1 h2
  have : 0x100000 ≤ a := hr hne (show 1 ≤ n by omega)
  omega

/-- Along every run the first megabyte stays reserved, and all ranges lie above it. -/
theorem MatchedRun.low (hrun : MatchedRun m ranges) : LowReserved m ∧ ∀ r ∈ ranges, AboveLow r := by
  induction hrun with
  | init m kvb => exact ⟨lowReserved_init m kvb, List.forall_mem_nil _⟩
  | vmalloc _ n ih =>
    exact ⟨ih.1.vmalloc n, List.forall_mem_cons.mpr ⟨aboveLow_vmalloc ih.1 n, ih.2⟩⟩
  | vfree _ hmem ih => exact ⟨ih.1.vfree (ih.2 _ hmem), ih.2⟩

/-! ## The pages that are visited -/

theorem length_le_of_increasing {l : List Nat} {lo hi : Nat} (hl : l.Pairwise (· < ·))
    (h : ∀ c ∈ l, lo ≤ c ∧ c < hi) : l.length ≤ hi - lo := by
  have hsub : l ⊆ List.range' lo (hi - lo) := fun c hc => by
    have := h c hc
    rw [List.mem_range'_1]
    omega
  have hnodup : l.Nodup := hl.imp fun hlt => Nat.ne_of_lt hlt
  simpa using (hnodup.subperm hsub).length_le

/-- Pass `s` visits the pages from word `s` or from the second megabyte on. -/
theorem LowReserved.length_pass (h : LowReserved m) {s : Nat} (hs : s < 32) :
    (passPages m s).length ≤ 1024 - max (32 * s) 256 := by
  refine length_le_of_increasing (pairwise_pass s) fun c hc => ?_
  obtain ⟨-, hfull, hlo, hhi⟩ := (mem_pass hs).mp hc
  have h256 : 256 ≤ c := by
    by_contra hlt
    exact hfull (word_full_of_allocated fun d hd => h d (by omega))
  omega

/-- **All passes together** visit 15744 pages at most. -/
theorem length_searchPages_le (h : LowReserved m) : (searchPages m).length ≤ 15744 := by
  unfold searchPages
  split
  · rw [List.length_flatMap]
    have hle : ((List.range' 0 32).map fun s => (passPages m s).length).sum ≤
        ((List.range' 0 32).map fun s => 1024 - max (32 * s) 256).sum :=
      List.sum_le_sum fun s hs => h.length_pass (by simpa using hs)
    exact hle.trans (by decide)
  · exact Nat.zero_le _

theorem CountedRun.length_le (hw : CountedRun m n w) (h : LowReserved m) : n ≤ 15744 := by
  obtain ⟨p, q, hl⟩ := hw.positions
  have hlen := length_searchPages_le h
  rw [hl, List.length_append, List.length_append, Scan.FirstRun.length hw] at hlen
  omega

/-- **Ranges of `vmalloc`** lie between the first megabyte and the kernel half. -/
theorem within_user (hrun : MatchedRun m ranges) (hn : 1 ≤ n) (hok : (vmalloc m n).1 ≠ NO_ADDRESS) :
    0x00100000 ≤ (vmalloc m n).1 ∧ (vmalloc m n).1 + 4096 * n ≤ 0xC0000000 := by
  have hlow := hrun.low.1
  rcases vmalloc_cases (m := m) hn with heq | ⟨w, b, hw, hb, heq⟩
  · rw [heq] at hok
    exact absurd rfl hok
  · have hbounds := hw.head_bounds hlow hb
    have hlen := hw.length_le hlow
    rw [heq]
    dsimp only
    omega

theorem within_user_beside_held : ∃ m, MatchedRun m [(0x103000, 2), (0x100000, 3)] ∧
    (vmalloc m 4).1 = 0x105000 ∧ 0x00100000 ≤ (vmalloc m 4).1 ∧ (vmalloc m 4).1 + 4096 * 4 ≤ 0xC0000000 := by
  obtain ⟨m, hrun, hlike⟩ := exists_two_held
  obtain ⟨haddr, -⟩ := hlike.vmalloc like_two_held (n := 4) (by decide) (show _ = some 261 by decide +kernel)
    (by decide)
  refine ⟨m, hrun.matched, haddr, within_user hrun.matched (by decide) ?_⟩
  rw [haddr]
  decide

/-! ## Free pages that are missed -/

/-- Some `n` pages of the `2 ^ 20` are free in a row. -/
def FreeRun (m : Vaddm) (n : Nat) : Prop :=
  ∃ b, b + n ≤ 2 ^ 20 ∧ ∀ c, b ≤ c → c < b + n → FreePage m c

/-- Some `n` pages in a row of those that the search visits are free: for each clear bit `s` of the
first superpage word, unless that word is full, the pages from `32 * s` to 1023 outside full words. -/
def FreeVisits (m : Vaddm) (n : Nat) : Prop :=
  ∃ w, w <:+: searchPages m ∧ w.length = n ∧ ∀ c ∈ w, FreePage m c

theorem exists_countedRun_iff : (∃ w, CountedRun m n w) ↔ FreeVisits m n := by
  constructor
  · rintro ⟨w, hw⟩
    obtain ⟨p, q, hl⟩ := hw.positions
    exact ⟨w, ⟨p, q, hl.symm⟩, Scan.FirstRun.length hw, fun c hc => hw.freePage hc⟩
  · rintro ⟨w, ⟨p, q, hl⟩, hlen, hfree⟩
    refine Scan.exists_firstRun (v := (p ++ w).map some) ⟨q.map some, ?_⟩ ⟨?_, fun c hc => ?_⟩ hlen
    · rw [← List.map_append, hl]
    · rw [List.map_append]
      exact List.suffix_append ..
    · exact decide_eq_true (hfree c hc)

theorem vmalloc_fails_iff (hn : 1 ≤ n) : (vmalloc m n).1 = NO_ADDRESS ↔ ¬ FreeVisits m n := by
  rw [← exists_countedRun_iff]
  constructor
  · rintro h ⟨w, hw⟩
    obtain ⟨b, hb⟩ := hw.exists_head hn
    have hlt := hw.lt (List.mem_of_mem_head? hb)
    rw [hw.vmalloc_eq hn hb] at h
    unfold NO_ADDRESS at h
    dsimp only at h
    omega
  · intro h
    rw [vmalloc_of_none hn fun w hw => h ⟨w, hw⟩]

/-- An increasing list that holds the pages of a range holds them in a row. -/
theorem range_infix_of_increasing {l : List Nat} (hl : l.Pairwise (· < ·))
    (h : ∀ c, b ≤ c → c < b + n → c ∈ l) : List.range' b n <:+: l := by
  induction n with
  | zero => exact List.nil_infix
  | succ n ih =>
    obtain ⟨p, q, hpq⟩ := ih fun c h1 h2 => h c h1 (by omega)
    cases n with
    | zero =>
      obtain ⟨p, q, hpq⟩ := List.append_of_mem (h b (Nat.le_refl b) (by omega))
      exact ⟨p, q, by rw [hpq]; simp⟩
    | succ k =>
      -- the last page of the shorter range is followed by the next one
      have hsplit : l = (p ++ List.range' b k) ++ (b + k) :: q := by
        rw [← hpq, List.range'_1_concat]
        simp
      obtain ⟨q', rfl⟩ := follows_of_pairwise hl (fun _ => h (b + k + 1) (by omega) (by omega)) _ _ hsplit
      refine ⟨p, q', ?_⟩
      rw [← hpq, show List.range' b (k + 1 + 1) = List.range' b (k + 1) ++ [b + (k + 1)] from
        List.range'_1_concat]
      simp [Nat.add_assoc]

/-- Free pages in a row below page 1024 are visited in a row, if no superpage is skipped. -/
theorem freeVisits_of_range (hsuper : superpage_bitmap m 0 = 0#32) (hb : b + n ≤ 1024)
    (hfree : ∀ c, b ≤ c → c < b + n → FreePage m c) : FreeVisits m n := by
  refine ⟨List.range' b n, ?_, List.length_range', fun c hc => ?_⟩
  · have hpass : List.range' b n <:+: passPages m 0 := by
      refine range_infix_of_increasing (pairwise_pass 0) fun c h1 h2 => (mem_pass (by decide)).mpr ?_
      refine ⟨by rw [hsuper, BitVec.zero_and], fun hfull => ?_, by omega, by omega⟩
      exact (hfree c h1 h2).2 (allocated_of_word_full hfull)
    have hall : searchPages m = passPages m 0 ++ (List.range' 1 31).flatMap (passPages m) := by
      unfold searchPages
      rw [if_pos (by rw [hsuper]; decide)]
      rfl
    rw [hall]
    exact hpass.trans (List.prefix_append ..).isInfix
  · rw [List.mem_range'_1] at hc
    exact hfree c hc.1 hc.2

/-- **The search misses free pages** exactly if no `n` pages that it visits are free in a row. It visits
15744 pages at most that can be free, and no superpage bit that is set hides a run below page 1024. -/
theorem complete_iff {live : List (Nat × Nat)} (hrun : VaddmRun (fun _ _ _ => True) m ranges live)
    (hn : 1 ≤ n) :
    (((vmalloc m n).1 = NO_ADDRESS → ¬ FreeRun m n) ↔ (FreeRun m n → FreeVisits m n)) ∧
    (FreeVisits m n → n ≤ 15744) ∧
    (superpage_bitmap m 0 = 0#32 → (∃ b, b + n ≤ 1024 ∧ ∀ c, b ≤ c → c < b + n → FreePage m c) →
      FreeVisits m n) := by
  rw [vmalloc_fails_iff hn]
  refine ⟨not_imp_not, fun hvisits => ?_, fun hsuper ⟨b, hb, hfree⟩ => freeVisits_of_range hsuper hb hfree⟩
  obtain ⟨w, hw⟩ := exists_countedRun_iff.mpr hvisits
  exact hw.length_le hrun.matched.low.1

/-- Beside held pages: four pages are found behind them, and more than all pages behind the first megabyte are
refused, since there are none. -/
theorem complete_beside_held : ∃ m, VaddmRun (fun _ _ _ => True) m [(0x103000, 2), (0x100000, 3)] [(0x103000, 2)] ∧
    (vmalloc m 4).1 = 0x105000 ∧ (FreeRun m 4 → FreeVisits m 4) ∧
      (vmalloc m (2 ^ 20 - 255)).1 = NO_ADDRESS ∧ ¬ FreeRun m (2 ^ 20 - 255) := by
  obtain ⟨m, hrun, hlike⟩ := exists_two_held
  have hrun : VaddmRun (fun _ _ _ => True) m _ _ := hrun.mono fun _ _ _ _ => trivial
  obtain ⟨haddr, -⟩ := hlike.vmalloc like_two_held (n := 4) (by decide) (show _ = some 261 by decide +kernel)
    (by decide)
  obtain ⟨-, -, hlow⟩ := complete_iff (n := 4) hrun (by decide)
  obtain ⟨hiff, hvisits, -⟩ := complete_iff (n := 2 ^ 20 - 255) hrun (by decide)
  have hfails : (vmalloc m (2 ^ 20 - 255)).1 = NO_ADDRESS :=
    (vmalloc_fails_iff (by decide)).mpr fun h => absurd (hvisits h) (by decide)
  refine ⟨m, hrun, haddr, fun _ => hlow hlike.super ⟨261, by decide, fun c h1 h2 => ?_⟩, hfails,
    hiff.mpr (fun ⟨b, hb, hfree⟩ => ?_) hfails⟩
  · rw [hlike.freePage (by omega), show c = 261 + (c - 261) by omega]
    have hall : ∀ i < 4, FreePage two_held (261 + i) := by decide
    exact hall _ (by omega)
  · -- page 255 would be among them
    exact absurd (hrun.matched.low.1 255 (by decide)) (hfree 255 (by omega) (by omega)).2

/-- After 768 pages have been handed out, a request for one page fails, with page 1024 free. -/
theorem vmalloc_misses_free_page : ∃ m ranges live, VaddmRun (fun _ _ _ => True) m ranges live ∧
    (vmalloc m 1).1 = NO_ADDRESS ∧ FreeRun m 1 := by
  have hlike : Like (fullWords 8) (vaddm_init (fun _ => 0) 0) := like_init fun _ _ => rfl
  have run0 : VaddmRun (fun _ _ _ => True) (vaddm_init (fun _ => 0) 0) [] [] := .init fun _ _ => rfl
  have hsearch : vaddm_get_first_clear_bits (vaddm_init (fun _ => 0) 0) 768 = some 256 :=
    (hlike.search_eq (like_fullWords (by decide)) (by decide)).trans (by decide +kernel)
  have heq := vmalloc_of_some (show 1 ≤ 768 by decide) hsearch (by decide) (by decide)
  have hpages : ∀ c ≤ 32768 * 32, Allocated (vmalloc (vaddm_init (fun _ => 0) 0) 768).2 c ↔ c < 1024 := by
    intro c hc
    have hvisits : ¬ Visits 0 (0xFFFFFFFF - 0) c := fun h => absurd h.2 (by omega)
    rw [heq, allocated_set_loop _ _ hc, allocated_init _ _ hc]
    simp only [hvisits, and_false, or_false]
    omega
  refine ⟨_, _, _, run0.vmalloc 768 trivial, (vmalloc_fails_iff (Nat.le_refl 1)).mpr ?_, ?_⟩
  · rintro ⟨w, hw, hlen, hfree⟩
    obtain ⟨c, rfl⟩ := List.length_eq_one_iff.mp hlen
    have hc := (mem_searchPages (hw.subset (List.mem_singleton.mpr rfl))).2
    exact (hfree c (List.mem_singleton.mpr rfl)).2 ((hpages c (by omega)).mpr hc)
  · refine ⟨1024, by decide, fun c h1 h2 => ⟨by omega, fun hc => ?_⟩⟩
    have := (hpages c (by omega)).mp hc
    omega

end Condor.Vmm
