import Condor.Pmm.Contiguous

/-!
# Requests inside 64 KiB

With `align_64kb` the counter is reset after every superblock, so the trace is
`Scan.grouped`: the blocks of the superblocks looked at, each followed by a
reset (`trace_eq_grouped`). A run of such a trace lies in one group, and the
first one is the lowest; superblocks that are skipped hold no free block.
-/

namespace Condor.Pmm

open Lib

/-- The blocks from `b` to `b + n - 1` are free and lie in one aligned group of 16. -/
def RunInGroup (lb : LomemBitmaps) (n b : Nat) : Prop :=
  ∃ g, 16 * g ≤ b ∧ b + n ≤ 16 * g + 16 ∧ ∀ c, b ≤ c → c < b + n → FreeBlock lb c

/-- The blocks the search looks at, superblock by superblock. -/
def groups (lb : LomemBitmaps) : List (List Nat) :=
  (List.range' 0 MAX_SUPERBLOCKS).flatMap fun sb =>
    if superblock_bitmap lb sb ≠ 0xFFFFFFFF#32 then
      (List.range' 0 32).map fun j =>
        if Looked lb (32 * sb + j) then List.range' (16 * (32 * sb + j)) 16 else []
    else []

variable {lb : LomemBitmaps} {flags : PallocFlags} {w : List Nat} {b n : Nat}

theorem blocksOf_eq (g : Nat) : blocksOf g = (List.range' (16 * g) 16).map some := by
  have hshift : List.range' (16 * g) 16 = (List.range' 0 16).map (16 * g + ·) :=
    (List.map_add_range' 0 16 1).symm
  rw [blocksOf, hshift, List.map_map]
  rfl

theorem superTrace_aligned (halign : flags.align_64kb = true) (g : Nat) :
    superTrace lb flags g =
      (if Looked lb g then List.range' (16 * g) 16 else []).map some ++ [none] := by
  rw [superTrace, halign, if_pos rfl, blocksOf_eq]
  split <;> rfl

theorem trace_eq_grouped (halign : flags.align_64kb = true) (hlow : flags.low_mem = false) :
    trace lb flags = Scan.grouped (groups lb) := by
  have hcut : ¬ Cut lb flags := by
    rintro ⟨hcut, -⟩
    rw [hlow] at hcut
    cases hcut
  rw [trace, if_neg hcut, Scan.grouped, groups, List.flatMap_assoc]
  refine List.flatMap_congr fun sb _ => ?_
  rw [wordTrace]
  split
  · rw [List.flatMap_map]
    exact List.flatMap_congr fun j _ => superTrace_aligned halign _
  · rfl

theorem mem_groups {grp : List Nat} (h : grp ∈ groups lb) :
    grp = [] ∨ ∃ g, grp = List.range' (16 * g) 16 := by
  obtain ⟨sb, -, h⟩ := List.mem_flatMap.mp h
  split at h
  · obtain ⟨j, -, rfl⟩ := List.mem_map.mp h
    split
    · exact .inr ⟨_, rfl⟩
    · exact .inl rfl
  · cases h

theorem range_mem_groups {g : Nat} (hg : g < 256) (hl : Looked lb g) :
    List.range' (16 * g) 16 ∈ groups lb := by
  refine List.mem_flatMap.mpr ⟨g / 32, ?_, ?_⟩
  · rw [List.mem_range'_1, MAX_SUPERBLOCKS]
    omega
  · rw [if_pos (superWord_ne_full hl.1)]
    refine List.mem_map.mpr ⟨g % 32, ?_, ?_⟩
    · rw [List.mem_range'_1]
      omega
    · rw [show 32 * (g / 32) + g % 32 = g by omega, if_pos hl]

/-- A run of the trace is a range of blocks in one group. -/
theorem infix_groups (hne : w ≠ []) (h : w.map some <:+: Scan.grouped (groups lb)) :
    ∃ g b, 16 * g ≤ b ∧ b + w.length ≤ 16 * g + 16 ∧ w = List.range' b w.length := by
  obtain ⟨grp, hgrp, hw⟩ := (Scan.infix_grouped hne).mp h
  rcases mem_groups hgrp with rfl | ⟨g, rfl⟩
  · exact absurd (List.infix_nil.mp hw) hne
  · obtain ⟨b, h1, h2, h3⟩ := Scan.infix_range'.mp hw
    exact ⟨g, b, h1, h2, h3⟩

/-- A run in a group is a run of the trace. -/
theorem RunInGroup.on_trace (hsum : SummaryOk lb) (hn : 1 ≤ n) (h : RunInGroup lb n b) :
    (List.range' b n).map some <:+: Scan.grouped (groups lb) := by
  obtain ⟨g, h1, h2, hfree⟩ := h
  have hfirst := hfree b (Nat.le_refl b) (by omega)
  have hg : b / 16 = g := by omega
  have hl : Looked lb g := hg ▸ hsum.looked hfirst
  have hlt := hfirst.1
  have hne : List.range' b n ≠ [] := by
    rw [Ne, List.range'_eq_nil_iff]
    omega
  refine (Scan.infix_grouped hne).mpr ⟨_, range_mem_groups (by omega) hl, ?_⟩
  exact Scan.infix_range'.mpr ⟨b, h1, by rwa [List.length_range'], by rw [List.length_range']⟩

theorem RunInGroup.isFree (h : RunInGroup lb n b) : ∀ c ∈ List.range' b n, isFree lb c = true := by
  obtain ⟨g, -, -, hfree⟩ := h
  intro c hc
  rw [List.mem_range'_1] at hc
  exact decide_eq_true (hfree c hc.1 hc.2)

/-- The run the search counts is a run in a group. -/
theorem CountedRun.runInGroup (halign : flags.align_64kb = true) (hlow : flags.low_mem = false)
    (hw : CountedRun lb flags w) (hb : w.head? = some b) :
    RunInGroup lb (Scan.need flags.page_alloc_num) b := by
  obtain ⟨v, q, hl, ⟨hsuffix, -⟩, hlen, -⟩ := hw.2
  have hinfix : w.map some <:+: Scan.grouped (groups lb) := by
    rw [← trace_eq_grouped halign hlow, hl]
    exact hsuffix.isInfix.trans (List.prefix_append v q).isInfix
  have hne : w ≠ [] := by
    rintro rfl
    cases hb
  obtain ⟨g, b', h1, h2, hrange⟩ := infix_groups hne hinfix
  rw [hlen] at h2 hrange
  obtain rfl : b' = b := by
    rw [hrange, List.head?_range', if_neg (by have := Scan.need_pos flags.page_alloc_num; omega)] at hb
    exact Option.some.inj hb
  refine ⟨g, h1, h2, fun c hc1 hc2 => hw.freeBlock ?_⟩
  rw [hrange, List.mem_range'_1]
  exact ⟨hc1, hc2⟩

/-- Whenever there is a run in a group, the search counts one. -/
theorem RunInGroup.exists_counted (hsum : SummaryOk lb) (halign : flags.align_64kb = true)
    (hlow : flags.low_mem = false) (hn : 1 ≤ flags.page_alloc_num)
    (h : RunInGroup lb flags.page_alloc_num b) : ∃ w, CountedRun lb flags w := by
  obtain ⟨p, q, hpq⟩ := h.on_trace hsum hn
  rw [← trace_eq_grouped halign hlow] at hpq
  have hlen : (List.range' b flags.page_alloc_num).length = Scan.need flags.page_alloc_num := by
    rw [List.length_range', Scan.need]
    omega
  obtain ⟨w, hw⟩ := Scan.exists_firstRun ⟨q, hpq⟩ ⟨⟨p, rfl⟩, h.isFree⟩ hlen
  exact ⟨w, by omega, hw⟩

/-- No run in a group starts before the one the search counts. -/
theorem CountedRun.head_le_run (hsum : SummaryOk lb) (halign : flags.align_64kb = true)
    (hlow : flags.low_mem = false) (hn : 1 ≤ flags.page_alloc_num) (hw : CountedRun lb flags w)
    (hb : w.head? = some b) {c : Nat} (hc : RunInGroup lb flags.page_alloc_num c) : b ≤ c := by
  have hinfix := hc.on_trace hsum hn
  rw [← trace_eq_grouped halign hlow] at hinfix
  refine hw.2.head_le_start trace_pairwise hinfix hc.isFree ?_ hb ?_
  · rw [List.length_range', Scan.need]
    omega
  · rw [List.head?_range', if_neg (by omega)]

/-- **Requests inside 64 KiB.** On every bitmap whose summary is right, the search for `n` blocks
with `align_64kb` answers the lowest run of free blocks inside an aligned group of 16, and none
exactly if there is none. -/
theorem aligned_search (hsum : SummaryOk lb) (halign : flags.align_64kb = true)
    (hlow : flags.low_mem = false) (hnum : flags.page_alloc_num = n) (hn : 1 ≤ n) :
    (paddm_get_first_clear_bits lb flags = none ↔ ∀ b, ¬ RunInGroup lb n b) ∧
    ∀ b, paddm_get_first_clear_bits lb flags = some b ↔
      RunInGroup lb n b ∧ ∀ c < b, ¬ RunInGroup lb n c := by
  subst hnum
  have hneed : Scan.need flags.page_alloc_num = flags.page_alloc_num := by
    unfold Scan.need
    omega
  have hleast : ∀ b, paddm_get_first_clear_bits lb flags = some b →
      RunInGroup lb flags.page_alloc_num b ∧ ∀ c < b, ¬ RunInGroup lb flags.page_alloc_num c := by
    intro b hsearch
    obtain ⟨w, hw, hb⟩ := search_eq_some.mp hsearch
    have hrun := hw.runInGroup halign hlow hb
    rw [hneed] at hrun
    refine ⟨hrun, fun c hc hcrun => ?_⟩
    have hle := hw.head_le_run hsum halign hlow hn hb hcrun
    omega
  cases hsearch : paddm_get_first_clear_bits lb flags with
  | none =>
    have hno : ∀ b, ¬ RunInGroup lb flags.page_alloc_num b := by
      intro b hrun
      obtain ⟨w, hw⟩ := hrun.exists_counted hsum halign hlow hn
      exact search_eq_none.mp hsearch w hw
    refine ⟨iff_of_true rfl hno, fun b => ?_⟩
    exact iff_of_false (Option.some_ne_none b).symm fun h => hno b h.1
  | some a =>
    obtain ⟨hrun, hmin⟩ := hleast a hsearch
    refine ⟨iff_of_false (Option.some_ne_none a) fun h => h a hrun, fun b => ?_⟩
    constructor
    · intro h
      obtain rfl := Option.some.inj h
      exact ⟨hrun, hmin⟩
    · rintro ⟨hb, hbmin⟩
      have hab : ¬ a < b := fun h => hbmin a h hrun
      have hba : ¬ b < a := fun h => hmin b h hb
      rw [show a = b by omega]

/-- Blocks 15, 16, 20 and 21 are free: the first two of them lie in different groups. -/
theorem aligned_search_two : ∃ lb, SummaryOk lb ∧ FreeBlock lb 15 ∧ FreeBlock lb 16 ∧
    paddm_get_first_clear_bits lb { align_64kb := true, page_alloc_num := 2 } = some 20 := by
  let lb := [15, 16, 20, 21].foldl paddm_clear_bit initial_bitmaps
  have hsum : SummaryOk lb :=
    (((summaryOk_initial.clear_bit 15).clear_bit 16).clear_bit 20).clear_bit 21
  have hrun : RunInGroup lb 2 20 := by
    have hfree : FreeBlock lb 20 ∧ FreeBlock lb 21 := by decide +kernel
    refine ⟨1, by decide, by decide, fun c h1 h2 => ?_⟩
    obtain rfl | rfl : c = 20 ∨ c = 21 := by omega
    · exact hfree.1
    · exact hfree.2
  have hmin : ∀ c < 20, ¬ RunInGroup lb 2 c := by
    have hpair : ∀ c < 20, FreeBlock lb c → FreeBlock lb (c + 1) → c = 15 := by decide +kernel
    rintro c hc ⟨g, h1, h2, hfree⟩
    have h15 := hpair c hc (hfree c (by omega) (by omega)) (hfree (c + 1) (by omega) (by omega))
    omega
  refine ⟨lb, hsum, by decide +kernel, by decide +kernel, ?_⟩
  exact ((aligned_search hsum rfl rfl rfl (by decide)).2 20).mpr ⟨hrun, hmin⟩

end Condor.Pmm
