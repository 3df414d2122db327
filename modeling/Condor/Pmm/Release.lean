import Condor.Pmm.Contiguous

/-!
# Releasing what an allocation marked

`kpmalloc` marks `flags.count` blocks from the first one of the run the search
counted; `pfree` with the same count clears the same blocks, unless the first
one is below block 4. The blocks in between that the search skipped were
allocated before and are free afterwards, so the two undo each other exactly if
the run starts at block 4 or later and has no gap (`released_iff`).
-/

namespace Condor.Pmm

open Lib

/-- The bitmaps agree on the blocks below 16 MiB. -/
def SameBlocks (lb lb' : LomemBitmaps) : Prop :=
  ∀ i < MAX_BLOCKS, block_bitmap lb i = block_bitmap lb' i

theorem sameBlocks_iff {lb lb' : LomemBitmaps} :
    SameBlocks lb lb' ↔ ∀ b < 4096, Allocated lb b ↔ Allocated lb' b := by
  refine (Bitmap.words_eq_iff (w := 32)).trans (forall₂_congr fun b _ => ?_)
  rw [Bool.eq_iff_iff]
  rfl

section
variable {σ : Type} {P : Paging σ} {s : State σ} {lb : LomemBitmaps} {flags : PallocFlags}
  {w : List Nat} {b n : Nat}

/-- The bitmaps after `pfree` of `n` blocks from `b` on. -/
def freed_blocks (lb : LomemBitmaps) (b n : Nat) : LomemBitmaps :=
  if b < 4 then lb
  else loop 0 n lb fun bit lb => paddm_clear_bit lb ((bit + (b * 4096) >>> 12) % 2 ^ 32)

/-- A release below 16 MiB changes the bitmaps only. -/
theorem pfree_low (hb : b < 4096) :
    pfree P s (b * 4096) n = .ok { s with low_bitmaps := freed_blocks s.low_bitmaps b n } := by
  have hpoison : b * 4096 ≠ POISON_NULL := by
    unfold POISON_NULL
    omega
  unfold pfree freed_blocks
  rw [if_neg hpoison, if_neg (by omega), if_neg (by omega), shift12, Nat.mul_div_cancel b (by decide)]
  split <;> rfl

/-- From block 4 on the release frees its blocks; below, it does nothing. -/
theorem allocated_freed {c : Nat} (hc : c < 4096) (hn : b + n ≤ 4096) :
    Allocated (freed_blocks lb b n) c ↔ Allocated lb c ∧ ¬ (4 ≤ b ∧ b ≤ c ∧ c < b + n) := by
  unfold freed_blocks
  split
  case isTrue hlow =>
    refine (and_iff_left ?_).symm
    omega
  case isFalse hhigh =>
    rw [allocated_pfree_loop hc]
    refine and_congr_right fun _ => not_congr ?_
    unfold Clears
    rw [Nat.mul_div_cancel b (by decide)]
    constructor
    · rintro ⟨bit, hbit, rfl⟩
      rw [Nat.mod_eq_of_lt (by omega)] at hc ⊢
      omega
    · rintro ⟨-, h1, h2⟩
      exact ⟨c - b, by omega, by rw [Nat.mod_eq_of_lt (by omega)]; omega⟩

/-- A run that is counted lies in low memory. -/
theorem CountedRun.le (hw : CountedRun lb flags w) (hb : w.head? = some b) :
    b + flags.count ≤ 4096 := by
  obtain ⟨d, hd, hlast⟩ := hw.exists_last hb
  have hlow := (hw.freeBlock hd).1
  have hcount : flags.count ≤ _ := count_le
  omega

/-- Marking and freeing changes nothing exactly if the blocks were free and are not refused. -/
theorem sameBlocks_freed_iff (hfirst : FreeBlock lb b) (hn : b + flags.count ≤ 4096) :
    SameBlocks (freed_blocks (mark_blocks lb flags b) b flags.count) lb ↔
      4 ≤ b ∧ ∀ c, b ≤ c → c < b + flags.count → FreeBlock lb c := by
  rw [sameBlocks_iff]
  have hafter : ∀ c < 4096, Allocated (freed_blocks (mark_blocks lb flags b) b flags.count) c ↔
      (Allocated lb c ∨ b ≤ c ∧ c < b + flags.count) ∧ ¬ (4 ≤ b ∧ b ≤ c ∧ c < b + flags.count) := by
    intro c hc
    rw [allocated_freed hc hn, allocated_mark_blocks hc, marked_iff]
  constructor
  · intro h
    have hb : 4 ≤ b := by
      by_contra hlow
      have hpos := flags.count_pos
      refine hfirst.2 ((h b hfirst.1).mp ((hafter b hfirst.1).mpr ⟨.inr ?_, fun hr => hlow hr.1⟩))
      omega
    refine ⟨hb, fun c h1 h2 => ⟨by omega, fun hA => ?_⟩⟩
    exact ((hafter c (by omega)).mp ((h c (by omega)).mpr hA)).2 ⟨hb, h1, h2⟩
  · rintro ⟨hb, hfree⟩ c hc
    rw [hafter c hc]
    by_cases hin : b ≤ c ∧ c < b + flags.count
    · exact iff_of_false (fun h => h.2 ⟨hb, hin⟩) (hfree c hin.1 hin.2).2
    · simp only [hin, and_false, or_false, not_false_eq_true, and_true]

/-- **Release after allocation.** A request of a reachable state that is served from the bitmap,
released with its count, leaves the blocks as they were exactly if it starts at block 4 or later and,
if contiguous, no skipped block lies in its run. -/
theorem released_iff (hr : Reachable P s)
    (hserved : paddm_get_first_clear_bits s.low_bitmaps flags = some b) :
    (∃ t t', kpmalloc P s flags = .ok (b * 4096, t) ∧ pfree P t (b * 4096) flags.count = .ok t' ∧
      SameBlocks t'.low_bitmaps s.low_bitmaps) ↔
    4 ≤ b ∧ (flags.contiguous = true →
      ∀ w, CountedRun s.low_bitmaps flags w → GapFree s.low_bitmaps w) := by
  obtain ⟨w, hw, hb⟩ := search_eq_some.mp hserved
  have hfirst := hw.freeBlock (List.mem_of_mem_head? hb)
  have hrun : (∀ w', CountedRun s.low_bitmaps flags w' → GapFree s.low_bitmaps w') ↔
      GapFree s.low_bitmaps w := ⟨fun h => h w hw, fun h w' hw' => hw'.unique hw ▸ h⟩
  rw [hrun, ← hw.free_iff (summaryOk_reachable hr) hb, ← sameBlocks_freed_iff hfirst (hw.le hb)]
  simp only [kpmalloc_found hserved]
  constructor
  · rintro ⟨t, t', ht, hfree, hsame⟩
    cases ht
    rw [pfree_low hfirst.1] at hfree
    cases hfree
    exact hsame
  · exact fun hsame => ⟨_, _, rfl, pfree_low hfirst.1, hsame⟩

end

/-- One page at 0x20000, allocated and released. -/
theorem released_iff_block32 : ∃ s t t', Reachable AddrSpace.paging s ∧
    kpmalloc AddrSpace.paging s {} = .ok (32 * 4096, t) ∧
    pfree AddrSpace.paging t (32 * 4096) 1 = .ok t' ∧ SameBlocks t'.low_bitmaps s.low_bitmaps := by
  have hinit : pmm_init AddrSpace.paging ⟨fun _ => 0, 0, false, ⟨fun _ => 0, fun _ _ => 0⟩⟩
    [⟨0x20000#64, 0x1000#64, MULTIBOOT_MEMORY_AVAILABLE⟩] = .ok _ := rfl
  have hr := Reachable.init hinit
  have hserved : paddm_get_first_clear_bits _ {} = some 32 :=
    (summaryOk_reachable hr).search_default.mpr ⟨by decide, by decide⟩
  obtain ⟨t, t', ht, ht', hsame⟩ := (released_iff hr hserved).mpr ⟨by decide, fun hc => by cases hc⟩
  exact ⟨_, t, t', hr, ht, ht', hsame⟩

/-- One page at 0x3000 is allocated, and its release is refused. -/
theorem block3_not_released : ∃ s t t', Reachable AddrSpace.paging s ∧
    paddm_get_first_clear_bits s.low_bitmaps {} = some 3 ∧
    kpmalloc AddrSpace.paging s {} = .ok (0x3000, t) ∧
    pfree AddrSpace.paging t 0x3000 1 = .ok t' ∧ ¬ SameBlocks t'.low_bitmaps s.low_bitmaps := by
  have hinit : pmm_init AddrSpace.paging ⟨fun _ => 0, 0, false, ⟨fun _ => 0, fun _ _ => 0⟩⟩
    [⟨0x3000#64, 0x1000#64, MULTIBOOT_MEMORY_AVAILABLE⟩] = .ok _ := rfl
  have hr := Reachable.init hinit
  have hfirst := (summaryOk_reachable hr).search_default.mpr
    (show FreeBlock _ 3 ∧ ∀ c < 3, ¬ FreeBlock _ c from ⟨by decide, by decide⟩)
  have hlt : 3 < 4096 := by decide
  refine ⟨_, _, _, hr, hfirst, kpmalloc_found hfirst, pfree_low hlt, fun hsame => ?_⟩
  have hblock3 : FreeBlock _ 3 := ((summaryOk_reachable hr).search_default.mp hfirst).1
  have hle : 3 + PallocFlags.count {} ≤ 4096 := by decide
  exact absurd ((sameBlocks_freed_iff hblock3 hle).mp hsame).1 (by decide)

end Condor.Pmm
