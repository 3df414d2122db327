import Condor.Pmm.Steps
import Condor.Pmm.Search

/-!
# The superblock summary

`SummaryOk lb` says a set summary bit stands for 16 allocated blocks. Every
entry point changes the bitmaps only by setting a bit, clearing a bit and
reserving the first three blocks (`Kept.exec`), and each of these keeps
`SummaryOk`. Under it the search skips no free block (`SummaryOk.mem_trace`), so
the zero flags of `pmalloc` get the lowest free block.
-/

namespace Condor.Pmm

open Lib

/-- A set summary bit stands for 16 allocated blocks. -/
def SummaryOk (lb : LomemBitmaps) : Prop :=
  ∀ g, g < 256 → SuperSet lb g → ∀ b, b / 16 = g → Allocated lb b

/-! ## The three changes -/

section
variable {lb : LomemBitmaps}

theorem superSet_set_bit {bit g : Nat} (h : bit < 4096) :
    SuperSet (paddm_set_bit lb bit) g ↔
      SuperSet lb g ∨ check_super_region (Bitmap.set lb bit) bit = true ∧ g = bit / 16 := by
  have hne : 4096 + g ≠ bit := by omega
  rw [paddm_set_bit_eq h]
  split <;> simp [SuperSet, Bitmap.test_set, *]

theorem superSet_clear_bit {bit g : Nat} (h : bit < 4096) :
    SuperSet (paddm_clear_bit lb bit) g ↔ SuperSet lb g ∧ g ≠ bit / 16 := by
  have hne : 4096 + g ≠ bit := by omega
  rw [paddm_clear_bit_eq h]
  simp [SuperSet, Bitmap.test_clear, hne]

/-- The window of the check starts at the word that holds the superblock. -/
theorem allocated_of_check {bit : Nat} (h : bit < 4096) (hc : check_super_region lb bit = true)
    {b : Nat} (hb : b / 16 = bit / 16) : Allocated lb b := by
  unfold check_super_region at hc
  rw [List.all_eq_true] at hc
  have h0 := hc 0 (by simp)
  rw [window_start h, Nat.add_zero, beq_iff_eq, show bit / 32 = b / 32 by omega] at h0
  exact Bitmap.test_of_word_full (by decide) h0

theorem SummaryOk.set_bit (h : SummaryOk lb) (bit : Nat) : SummaryOk (paddm_set_bit lb bit) := by
  by_cases hlt : bit < 4096
  · intro g hg hs b hb
    rw [allocated_set_bit (by omega)]
    rcases (superSet_set_bit hlt).mp hs with hs | ⟨hc, rfl⟩
    · exact .inl (h g hg hs b hb)
    · have := allocated_of_check hlt hc hb
      rw [Allocated, Bitmap.test_set (by decide)] at this
      simpa [Allocated] using this
  · rwa [paddm_set_bit, if_pos (by omega)]

theorem SummaryOk.clear_bit (h : SummaryOk lb) (bit : Nat) : SummaryOk (paddm_clear_bit lb bit) := by
  by_cases hlt : bit < 4096
  · intro g hg hs b hb
    obtain ⟨hs, hne⟩ := (superSet_clear_bit hlt).mp hs
    rw [allocated_clear_bit (by omega)]
    exact ⟨h g hg hs b hb, by rintro rfl; exact hne hb.symm⟩
  · rwa [paddm_clear_bit, if_pos (by omega)]

theorem test_reserve_low (i : Nat) :
    Bitmap.test (reserve_low lb) i = (Bitmap.test lb i || decide (i < 3)) := by
  by_cases h : i / 32 = 0
  · have hi : i < 32 := by omega
    simp only [Bitmap.test, reserve_low, set_block_word, block_bitmap, h, Nat.mod_eq_of_lt hi,
      Function.update_self, BitVec.getLsbD_or]
    congr 1
    clear h
    revert i
    decide
  · simp [Bitmap.test, reserve_low, set_block_word, Function.update_of_ne h, show ¬ i < 3 by omega]

/-- Reserving the first blocks allocates them and changes no other block. -/
theorem allocated_reserve_low (b : Nat) :
    Allocated (reserve_low lb) b ↔ Allocated lb b ∨ b < 3 := by
  simp [Allocated, test_reserve_low]

theorem SummaryOk.reserve_low (h : SummaryOk lb) : SummaryOk (reserve_low lb) := by
  intro g hg hs b hb
  have hs' : SuperSet lb g := by
    rw [SuperSet, test_reserve_low, decide_eq_false (by omega), Bool.or_false] at hs
    exact hs
  rw [allocated_reserve_low]
  exact .inl (h g hg hs' b hb)

theorem allocated_initial {b : Nat} (hb : b < 4096) : Allocated initial_bitmaps b := by
  refine Bitmap.test_of_word_full (by decide) ?_
  rw [initial_bitmaps, if_pos (by unfold MAX_BLOCKS MAX_SUPERBLOCKS; omega)]
  rfl

theorem summaryOk_initial : SummaryOk initial_bitmaps :=
  fun g hg _ b hb => allocated_initial (by omega)

end

/-! ## Every entry point is made of the three changes -/

section
variable {σ : Type} {P : Paging σ} {s s' : State σ} {I : LomemBitmaps → Prop}

theorem stack_push_bitmaps {addr : Nat} (h : stack_push P s addr = .ok s') :
    s'.low_bitmaps = s.low_bitmaps := by
  cases stack_push_cases h <;> rfl

theorem stack_pop32_bitmaps {flags : PallocFlags} {r : Nat}
    (h : stack_pop32 P s flags = .ok (r, s')) : s'.low_bitmaps = s.low_bitmaps := by
  cases stack_pop32_cases h <;> rfl

/-- The effect of one cleared block on the bitmaps. -/
theorem clear_block_bitmaps {blocks : Nat} (h : clear_block P blocks s = .ok s') :
    s'.low_bitmaps = reserve_low (paddm_clear_bit s.low_bitmaps blocks) := by
  obtain ⟨t, rfl | ht, rfl⟩ := clear_block_cases h
  · rfl
  · rw [← stack_push_bitmaps ht]

/-- A predicate on the bitmaps that the three changes keep. -/
structure Kept (I : LomemBitmaps → Prop) : Prop where
  set_bit : ∀ lb bit, I lb → I (paddm_set_bit lb bit)
  clear_bit : ∀ lb bit, I lb → I (paddm_clear_bit lb bit)
  reserve_low : ∀ lb, I lb → I (reserve_low lb)

theorem Kept.clear_region (hK : Kept I) {base size : Nat} (h : pmm_clear_region P s base size = .ok s')
    (hI : I s.low_bitmaps) : I s'.low_bitmaps := by
  refine clear_region_keeps (I := fun t => I t.low_bitmaps) (fun t t' blocks ht hb => ?_) h hI
  rw [clear_block_bitmaps hb]
  exact hK.reserve_low _ (hK.clear_bit _ _ ht)

theorem Kept.set_region (hK : Kept I) {base size : Nat} (hI : I s.low_bitmaps) :
    I (pmm_set_region s base size).low_bitmaps := by
  unfold pmm_set_region
  split
  · exact hI
  · rw [loopWhile_lt]
    exact loop_keeps hI fun i t _ _ ht => hK.set_bit t i ht

theorem Kept.mark_blocks (hK : Kept I) {lb : LomemBitmaps} {flags : PallocFlags} {frame : Nat}
    (hI : I lb) :
    I (Pmm.mark_blocks lb flags frame) := by
  unfold Pmm.mark_blocks
  split
  · exact loop_keeps (hK.set_bit _ _ hI) fun i t _ _ ht => hK.set_bit t _ ht
  · exact hK.set_bit _ _ hI

theorem Kept.pfree (hK : Kept I) {base num : Nat} (h : Pmm.pfree P s base num = .ok s')
    (hI : I s.low_bitmaps) : I s'.low_bitmaps := by
  obtain rfl | hpush | ⟨-, rfl⟩ := pfree_cases h
  · exact hI
  · rwa [stack_push_bitmaps hpush]
  · exact loop_keeps hI fun i t _ _ ht => hK.clear_bit t _ ht

theorem Kept.kpmalloc (hK : Kept I) {flags : PallocFlags} {r : Nat}
    (h : Pmm.kpmalloc P s flags = .ok (r, s')) (hI : I s.low_bitmaps) : I s'.low_bitmaps := by
  obtain hpop | ⟨frame, -, rfl⟩ := kpmalloc_cases h
  · rwa [stack_pop32_bitmaps hpop]
  · exact hK.mark_blocks hI

/-- A predicate that the three changes keep survives every entry point. -/
theorem Kept.exec (hK : Kept I) {op : Op} {r : Option Nat} (h : Pmm.exec P s op = .ok (r, s'))
    (hI : I s.low_bitmaps) : I s'.low_bitmaps := by
  have hstep := exec_cases h
  cases op with
  | set_region base size => exact hstep ▸ hK.set_region hI
  | clear_region base size => exact hK.clear_region hstep hI
  | kpmalloc flags =>
    obtain ⟨a, ha⟩ := hstep
    exact hK.kpmalloc ha hI
  | pfree base num => exact hK.pfree hstep hI

theorem Kept.pmm_init (hK : Kept I) {mmap : List MmapEntry} (h : Pmm.pmm_init P s mmap = .ok s')
    (hI : I initial_bitmaps) : I s'.low_bitmaps :=
  pmm_init_keeps (I := fun t => I t.low_bitmaps) (fun _ _ _ _ ht hok => hK.clear_region hok ht)
    (fun _ _ _ ht => hK.set_region ht) (fun _ ht => ht) (fun _ => hI) h

theorem Kept.reachable (hK : Kept I) (h : Reachable P s) (hI : I initial_bitmaps) : I s.low_bitmaps := by
  induction h with
  | init h => exact hK.pmm_init h hI
  | step _ h ih => exact hK.exec h ih

end

theorem summaryOk_reachable {σ : Type} {P : Paging σ} {s : State σ} (h : Reachable P s) :
    SummaryOk s.low_bitmaps :=
  Kept.reachable ⟨fun _ bit h => h.set_bit bit, fun _ bit h => h.clear_bit bit,
    fun _ h => h.reserve_low⟩ h summaryOk_initial

/-! ## What the summary is good for -/

section
variable {lb : LomemBitmaps} {flags : PallocFlags}

/-- A superblock with a free block is looked into. -/
theorem SummaryOk.looked (h : SummaryOk lb) {b : Nat} (hb : FreeBlock lb b) : Looked lb (b / 16) := by
  refine ⟨fun hs => hb.2 (h _ (by have := hb.1; omega) hs b rfl), fun hf => hb.2 ?_⟩
  refine Bitmap.test_of_word_full (by decide) ?_
  rw [show b / 32 = b / 16 / 2 by omega]
  exact hf

/-- No free block is skipped, short of the cut of `low_mem`. -/
theorem SummaryOk.mem_trace (h : SummaryOk lb) {b : Nat} (hb : FreeBlock lb b)
    (hcut : Cut lb flags → b < 272) : b ∈ (trace lb flags).reduceOption :=
  Pmm.mem_trace.mpr ⟨hb.1, h.looked hb, hcut⟩

theorem not_cut_default : ¬ Cut lb {} := fun h => by cases h.1

/-- With zero flags the search answers the lowest free block. -/
theorem SummaryOk.search_default (h : SummaryOk lb) {b : Nat} :
    paddm_get_first_clear_bits lb {} = some b ↔
      FreeBlock lb b ∧ ∀ c < b, ¬ FreeBlock lb c := by
  have hmem : ∀ c, FreeBlock lb c → c ∈ (trace lb {}).reduceOption :=
    fun c hc => h.mem_trace hc fun hcut => absurd hcut not_cut_default
  have hsome : ∀ b, paddm_get_first_clear_bits lb {} = some b →
      FreeBlock lb b ∧ ∀ c < b, ¬ FreeBlock lb c := by
    intro b hb
    rw [search_eq (by simp)] at hb
    obtain ⟨w, hw, hhead⟩ := Scan.outcome_scan_iff.mp hb
    obtain ⟨p, x, q, rfl, hl, hx, hp⟩ := Scan.FirstRun.first hw
    cases hhead
    refine ⟨of_decide_eq_true hx, fun c hc hfree => ?_⟩
    have hc' := hmem c hfree
    have hs : (trace lb {}).reduceOption.Pairwise (· < ·) := trace_pairwise
    rw [hl] at hc' hs
    rcases List.mem_append.mp hc' with hcp | hcq
    · have := hp c hcp
      simp [isFree, hfree] at this
    · rcases List.mem_cons.mp hcq with rfl | hcq
      · omega
      · have := (List.pairwise_cons.mp (List.pairwise_append.mp hs).2.1).1 c hcq
        omega
  refine ⟨hsome b, ?_⟩
  rintro ⟨hb, hmin⟩
  cases hr : paddm_get_first_clear_bits lb {} with
  | some c =>
    obtain ⟨hc, hcmin⟩ := hsome c hr
    have h1 : ¬ b < c := fun hlt => hcmin b hlt hb
    have h2 : ¬ c < b := fun hlt => hmin c hlt hc
    rw [show c = b by omega]
  | none =>
    rw [search_eq (by simp), Scan.outcome_scan_eq_none] at hr
    obtain ⟨v, q, hv⟩ := List.append_of_mem (List.reduceOption_mem_iff.mp (hmem b hb))
    have hend : Scan.FreeEnd (isFree lb) (v ++ [some b]) [b] := ⟨⟨v, rfl⟩, by simpa [isFree] using hb⟩
    have hprefix : v ++ [some b] <+: trace lb {} := ⟨q, by simp [hv]⟩
    obtain ⟨w, hw⟩ := Scan.exists_firstRun hprefix hend rfl
    exact absurd hw (hr w)

end

/-- **The summary and first fit.** In every reachable state a set superblock bit stands for 16
allocated blocks; `pmalloc` answers the lowest free block below 4096 and marks it, and pops the
frame stack only when there is none. -/
theorem pmalloc_first_fit {σ : Type} {P : Paging σ} {s : State σ} (h : Reachable P s) :
    (∀ g < 256, SuperSet s.low_bitmaps g → ∀ b, b / 16 = g → Allocated s.low_bitmaps b) ∧
    (∀ b, FreeBlock s.low_bitmaps b → (∀ c < b, ¬ FreeBlock s.low_bitmaps c) →
      pmalloc P s =
        .ok (b * BLOCK_SIZE, { s with low_bitmaps := paddm_set_bit s.low_bitmaps b })) ∧
    ((∀ b < 4096, Allocated s.low_bitmaps b) → pmalloc P s = stack_pop32 P s {}) := by
  have hs := summaryOk_reachable h
  refine ⟨hs, fun b hb hmin => ?_, fun hall => ?_⟩
  · rw [pmalloc, kpmalloc, hs.search_default.mpr ⟨hb, hmin⟩]
    simp only [mark_blocks, Bool.false_eq_true, if_false, Nat.shiftLeft_eq, BLOCK_SIZE]
  · have hnone : paddm_get_first_clear_bits s.low_bitmaps {} = none := by
      cases hr : paddm_get_first_clear_bits s.low_bitmaps {} with
      | none => rfl
      | some b =>
        obtain ⟨hb, -⟩ := hs.search_default.mp hr
        exact absurd (hall b hb.1) hb.2
    rw [pmalloc, kpmalloc, hnone]

/-- The blocks 3 and 4 are handed out and then 5; 4 is freed again. Of the free blocks, 4 and 32 to 39, the
lowest one is answered. -/
theorem pmalloc_first_fit_freed : ∃ s s', Reachable AddrSpace.paging s ∧ ¬ FreeBlock s.low_bitmaps 3 ∧
    FreeBlock s.low_bitmaps 32 ∧ pmalloc AddrSpace.paging s = .ok (0x4000, s') := by
  have hcalls : (do
      let s ← pmm_init AddrSpace.paging ⟨fun _ => 0, 0, false, ⟨fun _ => 0, fun _ _ => 0⟩⟩
        [⟨0x3000#64, 0x3000#64, MULTIBOOT_MEMORY_AVAILABLE⟩, ⟨0x20000#64, 0x8000#64, MULTIBOOT_MEMORY_AVAILABLE⟩]
      let a ← exec AddrSpace.paging s (.kpmalloc { contiguous := true, page_alloc_num := 2 })
      let b ← exec AddrSpace.paging a.2 (.kpmalloc {})
      let c ← exec AddrSpace.paging b.2 (.pfree 0x4000 1)
      pure (decide (FreeBlock c.2.low_bitmaps 4 ∧ FreeBlock c.2.low_bitmaps 32 ∧
        ∀ x : Nat, x < 4 → ¬ FreeBlock c.2.low_bitmaps x))).toOption = some true := by decide +kernel
  obtain ⟨s, hs, hcalls⟩ := bind_toOption_eq_some.mp hcalls
  obtain ⟨⟨ra, a⟩, ha, hcalls⟩ := bind_toOption_eq_some.mp hcalls
  obtain ⟨⟨rb, b⟩, hb, hcalls⟩ := bind_toOption_eq_some.mp hcalls
  obtain ⟨⟨rc, c⟩, hc, hcalls⟩ := bind_toOption_eq_some.mp hcalls
  obtain ⟨hfree, hother, hmin⟩ := of_decide_eq_true (Option.some.inj hcalls)
  have h := (((Reachable.init hs).step ha).step hb).step hc
  exact ⟨c, _, h, hmin 3 (by decide), hother, (pmalloc_first_fit h).2.1 4 hfree hmin⟩

end Condor.Pmm
