import Condor.Pmm.Contiguous

/-!
# The reserved blocks

Block 0 holds the real-mode vectors, block 1 the page table of the boot code,
block 2 the bitmaps themselves. `pmm_clear_region` frees them with the region
and reserves them again after every block; `pfree` refuses a release that starts
below block 4, and one that does not wrap around 2^32 only goes up from there.
So they stay allocated (`Reserved.exec`), and runs, which go up from a free
block, do not contain them.

The bitmaps are a field of `State`: that the frame stack does not store into
their page is part of the model. Its list pages are frames from 16 MiB on as
long as its pops are sound (`Sound.page`).
-/

namespace Condor.Pmm

open Lib

/-- The first three blocks are allocated. -/
def Reserved (lb : LomemBitmaps) : Prop := ∀ b < 3, Allocated lb b

/-- A release counts its blocks without wrapping around. -/
def Op.NoWrap : Op → Prop
  | .pfree base num => base / 4096 + num ≤ 2 ^ 32
  | _ => True

/-- The states after `pmm_init` and entry points that do not wrap around. -/
inductive NoWrapRun {σ : Type} (P : Paging σ) : State σ → Prop where
  | init {s s' : State σ} {mmap : List MmapEntry} (hok : pmm_init P s mmap = .ok s') : NoWrapRun P s'
  | step {s s' : State σ} {op : Op} {r : Option Nat} (hs : NoWrapRun P s) (hop : op.NoWrap)
      (hok : exec P s op = .ok (r, s')) : NoWrapRun P s'

section
variable {σ : Type} {P : Paging σ} {s s' : State σ} {flags : PallocFlags}

theorem reserved_initial : Reserved initial_bitmaps := fun _ hb => allocated_initial (by omega)

/-- A region that contains the blocks reserves them again. -/
theorem Reserved.clear_region {base size : Nat} (hr : Reserved s.low_bitmaps)
    (h : pmm_clear_region P s base size = .ok s') : Reserved s'.low_bitmaps := by
  intro b hb
  rw [allocated_clear_region h (by omega)]
  by_cases ht : Touches base size b
  · exact .inr ⟨hb, b, by omega, ht⟩
  · exact .inl ⟨hr b hb, ht⟩

theorem Reserved.set_region {base size : Nat} (hr : Reserved s.low_bitmaps) :
    Reserved (pmm_set_region s base size).low_bitmaps := fun b hb =>
  (allocated_set_region (by omega)).mpr (.inl (hr b hb))

theorem Reserved.kpmalloc {r : Nat} (hr : Reserved s.low_bitmaps)
    (h : kpmalloc P s flags = .ok (r, s')) : Reserved s'.low_bitmaps := by
  obtain hpop | ⟨frame, -, rfl⟩ := kpmalloc_cases h
  · rwa [stack_pop32_bitmaps hpop]
  · exact fun b hb => (allocated_mark_blocks (by omega)).mpr (.inl (hr b hb))

/-- A release from block 4 on that does not wrap around clears no reserved block. -/
theorem not_clears {base num b : Nat} (hbase : 4 ≤ base / 4096) (hwrap : base / 4096 + num ≤ 2 ^ 32)
    (hb : b < 3) : ¬ Clears base num b := by
  rintro ⟨bit, hbit, rfl⟩
  rw [Nat.mod_eq_of_lt (by omega)] at hb
  omega

theorem Reserved.pfree {base num : Nat} (hr : Reserved s.low_bitmaps)
    (hwrap : base / 4096 + num ≤ 2 ^ 32) (h : pfree P s base num = .ok s') :
    Reserved s'.low_bitmaps := by
  obtain rfl | hpush | ⟨hbase, rfl⟩ := pfree_cases h
  · exact hr
  · rwa [stack_push_bitmaps hpush]
  · rw [shift12] at hbase
    exact fun b hb => (allocated_pfree_loop (by omega)).mpr ⟨hr b hb, not_clears hbase hwrap hb⟩

/-- Every entry point that does not wrap around keeps the blocks allocated. -/
theorem Reserved.exec {op : Op} {r : Option Nat} (hr : Reserved s.low_bitmaps) (hop : op.NoWrap)
    (h : exec P s op = .ok (r, s')) : Reserved s'.low_bitmaps := by
  have hstep := exec_cases h
  cases op with
  | set_region base size => exact hstep ▸ hr.set_region
  | clear_region base size => exact hr.clear_region hstep
  | kpmalloc flags =>
    obtain ⟨a, ha⟩ := hstep
    exact hr.kpmalloc ha
  | pfree base num => exact hr.pfree hop hstep

theorem reserved_pmm_init {mmap : List MmapEntry} (h : pmm_init P s mmap = .ok s') :
    Reserved s'.low_bitmaps :=
  pmm_init_keeps (I := fun t => Reserved t.low_bitmaps) (fun _ _ _ _ ht hok => ht.clear_region hok)
    (fun _ _ _ ht => ht.set_region) (fun _ ht => ht) (fun _ => reserved_initial) h

theorem NoWrapRun.reserved (hrun : NoWrapRun P s) : Reserved s.low_bitmaps := by
  induction hrun with
  | init hok => exact reserved_pmm_init hok
  | step _ hop hok ih => exact ih.exec hop hok

/-- What the search answers lies above the reserved blocks. -/
theorem Reserved.le_of_search {b : Nat} (hr : Reserved s.low_bitmaps)
    (hsearch : paddm_get_first_clear_bits s.low_bitmaps flags = some b) : 3 ≤ b := by
  obtain ⟨w, hw, hb⟩ := search_eq_some.mp hsearch
  by_contra hlt
  exact (hw.freeBlock (List.mem_of_mem_head? hb)).2 (hr b (by omega))

/-- **The reserved blocks.** After `pmm_init` on any memory map and any entry points, as long as no
release wraps around 2^32, blocks 0 to 2 are allocated, and what the bitmaps serve next, whatever
the flags, does not contain them. -/
theorem reserved_blocks (hrun : NoWrapRun P s) :
    (∀ b < 3, Allocated s.low_bitmaps b) ∧
    ∀ flags b, paddm_get_first_clear_bits s.low_bitmaps flags = some b →
      ∀ c, b ≤ c → c < b + flags.count → 3 ≤ c := by
  have hr := hrun.reserved
  refine ⟨hr, fun flags b hsearch c h1 _ => ?_⟩
  have hb := hr.le_of_search hsearch
  omega

end

/-- A map that offers the first four blocks: block 3 is served. -/
theorem reserved_blocks_boot : ∃ s, NoWrapRun AddrSpace.paging s ∧ FreeBlock s.low_bitmaps 3 ∧
    ∀ b < 3, Allocated s.low_bitmaps b := by
  have hinit : pmm_init AddrSpace.paging ⟨fun _ => 0, 0, false, ⟨fun _ => 0, fun _ _ => 0⟩⟩
    [⟨0#64, 0x4000#64, MULTIBOOT_MEMORY_AVAILABLE⟩] = .ok _ := rfl
  have hrun := NoWrapRun.init hinit
  exact ⟨_, hrun, by decide, (reserved_blocks hrun).1⟩

end Condor.Pmm
