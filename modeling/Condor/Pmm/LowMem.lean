import Condor.Pmm.Contiguous
import Condor.Pmm.StackIndex

/-!
# Requests for memory below 1 MiB

`low_mem` is meant to keep a request below 1 MiB, the first 16 superblocks. The
search tests the flag after it has looked into superblock 16, and only inside
the first summary word: if that word is full, the test is skipped with it
(`CountedRun.low_mem_head`). A search that finds nothing falls through to the
frame stack, which knows no flag. `low_mem_iff` says when the answer is below
1 MiB all the same.
-/

namespace Condor.Pmm

open Lib

/-- The request fails, or its memory lies below 1 MiB. -/
def LowAnswer (flags : PallocFlags) (r : Nat) : Prop := r = FAIL ∨ r + flags.count * 4096 ≤ 0x100000

/-- The first summary word is not full, and the blocks from the first one of the run on that the search counts
lie in the superblocks 0 to 15. -/
def RunInLow (lb : LomemBitmaps) (flags : PallocFlags) (w : List Nat) : Prop :=
  superblock_bitmap lb 0 ≠ 0xFFFFFFFF#32 ∧
    ∀ b, w.head? = some b → ∀ c, b ≤ c → c < b + flags.count → c / 16 < 16

/-- A page is mapped at `stack32`, and the dword under the index is all ones or the address of low memory; or
the index is below the first slot, and the page itself is low memory. -/
def StackInLow (s : State AddrSpace) (flags : PallocFlags) : Prop :=
  ∃ p, s.space.frame? (STACK32 / 4096) = some p ∧
    (0 ≤ s.stack32_index ∧ (s.space.frames p s.stack32_index.toNat = 0xFFFFFFFF ∨
        s.space.frames p s.stack32_index.toNat + flags.count * 4096 ≤ 0x100000) ∨
      s.stack32_index < 0 ∧ p + flags.count ≤ 256)

/-- The run that the search counts lies in low memory; or it counts none, and the stack holds low memory or the
mark of its bottom. -/
def LowMemOk (s : State AddrSpace) (flags : PallocFlags) : Prop :=
  (∀ w, CountedRun s.low_bitmaps flags w → RunInLow s.low_bitmaps flags w) ∧
    ((∀ w, ¬ CountedRun s.low_bitmaps flags w) → StackInLow s flags)

section
variable {lb : LomemBitmaps} {flags : PallocFlags} {w : List Nat} {b : Nat}

/-- A full summary word hides its superblocks from the search. -/
theorem superSet_of_full {g : Nat} (hfull : superblock_bitmap lb 0 = 0xFFFFFFFF#32) (hg : g < 32) :
    SuperSet lb g := by
  by_contra hset
  refine superWord_ne_full hset ?_
  rw [Nat.div_eq_of_lt hg]
  exact hfull

/-- Where a run of a `low_mem` request starts: before block 272, if the first summary word is not
full, else not below 2 MiB. -/
theorem CountedRun.low_mem_head (hw : CountedRun lb flags w) (hb : w.head? = some b)
    (hlow : flags.low_mem = true) :
    if superblock_bitmap lb 0 = 0xFFFFFFFF#32 then 512 ≤ b else b < 272 := by
  obtain ⟨-, hlooked, hcut⟩ := mem_trace.mp (hw.2.mem (List.mem_of_mem_head? hb))
  split
  case isTrue hfull =>
    by_contra hlt
    exact hlooked.1 (superSet_of_full hfull (by omega))
  case isFalse hfull => exact hcut ⟨hlow, hfull⟩

/-- An answer from the bitmaps is below 1 MiB exactly if the run is in low memory. -/
theorem CountedRun.lowAnswer_iff (hw : CountedRun lb flags w) (hb : w.head? = some b)
    (hlow : flags.low_mem = true) : LowAnswer flags (b * 4096) ↔ RunInLow lb flags w := by
  have hlt := (hw.freeBlock (List.mem_of_mem_head? hb)).1
  have hcount := flags.count_pos
  have hhead := hw.low_mem_head hb hlow
  unfold LowAnswer RunInLow FAIL
  constructor
  · intro h
    refine ⟨fun hfull => ?_, fun b' hb' c _ hc => ?_⟩
    · rw [if_pos hfull] at hhead
      omega
    · cases hb.symm.trans hb'
      omega
  · rintro ⟨-, hall⟩
    have hlast := hall b hb (b + flags.count - 1) (by omega) (by omega)
    omega

/-- What a pop answers is below 1 MiB exactly if the stack holds low memory. -/
theorem stackInLow_iff {s : State AddrSpace} :
    StackInLow s flags ↔ ∃ p, s.space.frame? (STACK32 / 4096) = some p ∧ LowAnswer flags (stackAnswer s p) := by
  refine exists_congr fun p => and_congr_right fun _ => ?_
  unfold LowAnswer FAIL stackAnswer
  split
  · omega
  · rename_i hslot
    rw [or_iff_left fun h => hslot h.1, and_iff_right (Int.not_lt.mp hslot)]

end

/-- **Requests for low memory.** After `pmm_init` and any entry points a `low_mem` request fails or
gets memory below 1 MiB exactly if it is `LowMemOk`; what the bitmaps answer lies below block 272, or
from 2 MiB on if the first summary word is full. -/
theorem low_mem_iff {s : State AddrSpace} (hboot : FromBoot AddrSpace.paging s) {flags : PallocFlags}
    (hlow : flags.low_mem = true) :
    ((∃ r s', kpmalloc AddrSpace.paging s flags = .ok (r, s') ∧ LowAnswer flags r) ↔ LowMemOk s flags) ∧
    ∀ b, paddm_get_first_clear_bits s.low_bitmaps flags = some b →
      if superblock_bitmap s.low_bitmaps 0 = 0xFFFFFFFF#32 then 512 ≤ b else b < 272 := by
  refine ⟨?_, fun b hsearch => ?_⟩
  · cases hsearch : paddm_get_first_clear_bits s.low_bitmaps flags with
    | none =>
      have hno := search_eq_none.mp hsearch
      have hanswer : ∀ r, (∃ s', stack_pop32 AddrSpace.paging s flags = .ok (r, s')) ↔ _ :=
        fun _ => stack_pop32_answers hboot.indexBound
      simp only [kpmalloc, hsearch]
      constructor
      · rintro ⟨r, s', hpop, hr⟩
        obtain ⟨p, hp, rfl⟩ := (hanswer r).mp ⟨s', hpop⟩
        exact ⟨fun w hw => absurd hw (hno w), fun _ => stackInLow_iff.mpr ⟨p, hp, hr⟩⟩
      · rintro ⟨-, hstack⟩
        obtain ⟨p, hp, hr⟩ := stackInLow_iff.mp (hstack hno)
        obtain ⟨s', hpop⟩ := (hanswer _).mpr ⟨p, hp, rfl⟩
        exact ⟨_, s', hpop, hr⟩
    | some b =>
      obtain ⟨w, hw, hb⟩ := search_eq_some.mp hsearch
      have hanswer : LowAnswer flags (b * 4096) ↔ _ := hw.lowAnswer_iff hb hlow
      simp only [kpmalloc_found hsearch]
      constructor
      · rintro ⟨r, s', hok, hr⟩
        cases hok
        refine ⟨fun w' hw' => ?_, fun hno => absurd hw (hno w)⟩
        rw [hw'.unique hw]
        exact hanswer.mp hr
      · exact fun hok => ⟨_, _, rfl, hanswer.mpr (hok.1 w hw)⟩
  · obtain ⟨w, hw, hb⟩ := search_eq_some.mp hsearch
    exact hw.low_mem_head hb hlow

/-- One free page, at 0x20000. -/
theorem low_mem_iff_block32 : ∃ s, FromBoot AddrSpace.paging s ∧
    ∃ r s', kpmalloc AddrSpace.paging s { low_mem := true } = .ok (r, s') ∧
      LowAnswer { low_mem := true } r := by
  have hinit : pmm_init AddrSpace.paging ⟨fun _ => 0, 0, false, ⟨fun _ => 0, fun _ _ => 0⟩⟩
    [⟨0x20000#64, 0x1000#64, MULTIBOOT_MEMORY_AVAILABLE⟩] = .ok _ := rfl
  obtain ⟨s, hboot, hlb⟩ : ∃ s, FromBoot AddrSpace.paging s ∧
    s.low_bitmaps = reserve_low (paddm_clear_bit initial_bitmaps 32) := ⟨_, .init rfl hinit, rfl⟩
  have hsearch : paddm_get_first_clear_bits s.low_bitmaps { low_mem := true } = some 32 := by
    rw [hlb]
    decide +kernel
  have hword : superblock_bitmap s.low_bitmaps 0 ≠ 0xFFFFFFFF#32 := by
    rw [hlb]
    decide
  refine ⟨s, hboot, (low_mem_iff hboot rfl).1.mpr ⟨fun w hw => ⟨hword, fun b hb c h1 h2 => ?_⟩, fun hno => ?_⟩⟩
  · have hfound := search_eq_some.mpr ⟨w, hw, hb⟩
    rw [hsearch] at hfound
    cases hfound
    change c < 32 + 1 at h2
    omega
  · rw [search_eq_none.mpr hno] at hsearch
    cases hsearch

/-- One free page, at 1 MiB, the first block of superblock 16. -/
theorem low_mem_answers_1MiB : ∃ s s', FromBoot AddrSpace.paging s ∧
    kpmalloc AddrSpace.paging s { low_mem := true } = .ok (0x100000, s') ∧
    ¬ LowAnswer { low_mem := true } 0x100000 := by
  have hinit : pmm_init AddrSpace.paging ⟨fun _ => 0, 0, false, ⟨fun _ => 0, fun _ _ => 0⟩⟩
    [⟨0x100000#64, 0x1000#64, MULTIBOOT_MEMORY_AVAILABLE⟩] = .ok _ := rfl
  obtain ⟨s, hboot, hlb⟩ : ∃ s, FromBoot AddrSpace.paging s ∧
    s.low_bitmaps = reserve_low (paddm_clear_bit initial_bitmaps 256) := ⟨_, .init rfl hinit, rfl⟩
  have hsearch : paddm_get_first_clear_bits s.low_bitmaps { low_mem := true } = some 256 := by
    rw [hlb]
    decide +kernel
  refine ⟨s, _, hboot, kpmalloc_found hsearch, ?_⟩
  unfold LowAnswer
  decide

end Condor.Pmm
