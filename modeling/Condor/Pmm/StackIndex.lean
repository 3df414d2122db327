import Condor.Pmm.FrameStack
import Condor.Pmm.Steps

/-!
# The index of the frame stack

`stack32_index` is zero at boot. Every entry point leaves it between -1, the
backlink word, and 1023, the end of the page (`FromBoot.indexBound`), so a pop
answers a dword of the top page or, below the first slot, the page itself
(`stack_pop32_answers`), and faults only if no page is mapped.
-/

namespace Condor.Pmm

open Lib

/-- The states after `pmm_init` and any entry points, from the index the kernel starts with. -/
inductive FromBoot {σ : Type} (P : Paging σ) : State σ → Prop where
  | init {s s' : State σ} {mmap : List MmapEntry} (hi : s.stack32_index = 0)
      (hok : pmm_init P s mmap = .ok s') : FromBoot P s'
  | step {s s' : State σ} {op : Op} {r : Option Nat} (hs : FromBoot P s)
      (hok : exec P s op = .ok (r, s')) : FromBoot P s'

/-- The index, from the backlink word to the end of the page. -/
def IndexBound {σ : Type} (s : State σ) : Prop := -1 ≤ s.stack32_index ∧ s.stack32_index ≤ 1023

section
variable {σ : Type} {P : Paging σ} {s s' : State σ}

theorem IndexBound.stack_push {addr : Nat} (hi : IndexBound s) (h : stack_push P s addr = .ok s') :
    IndexBound s' := by
  unfold IndexBound at hi ⊢
  cases stack_push_cases h with
  | window => exact hi
  | page =>
    dsimp only
    omega
  | slot hne =>
    dsimp only
    omega

theorem IndexBound.stack_pop32 {flags : PallocFlags} {r : Nat} (hi : IndexBound s)
    (h : stack_pop32 P s flags = .ok (r, s')) : IndexBound s' := by
  unfold IndexBound at hi ⊢
  cases stack_pop32_cases h with
  | fail => exact hi
  | page =>
    dsimp only
    omega
  | slot hpos =>
    dsimp only
    omega

theorem IndexBound.clear_region {base size : Nat} (hi : IndexBound s)
    (h : pmm_clear_region P s base size = .ok s') : IndexBound s' := by
  refine clear_region_keeps (fun t t' blocks ht hb => ?_) h hi
  obtain ⟨u, rfl | hu, rfl⟩ := clear_block_cases hb
  · exact ht
  · have hindex := ht.stack_push hu
    exact hindex

theorem IndexBound.set_region {base size : Nat} (hi : IndexBound s) :
    IndexBound (pmm_set_region s base size) := by
  unfold pmm_set_region
  split <;> exact hi

theorem IndexBound.pmm_init {mmap : List MmapEntry} (hi : IndexBound s)
    (h : Pmm.pmm_init P s mmap = .ok s') : IndexBound s' :=
  pmm_init_keeps (fun _ _ _ _ ht hok => ht.clear_region hok) (fun _ _ _ ht => ht.set_region)
    (fun _ ht => ht) (fun _ => hi) h

theorem IndexBound.exec {op : Op} {r : Option Nat} (hi : IndexBound s)
    (h : Pmm.exec P s op = .ok (r, s')) : IndexBound s' := by
  have hstep := exec_cases h
  cases op with
  | set_region base size => exact hstep ▸ hi.set_region
  | clear_region base size => exact hi.clear_region hstep
  | kpmalloc flags =>
    obtain ⟨a, ha⟩ := hstep
    obtain hpop | ⟨frame, -, rfl⟩ := kpmalloc_cases ha
    · exact hi.stack_pop32 hpop
    · exact hi
  | pfree base num =>
    obtain rfl | hpush | ⟨-, rfl⟩ := pfree_cases hstep
    · exact hi
    · exact hi.stack_push hpush
    · exact hi

theorem FromBoot.indexBound (hs : FromBoot P s) : IndexBound s := by
  induction hs with
  | init hi hok =>
    refine IndexBound.pmm_init ?_ hok
    unfold IndexBound
    omega
  | step _ hok ih => exact ih.exec hok

theorem FromBoot.reachable (hs : FromBoot P s) : Reachable P s := by
  induction hs with
  | init _ hok => exact .init hok
  | step _ hok ih => exact .step ih hok

end

/-! ## What a pop answers -/

section
variable {s s' : State AddrSpace} {p r : Nat} {flags : PallocFlags}

/-- The dword under the index or, below the first slot, the address of the top page. -/
def stackAnswer (s : State AddrSpace) (p : Nat) : Nat :=
  if s.stack32_index < 0 then p * 4096 else s.space.frames p s.stack32_index.toNat

theorem stackAnswer_slot {k : Nat} (hi : s.stack32_index = k) :
    stackAnswer s p = s.space.frames p k := by
  rw [stackAnswer, hi, if_neg (by omega), Int.toNat_natCast]

theorem stackAnswer_below (hi : s.stack32_index < 0) : stackAnswer s p = p * 4096 := if_pos hi

/-- A pop on an unmapped stack does not return, whatever the index. -/
theorem pop_not_mapped (h32 : s.space.frame? (STACK32 / 4096) = none) (hi : IndexBound s) :
    stack_pop32 AddrSpace.paging s flags ≠ .ok (r, s') := by
  intro h
  have hload : ∀ laddr v, laddr / 4096 = STACK32 / 4096 →
      AddrSpace.paging.load s.space laddr ≠ .ok v := by
    intro laddr v hpage hv
    simp only [AddrSpace.paging, AddrSpace.load, hpage, h32] at hv
    cases hv
  unfold stack_pop32 at h
  rcases Int.lt_or_le s.stack32_index 0 with hneg | hpos
  · rw [if_pos hneg, AddrSpace.getPhys_of_none h32] at h
    obtain ⟨v, hv, h⟩ := bind_eq_ok.mp h
    cases hv
    rw [if_neg (by decide)] at h
    obtain ⟨v, hv, -⟩ := bind_eq_ok.mp h
    exact hload STACK32 v rfl hv
  · obtain ⟨k, hk⟩ := Int.eq_ofNat_of_zero_le hpos
    rw [if_neg (by omega), hk, freeAddrs_eq] at h
    obtain ⟨v, hv, -⟩ := bind_eq_ok.mp h
    exact hload _ v (slot_page (by have := hi.2; omega)) hv

/-- A pop from below the first slot returns the top page, whatever its backlink. -/
theorem pop_below_returns (h32 : s.space.frame? (STACK32 / 4096) = some p) (hi : s.stack32_index < 0) :
    ∃ s', stack_pop32 AddrSpace.paging s flags = .ok (p * 4096, s') := by
  have hmap : ∀ paddr, ∃ r, AddrSpace.paging.vmm_map_address s.space STACK32 paddr
      (PAGE_PRESENT ||| PAGE_RW ||| PAGE_REMAP) = .ok r := by
    intro paddr
    by_cases hfail : paddr = 0xFFFFFFFF
    · exact ⟨(1, s.space), by simp only [AddrSpace.paging, AddrSpace.vmm_map_address, if_pos hfail]⟩
    · exact ⟨_, AddrSpace.map_ok hfail (.inr (by decide))⟩
  obtain ⟨m, hm⟩ := hmap (s.space.frames p 0)
  unfold stack_pop32
  rw [if_pos hi, getPhys_window stack32_aligned h32]
  show ∃ s', (if p * 4096 = 0xFFFFFFFF then _ else _) = _
  rw [if_neg (by omega), AddrSpace.load_of_frame h32, stack32_word]
  show ∃ s', (AddrSpace.paging.vmm_map_address _ _ _ _ >>= _) = _
  rw [hm]
  exact ⟨_, rfl⟩

/-- **A pop answers, exactly if a page is mapped, the dword under the index or that page.** -/
theorem stack_pop32_answers (hi : IndexBound s) :
    (∃ s', stack_pop32 AddrSpace.paging s flags = .ok (r, s')) ↔
      ∃ p, s.space.frame? (STACK32 / 4096) = some p ∧ r = stackAnswer s p := by
  cases h32 : s.space.frame? (STACK32 / 4096) with
  | none =>
    constructor
    · rintro ⟨s', h⟩
      exact absurd h (pop_not_mapped h32 hi)
    · rintro ⟨p, hp, -⟩
      cases hp
  | some p =>
    have hret : ∃ s', stack_pop32 AddrSpace.paging s flags = .ok (stackAnswer s p, s') := by
      rcases Int.lt_or_le s.stack32_index 0 with hneg | hpos
      · rw [stackAnswer_below hneg]
        exact pop_below_returns h32 hneg
      · obtain ⟨k, hk⟩ := Int.eq_ofNat_of_zero_le hpos
        rw [stackAnswer_slot hk]
        exact ⟨_, pop_slot flags h32 hk (by have := hi.2; omega)⟩
    obtain ⟨t, ht⟩ := hret
    constructor
    · rintro ⟨s', h⟩
      rw [ht] at h
      exact ⟨p, rfl, (Prod.mk.inj (Except.ok.inj h)).1.symm⟩
    · rintro ⟨p', hp, rfl⟩
      cases hp
      exact ⟨t, ht⟩

end

end Condor.Pmm
