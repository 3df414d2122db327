import Condor.Pmm.Alloc

/-!
# What the operations can do

The branches of each operation of `pmm.c` that returns, read off once for every
`Paging`: what a push, a pop, an allocation, a release and an entry point leave.
The invariants of the other modules are case analyses over these outcomes, and
`pmm_init_keeps` carries them through the memory map.
-/

namespace Condor.Pmm

open Lib

variable {σ : Type} {P : Paging σ} {s s' : State σ} {flags : PallocFlags} {addr r : Nat}

/-- What a push leaves: the frame mapped at a window without a page, the frame as the next list page,
or the address in the slot above the index. -/
inductive Pushed (P : Paging σ) (s : State σ) (addr : Nat) : State σ → Prop where
  | window {page flags : Nat} {m : σ} (hpage : page = STACK32 ∨ page = STACK64)
      (hm : map_stack_page P s.space page addr flags = .ok m) : Pushed P s addr { s with space := m }
  | page {old flags : Nat} {m m' : σ} (hm : map_stack_page P s.space STACK32 addr flags = .ok m)
      (hm' : P.store m STACK32 old = .ok m') :
      Pushed P s addr { s with space := m', stack32_index := 0 }
  | slot {m : σ} (hi : s.stack32_index ≠ 1023)
      (hm : P.store s.space (freeAddrs s.stack32_index) addr = .ok m) :
      Pushed P s addr { s with space := m, stack32_index := s.stack32_index + 1 }

theorem stack_push_cases (h : stack_push P s addr = .ok s') : Pushed P s addr s' := by
  unfold stack_push at h
  obtain ⟨a, -, h⟩ := bind_eq_ok.mp h
  split at h
  · obtain ⟨m, hm, h⟩ := bind_eq_ok.mp h
    cases h
    exact .window (.inl rfl) hm
  obtain ⟨a, -, h⟩ := bind_eq_ok.mp h
  split at h
  · obtain ⟨m, hm, h⟩ := bind_eq_ok.mp h
    cases h
    exact .window (.inr rfl) hm
  split at h
  · cases h
  split at h
  · obtain ⟨old, -, h⟩ := bind_eq_ok.mp h
    obtain ⟨m, hm, h⟩ := bind_eq_ok.mp h
    obtain ⟨m', hm', h⟩ := bind_eq_ok.mp h
    cases h
    exact .page hm hm'
  · rename_i hi
    obtain ⟨m, hm, h⟩ := bind_eq_ok.mp h
    cases h
    exact .slot hi hm

/-- What a pop leaves: the state as it was, the page of the backlink at `stack32`, or the index one
lower. -/
inductive Popped (P : Paging σ) (s : State σ) : State σ → Prop where
  | fail : Popped P s s
  | page {v flags r : Nat} {m : σ} (hm : P.vmm_map_address s.space STACK32 v flags = .ok (r, m)) :
      Popped P s { s with space := m, stack32_index := 1022 }
  | slot (hi : 0 ≤ s.stack32_index) : Popped P s { s with stack32_index := s.stack32_index - 1 }

theorem stack_pop32_cases (h : stack_pop32 P s flags = .ok (r, s')) : Popped P s s' := by
  unfold stack_pop32 at h
  split at h
  · obtain ⟨a, -, h⟩ := bind_eq_ok.mp h
    split at h
    · split at h <;> cases h <;> exact .fail
    · obtain ⟨b, -, h⟩ := bind_eq_ok.mp h
      obtain ⟨⟨t, m⟩, hm, h⟩ := bind_eq_ok.mp h
      cases h
      exact .page hm
  · rename_i hi
    obtain ⟨a, -, h⟩ := bind_eq_ok.mp h
    cases h
    exact .slot (Int.not_lt.mp hi)

/-- One block of a region: a push from 16 MiB on, then the bitmaps. -/
theorem clear_block_cases {blocks : Nat} (h : clear_block P blocks s = .ok s') :
    ∃ t, (t = s ∨ stack_push P s (blocks <<< 12) = .ok t) ∧
      s' = { t with low_bitmaps := reserve_low (paddm_clear_bit t.low_bitmaps blocks) } := by
  unfold clear_block at h
  obtain ⟨t, ht, h⟩ := bind_eq_ok.mp h
  cases h
  unfold push_high at ht
  split at ht
  · exact ⟨t, .inr ht, rfl⟩
  · cases ht
    exact ⟨s, .inl rfl, rfl⟩

theorem kpmalloc_cases (h : kpmalloc P s flags = .ok (r, s')) :
    stack_pop32 P s flags = .ok (r, s') ∨
      ∃ frame, paddm_get_first_clear_bits s.low_bitmaps flags = some frame ∧
        s' = { s with low_bitmaps := mark_blocks s.low_bitmaps flags frame } := by
  unfold kpmalloc at h
  split at h
  · exact .inl h
  · cases h
    exact .inr ⟨_, by assumption, rfl⟩

/-- A release does nothing, pushes a frame, or clears blocks from block 4 on. -/
theorem pfree_cases {base num : Nat} (h : pfree P s base num = .ok s') :
    s' = s ∨ stack_push P s base = .ok s' ∨ 4 ≤ base >>> 12 ∧ s' = { s with
      low_bitmaps := loop 0 num s.low_bitmaps fun bit lb =>
        paddm_clear_bit lb ((bit + base >>> 12) % 2 ^ 32) } := by
  unfold pfree at h
  split at h
  · cases h
    exact .inl rfl
  split at h
  · cases h
  split at h
  · exact .inr (.inl h)
  split at h
  · cases h
    exact .inl rfl
  · rename_i hbase
    cases h
    exact .inr (.inr ⟨Nat.not_lt.mp hbase, rfl⟩)

/-- An entry point is its operation. -/
theorem exec_cases {op : Op} {a : Option Nat} (h : exec P s op = .ok (a, s')) :
    match op with
    | .set_region base size => s' = pmm_set_region s base size
    | .clear_region base size => pmm_clear_region P s base size = .ok s'
    | .kpmalloc flags => ∃ r, kpmalloc P s flags = .ok (r, s')
    | .pfree base num => pfree P s base num = .ok s' := by
  cases op with
  | set_region base size =>
    cases h
    rfl
  | clear_region base size =>
    obtain ⟨t, ht, h⟩ := bind_eq_ok.mp h
    cases h
    exact ht
  | kpmalloc flags =>
    obtain ⟨⟨r, t⟩, ht, h⟩ := bind_eq_ok.mp h
    cases h
    exact ⟨r, ht⟩
  | pfree base num =>
    obtain ⟨t, ht, h⟩ := bind_eq_ok.mp h
    cases h
    exact ht

/-! ## Loops over regions and the memory map -/

variable {I : State σ → Prop}

theorem clear_region_keeps (hblock : ∀ t t' blocks, I t → clear_block P blocks t = .ok t' → I t')
    {base size : Nat} (h : pmm_clear_region P s base size = .ok s') (hs : I s) : I s' := by
  unfold pmm_clear_region at h
  split at h
  · cases h
    exact hs
  · rw [forWhile_lt] at h
    exact forUp_keeps hs (fun i t t' _ _ ht hb => hblock t t' i ht hb) h

/-- What regions keep holds after `pmm_init`, if it holds of the initial bitmaps. -/
theorem pmm_init_keeps
    (hclear : ∀ t t' base size, I t → pmm_clear_region P t base size = .ok t' → I t')
    (hset : ∀ t base size, I t → I (pmm_set_region t base size))
    (hinited : ∀ t, I t → I { t with is_inited := true })
    (hs : ∀ m, I { s with space := m, low_bitmaps := initial_bitmaps }) {mmap : List MmapEntry}
    (h : pmm_init P s mmap = .ok s') : I s' := by
  unfold pmm_init at h
  obtain ⟨m, -, h⟩ := bind_eq_ok.mp h
  obtain ⟨t, ht, h⟩ := bind_eq_ok.mp h
  cases h
  refine hinited t (foldlM_keeps (hs m) (fun u u' e _ hu he => ?_) ht)
  unfold add_mmap_entry at he
  split at he
  · exact hclear u u' _ _ hu he
  split at he
  · cases he
    exact hset u _ _ hu
  · cases he
    exact hu

end Condor.Pmm
