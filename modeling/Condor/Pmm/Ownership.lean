import Condor.Pmm.Contiguous

/-!
# Runs of the physical memory manager

`PmmRun C` are the runs from `pmm_init` on whose entry points all meet `C`, with
the history of the frame stack and the frames handed out and not released since.
If every one meets `OpOk`, the stack stays sound and no outstanding frame is
free, so an allocation that keeps its promise never hands one out again.
-/

namespace Condor.Pmm

open Lib

/-! ## The history of the entry points -/

/-- One block of `pmm_clear_region`. -/
def History.clear_block (blocks : Nat) (h : History) : History :=
  if blocks ≥ 0x01000 then h.push (blocks <<< 12) else h

def History.clear_region (h : History) (base size : Nat) : History :=
  if size = 0 then h
  else loopWhile (base >>> 12) (region_end base size) (fun blocks => blocks < 0xFFFFF) h
    History.clear_block

def History.add_mmap_entry (h : History) (mmap : MmapEntry) : History :=
  if mmap.usable then h.clear_region mmap.addr32 mmap.len32 else h

/-- The history after an entry point that returned `r`. -/
def History.exec (h : History) (lb : LomemBitmaps) : Op → Option Nat → History
  | .clear_region base size, _ => h.clear_region base size
  | .kpmalloc flags, some r => h.kpmalloc lb flags r
  | .pfree base num, _ =>
    if base ≠ POISON_NULL ∧ base ≥ 0x01000000 ∧ num = 1 then h.push base else h
  | _, _ => h

/-- The frames a call gives back. -/
def Op.Released : Op → Nat → Prop
  | .clear_region base size, f => Touches base size f ∧ f < 0xFFFFF
  | .pfree base num, f => base ≠ POISON_NULL ∧
    if base ≥ 0x01000000 ∧ num = 1 then f = base / 4096 else 4 ≤ base / 4096 ∧ Clears base num f
  | _, _ => False

/-- The frames a call hands out. -/
def Op.Taken : Op → Option Nat → Nat → Prop
  | .kpmalloc flags, some r, f => r ≠ FAIL ∧ r / 4096 ≤ f ∧ f < r / 4096 + flags.count
  | _, _, _ => False

/-! ## The condition on a call -/

/-- The region gives the stack no frame it holds. -/
def ClearOk (h : History) (base size : Nat) : Prop :=
  ∀ f, 4096 ≤ f → f < 0xFFFFF → Touches base size f → f ∉ h.frames

/-- The memory map gives the stack no frame twice. -/
def MmapOk : History → List MmapEntry → Prop
  | _, [] => True
  | h, e :: mmap => (e.usable = true → ClearOk h e.addr32 e.len32) ∧ MmapOk (h.add_mmap_entry e) mmap

/-- The call frees no frame that is on the stack, and an allocation is `CallOk`. -/
def OpOk (s : State AddrSpace) (h : History) : Op → Prop
  | .set_region _ _ => True
  | .clear_region base size => ClearOk h base size
  | .kpmalloc flags => CallOk s h flags
  | .pfree base num => base ≠ POISON_NULL → base ≥ 0x01000000 → num = 1 →
    base < 2 ^ 32 ∧ base / 4096 ∉ h.frames

/-- Runs of the manager whose calls all meet `C`, with the stack's history and the outstanding
frames. -/
inductive PmmRun (C : State AddrSpace → History → Op → Prop) :
    State AddrSpace → History → (Nat → Prop) → Prop
  | init {s s' mmap} (h32 : s.space.frame? (STACK32 / 4096) = none)
      (h64 : s.space.frame? (STACK64 / 4096) = none) (hi : s.stack32_index = 0)
      (hm : MmapOk .empty mmap) (hok : pmm_init AddrSpace.paging s mmap = .ok s') :
      PmmRun C s' (mmap.foldl History.add_mmap_entry .empty) fun _ => False
  | step {s s' h owned op r} (hrun : PmmRun C s h owned) (hc : C s h op)
      (hok : exec AddrSpace.paging s op = .ok (r, s')) :
      PmmRun C s' (h.exec s.low_bitmaps op r) fun f => owned f ∧ ¬ op.Released f ∨ op.Taken r f

variable {s s' : State AddrSpace} {h : History} {base size : Nat}

/-! ## Clearing a region -/

/-- The stack does not depend on the manager's other fields. -/
theorem Sound.congr (hs : Sound s h) (lb : LomemBitmaps) (b : Bool) :
    Sound { s with low_bitmaps := lb, is_inited := b } h := by
  refine ⟨?_, hs.index, hs.nodup, hs.entry, hs.page⟩
  cases hs.stores with
  | unmapped h32 h64 hi he hp => exact .unmapped h32 h64 hi he hp
  | mapped p b top old hon hp hb he hl h64 =>
    exact .mapped p b top old ⟨hon.frame, hon.index, hon.le, hon.slots⟩ hp hb he hl h64

theorem History.mem_frames_push {addr f : Nat} :
    f ∈ (h.push addr).frames ↔ f = addr / 4096 ∨ f ∈ h.frames := by
  rw [History.frames_push.mem_iff, List.mem_cons]

theorem History.mem_entries_push {addr f : Nat} (hf : f ∈ (h.push addr).entries.map (· / 4096)) :
    f = addr / 4096 ∨ f ∈ h.entries.map (· / 4096) := by
  by_cases hc : h.pages.length < 2 ∨ h.index = 1023
  · rw [(History.push_page hc).1] at hf
    exact .inr hf
  · rw [History.push_entry (by omega) (by omega)] at hf
    exact List.mem_cons.mp hf

theorem block_addr (i : Nat) : (i <<< 12) / 4096 = i := by
  rw [Nat.shiftLeft_eq]
  exact Nat.mul_div_cancel i (by decide)

/-- The frames that clearing blocks `lo` to `i` leaves on the stack. -/
theorem History.mem_frames_clear {lo i f : Nat} (hle : lo ≤ i) :
    f ∈ (loop lo i h History.clear_block).frames ↔
      f ∈ h.frames ∨ 4096 ≤ f ∧ lo ≤ f ∧ f < i := by
  refine loop_inv (I := fun i (g : History) => f ∈ g.frames ↔ f ∈ h.frames ∨ 4096 ≤ f ∧ lo ≤ f ∧ f < i) hle
    (by simp) fun i g h1 _ hg => ?_
  unfold History.clear_block
  split
  · rw [History.mem_frames_push, block_addr, hg, or_left_comm]
    exact or_congr_right (by omega)
  · rw [hg]
    exact or_congr_right (by omega)

theorem Sound.clear_block {i : Nat} (hs : Sound s h) (hi : i < 0xFFFFF) (hok : 4096 ≤ i → i ∉ h.frames) :
    ∃ s', Pmm.clear_block AddrSpace.paging i s = .ok s' ∧ Sound s' (h.clear_block i) := by
  unfold Pmm.clear_block push_high History.clear_block
  by_cases hhigh : i ≥ 0x01000
  · have ha : PushOk h (i <<< 12) := by
      refine ⟨?_, ?_, by rw [block_addr]; exact hok hhigh⟩
      · rw [Nat.shiftLeft_eq]
        omega
      · rw [Nat.shiftLeft_eq]
        unfold FAIL
        omega
    obtain ⟨t, ht, hst⟩ := hs.push ha
    rw [if_pos hhigh, if_pos hhigh, ht]
    exact ⟨_, rfl, hst.congr _ _⟩
  · rw [if_neg hhigh, if_neg hhigh]
    exact ⟨_, rfl, hs.congr _ _⟩

/-- Clearing a region whose frames are new to the stack keeps it sound. -/
theorem Sound.clear_region (hs : Sound s h) (hok : ClearOk h base size) :
    ∃ s', pmm_clear_region AddrSpace.paging s base size = .ok s' ∧
      Sound s' (h.clear_region base size) := by
  unfold pmm_clear_region History.clear_region
  by_cases h0 : size = 0
  · rw [if_pos h0, if_pos h0]
    exact ⟨s, rfl, hs⟩
  rw [if_neg h0, if_neg h0, forWhile_lt, loopWhile_lt, shift12]
  by_cases hle : base / 4096 ≤ min (region_end base size) 0xFFFFF
  · refine forUp_total (I := fun i t => Sound t (loop (base / 4096) i h History.clear_block)) hle
      (by rw [loop_of_le (Nat.le_refl _)]; exact hs) fun i t h1 h2 ht => ?_
    rw [loop_succ h1]
    refine ht.clear_block (by omega) fun hhigh hmem => ?_
    rcases (History.mem_frames_clear h1).mp hmem with hmem | ⟨-, -, hlt⟩
    · exact hok i hhigh (by omega) ⟨h0, h1, by omega⟩ hmem
    · omega
  · rw [forUp_of_le (by omega), loop_of_le (by omega)]
    exact ⟨s, rfl, hs⟩

/-- The entries that clearing a region adds lie in the region. -/
theorem History.mem_entries_clear_region {f : Nat}
    (hf : f ∈ (h.clear_region base size).entries.map (· / 4096)) :
    f ∈ h.entries.map (· / 4096) ∨ Touches base size f ∧ f < 0xFFFFF := by
  unfold History.clear_region at hf
  by_cases h0 : size = 0
  · rw [if_pos h0] at hf
    exact .inl hf
  rw [if_neg h0, loopWhile_lt, shift12] at hf
  refine loop_keeps (P := fun g : History => f ∈ g.entries.map (· / 4096) →
    f ∈ h.entries.map (· / 4096) ∨ Touches base size f ∧ f < 0xFFFFF) .inl
    (fun i g h1 h2 hg hf => ?_) hf
  unfold History.clear_block at hf
  split at hf
  · rcases History.mem_entries_push hf with rfl | hf
    · rw [block_addr]
      exact .inr ⟨⟨h0, h1, by omega⟩, by omega⟩
    · exact hg hf
  · exact hg hf

/-! ## What each call does to the free frames -/

/-- A call keeps the stack sound, frees only what it releases, and what it hands out is not free. -/
structure Effect (s s' : State AddrSpace) (h h' : History) (released taken : Nat → Prop) : Prop where
  sound : Sound s' h'
  free : ∀ f, Free s' h' f → Free s h f ∨ released f
  taken : ∀ f, taken f → ¬ Free s' h' f

theorem Sound.effect_set_region (hs : Sound s h) :
    Effect s (pmm_set_region s base size) h h (fun _ => False) fun _ => False where
  sound := by
    unfold pmm_set_region
    split
    · exact hs
    · exact hs.congr _ _
  free f hf := by
    refine .inl (hf.imp_left fun hlow => ⟨hlow.1, fun hA => hlow.2 ?_⟩)
    exact (allocated_set_region hlow.1).mpr (.inl hA)
  taken _ := False.elim

theorem Sound.effect_clear_region (hs : Sound s h) (hok : ClearOk h base size)
    (he : pmm_clear_region AddrSpace.paging s base size = .ok s') :
    Effect s s' h (h.clear_region base size) (fun f => Touches base size f ∧ f < 0xFFFFF)
      fun _ => False where
  sound := by
    obtain ⟨t, ht, hst⟩ := hs.clear_region hok
    rw [he] at ht
    cases ht
    exact hst
  free f hf := by
    rcases hf with hlow | hmem
    · by_cases ht : Touches base size f
      · exact .inr ⟨ht, by have := hlow.1; omega⟩
      · refine .inl (.inl ⟨hlow.1, fun hA => hlow.2 ?_⟩)
        exact (allocated_clear_region he hlow.1).mpr (.inl ⟨hA, ht⟩)
    · exact (History.mem_entries_clear_region hmem).imp_left .inr
  taken _ := False.elim

/-- An allocation that is `CallOk` keeps its promise and frees nothing. -/
theorem Sound.effect_kpmalloc (hs : Sound s h) (hsum : SummaryOk s.low_bitmaps) {flags : PallocFlags}
    {r : Nat} (hok : CallOk s h flags) (he : kpmalloc AddrSpace.paging s flags = .ok (r, s')) :
    Effect s s' h (h.kpmalloc s.low_bitmaps flags r) (fun _ => False)
      fun f => r ≠ FAIL ∧ r / 4096 ≤ f ∧ f < r / 4096 + flags.count := by
  have htaken : ∀ f, r ≠ FAIL ∧ r / 4096 ≤ f ∧ f < r / 4096 + flags.count →
      ¬ Free s' (h.kpmalloc s.low_bitmaps flags r) f := by
    obtain ⟨r', s'', he', hh⟩ := (hs.kpmalloc_handed_iff hsum flags).mpr hok
    rw [he] at he'
    cases he'
    exact fun f hf => ((hh.resolve_left hf.1).1 f hf.2.1 hf.2.2).2
  refine ⟨?_, fun f hf => .inl ?_, htaken⟩
  all_goals
    unfold History.kpmalloc at *
    cases hsearch : paddm_get_first_clear_bits s.low_bitmaps flags
  case refine_1.none =>
    simp only [kpmalloc, hsearch] at he
    obtain ⟨rfl, -, hs'⟩ := hs.pop_eq (hok.2 (search_eq_none.mp hsearch)).1 he
    exact hs'
  case refine_1.some b =>
    rw [kpmalloc_found hsearch] at he
    cases he
    exact hs.congr _ _
  case refine_2.none =>
    simp only [kpmalloc, hsearch] at he hf
    obtain ⟨rfl, -, -⟩ := hs.pop_eq (hok.2 (search_eq_none.mp hsearch)).1 he
    exact hf.imp_right fun hmem => ((History.pop_sublist r).map _).subset hmem
  case refine_2.some b =>
    rw [kpmalloc_found hsearch] at he
    cases he
    simp only [hsearch] at hf
    exact hf.imp_left fun hlow => (freeBlock_mark.mp hlow).1

theorem Sound.effect_pfree (hs : Sound s h) {num : Nat} (hok : OpOk s h (.pfree base num))
    (he : pfree AddrSpace.paging s base num = .ok s') :
    Effect s s' h (h.exec s.low_bitmaps (.pfree base num) none) (Op.Released (.pfree base num))
      fun _ => False := by
  unfold pfree at he
  by_cases hpoison : base = POISON_NULL
  · rw [if_pos hpoison] at he
    cases he
    have hh : h.exec s.low_bitmaps (.pfree base num) none = h := if_neg fun hc => hc.1 hpoison
    rw [hh]
    exact ⟨hs, fun f hf => .inl hf, fun _ => False.elim⟩
  rw [if_neg hpoison] at he
  by_cases hfail : base = 0xFFFFFFFF
  · rw [if_pos hfail] at he
    cases he
  rw [if_neg hfail] at he
  by_cases hhigh : base ≥ 0x01000000 ∧ num = 1
  · rw [if_pos hhigh] at he
    have hh : h.exec s.low_bitmaps (.pfree base num) none = h.push base := if_pos ⟨hpoison, hhigh⟩
    obtain ⟨hlt, hnew⟩ := hok hpoison hhigh.1 hhigh.2
    have ha : PushOk h base := ⟨hhigh.1, by unfold FAIL; omega, hnew⟩
    obtain ⟨t, ht, hst⟩ := hs.push ha
    rw [he] at ht
    cases ht
    rw [hh]
    refine ⟨hst, fun f hf => ?_, fun _ => False.elim⟩
    rcases hf with hlow | hmem
    · exact .inl (.inl (by rwa [← stack_push_bitmaps he]))
    · rcases History.mem_entries_push hmem with rfl | hmem
      · exact .inr ⟨hpoison, by rw [if_pos hhigh]⟩
      · exact .inl (.inr hmem)
  · have hh : h.exec s.low_bitmaps (.pfree base num) none = h := if_neg fun hc => hhigh hc.2
    rw [if_neg hhigh, shift12] at he
    rw [hh]
    by_cases hlow : base / 4096 < 4
    · rw [if_pos hlow] at he
      cases he
      exact ⟨hs, fun f hf => .inl hf, fun _ => False.elim⟩
    · rw [if_neg hlow] at he
      cases he
      refine ⟨hs.congr _ _, fun f hf => ?_, fun _ => False.elim⟩
      rcases hf with ⟨hlt, hA⟩ | hmem
      · by_cases hc : Clears base num f
        · exact .inr ⟨hpoison, by rw [if_neg hhigh]; exact ⟨by omega, hc⟩⟩
        · refine .inl (.inl ⟨hlt, fun hA' => hA ?_⟩)
          have hA'' := (allocated_pfree_loop hlt).mpr ⟨hA', hc⟩
          rwa [shift12] at hA''
      · exact .inl (.inr hmem)

/-- Every call that is `OpOk`. -/
theorem Sound.effect_exec (hs : Sound s h) (hsum : SummaryOk s.low_bitmaps) {op : Op} {r : Option Nat}
    (hok : OpOk s h op) (he : exec AddrSpace.paging s op = .ok (r, s')) :
    Effect s s' h (h.exec s.low_bitmaps op r) op.Released (op.Taken r) := by
  cases op with
  | set_region base size =>
    cases he
    exact hs.effect_set_region
  | clear_region base size =>
    obtain ⟨t, ht, he⟩ := bind_eq_ok.mp he
    cases he
    exact hs.effect_clear_region hok ht
  | kpmalloc flags =>
    obtain ⟨⟨a, t⟩, ht, he⟩ := bind_eq_ok.mp he
    cases he
    exact hs.effect_kpmalloc hsum hok ht
  | pfree base num =>
    obtain ⟨t, ht, he⟩ := bind_eq_ok.mp he
    cases he
    exact hs.effect_pfree hok ht

/-! ## Runs -/

/-- The memory map's regions, one after the other. -/
theorem Sound.mmap {mmap : List MmapEntry} (hs : Sound s h) (hok : MmapOk h mmap)
    (he : mmap.foldlM (add_mmap_entry AddrSpace.paging) s = .ok s') :
    Sound s' (mmap.foldl History.add_mmap_entry h) := by
  induction mmap generalizing s h with
  | nil =>
    cases he
    exact hs
  | cons e mmap ih =>
    rw [List.foldlM_cons] at he
    obtain ⟨t, ht, he⟩ := bind_eq_ok.mp he
    refine ih ?_ hok.2 he
    unfold add_mmap_entry at ht
    unfold History.add_mmap_entry
    by_cases hu : e.usable = true
    · rw [if_pos hu] at ht ⊢
      exact (hs.effect_clear_region (hok.1 hu) ht).sound
    · rw [if_neg hu] at ht ⊢
      split at ht
      · cases ht
        exact hs.effect_set_region.sound
      · cases ht
        exact hs

/-- Mapping the bitmaps leaves the pages of the frame stack alone. -/
theorem map_bitmaps_frame {m m' : AddrSpace} {page : Nat} (h : map_bitmaps AddrSpace.paging m = .ok m')
    (h0 : page ≠ PMM_BASE / 4096) (h3 : page ≠ (PMM_BASE + 0x3000) / 4096) :
    m'.frame? page = m.frame? page := by
  unfold map_bitmaps at h
  obtain ⟨a, -, h⟩ := bind_eq_ok.mp h
  split at h
  · obtain ⟨⟨r1, m1⟩, h1, h⟩ := bind_eq_ok.mp h
    obtain ⟨⟨r2, m2⟩, h2, h⟩ := bind_eq_ok.mp h
    cases h
    rw [AddrSpace.frame?_map h2 h3, AddrSpace.frame?_map h1 h0]
  · cases h
    rfl

theorem Sound.pmm_init {mmap : List MmapEntry} (h32 : s.space.frame? (STACK32 / 4096) = none)
    (h64 : s.space.frame? (STACK64 / 4096) = none) (hi : s.stack32_index = 0)
    (hok : MmapOk .empty mmap) (he : Pmm.pmm_init AddrSpace.paging s mmap = .ok s') :
    Sound s' (mmap.foldl History.add_mmap_entry .empty) := by
  unfold Pmm.pmm_init at he
  obtain ⟨m, hm, he⟩ := bind_eq_ok.mp he
  obtain ⟨t, ht, he⟩ := bind_eq_ok.mp he
  cases he
  have hempty : Sound { s with space := m, low_bitmaps := initial_bitmaps } .empty :=
    sound_empty ((map_bitmaps_frame hm (by decide) (by decide)).trans h32)
      ((map_bitmaps_frame hm (by decide) (by decide)).trans h64) hi
  exact (hempty.mmap hok ht).congr _ _

theorem PmmRun.reachable {C : State AddrSpace → History → Op → Prop} {owned : Nat → Prop}
    (hrun : PmmRun C s h owned) : Reachable AddrSpace.paging s := by
  induction hrun with
  | init _ _ _ _ hok => exact .init hok
  | step _ _ hok ih => exact .step ih hok

/-- The invariant of the runs whose calls are `OpOk`: no outstanding frame is free. -/
theorem PmmRun.sound {owned : Nat → Prop} (hrun : PmmRun OpOk s h owned) :
    Sound s h ∧ ∀ f, owned f → ¬ Free s h f := by
  induction hrun with
  | init h32 h64 hi hm hok => exact ⟨Sound.pmm_init h32 h64 hi hm hok, fun _ => False.elim⟩
  | step hrun hc hok ih =>
    obtain ⟨hs, howned⟩ := ih
    have heff := hs.effect_exec (summaryOk_reachable hrun.reachable) hc hok
    refine ⟨heff.sound, fun f hf hfree => ?_⟩
    rcases hf with ⟨hf, hkept⟩ | htaken
    · rcases heff.free f hfree with hfree | hrel
      · exact howned f hf hfree
      · exact hkept hrel
    · exact heff.taken f htaken hfree

/-- **Contiguous allocations.** In a run whose calls have all been `OpOk`, a request for `n`
contiguous frames keeps its promise exactly if it is `CallOk`, and one that keeps it hands out no
outstanding frame. -/
theorem contiguous_allocation {owned : Nat → Prop} (hrun : PmmRun OpOk s h owned)
    {flags : PallocFlags} {n : Nat} (hc : flags.contiguous = true) (hn : flags.page_alloc_num = n)
    (hpos : 1 ≤ n) :
    ((∃ r s', kpmalloc AddrSpace.paging s flags = .ok (r, s') ∧
      Handed s s' h (h.kpmalloc s.low_bitmaps flags r) n r) ↔ CallOk s h flags) ∧
    ∀ r s', Handed s s' h (h.kpmalloc s.low_bitmaps flags r) n r → r ≠ FAIL →
      ∀ f, r / 4096 ≤ f → f < r / 4096 + n → ¬ owned f := by
  obtain ⟨hs, howned⟩ := hrun.sound
  have hcount : flags.count = n := by
    rw [PallocFlags.count, if_pos hc, hn, Scan.need]
    omega
  refine ⟨?_, fun r s' hh hr f h1 h2 hf => ?_⟩
  · rw [← hcount]
    exact hs.kpmalloc_handed_iff (summaryOk_reachable hrun.reachable) flags
  · exact howned f hf ((hh.resolve_left hr).1 f h1 h2).1

/-- A request for `n` contiguous frames. -/
def contiguous_frames (n : Nat) : PallocFlags := { contiguous := true, page_alloc_num := n }

/-- The blocks 3 to 5 and 6 to 7 are handed out, and 4 and 5 freed again. A request for four frames
passes both by: it gets the blocks 8 to 11, and the outstanding ones stay where they are. -/
theorem contiguous_allocation_beside_held : ∃ s h owned, PmmRun OpOk s h owned ∧ owned 6 ∧ owned 7 ∧
    ∃ r s', kpmalloc AddrSpace.paging s (contiguous_frames 4) = .ok (r, s') ∧
      Handed s s' h (h.kpmalloc s.low_bitmaps (contiguous_frames 4) r) 4 r ∧
      (r ≠ FAIL → ∀ f, r / 4096 ≤ f → f < r / 4096 + 4 → ¬ owned f) := by
  have hcalls : (do
      let s ← pmm_init AddrSpace.paging ⟨fun _ => 0, 0, false, ⟨fun _ => 0, fun _ _ => 0⟩⟩
        [⟨0x3000#64, 0xA000#64, MULTIBOOT_MEMORY_AVAILABLE⟩]
      let a ← exec AddrSpace.paging s (.kpmalloc (contiguous_frames 3))
      let b ← exec AddrSpace.paging a.2 (.kpmalloc (contiguous_frames 2))
      let c ← exec AddrSpace.paging b.2 (.pfree 0x4000 2)
      pure (a.1, b.1, decide (FoundFree s.low_bitmaps (contiguous_frames 3) 3),
        decide (FoundFree a.2.low_bitmaps (contiguous_frames 2) 6),
        decide (FoundFree c.2.low_bitmaps (contiguous_frames 4) 8))).toOption =
      some (some 0x3000, some 0x6000, true, true, true) := by decide +kernel
  obtain ⟨s, hs, hcalls⟩ := bind_toOption_eq_some.mp hcalls
  obtain ⟨⟨ra, a⟩, ha, hcalls⟩ := bind_toOption_eq_some.mp hcalls
  obtain ⟨⟨rb, b⟩, hb, hcalls⟩ := bind_toOption_eq_some.mp hcalls
  obtain ⟨⟨rc, c⟩, hc, hcalls⟩ := bind_toOption_eq_some.mp hcalls
  simp only [pure, Except.pure, Except.toOption, Option.some.injEq, Prod.mk.injEq, decide_eq_true_eq] at hcalls
  obtain ⟨rfl, rfl, hfound1, hfound2, hfound3⟩ := hcalls
  have hm : MmapOk .empty [⟨0x3000#64, 0xA000#64, MULTIBOOT_MEMORY_AVAILABLE⟩] :=
    ⟨fun _ f h1 _ ht => by have : f < 13 := ht.2.2; omega, trivial⟩
  have hrun : PmmRun OpOk s _ _ := .init rfl rfl rfl hm hs
  have hok1 h : OpOk s h (.kpmalloc (contiguous_frames 3)) := hfound1.callOk (summaryOk_reachable hrun.reachable)
  have hrun1 := hrun.step (hok1 _) ha
  have hok2 h : OpOk a h (.kpmalloc (contiguous_frames 2)) := hfound2.callOk (summaryOk_reachable hrun1.reachable)
  have hrun2 := hrun1.step (hok2 _) hb
  have hok3 h : OpOk b h (.pfree 0x4000 2) := fun _ hhigh => absurd hhigh (by decide)
  have hrun3 := hrun2.step (hok3 _) hc
  have hheld : ∀ f, f = 6 ∨ f = 7 → (Op.kpmalloc (contiguous_frames 2)).Taken (some 0x6000) f ∧
      ¬ (Op.pfree 0x4000 2).Released f := by
    rintro f (rfl | rfl) <;> refine ⟨by unfold Op.Taken; decide, fun hr => ?_⟩ <;>
      obtain ⟨bit, hbit, heq⟩ := hr.2.2 <;> omega
  have hfour : 1 ≤ (contiguous_frames 4).page_alloc_num := by decide
  obtain ⟨hiff, hnew⟩ := contiguous_allocation hrun3 rfl rfl hfour
  obtain ⟨r, s', hok, hh⟩ := hiff.mpr (hfound3.callOk (summaryOk_reachable hrun3.reachable))
  exact ⟨c, _, _, hrun3, .inl ⟨.inr (hheld 6 (.inl rfl)).1, (hheld 6 (.inl rfl)).2⟩,
    .inl ⟨.inr (hheld 7 (.inr rfl)).1, (hheld 7 (.inr rfl)).2⟩, r, s', hok, hh, hnew r s' hh⟩

/-- Block 32 is handed out; the blocks 3 to 31 and 64 around its full word are freed; a request for
30 frames gets the blocks from 3 on. -/
theorem contiguous_allocation_over_full_word : ∃ s s' h owned,
    PmmRun (fun _ _ _ => True) s h owned ∧ owned 32 ∧
      kpmalloc AddrSpace.paging s { contiguous := true, page_alloc_num := 30 } = .ok (0x3000, s') := by
  have hcalls : (do
      let s ← pmm_init AddrSpace.paging ⟨fun _ => 0, 0, false, ⟨fun _ => 0, fun _ _ => 0⟩⟩
        [⟨0x20000#64, 0x1000#64, MULTIBOOT_MEMORY_AVAILABLE⟩]
      let a ← exec AddrSpace.paging s (.kpmalloc { contiguous := true, page_alloc_num := 1 })
      let b ← exec AddrSpace.paging a.2 (.clear_region 0x3000 0x1D000)
      let c ← exec AddrSpace.paging b.2 (.clear_region 0x40000 0x1000)
      let d ← kpmalloc AddrSpace.paging c.2 { contiguous := true, page_alloc_num := 30 }
      pure (a.1, d.1)).toOption = some (some 0x20000, 0x3000) := by decide +kernel
  obtain ⟨s, hs, hcalls⟩ := bind_toOption_eq_some.mp hcalls
  obtain ⟨⟨ra, a⟩, ha, hcalls⟩ := bind_toOption_eq_some.mp hcalls
  obtain ⟨⟨rb, b⟩, hb, hcalls⟩ := bind_toOption_eq_some.mp hcalls
  obtain ⟨⟨rc, c⟩, hc, hcalls⟩ := bind_toOption_eq_some.mp hcalls
  obtain ⟨⟨rd, d⟩, hd, hcalls⟩ := bind_toOption_eq_some.mp hcalls
  obtain ⟨rfl, rfl⟩ := Prod.mk.inj (Option.some.inj hcalls)
  have hm : MmapOk .empty [⟨0x20000#64, 0x1000#64, MULTIBOOT_MEMORY_AVAILABLE⟩] :=
    ⟨fun _ f h1 _ ht => by have : f < 33 := ht.2.2; omega, trivial⟩
  have hrun : PmmRun (fun _ _ _ => True) s _ _ := .init rfl rfl rfl hm hs
  refine ⟨c, d, _, _, ((hrun.step trivial ha).step trivial hb).step trivial hc, ?_, hd⟩
  have htaken : (Op.kpmalloc { contiguous := true, page_alloc_num := 1 }).Taken (some 0x20000) 32 := by
    unfold Op.Taken
    decide
  refine .inl ⟨.inl ⟨.inr htaken, fun hr => ?_⟩, fun hr => ?_⟩
  · have : 32 < 32 := hr.1.2.2
    omega
  · have : 64 ≤ 32 := hr.1.2.1
    omega

end Condor.Pmm
