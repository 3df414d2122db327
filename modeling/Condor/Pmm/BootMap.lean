import Condor.Pmm.Ownership

/-!
# The memory map after `pmm_init`

The entries of a Multiboot memory map are 64 bits wide; `pmm_init` cuts base and
length to 32 bits and hands them to loops that round outwards to whole blocks,
in the order of the map. A block is left free exactly if the last entry whose
32-bit range touches it is usable (`FreedBy`, `freeBlock_pmm_init`). `Backed` is
what a free block should be: inside the usable memory, outside everything else.
`pmm_init_backed_iff` gives the maps for which the two agree on every free block.
-/

namespace Condor.Pmm

open Lib

/-- The entry describes byte `a`. -/
def MmapEntry.Covers (e : MmapEntry) (a : Nat) : Prop :=
  e.addr.toNat ≤ a ∧ a < e.addr.toNat + e.len.toNat

/-- The entry makes `pmm_init` allocate its blocks. -/
def MmapEntry.reserves (e : MmapEntry) : Bool := !e.usable && e.type > MULTIBOOT_MEMORY_AVAILABLE

/-- The 32-bit range of the entry touches block `b`. -/
def MmapEntry.Touches (e : MmapEntry) (b : Nat) : Prop := Pmm.Touches e.addr32 e.len32 b

/-- Every byte of block `b` is usable memory, and none is described by any other entry. -/
def Backed (mmap : List MmapEntry) (b : Nat) : Prop :=
  ∀ a, a / 4096 = b → (∃ e ∈ mmap, e.usable = true ∧ e.Covers a) ∧
    ∀ e ∈ mmap, e.usable = false → ¬ e.Covers a

/-- No entry of the list makes `pmm_init` allocate block `b`. -/
def Unreserved (mmap : List MmapEntry) (b : Nat) : Prop :=
  ∀ e ∈ mmap, e.reserves = true → ¬ e.Touches b

/-- The last entry that touches block `b` is usable. -/
def FreedBy : List MmapEntry → Nat → Prop
  | [], _ => False
  | e :: mmap, b => FreedBy mmap b ∨ e.usable = true ∧ e.Touches b ∧ Unreserved mmap b

/-- Each block that a usable entry touches, and no entry after it reserves, is backed. -/
def MapOk (mmap : List MmapEntry) : Prop :=
  ∀ pre e post, mmap = pre ++ e :: post → e.usable = true → ∀ b, 3 ≤ b → b < 4096 → e.Touches b →
    Unreserved post b → Backed mmap b

/-! ## Which blocks are left free -/

section
variable {σ : Type} {P : Paging σ} {s s' : State σ} {b : Nat}

theorem freeBlock_clear_region {base size : Nat} (h : pmm_clear_region P s base size = .ok s')
    (h3 : 3 ≤ b) (hb : b < 4096) :
    FreeBlock s'.low_bitmaps b ↔ FreeBlock s.low_bitmaps b ∨ Touches base size b := by
  unfold FreeBlock
  rw [allocated_clear_region h hb, or_iff_left (fun h => by omega)]
  simp only [hb, true_and, not_and, not_not, imp_iff_not_or]

theorem freeBlock_set_region {base size : Nat} :
    FreeBlock (pmm_set_region s base size).low_bitmaps b ↔
      FreeBlock s.low_bitmaps b ∧ ¬ Touches base size b := by
  unfold FreeBlock
  by_cases hb : b < 4096
  · rw [allocated_set_region hb, not_or, and_assoc]
  · simp [hb]

/-- One entry frees the blocks it touches, or allocates them. -/
theorem freeBlock_add_mmap_entry {e : MmapEntry} (h : add_mmap_entry P s e = .ok s') (h3 : 3 ≤ b)
    (hb : b < 4096) : FreeBlock s'.low_bitmaps b ↔
      e.usable = true ∧ e.Touches b ∨
        FreeBlock s.low_bitmaps b ∧ (e.reserves = true → ¬ e.Touches b) := by
  unfold add_mmap_entry at h
  by_cases hu : e.usable = true
  · rw [if_pos hu] at h
    rw [freeBlock_clear_region h h3 hb, or_comm]
    simp [MmapEntry.reserves, hu, MmapEntry.Touches]
  rw [if_neg hu] at h
  by_cases ht : e.type > MULTIBOOT_MEMORY_AVAILABLE
  · rw [if_pos ht] at h
    cases h
    rw [freeBlock_set_region]
    simp [MmapEntry.reserves, hu, ht, MmapEntry.Touches]
  · rw [if_neg ht] at h
    cases h
    simp [MmapEntry.reserves, hu, ht]

/-- The whole map: a block ends up free if the last entry to touch it is usable, or if it was free
and nothing reserves it. -/
theorem freeBlock_mmap {mmap : List MmapEntry} (h : mmap.foldlM (add_mmap_entry P) s = .ok s')
    (h3 : 3 ≤ b) (hb : b < 4096) : FreeBlock s'.low_bitmaps b ↔
      FreedBy mmap b ∨ FreeBlock s.low_bitmaps b ∧ Unreserved mmap b := by
  induction mmap generalizing s with
  | nil =>
    cases h
    simp [FreedBy, Unreserved]
  | cons e mmap ih =>
    rw [List.foldlM_cons] at h
    obtain ⟨t, ht, h⟩ := bind_eq_ok.mp h
    rw [ih h, freeBlock_add_mmap_entry ht h3 hb, or_and_right, and_assoc, and_assoc, ← or_assoc]
    simp only [FreedBy, Unreserved, List.forall_mem_cons]

/-- **What `pmm_init` leaves free**: the blocks whose last touching entry is usable. -/
theorem freeBlock_pmm_init {mmap : List MmapEntry} (h : pmm_init P s mmap = .ok s') (h3 : 3 ≤ b)
    (hb : b < 4096) : FreeBlock s'.low_bitmaps b ↔ FreedBy mmap b := by
  unfold pmm_init at h
  obtain ⟨m, -, h⟩ := bind_eq_ok.mp h
  obtain ⟨t, ht, h⟩ := bind_eq_ok.mp h
  cases h
  rw [freeBlock_mmap ht h3 hb]
  exact or_iff_left fun hf => hf.1.2 (allocated_initial hb)

end

theorem freedBy_iff {mmap : List MmapEntry} {b : Nat} :
    FreedBy mmap b ↔ ∃ pre e post, mmap = pre ++ e :: post ∧ e.usable = true ∧ e.Touches b ∧
      Unreserved post b := by
  induction mmap with
  | nil => simp [FreedBy]
  | cons e mmap ih =>
    rw [FreedBy, ih]
    constructor
    · rintro (⟨pre, x, post, rfl, hx⟩ | hx)
      · exact ⟨e :: pre, x, post, rfl, hx⟩
      · exact ⟨[], e, mmap, rfl, hx⟩
    · rintro ⟨pre, x, post, heq, hx⟩
      cases pre with
      | nil =>
        cases heq
        exact .inr hx
      | cons y pre =>
        cases heq
        exact .inl ⟨pre, x, post, rfl, hx⟩

/-! ## `pmm_init` returns -/

/-- Mapping a stack page succeeds whether or not the page was mapped. -/
theorem map_stack_page_total {m : AddrSpace} {page addr flags : Nat} (hpage : page % 4096 = 0)
    (ha : addr < FAIL) (hf : flags % 2 = 1) :
    ∃ m', map_stack_page AddrSpace.paging m page addr flags = .ok m' ∧
      (m'.frame? (page / 4096)).isSome := by
  cases hm : m.frame? (page / 4096) with
  | none =>
    rw [map_stack_page_eq hpage ha hf (.inl hm)]
    exact ⟨_, rfl, by rw [withStackPage_frame hf]; rfl⟩
  | some p =>
    by_cases hr : flags &&& PAGE_REMAP = 0
    · have hmap : AddrSpace.paging.vmm_map_address m page addr flags = .ok (1, m) := by
        simp only [AddrSpace.paging, AddrSpace.vmm_map_address, hm, hr, Option.isSome_some, and_self]
        rw [if_neg (by unfold FAIL at ha; omega), if_pos trivial]
      unfold map_stack_page
      rw [hmap]
      exact ⟨_, AddrSpace.memset_ok hpage hm, by rw [AddrSpace.frame?_setFrame, hm]; rfl⟩
    · rw [map_stack_page_eq hpage ha hf (.inr hr)]
      exact ⟨_, rfl, by rw [withStackPage_frame hf]; rfl⟩

/-- The index points into the page. -/
def IndexOk {σ : Type} (s : State σ) : Prop := 0 ≤ s.stack32_index ∧ s.stack32_index ≤ 1023

theorem getPhys_total (m : AddrSpace) (laddr : Nat) :
    ∃ v, AddrSpace.paging.vmm_get_physical_addr m laddr = .ok v ∧
      (v ≠ 0 → ∃ p, m.frame? (laddr / 4096) = some p) := by
  cases hm : m.frame? (laddr / 4096) with
  | none => exact ⟨0, AddrSpace.getPhys_of_none hm, fun h => absurd rfl h⟩
  | some p => exact ⟨_, AddrSpace.getPhys_of_frame hm, fun _ => ⟨p, rfl⟩⟩

/-- A push returns, whatever the windows are mapped to. -/
theorem stack_push_total {s : State AddrSpace} {addr : Nat} (hs : IndexOk s) (ha : addr < FAIL) :
    ∃ s', stack_push AddrSpace.paging s addr = .ok s' ∧ IndexOk s' := by
  obtain ⟨v32, h32, hp32⟩ := getPhys_total s.space STACK32
  obtain ⟨v64, h64, -⟩ := getPhys_total s.space STACK64
  have hflags : (PAGE_PRESENT ||| PAGE_RW) % 2 = 1 := by decide
  unfold stack_push
  rw [h32, h64]
  by_cases hv32 : v32 = 0
  · obtain ⟨m, hm, -⟩ := map_stack_page_total (m := s.space) stack32_aligned ha hflags
    exact ⟨{ s with space := m }, by simp only [bind, Except.bind, hv32, if_true, hm], hs⟩
  by_cases hv64 : v64 = 0
  · obtain ⟨m, hm, -⟩ := map_stack_page_total (m := s.space) stack64_aligned ha hflags
    exact ⟨{ s with space := m }, by simp only [bind, Except.bind, hv32, hv64, if_false, if_true, hm],
      hs⟩
  have hne : addr ≠ 0xFFFFFFFF := by unfold FAIL at ha; omega
  by_cases hi : s.stack32_index = 1023
  · obtain ⟨m, hm, hmap⟩ := map_stack_page_total (m := s.space) stack32_aligned ha
      (show (PAGE_PRESENT ||| PAGE_RW ||| PAGE_REMAP) % 2 = 1 by decide)
    obtain ⟨p, hp⟩ := Option.isSome_iff_exists.mp hmap
    refine ⟨{ s with
      space := m.setFrame p (Function.update (m.frames p) (STACK32 % 4096 / 4) v32)
      stack32_index := 0 }, ?_, show 0 ≤ (0 : Int) ∧ (0 : Int) ≤ 1023 by decide⟩
    simp only [bind, Except.bind, hv32, hv64, hne, hi, if_false, if_true, hm,
      AddrSpace.store_of_frame hp]
  · obtain ⟨p, hp⟩ := hp32 hv32
    obtain ⟨k, hk⟩ : ∃ k : Nat, s.stack32_index + 1 = k := ⟨(s.stack32_index + 1).toNat, by
      have := hs.1
      omega⟩
    have hlt : k < 1024 := by have := hs.2; omega
    have hslot : s.space.frame? ((STACK32 + 4 * k) / 4096) = some p := by rw [slot_page hlt]; exact hp
    have hstore := AddrSpace.store_of_frame hslot addr
    refine ⟨{ s with
      space := s.space.setFrame p
        (Function.update (s.space.frames p) ((STACK32 + 4 * k) % 4096 / 4) addr)
      stack32_index := s.stack32_index + 1 }, ?_,
      show 0 ≤ s.stack32_index + 1 ∧ s.stack32_index + 1 ≤ 1023 by
        obtain ⟨h1, h2⟩ := hs
        omega⟩
    simp only [bind, Except.bind, hv32, hv64, hne, hi, if_false]
    rw [show s.stack32_index = (k : Int) - 1 by omega, freeAddrs_eq, hstore]

theorem clear_block_total {s : State AddrSpace} {blocks : Nat} (hs : IndexOk s) (hb : blocks < 0xFFFFF) :
    ∃ s', clear_block AddrSpace.paging blocks s = .ok s' ∧ IndexOk s' := by
  unfold clear_block push_high
  split
  · have ha : blocks <<< 12 < FAIL := by
      rw [Nat.shiftLeft_eq]
      unfold FAIL
      omega
    obtain ⟨t, ht, hidx⟩ := stack_push_total hs ha
    rw [ht]
    exact ⟨_, rfl, hidx⟩
  · exact ⟨_, rfl, hs⟩

theorem add_mmap_entry_total {s : State AddrSpace} (hs : IndexOk s) (e : MmapEntry) :
    ∃ s', add_mmap_entry AddrSpace.paging s e = .ok s' ∧ IndexOk s' := by
  unfold add_mmap_entry
  split
  · unfold pmm_clear_region
    split
    · exact ⟨s, rfl, hs⟩
    · rw [forWhile_lt, shift12]
      by_cases hle : e.addr32 / 4096 ≤ min (region_end e.addr32 e.len32) 0xFFFFF
      · exact forUp_total (I := fun _ t => IndexOk t) hle hs fun i t _ h2 ht =>
          clear_block_total ht (by omega)
      · rw [forUp_of_le (by omega)]
        exact ⟨s, rfl, hs⟩
  split
  · refine ⟨_, rfl, ?_⟩
    unfold pmm_set_region
    split
    · exact hs
    · exact hs
  · exact ⟨s, rfl, hs⟩

theorem map_bitmaps_total (m : AddrSpace) : ∃ m', map_bitmaps AddrSpace.paging m = .ok m' := by
  have hmap : ∀ (m : AddrSpace) laddr paddr flags,
      ∃ r, AddrSpace.paging.vmm_map_address m laddr paddr flags = .ok r := by
    intro m laddr paddr flags
    simp only [AddrSpace.paging, AddrSpace.vmm_map_address]
    split
    · exact ⟨_, rfl⟩
    · split <;> exact ⟨_, rfl⟩
  obtain ⟨v, hv, -⟩ := getPhys_total m PMM_BASE
  obtain ⟨a, ha⟩ := hmap m (PMM_BASE + 0x0000) 0x2000 (PAGE_PRESENT ||| PAGE_RW)
  obtain ⟨b, hb⟩ := hmap a.2 (PMM_BASE + 0x3000) 0x0000 PAGE_PRESENT
  unfold map_bitmaps
  rw [hv]
  by_cases h0 : v = 0
  · exact ⟨b.2, by simp only [bind, Except.bind, h0, if_true, ha, hb]⟩
  · exact ⟨m, by simp only [bind, Except.bind, h0, if_false]⟩

/-- `pmm_init` returns on every memory map. -/
theorem pmm_init_total {s : State AddrSpace} (hs : IndexOk s) (mmap : List MmapEntry) :
    ∃ s', pmm_init AddrSpace.paging s mmap = .ok s' := by
  have hfold : ∀ (mmap : List MmapEntry) (t : State AddrSpace), IndexOk t →
      ∃ t', mmap.foldlM (add_mmap_entry AddrSpace.paging) t = .ok t' := by
    intro mmap
    induction mmap with
    | nil => exact fun t _ => ⟨t, rfl⟩
    | cons e mmap ih =>
      intro t ht
      obtain ⟨u, hu, hidx⟩ := add_mmap_entry_total ht e
      obtain ⟨v, hv⟩ := ih u hidx
      exact ⟨v, by rw [List.foldlM_cons, hu]; exact hv⟩
  obtain ⟨m, hm⟩ := map_bitmaps_total s.space
  obtain ⟨t, ht⟩ := hfold mmap { s with space := m, low_bitmaps := initial_bitmaps } hs
  unfold pmm_init
  rw [hm]
  exact ⟨{ t with is_inited := true }, by simp only [bind, Except.bind, ht]⟩

/-! ## Maps that are read as they are meant -/

/-- Usable entries made of whole pages below 4 GiB, apart from all other entries, are read as they
are meant. -/
theorem mapOk_of_whole_pages {mmap : List MmapEntry}
    (hpages : ∀ e ∈ mmap, e.usable = true → e.addr.toNat % 4096 = 0 ∧ e.len.toNat % 4096 = 0 ∧
      e.addr.toNat + e.len.toNat ≤ 2 ^ 32)
    (hapart : ∀ e ∈ mmap, e.usable = true → ∀ e' ∈ mmap, e'.usable = false →
      ∀ a, e.Covers a → ¬ e'.Covers a) : MapOk mmap := by
  intro pre e post heq hu b h3 hb ht hun a ha
  have he : e ∈ mmap := by simp [heq]
  obtain ⟨h1, h2, h4⟩ := hpages e he hu
  have hcov : e.Covers a := by
    obtain ⟨hsize, hlo, hhi⟩ := ht
    unfold MmapEntry.addr32 at hlo hhi
    unfold MmapEntry.len32 at hsize hhi
    unfold region_end at hhi
    rw [shift12] at hhi
    exact ⟨by omega, by omega⟩
  exact ⟨⟨e, he, hu, hcov⟩, fun e' he' hu' => hapart e he hu e' he' hu' a hcov⟩

/-- **Free memory after `pmm_init`.** `pmm_init` returns on every memory map, and every block it
leaves free is backed by usable memory exactly if the map is `MapOk`. -/
theorem pmm_init_backed_iff {s : State AddrSpace} (hs : IndexOk s) (mmap : List MmapEntry) :
    ∃ s', pmm_init AddrSpace.paging s mmap = .ok s' ∧
      ((∀ b, 3 ≤ b → b < 4096 → FreeBlock s'.low_bitmaps b → Backed mmap b) ↔ MapOk mmap) := by
  obtain ⟨s', hs'⟩ := pmm_init_total hs mmap
  refine ⟨s', hs', fun hall pre e post heq hu b h3 hb ht hun => ?_, fun hok b h3 hb hf => ?_⟩
  · refine hall b h3 hb ((freeBlock_pmm_init hs' h3 hb).mpr ?_)
    exact freedBy_iff.mpr ⟨pre, e, post, heq, hu, ht, hun⟩
  · obtain ⟨pre, e, post, heq, hu, ht, hun⟩ := freedBy_iff.mp ((freeBlock_pmm_init hs' h3 hb).mp hf)
    exact hok pre e post heq hu b h3 hb ht hun

/-- A map with one usable page. -/
theorem pmm_init_backed_iff_page3 : ∃ s',
    pmm_init AddrSpace.paging ⟨fun _ => 0, 0, false, ⟨fun _ => 0, fun _ _ => 0⟩⟩
      [⟨0x3000#64, 0x1000#64, MULTIBOOT_MEMORY_AVAILABLE⟩] = .ok s' ∧
    ∀ b, 3 ≤ b → b < 4096 → FreeBlock s'.low_bitmaps b →
      Backed [⟨0x3000#64, 0x1000#64, MULTIBOOT_MEMORY_AVAILABLE⟩] b := by
  obtain ⟨s', hs', hiff⟩ := pmm_init_backed_iff
    (s := ⟨fun _ => 0, 0, false, ⟨fun _ => 0, fun _ _ => 0⟩⟩) (by unfold IndexOk; decide)
    [⟨0x3000#64, 0x1000#64, MULTIBOOT_MEMORY_AVAILABLE⟩]
  refine ⟨s', hs', hiff.mpr (mapOk_of_whole_pages ?_ ?_)⟩
  · intro e he _
    rw [List.mem_singleton] at he
    subst he
    decide
  · intro e _ _ e' he' hu'
    rw [List.mem_singleton] at he'
    subst he'
    cases hu'

/-- A usable page at 4 GiB + 0x3000 frees the block at 0x3000. -/
theorem pmm_init_frees_unbacked : ∃ s',
    pmm_init AddrSpace.paging ⟨fun _ => 0, 0, false, ⟨fun _ => 0, fun _ _ => 0⟩⟩
      [⟨0x100003000#64, 0x1000#64, MULTIBOOT_MEMORY_AVAILABLE⟩] = .ok s' ∧
    FreeBlock s'.low_bitmaps 3 ∧
    ¬ Backed [⟨0x100003000#64, 0x1000#64, MULTIBOOT_MEMORY_AVAILABLE⟩] 3 := by
  refine ⟨_, rfl, by decide, fun hb => ?_⟩
  obtain ⟨⟨e, he, -, hlo, -⟩, -⟩ := hb 0x3000 rfl
  rw [List.mem_singleton] at he
  subst he
  revert hlo
  decide

end Condor.Pmm
