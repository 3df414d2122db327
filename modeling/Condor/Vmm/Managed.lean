import Condor.Pmm.Summary
import Condor.Vmm.PageFault
import Mathlib.Data.Finset.Card

/-!
# The memory manager behind the page tables

What the page tables rely on of `pmalloc` (`Handout`, `Supply`) holds of the
memory manager of `pmm.c` as long as there are free blocks below 16 MiB: `managed`
are its functions with its variables in `Machine.pmm`, and `Backed n` says that it
is initialised, that the search has `n` blocks to find, and that the directory and
the page tables are in none of them. A call of `pmalloc` takes one, and mapping a
page another one where it has to create a page table.
-/

namespace Condor.Vmm

open Pmm Lib

/-- The variables of `pmm.c`, but for the pages of the frame stack. -/
structure Manager where
  low_bitmaps : LomemBitmaps
  stack32_index : Int
  is_inited : Bool

def Machine.state (m : Machine Manager) : Pmm.State (Machine Manager) :=
  ⟨m.pmm.low_bitmaps, m.pmm.stack32_index, m.pmm.is_inited, m⟩

def of_state (s : Pmm.State (Machine Manager)) : Machine Manager :=
  { s.space with pmm := ⟨s.low_bitmaps, s.stack32_index, s.is_inited⟩ }

/-- The functions of `pmm.c`. Their own mappings go through `P`: the windows of the frame stack have a page
table, so that these do not come back here. -/
def managed (P : Paging (Machine Manager)) : PmmCalls Manager where
  pmm_isInited m := m.pmm.is_inited
  pmalloc m := do
    let r ← Pmm.pmalloc P m.state
    .ok (r.1, of_state r.2)
  pfree m base_address num_addresses := do
    let s ← Pmm.pfree P m.state base_address num_addresses
    .ok (of_state s)

/-- The machine after block `f` was handed out. -/
def Machine.taking (m : Machine Manager) (f : Nat) : Machine Manager :=
  { m with pmm := { m.pmm with low_bitmaps := paddm_set_bit m.pmm.low_bitmaps f } }

/-! ## Free blocks -/

/-- `n` blocks are free, and the search skips none of them. -/
structure Room (n : Nat) (lb : LomemBitmaps) : Prop where
  summary : SummaryOk lb
  free : ∃ fs : Finset Nat, n ≤ fs.card ∧ ∀ f ∈ fs, FreeBlock lb f

theorem free_set_bit {lb : LomemBitmaps} {f g : Nat} :
    FreeBlock (paddm_set_bit lb f) g ↔ FreeBlock lb g ∧ g ≠ f := by
  refine ⟨fun ⟨hlt, h⟩ => ?_, fun ⟨⟨hlt, h⟩, hne⟩ => ⟨hlt, ?_⟩⟩
  · rw [allocated_set_bit hlt, not_or] at h
    exact ⟨⟨hlt, h.1⟩, h.2⟩
  · rw [allocated_set_bit hlt]
    exact not_or.mpr ⟨h, hne⟩

theorem Room.mono {n k : Nat} {lb : LomemBitmaps} (h : Room n lb) (hle : k ≤ n) : Room k lb := by
  obtain ⟨fs, hcard, hfree⟩ := h.free
  exact ⟨h.summary, fs, hle.trans hcard, hfree⟩

theorem Room.set_bit {n : Nat} {lb : LomemBitmaps} (h : Room (n + 1) lb) (f : Nat) :
    Room n (paddm_set_bit lb f) := by
  obtain ⟨fs, hcard, hfree⟩ := h.free
  refine ⟨h.summary.set_bit f, fs.erase f, ?_, fun g hg => ?_⟩
  · have hle : fs.card - 1 ≤ (fs.erase f).card := Finset.pred_card_le_card_erase
    omega
  · obtain ⟨hne, hg⟩ := Finset.mem_erase.mp hg
    exact free_set_bit.mpr ⟨hfree g hg, hne⟩

/-- With a free block the search finds one. -/
theorem Room.search {n : Nat} {lb : LomemBitmaps} (h : Room (n + 1) lb) :
    ∃ f, paddm_get_first_clear_bits lb {} = some f ∧ FreeBlock lb f := by
  obtain ⟨fs, hcard, hfree⟩ := h.free
  obtain ⟨g, hg⟩ := Finset.card_pos.mp (show 0 < fs.card by omega)
  have hex : ∃ f, FreeBlock lb f := ⟨g, hfree g hg⟩
  have hfind : FreeBlock lb (Nat.find hex) := Nat.find_spec hex
  exact ⟨Nat.find hex, h.summary.search_default.mpr ⟨hfind, fun _ => Nat.find_min hex⟩, hfind⟩

/-! ## What the page tables rely on -/

/-- `n` blocks can be handed out, and none of them is the directory or a page table. -/
structure Backed (n : Nat) (m : Machine Manager) : Prop where
  wf : m.WF
  inited : m.pmm.is_inited = true
  room : Room n m.pmm.low_bitmaps
  held : ∀ f, m.Used f → ¬ FreeBlock m.pmm.low_bitmaps f

variable {P : Paging (Machine Manager)} {m m1 m' : Machine Manager} {n p r laddr paddr flags : Nat}

theorem Backed.mono {k : Nat} (h : Backed n m) (hle : k ≤ n) : Backed k m :=
  ⟨h.wf, h.inited, h.room.mono hle, h.held⟩

/-- The directory and the variables decide. -/
theorem Backed.congr (h : Backed n m) (hsame : Machine.SameDirectory m m') (hpmm : m'.pmm = m.pmm) :
    Backed n m' where
  wf := hsame.wf h.wf
  inited := hpmm ▸ h.inited
  room := hpmm ▸ h.room
  held f hf := by
    rw [hsame.used] at hf
    rw [hpmm]
    exact h.held f hf

/-- A block was handed out that had been free. -/
structure Taken (m : Machine Manager) (p f : Nat) (m1 : Machine Manager) : Prop where
  address : p = f * 4096
  free : FreeBlock m.pmm.low_bitmaps f
  machine : m1 = m.taking f

theorem Backed.pmalloc_ok (h : Backed (n + 1) m) :
    ∃ f, FreeBlock m.pmm.low_bitmaps f ∧ (managed P).pmalloc m = .ok (f * 4096, m.taking f) := by
  obtain ⟨f, hsearch, hf⟩ := h.room.search
  refine ⟨f, hf, ?_⟩
  have hpmalloc : Pmm.pmalloc P m.state =
      .ok (f * 4096, { m.state with low_bitmaps := paddm_set_bit m.pmm.low_bitmaps f }) := by
    show kpmalloc P m.state {} = _
    unfold kpmalloc
    rw [show paddm_get_first_clear_bits m.state.low_bitmaps {} = some f from hsearch]
    simp only [mark_blocks, Bool.false_eq_true, if_false, Nat.shiftLeft_eq]
    rfl
  show (Pmm.pmalloc P m.state >>= fun r => .ok (r.1, of_state r.2)) = _
  rw [hpmalloc]
  rfl

theorem Backed.taken (h : Backed (n + 1) m) (hp : (managed P).pmalloc m = .ok (p, m1)) :
    ∃ f, Taken m p f m1 := by
  obtain ⟨f, hf, hok⟩ := h.pmalloc_ok (P := P)
  rw [hok] at hp
  cases hp
  exact ⟨f, rfl, hf, rfl⟩

theorem Taken.backed {f : Nat} (ht : Taken m p f m1) (h : Backed (n + 1) m) : Backed n m1 := by
  obtain ⟨-, -, rfl⟩ := ht
  exact ⟨⟨h.wf.self, h.wf.self_frame, h.wf.table_ne, h.wf.distinct⟩, h.inited, h.room.set_bit f,
    fun g hg hfree => h.held g hg (free_set_bit.mp hfree).1⟩

/-- **What the page tables rely on.** With a free block, `pmalloc` of `pmm.c` hands out an aligned frame that is
neither directory nor page table, and leaves these as they are. -/
theorem Backed.handout (h : Backed (n + 1) m) (hp : (managed P).pmalloc m = .ok (p, m1)) : Handout m p m1 := by
  obtain ⟨f, rfl, hf, rfl⟩ := h.taken hp
  have hframe : f * 4096 / 4096 = f := Nat.mul_div_cancel f (by decide)
  refine ⟨Nat.mul_mod_left f 4096, fun hu => ?_, rfl, fun _ _ => rfl⟩
  rw [hframe] at hu
  exact h.held f hu hf

/-! ## Mapping a page -/

theorem map_entry_pmm {page : Nat} {m m' : Machine Manager} (h : map_entry m page paddr flags = .ok (r, m')) :
    m'.pmm = m.pmm := by
  unfold map_entry at h
  obtain ⟨pte, -, h⟩ := bind_eq_ok.mp h
  split at h
  · cases h
    rfl
  · obtain ⟨m1, hstore, h⟩ := bind_eq_ok.mp h
    cases h
    exact pmm_store hstore

/-- The frame of the new page table was free, and is held now. -/
theorem Backed.add_table (h : Backed (n + 1) m) (hp : BelowTables (laddr / 4096))
    (ha : add_table (managed P) m laddr flags = .ok m') :
    Backed n m' ∧ m'.pde (laddr / 4096 / 1024) % 2 = 1 := by
  have hsupply : ∀ p m1, (managed P).pmalloc m = .ok (p, m1) → Supply m p m1 :=
    fun p m1 hp => (h.handout hp).supply
  obtain ⟨kvb, p, m1, hkvb, hp1, hadd, -, -⟩ := add_table_supplied h.wf hp h.inited hsupply ha
  obtain ⟨f, htaken⟩ := h.taken hp1
  have hb1 := htaken.backed h
  have hs := hsupply p m1 hp1
  have hunused : ¬ m1.Used (p / 4096) := by
    rw [hs.directory.used]
    exact hs.unused
  obtain ⟨m2, hm2, hnew⟩ := add_table_new hp h.inited hkvb hp1 hb1.wf hs.frame hunused flags
  rw [ha] at hm2
  cases hm2
  obtain ⟨rfl, hf, rfl⟩ := htaken
  refine ⟨⟨hnew.wf, hnew.pmm ▸ hb1.inited, hnew.pmm ▸ hb1.room, fun g hg => ?_⟩, hnew.present⟩
  rw [hnew.pmm]
  obtain rfl | ⟨d, hd, hd1, rfl⟩ := hg
  · exact hb1.held _ (.inl hadd.cr3)
  · by_cases heq : d = laddr / 4096 / 1024
    · -- the new table is in the block that was taken
      rw [heq, hnew.frame, Nat.mul_div_cancel f (by decide)]
      exact fun hfree => (free_set_bit.mp hfree).2 rfl
    · have hpde : m'.pde d = (m.taking f).pde d := by rw [hadd.pde, if_neg heq]
      rw [hpde] at hd1 ⊢
      exact hb1.held _ (.inr ⟨d, hd, hd1, rfl⟩)

/-- Mapping a page takes at most one block, for its page table. -/
theorem Backed.smap_page (h : Backed (n + 1) m) (hp : BelowTables (laddr / 4096))
    (hs : smap_page (managed P) m laddr paddr flags = .ok (r, m')) :
    Backed n m' ∧ m'.pde (laddr / 4096 / 1024) % 2 = 1 := by
  have hentry {t : Machine Manager} (ht : Backed n t) (hpre : t.pde (laddr / 4096 / 1024) % 2 = 1)
      (he : map_entry t (laddr / 4096) paddr flags = .ok (r, m')) :
      Backed n m' ∧ m'.pde (laddr / 4096 / 1024) % 2 = 1 := by
    have hsame := (map_entry_spec ht.wf hp hpre he).1
    exact ⟨ht.congr hsame (map_entry_pmm he), by rw [hsame.pde]; exact hpre⟩
  rw [smap_page_eq h.wf hp] at hs
  split at hs
  case isTrue hpre => exact hentry (h.mono (Nat.le_succ n)) hpre hs
  case isFalse =>
    obtain ⟨m1, hm1, hs⟩ := bind_eq_ok.mp hs
    obtain ⟨h1, hpre⟩ := h.add_table hp hm1
    exact hentry h1 hpre hs

end Condor.Vmm
