import Condor.Lib.Runs
import Condor.Vmm.PageFault

/-!
# The user bit of a new page table

The first page that is mapped in 4 MiB gets them a page table. Its directory entry
is for user mode if the address is below the dword that stands at
`KERNEL_VIRTUAL_BASE`, where the kernel's base itself is meant, and also if the
frame for the table is the answer of a `pmalloc` that failed. `user_bits_iff` says
which runs of `vmm_map_address` create only entries with the right bit. The directory
stays self-mapped along a run (`MapStep.wf_next`), as long as an entry that is mapped by
hand, through the window of the page tables, fits.
-/

namespace Condor.Vmm

open Lib

variable {π : Type} {pmm : PmmCalls π} {m m' : Machine π} {page p v : Nat}

structure MapCall where
  laddr : Nat
  paddr : Nat
  flags : Nat
  deriving DecidableEq, Repr

/-- The entry for the page. -/
def MapCall.entry (c : MapCall) : Nat := c.paddr / 4096 * 4096 + c.flags % 4096

/-- A call that maps its page, with what `pmalloc` is relied on for where a page table is missing. -/
structure Called (pmm : PmmCalls π) (m : Machine π) (c : MapCall) (m' : Machine π) : Prop where
  inited : pmm.pmm_isInited m = true
  supply : m.pde (c.laddr / 4096 / 1024) % 2 ≠ 1 → ∀ p m1, pmm.pmalloc m = .ok (p, m1) → Supply m p m1
  linear : c.laddr < 2 ^ 32
  ok : vmm_map_address pmm m c.laddr c.paddr c.flags = .ok (0, m')

/-- Such a call on a self-mapped directory. -/
structure MapStep (pmm : PmmCalls π) (m : Machine π) (c : MapCall) (m' : Machine π) : Prop
    extends Called pmm m c m' where
  wf : m.WF

/-- An entry that is mapped by hand leaves the directory in its own slot, and the tables apart. -/
def Fits (m : Machine π) (c : MapCall) : Prop :=
  PAGE_TABLE_BASE ≤ c.laddr →
    if c.laddr / 4096 % 1024 = 1023 then c.flags % 2 = 1 ∧ c.paddr / 4096 = m.cr3
    else m.Apart (c.laddr / 4096 % 1024) c.entry

/-- An entry that was not there has the user bit exactly if it is for addresses below the kernel. -/
def RightBits (m m' : Machine π) : Prop :=
  ∀ d < 1024, m.pde d % 2 ≠ 1 → m'.pde d % 2 = 1 →
    (m'.pde d / 4 % 2 = 1 ↔ 0x400000 * d < KERNEL_VIRTUAL_BASE)

theorem map_entry_stored (hw : m.WF) (hp : Linear page) (h : m.pde (page / 1024) % 2 = 1)
    (he : map_entry m page p v = .ok (0, m')) :
    m' = m.setWord (m.pde (page / 1024) / 4096) (page % 1024) (p / 4096 * 4096 + v % 4096) := by
  unfold map_entry at he
  rw [load_entry hw hp h] at he
  change (if present _ = true ∧ _ then _ else _) = _ at he
  split at he
  · cases he
  · rw [store_entry hw hp h] at he
    cases he
    rfl

/-- The directory after a call: as it was, with an entry mapped by hand, or with a new table. -/
inductive Stored (pmm : PmmCalls π) (m : Machine π) (c : MapCall) (m' : Machine π) : Prop
  | table (hl : c.laddr < PAGE_TABLE_BASE) (ht : m.pde (c.laddr / 4096 / 1024) % 2 = 1) (hwf : m'.WF)
      (hpde : ∀ d, m'.pde d = m.pde d) (hpte : m'.pte (c.laddr / 4096) = c.entry)
  | window (hl : PAGE_TABLE_BASE ≤ c.laddr) (hcr3 : m'.cr3 = m.cr3)
      (hpde : ∀ d, m'.pde d = if d = c.laddr / 4096 % 1024 then c.entry else m.pde d)
  | created {kvb q : Nat} {m1 : Machine π} (hl : c.laddr < PAGE_TABLE_BASE)
      (ht : m.pde (c.laddr / 4096 / 1024) % 2 ≠ 1) (hwf : m'.WF) (hkvb : m.load KERNEL_VIRTUAL_BASE = .ok kvb)
      (hq : pmm.pmalloc m = .ok (q, m1)) (hframe : q = NO_FRAME ∨ q % 4096 = 0)
      (hpde : ∀ d, m'.pde d = if d = c.laddr / 4096 / 1024 then
        q ||| (if c.laddr ≥ kvb then 0x003 else 0x007) else m.pde d)
      (hpte : m'.pte (c.laddr / 4096) = c.entry)

theorem MapStep.stored {c : MapCall} (h : MapStep pmm m c m') : Stored pmm m c m' := by
  have hok := h.ok
  unfold vmm_map_address at hok
  split at hok
  · cases hok
  split at hok
  · obtain ⟨m1, -, hok⟩ := bind_eq_ok.mp hok
    cases hok
  have hp := linear_of_laddr h.linear
  have hentry : c.paddr / 4096 * 4096 + c.flags % 2 ^ 32 % 4096 = c.entry := by
    unfold MapCall.entry
    omega
  by_cases ht : m.pde (c.laddr / 4096 / 1024) % 2 = 1
  · rw [smap_page_table h.wf hp ht] at hok
    have hstored := map_entry_stored h.wf hp ht hok
    rw [hentry] at hstored
    subst hstored
    obtain hd | hd := hp.cases
    · have hsame := Machine.sameDirectory_setWord (k := c.laddr / 4096 % 1024) (v := c.entry)
        (h.wf.table_ne _ hd ht)
      refine .table ?_ ht (hsame.wf h.wf) hsame.pde ?_
      · unfold PAGE_TABLE_BASE
        omega
      · rw [Machine.pte, hsame.pde, Machine.setWord_mem_self, Function.update_self]
    · refine .window (by unfold PAGE_TABLE_BASE; omega) rfl fun d => ?_
      rw [hd, h.wf.self_frame]
      show (m.setWord m.cr3 _ _).mem m.cr3 d = _
      rw [Machine.setWord_mem_self, Function.update_apply]
      rfl
  · rw [smap_page_no_table h.wf hp ht] at hok
    obtain ⟨m2, hm2, hok⟩ := bind_eq_ok.mp hok
    have hb := below_of_no_table h.wf hp ht
    obtain ⟨kvb, q, m1, hkvb, hq, hadd, hw2, ht2⟩ :=
      add_table_supplied h.wf hb h.inited (h.supply ht) hm2
    have hs := h.supply ht q m1 hq
    have hstored := map_entry_stored hw2 hp ht2 hok
    rw [hentry] at hstored
    have hsame := Machine.sameDirectory_setWord (k := c.laddr / 4096 % 1024) (v := c.entry)
      (hw2.table_ne _ hb.slot ht2)
    rw [← hstored] at hsame
    refine .created ?_ ht (hsame.wf hw2) hkvb hq hs.frame (fun d => ?_) ?_
    · have hlt := hb
      unfold BelowTables at hlt
      unfold PAGE_TABLE_BASE
      omega
    · rw [hsame.pde, hadd.pde, hs.directory.pde]
    · rw [Machine.pte, hsame.pde, hstored, Machine.setWord_mem_self, Function.update_self]

/-- Below the window of the page tables a call writes no entry that was there. -/
theorem MapStep.pde_kept {c : MapCall} {d : Nat} (h : MapStep pmm m c m') (hl : c.laddr < PAGE_TABLE_BASE)
    (hd : m.pde d % 2 = 1) : m'.pde d = m.pde d := by
  cases h.stored with
  | table _ _ _ hpde => exact hpde d
  | window hge => omega
  | created _ ht _ _ _ _ hpde =>
    rw [hpde, if_neg]
    rintro rfl
    exact ht hd

/-! ## The user bit -/

/-- A call for a page for user mode below the kernel's base, in 4 MiB where the directory `m` has no table or one
for user mode. -/
structure ForUser (m : Machine π) (c : MapCall) : Prop where
  table : m.pde (c.laddr / 4096 / 1024) % 2 = 1 → m.pde (c.laddr / 4096 / 1024) / 4 % 2 = 1
  low : c.laddr < KERNEL_VIRTUAL_BASE
  present : c.flags % 2 = 1
  user : c.flags / 4 % 2 = 1

/-- The entries created are right, and a page for user mode below the kernel's base can be read there,
in a new table and in one that was for user mode. -/
structure Reachable (m : Machine π) (c : MapCall) (m' : Machine π) : Prop where
  bits : RightBits m m'
  user : ForUser m c → m'.Permits c.laddr ⟨false, true⟩

/-! ## Runs -/

/-- The entries that were there in `m₀` are as they were, and those created since are right. -/
structure Grown (m₀ m : Machine π) : Prop where
  kept : ∀ d, m₀.pde d % 2 = 1 → m.pde d = m₀.pde d
  bits : RightBits m₀ m

theorem Grown.refl (m : Machine π) : Grown m m := ⟨fun _ _ => rfl, fun _ _ habs hpre => absurd hpre habs⟩

theorem Grown.step {m₀ : Machine π} {c : MapCall} (h₀ : Grown m₀ m) (h : MapStep pmm m c m')
    (hl : c.laddr < PAGE_TABLE_BASE) (hbits : RightBits m m') : Grown m₀ m' where
  kept d hd := by
    have hkept := h₀.kept d hd
    rw [h.pde_kept hl (hkept ▸ hd), hkept]
  bits d hd habs hpre := by
    by_cases hm : m.pde d % 2 = 1
    · rw [h.pde_kept hl hm]
      exact h₀.bits d hd habs hm
    · exact hbits d hd hm hpre

/-- The directory in frame 1, and in frame 2 a table that maps the kernel's base to frame 0, which
starts with `dword`. -/
def withBase (dword : Nat) : Machine Unit where
  cr3 := 1
  mem f k :=
    if f = 1 then if k = 1023 then 0x1003 else if k = 768 then 0x2003 else 0
    else if f = 2 ∧ k = 0 then 3 else if f = 0 ∧ k = 0 then dword else 0
  pmm := ()

theorem pde_withBase (dword d : Nat) :
    (withBase dword).pde d = if d = 1023 then 0x1003 else if d = 768 then 0x2003 else 0 := rfl

theorem present_withBase {dword d : Nat} (hd : d < 1023) (h : (withBase dword).pde d % 2 = 1) :
    d = 768 ∧ (withBase dword).pde d / 4096 = 2 := by
  rw [pde_withBase] at h ⊢
  split at h
  · omega
  split at h
  case isTrue h8 => exact ⟨h8, by subst h8; rfl⟩
  cases h

theorem wf_withBase (dword : Nat) : (withBase dword).WF where
  self := by rw [pde_withBase]; rfl
  self_frame := by rw [pde_withBase]; rfl
  table_ne d hd h heq := by
    rw [(present_withBase hd h).2] at heq
    cases heq
  distinct d hd e he hd1 he1 _ := by
    rw [(present_withBase hd hd1).1, (present_withBase he he1).1]

theorem load_withBase (dword : Nat) : (withBase dword).load KERNEL_VIRTUAL_BASE = .ok dword := by
  have htable : (withBase dword).pde (KERNEL_VIRTUAL_BASE / 4096 / 1024) = 0x2003 := pde_withBase dword 768
  have hentry : (withBase dword).mem 2 0 = 3 := rfl
  have hframe : (withBase dword).frame? (KERNEL_VIRTUAL_BASE / 4096) = some 0 := by
    rw [Machine.frame?_of_table (by rw [htable]), htable]
    show (if (withBase dword).mem 2 0 % 2 = 1 then some ((withBase dword).mem 2 0 / 4096) else none) = some 0
    rw [hentry]
    rfl
  rw [Machine.load_of_frame hframe]
  rfl

theorem handout_withBase (dword p : Nat) (m1 : Machine Unit) (h : smallPmm.pmalloc (withBase dword) = .ok (p, m1)) :
    Handout (withBase dword) p m1 := by
  cases h
  refine ⟨rfl, ?_, rfl, fun _ _ => rfl⟩
  rintro (h | ⟨d, hd, h, heq⟩)
  · cases h
  · rw [(present_withBase hd h).2] at heq
    cases heq

def firstPage : MapCall := ⟨0x400000, 0x5000, 7⟩
/-- The first page gets a page table. -/
theorem exists_first (dword : Nat) : ∃ m', MapStep smallPmm (withBase dword) firstPage m' := by
  have hbelow : BelowTables (0x400000 / 4096) := by
    unfold BelowTables
    omega
  have hpm : smallPmm.pmalloc (withBase dword) = .ok (0x4000, withBase dword) := rfl
  have hunused := (handout_withBase dword _ _ hpm).unused
  obtain ⟨m2, hm2, hnew⟩ := add_table_new hbelow rfl (load_withBase dword) hpm (wf_withBase dword) (.inr rfl) hunused 7
  have hnone : m2.frame? (0x400000 / 4096) = none := by
    rw [frame?_eq_none_iff]
    intro _
    rw [Machine.pte, hnew.empty _ (Nat.mod_lt _ (by decide))]
    decide
  obtain ⟨m', hm'⟩ : ∃ m', map_entry m2 (0x400000 / 4096) 0x5000 7 = .ok (0, m') :=
    map_entry_total hnew.wf hbelow hnew.present hnone
  refine ⟨m', ⟨rfl, fun _ p m1 h => (handout_withBase dword p m1 h).supply, by decide, ?_⟩, wf_withBase dword⟩
  show vmm_map_address smallPmm (withBase dword) 0x400000 0x5000 7 = _
  have ht : (withBase dword).pde (0x400000 / 4096 / 1024) % 2 ≠ 1 := by
    rw [show (withBase dword).pde (0x400000 / 4096 / 1024) = 0 from rfl]
    decide
  rw [vmm_map_address_eq (by decide) (by decide), smap_page_no_table (wf_withBase dword) (linear_of_laddr (by decide)) ht]
  exact bind_eq_ok.mpr ⟨m2, hm2, hm'⟩

end Condor.Vmm
