import Condor.Pmm.Unmap
import Condor.Vmm.Mapping

/-!
# Unmapping and freeing the frame

`vmm_unmap_address` gives the frame to `pfree`. Below 16 MiB that changes
bitmaps only; from there on the frame goes to the frame stack, which may map it
at its two windows (`Kept` is what a push leaves as it is).
-/

namespace Condor.Vmm

open Lib

variable {π : Type} {pmm : PmmCalls π} {m m' : Machine π} {laddr paddr flags page r f : Nat}

/-- A frame below 16 MiB: only bitmaps change. -/
theorem pfree_low {s : Pmm.State (Machine π)} (h : f < 0x1000) :
    ∃ s', Pmm.pfree (paging pmm) s (f * 4096) 1 = .ok s' ∧ s'.space = s.space := by
  unfold Pmm.pfree Pmm.POISON_NULL
  rw [if_neg (by omega), if_neg (by omega), if_neg (by omega)]
  split
  · exact ⟨s, rfl, rfl⟩
  · exact ⟨_, rfl, rfl⟩

theorem vmm_unmap_address_low {s : Pmm.State (Machine π)} (hw : s.space.WF)
    (hp : BelowTables (laddr / 4096)) (hf : s.space.frame? (laddr / 4096) = some f) (h : f < 0x1000) :
    ∃ s', Pmm.vmm_unmap_address (paging pmm) s laddr = .ok s' ∧
      Maps s.space s'.space (laddr / 4096) none := by
  obtain ⟨m', hm', hmaps, -, -⟩ := sumap_page_spec hw hp
  rw [hf] at hm'
  have hfree : ∃ s', Pmm.pfree (paging pmm) { s with space := m' } (f * 4096) 1 = .ok s' ∧
      s'.space = m' := pfree_low h
  obtain ⟨s', hs', hspace⟩ := hfree
  refine ⟨s', ?_, by rw [hspace]; exact hmaps⟩
  unfold Pmm.vmm_unmap_address
  show (sumap_page s.space laddr >>= fun r => Pmm.pfree (paging pmm) { s with space := r.2 } r.1 1) = _
  rw [hm']
  exact hs'

/-! ## A frame that goes to the frame stack -/

/-- A page of the frame stack's windows. -/
def Window (page : Nat) : Prop := page = Pmm.STACK32 / 4096 ∨ page = Pmm.STACK64 / 4096

theorem Window.below (h : Window page) : BelowTables page := by
  unfold BelowTables
  rcases h with rfl | rfl
  · decide
  · decide

/-- The windows have a page table, and the pages mapped there are no tables. -/
structure WindowsOk (m : Machine π) : Prop where
  table : m.pde (Pmm.STACK32 / 4096 / 1024) % 2 = 1
  unused : ∀ q g, Window q → m.frame? q = some g → ¬ m.Used g

/-- `m'` differs from `m` in the windows' mappings and in memory that is no table. -/
structure Kept (m m' : Machine π) : Prop where
  wf : m'.WF
  directory : Machine.SameDirectory m m'
  windows : WindowsOk m'
  frame : ∀ q, BelowTables q → ¬ Window q → m'.frame? q = m.frame? q

theorem Kept.refl (hw : m.WF) (h : WindowsOk m) : Kept m m :=
  ⟨hw, ⟨rfl, fun _ => rfl⟩, h, fun _ _ _ => rfl⟩

theorem Kept.trans {m1 : Machine π} (h : Kept m m1) (h1 : Kept m1 m') : Kept m m' :=
  ⟨h1.wf, ⟨h1.directory.cr3.trans h.directory.cr3,
    fun d => (h1.directory.pde d).trans (h.directory.pde d)⟩, h1.windows,
    fun q hq hout => (h1.frame q hq hout).trans (h.frame q hq hout)⟩

theorem kept_store {v : Nat} (hw : m.WF) (hok : WindowsOk m) (hq : Window (laddr / 4096))
    (h : m.store laddr v = .ok m') : Kept m m' := by
  unfold Machine.store at h
  split at h
  case h_2 => cases h
  case h_1 g hg =>
    cases h
    have hg := hok.unused _ g hq hg
    have hsame := Machine.sameDirectory_setWord (k := laddr % 4096 / 4) (v := v) fun h => hg (.inl h)
    refine ⟨hsame.wf hw, hsame, ⟨by rw [hsame.pde]; exact hok.table, fun q g' hq' hg' => ?_⟩,
      fun q hq' _ => Machine.frame?_setWord_unused hg hq'.slot⟩
    rw [Machine.frame?_setWord_unused hg hq'.below.slot] at hg'
    rw [hsame.used]
    exact hok.unused q g' hq' hg'

theorem kept_map (hw : m.WF) (hok : WindowsOk m) (hq : Window (laddr / 4096)) (hl : laddr ≠ 0xFFFFFFFF)
    (hu : ¬ m.Used (paddr / 4096)) (h : vmm_map_address pmm m laddr paddr flags = .ok (r, m')) :
    Kept m m' := by
  by_cases hp : paddr = 0xFFFFFFFF
  · unfold vmm_map_address at h
    rw [if_pos hp] at h
    cases h
    exact Kept.refl hw hok
  have ht : m.pde (laddr / 4096 / 1024) % 2 = 1 := by
    rcases hq with hq | hq
    · rw [hq]
      exact hok.table
    · rw [hq]
      exact hok.table
  rw [vmm_map_address_eq hl hp, smap_page_eq hw hq.below, if_pos ht] at h
  obtain ⟨hsame, -, ⟨-, rfl, -, -⟩ | ⟨-, -, hmaps⟩⟩ := map_entry_spec hw hq.below ht h
  · exact Kept.refl hw hok
  refine ⟨hmaps.wf, hsame, ⟨by rw [hsame.pde]; exact hok.table, fun q g hq' hg => ?_⟩,
    fun q hq' hout => hmaps.other q hq' fun heq => hout (heq ▸ hq)⟩
  rw [hsame.used]
  by_cases heq : q = laddr / 4096
  · rw [heq, hmaps.self] at hg
    split at hg
    · rw [← Option.some.inj hg]
      exact hu
    · cases hg
  · rw [hmaps.other q hq'.below heq] at hg
    exact hok.unused q g hq' hg

theorem kept_memset (hw : m.WF) (hok : WindowsOk m) {base : Nat} (hb : base % 4096 = 0)
    (hq : Window (base / 4096)) (h : (paging pmm).memset m base = .ok m') : Kept m m' := by
  refine forUp_keeps (P := Kept m) (Kept.refl hw hok) (fun i t t' _ hi ht hs => ?_) h
  have hpage : (base + 4 * i) / 4096 = base / 4096 := by omega
  exact ht.trans (kept_store ht.wf ht.windows (by rw [hpage]; exact hq) hs)

theorem kept_map_stack_page {addr : Nat} (hw : m.WF) (hok : WindowsOk m) {base : Nat}
    (hb : base % 4096 = 0) (hq : Window (base / 4096)) (hu : ¬ m.Used (addr / 4096))
    (h : Pmm.map_stack_page (paging pmm) m base addr flags = .ok m') : Kept m m' := by
  unfold Pmm.map_stack_page at h
  obtain ⟨⟨r, m1⟩, h1, h⟩ := bind_eq_ok.mp h
  have hk := kept_map hw hok hq (by omega) hu h1
  exact hk.trans (kept_memset hk.wf hk.windows hb hq h)

/-- The slot of the frame stack that an index names lies in the window of `stack32`. -/
theorem window_freeAddrs {i : Int} (h1 : -1 ≤ i) (h2 : i < 1023) : Window (Pmm.freeAddrs i / 4096) := by
  left
  unfold Pmm.freeAddrs Pmm.STACK32 Pmm.PMM_BASE
  omega

/-- A push changes the windows' mappings, and memory that is no table. -/
theorem kept_stack_push {s s' : Pmm.State (Machine π)} {addr : Nat} (hw : s.space.WF)
    (hok : WindowsOk s.space) (hlo : -1 ≤ s.stack32_index) (hhi : s.stack32_index ≤ 1023)
    (hu : ¬ s.space.Used (addr / 4096)) (h : Pmm.stack_push (paging pmm) s addr = .ok s') :
    Kept s.space s'.space := by
  have h32 : Window (Pmm.STACK32 / 4096) := .inl rfl
  have h64 : Window (Pmm.STACK64 / 4096) := .inr rfl
  cases Pmm.stack_push_cases h with
  | window hpage hm =>
    obtain rfl | rfl := hpage
    · exact kept_map_stack_page hw hok (by decide) h32 hu hm
    · exact kept_map_stack_page hw hok (by decide) h64 hu hm
  | page hm hm' =>
    have hk := kept_map_stack_page hw hok (by decide) h32 hu hm
    exact hk.trans (kept_store hk.wf hk.windows h32 hm')
  | slot hne hm => exact kept_store hw hok (window_freeAddrs hlo (by omega)) hm

/-- A frame from 16 MiB on: pages other than the one unmapped and the windows stay as they are. -/
theorem vmm_unmap_address_high {s s' : Pmm.State (Machine π)} (hw : s.space.WF)
    (hp : BelowTables (laddr / 4096)) (hf : s.space.frame? (laddr / 4096) = some f) (hge : 0x1000 ≤ f)
    (hok : WindowsOk s.space) (hu : ¬ s.space.Used f) (hlo : -1 ≤ s.stack32_index)
    (hhi : s.stack32_index ≤ 1023) (h : Pmm.vmm_unmap_address (paging pmm) s laddr = .ok s') :
    (∀ q, BelowTables q → q ≠ laddr / 4096 → ¬ Window q → s'.space.frame? q = s.space.frame? q) ∧
      (¬ Window (laddr / 4096) → s'.space.frame? (laddr / 4096) = none) := by
  obtain ⟨m, hm, hmaps, hsame, -⟩ := sumap_page_spec hw hp
  rw [hf] at hm
  unfold Pmm.vmm_unmap_address at h
  change (sumap_page s.space laddr >>= fun r =>
    Pmm.pfree (paging pmm) { s with space := r.2 } r.1 1) = _ at h
  rw [hm] at h
  change Pmm.pfree (paging pmm) { s with space := m } (f * 4096) 1 = _ at h
  have hokm : WindowsOk m := by
    refine ⟨by rw [hsame.pde]; exact hok.table, fun q g hq hg => ?_⟩
    rw [hsame.used]
    by_cases heq : q = laddr / 4096
    · rw [heq, hmaps.self] at hg
      cases hg
    · rw [hmaps.other q hq.below heq] at hg
      exact hok.unused q g hq hg
  have hk : Kept m s'.space := by
    unfold Pmm.pfree Pmm.POISON_NULL at h
    rw [if_neg (by omega)] at h
    split at h
    · cases h
    rw [if_pos ⟨by omega, rfl⟩] at h
    refine kept_stack_push (s := { s with space := m }) hmaps.wf hokm hlo hhi ?_ h
    show ¬ m.Used (f * 4096 / 4096)
    rw [Nat.mul_div_cancel f (by decide), hsame.used]
    exact hu
  exact ⟨fun q hq hne hout => (hk.frame q hq hout).trans (hmaps.other q hq hne),
    fun hout => (hk.frame _ hp hout).trans hmaps.self⟩

/-! ## Map, then unmap -/

/-- What `vmm_unmap_address` does to a page mapped to frame `f`. Below 16 MiB it unmaps that page and
no other. From there on the frame stack may map the frame at its windows; other pages stay as they
are if neither the frame nor those at the windows are tables and the stack's index is in its page. -/
structure Unmaps (pmm : PmmCalls π) (s : Pmm.State (Machine π)) (laddr f : Nat) : Prop where
  low : f < 0x1000 → ∃ s', Pmm.vmm_unmap_address (paging pmm) s laddr = .ok s' ∧
    s'.space.frame? (laddr / 4096) = none ∧
    ∀ q, BelowTables q → q ≠ laddr / 4096 → s'.space.frame? q = s.space.frame? q
  high : 0x1000 ≤ f → WindowsOk s.space → ¬ s.space.Used f → -1 ≤ s.stack32_index →
    s.stack32_index ≤ 1023 → ∀ s', Pmm.vmm_unmap_address (paging pmm) s laddr = .ok s' →
    (∀ q, BelowTables q → q ≠ laddr / 4096 → ¬ Window q → s'.space.frame? q = s.space.frame? q) ∧
      (¬ Window (laddr / 4096) → s'.space.frame? (laddr / 4096) = none)

theorem unmaps_of_frame {s : Pmm.State (Machine π)} (hw : s.space.WF)
    (hp : BelowTables (laddr / 4096)) (hf : s.space.frame? (laddr / 4096) = some f) :
    Unmaps pmm s laddr f where
  low hlow := by
    have hunmap : ∃ s', Pmm.vmm_unmap_address (paging pmm) s laddr = .ok s' ∧
        Maps s.space s'.space (laddr / 4096) none := vmm_unmap_address_low hw hp hf hlow
    obtain ⟨s', hs', hmaps⟩ := hunmap
    exact ⟨s', hs', hmaps.self, hmaps.other⟩
  high hge hok hu hlo hhi _ h := vmm_unmap_address_high hw hp hf hge hok hu hlo hhi h

/-- **Mapping and unmapping a page.** Below the page tables, with `pmalloc` handing out a frame that
is no table where a table is missing: `vmm_map_address` answers 0 and maps the page, or answers 1 and
changes nothing; it changes no other page, and the page can be unmapped. -/
theorem vmm_map_unmap (hw : m.WF) (hin : pmm.pmm_isInited m = true)
    (hpm : m.pde (laddr / 4096 / 1024) % 2 ≠ 1 →
      ∀ p m', pmm.pmalloc m = .ok (p, m') → Handout m p m') (halign : laddr % 4096 = 0)
    (hl : laddr < PAGE_TABLE_BASE) (hp : paddr < 0x1000000) (hflags : flags % 2 = 1)
    (h : vmm_map_address pmm m laddr paddr flags = .ok (r, m')) :
    (r = 0 ∧ (∀ off < 4096,
        vmm_get_physical_addr m' (laddr + off) = .ok (paddr / 4096 * 4096 + off)) ∨
      r = 1 ∧ m' = m) ∧
    (∀ q, BelowTables q → q ≠ laddr / 4096 → m'.frame? q = m.frame? q) ∧
    ∃ f, m'.frame? (laddr / 4096) = some f ∧ (r = 0 → f < 0x1000) ∧
      ∀ s, s.space = m' → Unmaps pmm s laddr f := by
  have hb : BelowTables (laddr / 4096) := by
    unfold BelowTables PAGE_TABLE_BASE at *
    omega
  have hladdr : laddr ≠ 0xFFFFFFFF := by
    unfold PAGE_TABLE_BASE at hl
    omega
  rw [vmm_map_address_eq hladdr (by omega)] at h
  rcases smap_page_spec hw hb hin hpm h with ⟨rfl, rfl, hf⟩ | ⟨rfl, hmaps⟩
  · obtain ⟨f, hf⟩ := Option.ne_none_iff_exists'.mp hf
    refine ⟨.inr ⟨rfl, rfl⟩, fun _ _ _ => rfl, f, hf, fun h0 => absurd h0 (by decide), ?_⟩
    rintro s rfl
    exact unmaps_of_frame hw hb hf
  · have hself : m'.frame? (laddr / 4096) = some (paddr / 4096) := by
      rw [hmaps.self, if_pos (by omega)]
    refine ⟨.inl ⟨rfl, fun off hoff => ?_⟩, hmaps.other, _, hself, fun _ => by omega, ?_⟩
    · have hpage : (laddr + off) / 4096 = laddr / 4096 := by omega
      have hoff' : (laddr + off) % 4096 = off := by omega
      rw [vmm_get_physical_addr_eq hmaps.wf (by rw [hpage]; exact hb), hpage, hoff', hself]
    · rintro s rfl
      exact unmaps_of_frame hmaps.wf hb hself

/-! ## A small machine -/

/-- Filling a page that is mapped to no table. -/
theorem memset_total {base g : Nat} (hb : base % 4096 = 0) (hp : BelowTables (base / 4096))
    (hf : m.frame? (base / 4096) = some g) (hu : ¬ m.Used g) :
    ∃ m', (paging pmm).memset m base = .ok m' ∧ m'.frame? (base / 4096) = some g := by
  let I (_ : Nat) (t : Machine π) : Prop :=
    Machine.SameDirectory m t ∧ t.frame? (base / 4096) = some g
  have hloop : ∃ m', (paging pmm).memset m base = .ok m' ∧ I 1024 m' := by
    refine forUp_total (I := I) (Nat.zero_le _) ⟨⟨rfl, fun _ => rfl⟩, hf⟩ fun i t _ hi ht => ?_
    obtain ⟨hsame, ht⟩ := ht
    have hpage : (base + 4 * i) / 4096 = base / 4096 := by omega
    have hut : ¬ t.Used g := by rwa [hsame.used]
    have hset := Machine.sameDirectory_setWord (k := (base + 4 * i) % 4096 / 4) (v := 0xFFFFFFFF)
      fun h => hut (.inl h)
    refine ⟨_, Machine.store_of_frame (by rw [hpage]; exact ht) _, ⟨hset.cr3.trans hsame.cr3,
      fun d => (hset.pde d).trans (hsame.pde d)⟩, ?_⟩
    rw [Machine.frame?_setWord_unused hut hp.slot, ht]
  obtain ⟨m', hm', -, hf'⟩ := hloop
  exact ⟨m', hm', hf'⟩

/-- The directory in frame 1, a table for the windows in frame 2, and a table that maps page 1 to the
frame at 16 MiB in frame 3. -/
def smallMachine : Machine Unit where
  cr3 := 1
  mem f k :=
    if f = 1 then if k = 1023 then 0x1003 else if k = 800 then 0x2003 else if k = 0 then 0x3003 else 0
    else if f = 3 ∧ k = 1 then 0x1000003 else 0
  pmm := ()

/-- A physical memory manager that hands out frame 4. -/
def smallPmm : PmmCalls Unit where
  pmm_isInited _ := true
  pmalloc m := .ok (0x4000, m)
  pfree m _ _ := .ok m

theorem pde_smallMachine (d : Nat) : smallMachine.pde d =
    if d = 1023 then 0x1003 else if d = 800 then 0x2003 else if d = 0 then 0x3003 else 0 := rfl

theorem present_smallMachine {d : Nat} (hd : d < 1023) (h : smallMachine.pde d % 2 = 1) :
    d = 800 ∧ smallMachine.pde d / 4096 = 2 ∨ d = 0 ∧ smallMachine.pde d / 4096 = 3 := by
  rw [pde_smallMachine] at h ⊢
  split at h
  · omega
  split at h
  case isTrue h8 => exact .inl ⟨h8, by subst h8; rfl⟩
  split at h
  case isTrue h0 => exact .inr ⟨h0, by subst h0; rfl⟩
  cases h

theorem wf_smallMachine : smallMachine.WF where
  self := rfl
  self_frame := rfl
  table_ne d hd h heq := by
    rcases present_smallMachine hd h with ⟨-, hf⟩ | ⟨-, hf⟩
    all_goals
      rw [hf] at heq
      cases heq
  distinct d hd e he hd1 he1 heq := by
    have h1 := present_smallMachine hd hd1
    have h2 := present_smallMachine he he1
    omega

theorem used_smallMachine {f : Nat} (h : smallMachine.Used f) : f < 4 := by
  rcases h with rfl | ⟨d, hd, h, rfl⟩
  · decide
  · rcases present_smallMachine hd h with ⟨-, hf⟩ | ⟨-, hf⟩
    · rw [hf]
      decide
    · rw [hf]
      decide

theorem handout_smallPmm : ∀ p m', smallPmm.pmalloc smallMachine = .ok (p, m') →
    Handout smallMachine p m' := by
  rintro p m' h
  cases h
  exact ⟨rfl, fun h => absurd (used_smallMachine h) (by decide), rfl, fun _ _ => rfl⟩

/-- Page 2 is mapped to frame 5. -/
theorem vmm_map_unmap_page2 : ∃ m', vmm_map_address smallPmm smallMachine 0x2000 0x5000 3 = .ok (0, m') ∧
    vmm_get_physical_addr m' (0x2000 + 0xABC) = .ok (0x5000 / 4096 * 4096 + 0xABC) := by
  have hok : vmm_map_address smallPmm smallMachine 0x2000 0x5000 3 = .ok (0, _) := rfl
  obtain ⟨⟨-, hget⟩ | ⟨h, -⟩, -, -⟩ := vmm_map_unmap wf_smallMachine rfl (fun _ => handout_smallPmm) rfl
    (by decide) (by decide) rfl hok
  · exact ⟨_, hok, hget 0xABC (by decide)⟩
  · cases h

/-- Page 1 is mapped already, to the frame at 16 MiB. Unmapping it maps that frame at `stack32`. -/
theorem unmap_maps_stack_window : ∃ s s' : Pmm.State (Machine Unit),
    vmm_map_address smallPmm smallMachine 0x1000 0x5000 3 = .ok (1, s.space) ∧
      Pmm.vmm_unmap_address (paging smallPmm) s 0x1000 = .ok s' ∧
      BelowTables (Pmm.STACK32 / 4096) ∧ Pmm.STACK32 / 4096 ≠ 0x1000 / 4096 ∧
      s.space.frame? (Pmm.STACK32 / 4096) = none ∧
      s'.space.frame? (Pmm.STACK32 / 4096) = some 0x1000 := by
  let s : Pmm.State (Machine Unit) := ⟨fun _ => 0, 0, true, smallMachine⟩
  have hb : BelowTables (Pmm.STACK32 / 4096) := Window.below (.inl rfl)
  have hb1 : BelowTables (0x1000 / 4096) := by
    unfold BelowTables
    decide
  obtain ⟨m1, hm1, hmaps, hsame, -⟩ := sumap_page_spec wf_smallMachine hb1
  have hsmall : smallMachine.frame? (Pmm.STACK32 / 4096) = none := by decide
  have hnone : m1.frame? (Pmm.STACK32 / 4096) = none := (hmaps.other _ hb (by decide)).trans hsmall
  have hget : (paging smallPmm).vmm_get_physical_addr m1 Pmm.STACK32 = .ok 0 :=
    (vmm_get_physical_addr_eq hmaps.wf hb).trans (by rw [hnone])
  have ht : m1.pde (Pmm.STACK32 / 4096 / 1024) % 2 = 1 := by rw [hsame.pde]; rfl
  have hentry : ∃ m', map_entry m1 (Pmm.STACK32 / 4096) 0x1000000 3 = .ok (0, m') :=
    map_entry_total hmaps.wf hb ht hnone
  obtain ⟨m2, hm2⟩ := hentry
  obtain ⟨hsame2, -, ⟨h, -⟩ | ⟨-, -, hmaps2⟩⟩ := map_entry_spec hmaps.wf hb ht hm2
  · cases h
  have hu : ¬ m2.Used 0x1000 := by
    rw [hsame2.used, hsame.used]
    exact fun h => absurd (used_smallMachine h) (by decide)
  have hfill : ∃ m', (paging smallPmm).memset m2 Pmm.STACK32 = .ok m' ∧
      m'.frame? (Pmm.STACK32 / 4096) = some 0x1000 := memset_total (by decide) hb hmaps2.self hu
  obtain ⟨m3, hm3, hf3⟩ := hfill
  have hmap : vmm_map_address smallPmm m1 Pmm.STACK32 0x1000000 3 = .ok (0, m2) :=
    (vmm_map_address_eq (by decide) (by decide)).trans
    (((smap_page_eq hmaps.wf hb).trans (if_pos ht)).trans hm2)
  have hpage : Pmm.map_stack_page (paging smallPmm) m1 Pmm.STACK32 0x1000000 3 = .ok m3 :=
    bind_eq_ok.mpr ⟨_, hmap, hm3⟩
  have hpush : Pmm.stack_push (paging smallPmm) { s with space := m1 } 0x1000000 =
      .ok { s with space := m3 } :=
    bind_eq_ok.mpr ⟨0, hget, bind_eq_ok.mpr ⟨m3, hpage, rfl⟩⟩
  have hunmap : Pmm.vmm_unmap_address (paging smallPmm) s 0x1000 = .ok { s with space := m3 } :=
    bind_eq_ok.mpr ⟨_, hm1, hpush⟩
  exact ⟨s, _, rfl, hunmap, hb, by decide, hsmall, hf3⟩

end Condor.Vmm
