import Condor.Vmm.PageTable

/-!
# Mapping and unmapping a page

`Maps m m' page o` says that `m'` maps `page` to `o` and every other page below
the window as `m` does. It is what `sumap_page` does always (`sumap_page_spec`),
and `smap_page` when it answers 0 (`smap_page_spec`), also when it has to create
a page table first (`add_table_spec`): the new table's frame is nobody's table,
and the window through which it is zeroed is its own.
-/

namespace Condor.Vmm

open Lib

variable {π : Type} {pmm : PmmCalls π} {m m' : Machine π} {laddr paddr flags page r f : Nat}

/-- The page has a linear address below the window of the page tables. -/
def BelowTables (page : Nat) : Prop := page < 0xFFC00

theorem BelowTables.slot (h : BelowTables page) : page / 1024 < 1023 := by
  unfold BelowTables at h
  omega

/-- `m'` maps `page` to `o`, and every other page as `m`. -/
structure Maps (m m' : Machine π) (page : Nat) (o : Option Nat) : Prop where
  wf : m'.WF
  self : m'.frame? page = o
  other : ∀ q, BelowTables q → q ≠ page → m'.frame? q = m.frame? q

/-- What `pmalloc` answers when it has no frame. -/
def NO_FRAME : Nat := 0xFFFFFFFF

/-- What `pmalloc` is relied on for: an aligned frame that is neither directory nor page table, which
are left as they are. -/
structure Handout (m : Machine π) (p : Nat) (m' : Machine π) : Prop where
  aligned : p % 4096 = 0
  unused : ¬ m.Used (p / 4096)
  cr3 : m'.cr3 = m.cr3
  tables : ∀ f, m.Used f → m'.mem f = m.mem f

/-- Writing an entry to the page table of `page`. -/
theorem maps_setWord (hw : m.WF) (hp : BelowTables page) (h : m.pde (page / 1024) % 2 = 1) (v : Nat) :
    Maps m (m.setWord (m.pde (page / 1024) / 4096) (page % 1024) v) page
      (if v % 2 = 1 then some (v / 4096) else none) where
  wf := (Machine.sameDirectory_setWord (hw.table_ne _ hp.slot h)).wf hw
  self := hw.frame?_setWord_self hp.slot h
  other _ hq hne := hw.frame?_setWord_ne hp.slot h hq.slot hne

theorem Maps.trans_same {m1 : Machine π} {o : Option Nat} (h : Maps m1 m' page o)
    (hsame : ∀ q, BelowTables q → m1.frame? q = m.frame? q) : Maps m m' page o :=
  ⟨h.wf, h.self, fun q hq hne => (h.other q hq hne).trans (hsame q hq)⟩

/-! ## Indices and entries -/

theorem pd_index (laddr : Nat) : laddr >>> (BLOCK_BITS + 10) = laddr / 4096 / 1024 := by
  rw [show BLOCK_BITS + 10 = 22 by rfl, Nat.shiftRight_eq_div_pow]
  omega

theorem pt_index (laddr : Nat) : laddr >>> BLOCK_BITS = laddr / 4096 := Nat.shiftRight_eq_div_pow laddr 12

theorem present_iff {entry : Nat} : present entry = true ↔ entry % 2 = 1 := decide_eq_true_iff

theorem not_present_iff {entry : Nat} : (!present entry) = true ↔ ¬ entry % 2 = 1 := by
  rw [Bool.not_eq_true', ← Bool.not_eq_true, present_iff]

/-- Setting flag bits of an aligned address. -/
theorem or_flags {p c : Nat} (hp : p % 4096 = 0) (hc : c < 4096) : p ||| c = p + c := by
  obtain ⟨k, rfl⟩ := Nat.dvd_of_mod_eq_zero hp
  rw [Nat.mul_comm 4096 k, show k * 4096 = k <<< 12 from (Nat.shiftLeft_eq k 12).symm,
    Nat.shiftLeft_add_eq_or_of_lt (i := 12) hc]

/-! ## Lookups and unmapping -/

theorem vmm_get_physical_addr_eq (hw : m.WF) (hp : BelowTables (laddr / 4096)) :
    vmm_get_physical_addr m laddr = .ok (match m.frame? (laddr / 4096) with
      | some f => f * 4096 + laddr % 4096
      | none => 0) := by
  have hd := hp.slot
  unfold vmm_get_physical_addr
  simp only [pd_index, pt_index]
  rw [hw.load_directory (by omega)]
  by_cases h : m.pde (laddr / 4096 / 1024) % 2 = 1
  · rw [Machine.frame?_of_table h]
    show (if (!present _) = true then _ else _) = _
    rw [if_neg (by rw [not_present_iff, not_not]; exact h), hw.load_table hd h]
    show (if (!present _) = true then _ else _) = _
    split
    case isTrue h' => rw [if_neg (not_present_iff.mp h')]
    case isFalse h' =>
      rw [not_present_iff, not_not] at h'
      rw [if_pos h']
  · rw [Machine.frame?_of_no_table h]
    show (if (!present _) = true then _ else _) = _
    rw [if_pos (not_present_iff.mpr h)]

theorem sumap_page_spec (hw : m.WF) (hp : BelowTables (laddr / 4096)) :
    ∃ m', sumap_page m laddr =
        .ok ((match m.frame? (laddr / 4096) with | some f => f * 4096 | none => 0), m') ∧
      Maps m m' (laddr / 4096) none ∧ Machine.SameDirectory m m' ∧
      ∀ f, ¬ m.Used f → m'.mem f = m.mem f := by
  have hd := hp.slot
  have hsame (hnone : m.frame? (laddr / 4096) = none) : Maps m m (laddr / 4096) none :=
    ⟨hw, hnone, fun _ _ _ => rfl⟩
  unfold sumap_page
  simp only [pd_index, pt_index]
  rw [hw.load_directory (by omega)]
  by_cases h : m.pde (laddr / 4096 / 1024) % 2 = 1
  · rw [Machine.frame?_of_table h]
    show ∃ m', (if (!present _) = true then _ else _) = _ ∧ _
    rw [if_neg (by rw [not_present_iff, not_not]; exact h), hw.load_table hd h]
    show ∃ m', (if (!present _) = true then _ else _) = _ ∧ _
    split
    case isTrue h' =>
      rw [if_neg (not_present_iff.mp h')]
      have hnone := (Machine.frame?_of_table h).trans (if_neg (not_present_iff.mp h'))
      exact ⟨m, rfl, hsame hnone, ⟨rfl, fun _ => rfl⟩, fun _ _ => rfl⟩
    case isFalse h' =>
      rw [not_present_iff, not_not] at h'
      rw [if_pos h', hw.store_table hd h]
      refine ⟨_, rfl, maps_setWord hw hp h 0, Machine.sameDirectory_setWord (hw.table_ne _ hd h),
        fun f hf => Machine.setWord_mem_ne fun heq => hf ?_⟩
      exact .inr ⟨_, hd, h, heq.symm⟩
  · have hnone := Machine.frame?_of_no_table h
    rw [hnone]
    show ∃ m', (if (!present _) = true then _ else _) = _ ∧ _
    rw [if_pos (not_present_iff.mpr h)]
    exact ⟨m, rfl, hsame hnone, ⟨rfl, fun _ => rfl⟩, fun _ _ => rfl⟩

/-! ## Creating a page table -/

/-- `m'` has the directory of `m` with entry `d` set to `e`, whose frame is a table without entries;
all frames but these two are as in `m`. -/
structure Added (m m' : Machine π) (d e : Nat) : Prop where
  cr3 : m'.cr3 = m.cr3
  pde : ∀ i, m'.pde i = if i = d then e else m.pde i
  zero : ∀ k < 1024, m'.mem (e / 4096) k = 0
  mem : ∀ f, f ≠ m.cr3 → f ≠ e / 4096 → m'.mem f = m.mem f

/-- With entry `e` in slot `d`, no frame is a table twice, nor the directory a table. -/
def Machine.Apart (m : Machine π) (d e : Nat) : Prop :=
  e % 2 = 1 → e / 4096 ≠ m.cr3 ∧ ∀ i < 1023, i ≠ d → m.pde i % 2 = 1 → m.pde i / 4096 ≠ e / 4096

theorem Machine.apart_of_unused {d e : Nat} (hu : ¬ m.Used (e / 4096)) : m.Apart d e :=
  fun _ => ⟨fun heq => hu (.inl heq), fun i hi _ hi1 heq => hu (.inr ⟨i, hi, hi1, heq⟩)⟩

/-- An entry that leaves the tables apart keeps the directory self-mapped. -/
theorem wf_setEntry {d e : Nat} (hw : m.WF) (hd : d < 1023) (hu : m.Apart d e)
    (hcr3 : m'.cr3 = m.cr3) (hpde : ∀ i, m'.pde i = if i = d then e else m.pde i) : m'.WF := by
  have hself : m'.pde 1023 = m.pde 1023 := by rw [hpde, if_neg (by omega)]
  refine ⟨hself ▸ hw.self, ?_, fun i hi => ?_, fun i hi j hj => ?_⟩
  · rw [hself, hcr3]
    exact hw.self_frame
  · rw [hpde, hcr3]
    split
    · exact fun he => (hu he).1
    · exact hw.table_ne i hi
  · rw [hpde, hpde]
    split
    case isTrue h1 =>
      split
      · exact fun _ _ _ => by omega
      case isFalse h2 => exact fun he hj1 heq => absurd heq.symm ((hu he).2 j hj h2 hj1)
    case isFalse h1 =>
      split
      · exact fun hi1 he heq => absurd heq ((hu he).2 i hi h1 hi1)
      · exact hw.distinct i hi j hj

theorem Added.frame? {d e : Nat} (h : Added m m' d e) (hw : m.WF) (hd : m.pde d % 2 ≠ 1)
    (hu : ¬ m.Used (e / 4096)) {q : Nat} (hq : BelowTables q) : m'.frame? q = m.frame? q := by
  by_cases hqd : q / 1024 = d
  · -- all of the new table's pages are unmapped, as they were without a table
    have hnone : m.frame? q = none := Machine.frame?_of_no_table (by rw [hqd]; exact hd)
    have hpde : m'.pde (q / 1024) = e := by rw [h.pde, if_pos hqd]
    rw [hnone]
    by_cases he : e % 2 = 1
    · rw [Machine.frame?_of_table (by rw [hpde]; exact he), hpde,
        h.zero (q % 1024) (Nat.mod_lt q (by decide))]
      rfl
    · exact Machine.frame?_of_no_table (by rw [hpde]; exact he)
  · have hpde : m'.pde (q / 1024) = m.pde (q / 1024) := by rw [h.pde, if_neg hqd]
    refine Machine.frame?_congr hpde fun hp => ?_
    rw [h.mem _ (hw.table_ne _ hq.slot hp) fun heq => hu (.inr ⟨_, hq.slot, hp, heq⟩)]

/-- Zeroing the table of slot `d` through its window. -/
theorem clear_table_spec {d : Nat} (hw : m.WF) (hd : d < 1023) (h : m.pde d % 2 = 1) :
    ∃ m', clear_table m ((0xFFC00 + d) * 4096) = .ok m' ∧ Machine.SameDirectory m m' ∧
      (∀ k < 1024, m'.mem (m.pde d / 4096) k = 0) ∧
      ∀ f, f ≠ m.pde d / 4096 → m'.mem f = m.mem f := by
  have hne := hw.table_ne d hd h
  let I (i : Nat) (t : Machine π) : Prop := Machine.SameDirectory m t ∧
    (∀ k < i, t.mem (m.pde d / 4096) k = 0) ∧ ∀ f, f ≠ m.pde d / 4096 → t.mem f = m.mem f
  have h0 : I 0 m := ⟨⟨rfl, fun _ => rfl⟩, fun k hk => absurd hk (Nat.not_lt_zero k), fun _ _ => rfl⟩
  refine forUp_total (I := I) (Nat.zero_le 1024) h0 fun i t _ hi ⟨hsame, hzero, hmem⟩ => ?_
  have hwin : t.frame? (((0xFFC00 + d) * 4096 + 4 * i) / 4096) = some (m.pde d / 4096) := by
    rw [show ((0xFFC00 + d) * 4096 + 4 * i) / 4096 = 0xFFC00 + d by omega, ← hsame.pde d]
    exact (hsame.wf hw).frame?_window hd (by rw [hsame.pde]; exact h)
  have hword : ((0xFFC00 + d) * 4096 + 4 * i) % 4096 / 4 = i := by omega
  have hdir : m.pde d / 4096 ≠ t.cr3 := by rw [hsame.cr3]; exact hne
  have hset : Machine.SameDirectory t (t.setWord (m.pde d / 4096) i 0) :=
    Machine.sameDirectory_setWord hdir
  refine ⟨_, by rw [Machine.store_of_frame hwin, hword], ⟨hset.cr3.trans hsame.cr3,
    fun j => (hset.pde j).trans (hsame.pde j)⟩, fun k hk => ?_, fun f hf => ?_⟩
  · rw [Machine.setWord_mem_self]
    by_cases hki : k = i
    · rw [hki, Function.update_self]
    · rw [Function.update_of_ne hki, hzero k (by omega)]
  · rw [Machine.setWord_mem_ne hf, hmem f hf]

/-- Storing entry `e` and zeroing its table. -/
theorem added_spec {d e : Nat} (hw : m.WF) (hd : d < 1023) (he : e % 2 = 1)
    (hu : ¬ m.Used (e / 4096)) :
    ∃ m', (do
        let m ← m.store (PAGE_DIRECTORY + 4 * d) e
        clear_table m ((0xFFC00 + d) * 4096)) = .ok m' ∧ Added m m' d e := by
  have hpde : ∀ i, (m.setWord m.cr3 d e).pde i = if i = d then e else m.pde i := fun i => by
    show (m.setWord m.cr3 d e).mem m.cr3 i = _
    rw [Machine.setWord_mem_self, Function.update_apply]
    rfl
  have hself : (m.setWord m.cr3 d e).pde d = e := by rw [hpde, if_pos rfl]
  have hw' : (m.setWord m.cr3 d e).WF := wf_setEntry hw hd (Machine.apart_of_unused hu) rfl hpde
  obtain ⟨m', hm', hsame, hzero, hmem⟩ := clear_table_spec hw' hd (by rw [hself]; exact he)
  rw [hself] at hzero hmem
  rw [hw.store_directory (by omega)]
  refine ⟨m', hm', hsame.cr3, fun i => (hsame.pde i).trans (hpde i), hzero, fun f hf hfe => ?_⟩
  rw [hmem f hfe, Machine.setWord_mem_ne hf]

/-- `m'` has a page table for `page` and maps all pages as `m` does. -/
structure WithTable (m m' : Machine π) (page : Nat) : Prop where
  wf : m'.WF
  table : m'.pde (page / 1024) % 2 = 1
  same : ∀ q, BelowTables q → m'.frame? q = m.frame? q

theorem Handout.sameDirectory {p : Nat} (h : Handout m p m') : Machine.SameDirectory m m' := by
  refine ⟨h.cr3, fun d => ?_⟩
  show m'.mem m'.cr3 d = m.mem m.cr3 d
  rw [h.cr3, h.tables _ (.inl rfl)]

/-- The entry for a new page table, for a frame and for the answer of a `pmalloc` that failed. -/
theorem or_table_flags {q c : Nat} (hq : q = NO_FRAME ∨ q % 4096 = 0) (hc : c = 0x003 ∨ c = 0x007) :
    (q ||| c) % 2 = 1 ∧ (q ||| c) / 2 % 2 = 1 ∧ (q ||| c) / 4096 = q / 4096 := by
  obtain rfl | hq := hq
  · obtain rfl | rfl := hc <;> decide
  · rw [or_flags hq (by omega)]
    omega

/-- What `pmalloc` leaves as it is: the directory, and its answer is a failure or an aligned frame that is
no table. The last frame of memory is no table either. -/
structure Supply (m : Machine π) (p : Nat) (m' : Machine π) : Prop where
  directory : Machine.SameDirectory m m'
  frame : p = NO_FRAME ∨ p % 4096 = 0
  unused : ¬ m.Used (p / 4096)

theorem Handout.supply {p : Nat} (h : Handout m p m') : Supply m p m' :=
  ⟨h.sameDirectory, .inr h.aligned, h.unused⟩

theorem Handout.frame? {p : Nat} (h : Handout m p m') {q : Nat} (hq : BelowTables q) :
    m'.frame? q = m.frame? q :=
  Machine.frame?_congr (h.sameDirectory.pde _) fun hp => by
    rw [h.tables _ (.inr ⟨_, hq.slot, hp, rfl⟩)]

/-- The entry for what `pmalloc` answered. -/
theorem table_entry_eq {e : Nat} (hin : pmm.pmm_isInited m = true)
    (h : table_entry pmm m laddr flags = .ok (e, m')) :
    ∃ kvb p, m.load KERNEL_VIRTUAL_BASE = .ok kvb ∧ pmm.pmalloc m = .ok (p, m') ∧
      e = p ||| (if laddr ≥ kvb then 0x003 else 0x007) := by
  unfold table_entry at h
  rw [if_pos hin] at h
  obtain ⟨kvb, hkvb, h⟩ := bind_eq_ok.mp h
  obtain ⟨⟨p, m1⟩, hp, h⟩ := bind_eq_ok.mp h
  cases h
  exact ⟨kvb, p, hkvb, hp, rfl⟩

theorem table_flags_cases (laddr kvb : Nat) : (if laddr ≥ kvb then 0x003 else 0x007) = 0x003 ∨
    (if laddr ≥ kvb then 0x003 else 0x007) = 0x007 := by
  split
  · exact .inl rfl
  · exact .inr rfl

/-- What `add_table` does: `pmalloc`, then the new entry and its table. -/
theorem add_table_supplied (hw : m.WF) (hp : BelowTables (laddr / 4096)) (hin : pmm.pmm_isInited m = true)
    (hpm : ∀ p m', pmm.pmalloc m = .ok (p, m') → Supply m p m')
    (h : add_table pmm m laddr flags = .ok m') :
    ∃ kvb p m0, m.load KERNEL_VIRTUAL_BASE = .ok kvb ∧ pmm.pmalloc m = .ok (p, m0) ∧
      Added m0 m' (laddr / 4096 / 1024) (p ||| (if laddr ≥ kvb then 0x003 else 0x007)) ∧
      m'.WF ∧ m'.pde (laddr / 4096 / 1024) % 2 = 1 := by
  have hd := hp.slot
  unfold add_table at h
  simp only [pd_index, pt_index] at h
  obtain ⟨⟨e, m0⟩, he, h⟩ := bind_eq_ok.mp h
  obtain ⟨kvb, p, hkvb, hp0, rfl⟩ := table_entry_eq hin he
  have hs := hpm p m0 hp0
  obtain ⟨he2, -, hframe⟩ := or_table_flags hs.frame (table_flags_cases laddr kvb)
  have hu : ¬ m0.Used ((p ||| (if laddr ≥ kvb then 0x003 else 0x007)) / 4096) := by
    rw [hframe, hs.directory.used]
    exact hs.unused
  obtain ⟨m1, hm1, hadd⟩ := added_spec (hs.directory.wf hw) hd he2 hu
  have hbase : (PAGE_TABLE_BASE + 4 * (laddr / 4096)) / 4096 * 4096 =
      (0xFFC00 + laddr / 4096 / 1024) * 4096 := by
    rw [Machine.window_page]
  rw [hbase] at h
  obtain rfl : m1 = m' := Except.ok.inj (hm1.symm.trans h)
  have hw' := wf_setEntry (hs.directory.wf hw) hd (Machine.apart_of_unused hu) hadd.cr3 hadd.pde
  refine ⟨kvb, p, m0, hkvb, hp0, hadd, hw', ?_⟩
  rw [hadd.pde, if_pos rfl]
  exact he2

theorem add_table_spec (hw : m.WF) (hp : BelowTables (laddr / 4096))
    (habs : m.pde (laddr / 4096 / 1024) % 2 ≠ 1) (hin : pmm.pmm_isInited m = true)
    (hpm : ∀ p m', pmm.pmalloc m = .ok (p, m') → Handout m p m')
    (h : add_table pmm m laddr flags = .ok m') : WithTable m m' (laddr / 4096) := by
  obtain ⟨kvb, p, m0, -, hp0, hadd, hw', ht⟩ :=
    add_table_supplied hw hp hin (fun p m' h => (hpm p m' h).supply) h
  have hh := hpm p m0 hp0
  obtain ⟨-, -, hframe⟩ := or_table_flags (.inr hh.aligned) (table_flags_cases laddr kvb)
  have hu : ¬ m0.Used ((p ||| (if laddr ≥ kvb then 0x003 else 0x007)) / 4096) := by
    rw [hframe, hh.sameDirectory.used]
    exact hh.unused
  refine ⟨hw', ht, fun q hq => ?_⟩
  rw [hadd.frame? (hh.sameDirectory.wf hw) (by rw [hh.sameDirectory.pde]; exact habs) hu hq, hh.frame? hq]

/-! ## Mapping -/

/-- What `smap_page` does once the page has a table. -/
theorem map_entry_spec (hw : m.WF) (hp : BelowTables page) (h : m.pde (page / 1024) % 2 = 1)
    (he : map_entry m page paddr flags = .ok (r, m')) :
    Machine.SameDirectory m m' ∧ (∀ f, ¬ m.Used f → m'.mem f = m.mem f) ∧
      (r = 1 ∧ m' = m ∧ m.frame? page ≠ none ∧ flags &&& PAGE_REMAP = 0 ∨
        r = 0 ∧ (m.frame? page = none ∨ flags &&& PAGE_REMAP ≠ 0) ∧
          Maps m m' page (if flags % 2 = 1 then some (paddr / 4096) else none)) := by
  have hd := hp.slot
  unfold map_entry at he
  rw [hw.load_table hd h] at he
  change (if present _ = true ∧ _ then _ else _) = _ at he
  have hframe := Machine.frame?_of_table h
  split at he
  case isTrue hc =>
    cases he
    rw [if_pos (present_iff.mp hc.1)] at hframe
    exact ⟨⟨rfl, fun _ => rfl⟩, fun _ _ => rfl, .inl ⟨rfl, rfl, by rw [hframe]; nofun, hc.2⟩⟩
  case isFalse hc =>
    rw [hw.store_table hd h] at he
    cases he
    have hmaps := maps_setWord hw hp h (paddr / 4096 * 4096 + flags % 4096)
    rw [show (paddr / 4096 * 4096 + flags % 4096) % 2 = flags % 2 by omega,
      show (paddr / 4096 * 4096 + flags % 4096) / 4096 = paddr / 4096 by omega] at hmaps
    refine ⟨Machine.sameDirectory_setWord (hw.table_ne _ hd h), fun f hf => ?_,
      .inr ⟨rfl, ?_, hmaps⟩⟩
    · exact Machine.setWord_mem_ne fun heq => hf (.inr ⟨_, hd, h, heq.symm⟩)
    · by_cases hpte : present (m.mem (m.pde (page / 1024) / 4096) (page % 1024)) = true
      · exact .inr fun hr => hc ⟨hpte, hr⟩
      · rw [if_neg fun hp' => hpte (present_iff.mpr hp')] at hframe
        exact .inl hframe

theorem smap_page_eq (hw : m.WF) (hp : BelowTables (laddr / 4096)) :
    smap_page pmm m laddr paddr flags =
      if m.pde (laddr / 4096 / 1024) % 2 = 1 then map_entry m (laddr / 4096) paddr flags
      else add_table pmm m laddr flags >>= fun m => map_entry m (laddr / 4096) paddr flags := by
  unfold smap_page
  simp only [pd_index, pt_index]
  rw [hw.load_directory (by have := hp.slot; omega)]
  show (if (!present _) = true then add_table pmm m laddr flags >>= _ else _) = _
  by_cases h : m.pde (laddr / 4096 / 1024) % 2 = 1
  · rw [if_neg (by rw [not_present_iff, not_not]; exact h), if_pos h]
    rfl
  · rw [if_pos (not_present_iff.mpr h), if_neg h]

/-- **Mapping a page**: either it was mapped and nothing changes, or it is mapped to the frame asked
for and no other page changes. -/
theorem smap_page_spec (hw : m.WF) (hp : BelowTables (laddr / 4096))
    (hin : pmm.pmm_isInited m = true)
    (hpm : m.pde (laddr / 4096 / 1024) % 2 ≠ 1 →
      ∀ p m', pmm.pmalloc m = .ok (p, m') → Handout m p m')
    (h : smap_page pmm m laddr paddr flags = .ok (r, m')) :
    r = 1 ∧ m' = m ∧ m.frame? (laddr / 4096) ≠ none ∨
      r = 0 ∧ Maps m m' (laddr / 4096) (if flags % 2 = 1 then some (paddr / 4096) else none) := by
  by_cases ht : m.pde (laddr / 4096 / 1024) % 2 = 1
  · rw [smap_page_eq hw hp, if_pos ht] at h
    obtain ⟨-, -, ⟨hr, hm, hf, -⟩ | ⟨hr, -, hmaps⟩⟩ := map_entry_spec hw hp ht h
    · exact .inl ⟨hr, hm, hf⟩
    · exact .inr ⟨hr, hmaps⟩
  · rw [smap_page_eq hw hp, if_neg ht] at h
    obtain ⟨m1, hm1, h⟩ := bind_eq_ok.mp h
    have ht1 := add_table_spec hw hp ht hin (hpm ht) hm1
    obtain ⟨-, -, ⟨-, -, hf, -⟩ | ⟨hr, -, hmaps⟩⟩ := map_entry_spec ht1.wf hp ht1.table h
    · -- a new table has no entries
      exact absurd ((ht1.same _ hp).trans (Machine.frame?_of_no_table ht)) hf
    · exact .inr ⟨hr, hmaps.trans_same ht1.same⟩

/-- Mapping a page that has a table and is not mapped succeeds. -/
theorem map_entry_total (hw : m.WF) (hp : BelowTables page) (h : m.pde (page / 1024) % 2 = 1)
    (hf : m.frame? page = none) : ∃ m', map_entry m page paddr flags = .ok (0, m') := by
  have hpte := (Machine.frame?_of_table h).symm.trans hf
  unfold map_entry
  rw [hw.load_table hp.slot h, hw.store_table hp.slot h]
  show ∃ m', (if present _ = true ∧ _ then _ else _) = _
  rw [if_neg fun hc => ?_]
  · exact ⟨_, rfl⟩
  · rw [if_pos (present_iff.mp hc.1)] at hpte
    cases hpte

theorem vmm_map_address_eq (hl : laddr ≠ 0xFFFFFFFF) (hp : paddr ≠ 0xFFFFFFFF) :
    vmm_map_address pmm m laddr paddr flags = smap_page pmm m laddr paddr (flags % 2 ^ 32) := by
  unfold vmm_map_address
  rw [if_neg hp, if_neg hl]

end Condor.Vmm
