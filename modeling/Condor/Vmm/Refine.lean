import Condor.Vmm.Mapping

/-!
# The page tables implement the address space

`Linked m a` relates the page tables of `m` to the plain address space `a` that
the rest of the development works with: they map every page below the window
alike, no such page is mapped to a table, and the frames that are no tables hold
the same dwords. Each operation that succeeds on the page tables succeeds on the
address space with the same answer and keeps the two linked.

Creating a page table takes a frame out of the data frames, so `pmalloc` must
hand out one that no page is mapped to (`DataHandout`).
-/

namespace Condor.Vmm

open Lib

variable {π : Type} {pmm : PmmCalls π} {m m' : Machine π} {a : AddrSpace}
  {laddr paddr flags v r : Nat}

/-- The page tables of `m` map and store what `a` does. -/
structure Linked (m : Machine π) (a : AddrSpace) : Prop where
  wf : m.WF
  pages : ∀ q, BelowTables q → a.frame? q = m.frame? q
  data : ∀ q f, BelowTables q → m.frame? q = some f → ¬ m.Used f
  contents : ∀ f, ¬ m.Used f → a.frames f = m.mem f

/-- `pmalloc` hands out a frame that is no table and at which no page is mapped, and leaves the data
frames as they are. -/
structure DataHandout (m : Machine π) (p : Nat) (m' : Machine π) : Prop where
  handout : Handout m p m'
  unmapped : ∀ q, BelowTables q → m.frame? q ≠ some (p / 4096)
  contents : ∀ f, m'.mem f = m.mem f

/-! ## Lookups, loads and stores -/

theorem Linked.get_physical_addr (h : Linked m a) (hp : BelowTables (laddr / 4096)) :
    vmm_get_physical_addr m laddr = a.vmm_get_physical_addr laddr := by
  refine (vmm_get_physical_addr_eq h.wf hp).trans ?_
  unfold AddrSpace.vmm_get_physical_addr
  have hpage := h.pages _ hp
  cases hf : m.frame? (laddr / 4096) with
  | none =>
    rw [hf] at hpage
    simp only [hpage]
  | some f =>
    rw [hf] at hpage
    simp only [hpage]

theorem Linked.load (h : Linked m a) (hp : BelowTables (laddr / 4096)) : m.load laddr = a.load laddr := by
  unfold Machine.load AddrSpace.load
  rw [h.pages _ hp]
  cases hf : m.frame? (laddr / 4096) with
  | none => rfl
  | some f =>
    show Except.ok (m.mem f _) = Except.ok (a.frames f _)
    rw [h.contents f (h.data _ f hp hf)]

theorem Linked.store (h : Linked m a) (hp : BelowTables (laddr / 4096)) (hm : m.store laddr v = .ok m') :
    ∃ a', a.store laddr v = .ok a' ∧ Linked m' a' := by
  unfold Machine.store at hm
  unfold AddrSpace.store
  have hpage := h.pages _ hp
  cases hf : m.frame? (laddr / 4096) with
  | none =>
    rw [hf] at hm
    cases hm
  | some f =>
    rw [hf] at hm hpage
    cases hm
    have hu := h.data _ f hp hf
    have hsame := Machine.sameDirectory_setWord (k := laddr % 4096 / 4) (v := v) fun heq => hu (.inl heq)
    have hframe {q : Nat} (hq : BelowTables q) :
        (m.setWord f (laddr % 4096 / 4) v).frame? q = m.frame? q :=
      Machine.frame?_setWord_unused hu hq.slot
    rw [hpage]
    refine ⟨_, rfl, hsame.wf h.wf, fun q hq => ?_, fun q g hq hg => ?_, fun g hg => ?_⟩
    · rw [hframe hq, AddrSpace.frame?_setFrame]
      exact h.pages q hq
    · rw [hframe hq] at hg
      rw [hsame.used]
      exact h.data q g hq hg
    · rw [hsame.used] at hg
      by_cases heq : g = f
      · rw [heq, AddrSpace.setFrame_frames_self, Machine.setWord_mem_self, h.contents f hu]
      · rw [AddrSpace.setFrame_frames_ne heq, Machine.setWord_mem_ne heq, h.contents g hg]

/-! ## Mapping and unmapping -/

/-- Changing the mapping of one page on both sides keeps them linked. -/
theorem Linked.maps {page e : Nat} {o : Option Nat} (h : Linked m a) (hmaps : Maps m m' page o)
    (hsame : Machine.SameDirectory m m') (hmem : ∀ f, ¬ m.Used f → m'.mem f = m.mem f)
    (ho : ∀ f, o = some f → ¬ m.Used f)
    (he : (if e % 2 = 1 then some (e / 4096) else none) = o) :
    Linked m' { a with pte := Function.update a.pte page e } where
  wf := hmaps.wf
  pages q hq := by
    by_cases heq : q = page
    · rw [heq, hmaps.self, ← he]
      unfold AddrSpace.frame?
      simp only [Function.update_self]
    · rw [AddrSpace.frame?_update_ne heq, hmaps.other q hq heq]
      exact h.pages q hq
  data q f hq hf := by
    rw [hsame.used]
    by_cases heq : q = page
    · rw [heq, hmaps.self] at hf
      exact ho f hf
    · rw [hmaps.other q hq heq] at hf
      exact h.data q f hq hf
  contents f hf := by
    rw [hsame.used] at hf
    exact (h.contents f hf).trans (hmem f hf).symm

theorem Linked.sumap_page (h : Linked m a) (hp : BelowTables (laddr / 4096))
    (hm : sumap_page m laddr = .ok (r, m')) : ∃ a', a.sumap_page laddr = .ok (r, a') ∧ Linked m' a' := by
  obtain ⟨m1, hm1, hmaps, hsame, hmem⟩ := sumap_page_spec h.wf hp
  rw [hm] at hm1
  cases hm1
  unfold AddrSpace.sumap_page
  rw [h.pages _ hp]
  cases hf : m.frame? (laddr / 4096) with
  | none =>
    refine ⟨a, rfl, hmaps.wf, fun q hq => ?_, fun q f hq hq' => ?_, fun f hu => ?_⟩
    · by_cases heq : q = laddr / 4096
      · rw [heq, hmaps.self, h.pages _ hp, hf]
      · rw [hmaps.other q hq heq, h.pages q hq]
    · rw [hsame.used]
      by_cases heq : q = laddr / 4096
      · rw [heq, hmaps.self] at hq'
        cases hq'
      · rw [hmaps.other q hq heq] at hq'
        exact h.data q f hq hq'
    · rw [hsame.used] at hu
      exact (h.contents f hu).trans (hmem f hu).symm
  | some f => exact ⟨_, rfl, h.maps hmaps hsame hmem (fun _ h => nomatch h) rfl⟩

/-- Setting the entry of a page that has a page table. -/
theorem Linked.map_entry (h : Linked m a) (hp : BelowTables (laddr / 4096))
    (hpa : paddr ≠ 0xFFFFFFFF) (hu : ¬ m.Used (paddr / 4096))
    (ht : m.pde (laddr / 4096 / 1024) % 2 = 1)
    (hm : map_entry m (laddr / 4096) paddr flags = .ok (r, m')) :
    ∃ a', a.vmm_map_address laddr paddr flags = .ok (r, a') ∧ Linked m' a' := by
  obtain ⟨hsame, hmem, ⟨rfl, rfl, hf, hr⟩ | ⟨rfl, hf, hmaps⟩⟩ := map_entry_spec h.wf hp ht hm
  · obtain ⟨f, hf⟩ := Option.ne_none_iff_exists'.mp hf
    unfold AddrSpace.vmm_map_address
    rw [if_neg hpa, if_pos ⟨by rw [h.pages _ hp, hf]; rfl, hr⟩]
    exact ⟨a, rfl, h⟩
  · have hnot : ¬ ((a.frame? (laddr / 4096)).isSome ∧ flags &&& PAGE_REMAP = 0) := by
      rintro ⟨hsome, hr⟩
      rcases hf with hf | hf
      · rw [h.pages _ hp, hf] at hsome
        cases hsome
      · exact hf hr
    unfold AddrSpace.vmm_map_address
    rw [if_neg hpa, if_neg hnot]
    refine ⟨_, rfl, h.maps hmaps hsame hmem (fun f hf => ?_) ?_⟩
    · split at hf
      · rw [← Option.some.inj hf]
        exact hu
      · cases hf
    · rw [show (paddr / 4096 * 4096 + flags % 4096) % 2 = flags % 2 by omega,
        show (paddr / 4096 * 4096 + flags % 4096) / 4096 = paddr / 4096 by omega]

/-- A new page table takes a data frame at which no page is mapped. -/
theorem Linked.add_table (h : Linked m a) (hp : BelowTables (laddr / 4096))
    (habs : m.pde (laddr / 4096 / 1024) % 2 ≠ 1) (hin : pmm.pmm_isInited m = true)
    (hpm : ∀ p m', pmm.pmalloc m = .ok (p, m') → DataHandout m p m')
    (hm : add_table pmm m laddr flags = .ok m') :
    Linked m' a ∧ ∀ f, m'.Used f → m.Used f ∨ ∃ p m0, pmm.pmalloc m = .ok (p, m0) ∧ f = p / 4096 := by
  have ht := add_table_spec h.wf hp habs hin (fun p m' hp => (hpm p m' hp).handout) hm
  obtain ⟨kvb, p, m0, -, hp0, hadd, -⟩ :=
    add_table_supplied h.wf hp hin (fun p m' hp => (hpm p m' hp).handout.supply) hm
  obtain ⟨he, -, hframe⟩ := or_table_flags (.inr (hpm p m0 hp0).handout.aligned)
    (table_flags_cases laddr kvb)
  generalize p ||| (if laddr ≥ kvb then 0x003 else 0x007) = e at hadd he hframe
  have hd := hpm p m0 hp0
  have hsame := hd.handout.sameDirectory
  have hpde : ∀ i, m'.pde i = if i = laddr / 4096 / 1024 then e else m.pde i := fun i => by
    rw [hadd.pde, hsame.pde]
  have hcr3 : m'.cr3 = m.cr3 := hadd.cr3.trans hd.handout.cr3
  -- the directory entries of the old machine are those of the new one, but for the new table's
  have hold : ∀ f, m.Used f → m'.Used f := by
    rintro f (rfl | ⟨i, hi, hi1, rfl⟩)
    · exact .inl hcr3.symm
    · have hne : i ≠ laddr / 4096 / 1024 := fun heq => habs (heq ▸ hi1)
      refine .inr ⟨i, hi, ?_, ?_⟩
      · rw [hpde, if_neg hne]
        exact hi1
      · rw [hpde, if_neg hne]
  have hnew : m'.Used (e / 4096) := by
    refine .inr ⟨_, hp.slot, ?_, ?_⟩
    · rw [hpde, if_pos rfl]
      exact he
    · rw [hpde, if_pos rfl]
  have hused : ∀ f, m'.Used f → m.Used f ∨ f = p / 4096 := by
    rintro f (rfl | ⟨i, hi, hi1, rfl⟩)
    · exact .inl (.inl hcr3)
    · rw [hpde] at hi1 ⊢
      split at hi1
      case isTrue heq =>
        rw [if_pos heq, hframe]
        exact .inr rfl
      case isFalse hne =>
        rw [if_neg hne]
        exact .inl (.inr ⟨i, hi, hi1, rfl⟩)
  refine ⟨⟨ht.wf, fun q hq => (h.pages q hq).trans (ht.same q hq).symm, fun q f hq hf hu => ?_,
    fun f hf => ?_⟩, fun f hf => (hused f hf).imp_right fun heq => ⟨p, m0, hp0, heq⟩⟩
  · rw [ht.same q hq] at hf
    rcases hused f hu with hu | rfl
    · exact h.data q f hq hf hu
    · exact hd.unmapped q hq hf
  · have hne : f ≠ e / 4096 := fun heq => hf (heq ▸ hnew)
    rw [h.contents f fun hu => hf (hold f hu), hadd.mem f (fun heq => hf (.inl ?_)) hne,
      hd.contents]
    rw [heq, hcr3, hd.handout.cr3]

/-- **The page tables implement the address space.** A successful operation on the page tables is the
same operation of the address space, for addresses below the tables and frames that are no tables. -/
theorem Linked.vmm_map_address (h : Linked m a) (hp : BelowTables (laddr / 4096))
    (hl : laddr ≠ 0xFFFFFFFF) (hfl : flags < 2 ^ 32) (hin : pmm.pmm_isInited m = true)
    (hpm : ∀ p m', pmm.pmalloc m = .ok (p, m') → DataHandout m p m' ∧ p / 4096 ≠ paddr / 4096)
    (hu : ¬ m.Used (paddr / 4096)) (hm : vmm_map_address pmm m laddr paddr flags = .ok (r, m')) :
    ∃ a', a.vmm_map_address laddr paddr flags = .ok (r, a') ∧ Linked m' a' := by
  by_cases hpa : paddr = 0xFFFFFFFF
  · unfold Vmm.vmm_map_address at hm
    rw [if_pos hpa] at hm
    cases hm
    exact ⟨a, if_pos hpa, h⟩
  rw [vmm_map_address_eq hl hpa, Nat.mod_eq_of_lt hfl] at hm
  by_cases ht : m.pde (laddr / 4096 / 1024) % 2 = 1
  · rw [smap_page_eq h.wf hp, if_pos ht] at hm
    exact h.map_entry hp hpa hu ht hm
  · rw [smap_page_eq h.wf hp, if_neg ht] at hm
    obtain ⟨m1, hm1, hm⟩ := bind_eq_ok.mp hm
    have hpm' : ∀ p m', pmm.pmalloc m = .ok (p, m') → DataHandout m p m' := fun p m' hp => (hpm p m' hp).1
    obtain ⟨h1, hused⟩ := h.add_table hp ht hin hpm' hm1
    have ht1 := add_table_spec h.wf hp ht hin (fun p m' hp => (hpm' p m' hp).handout) hm1
    refine h1.map_entry hp hpa (fun hu1 => ?_) ht1.table hm
    rcases hused _ hu1 with hu1 | ⟨p, m0, hp0, heq⟩
    · exact hu hu1
    · exact (hpm p m0 hp0).2 heq.symm

end Condor.Vmm
