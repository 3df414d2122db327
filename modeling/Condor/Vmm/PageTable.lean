import Condor.Vmm.Space
import Mathlib.Algebra.Group.Nat.Defs

/-!
# The page tables of `vmm.c`

Physical memory is 1024 dwords a frame, `cr3` the frame of the page directory.
`frame?` is the walk of the MMU for one page, and the code reaches everything,
its own directory and tables included, by loads and stores through that walk:
with the directory in its own slot 1023, `PAGE_DIRECTORY` is the directory and
`PAGE_TABLE_BASE` the window of all tables.

Entries are dwords, so their masks are written as division and remainder by
4096. Only the present bit is modelled: access rights are not (every directory
entry the kernel writes is writable), and neither is the TLB, which keeps no
entry that was not present and is flushed for the page that changes.

`PmmCalls` is what `vmm.c` calls of the physical memory manager, whose own state
is `Machine.pmm`.
-/

namespace Condor.Vmm

open Lib

def PAGE_DIRECTORY : Nat := 0xFFFFF000
def PAGE_TABLE_BASE : Nat := 0xFFC00000
def KERNEL_VIRTUAL_BASE : Nat := 0xC0000000

/-- Physical memory, the directory's frame, and the physical memory manager's state. -/
structure Machine (π : Type) where
  cr3 : Nat
  mem : Nat → Nat → Nat
  pmm : π

/-- The functions of the physical memory manager that `vmm.c` calls. -/
structure PmmCalls (π : Type) where
  pmm_isInited : Machine π → Bool
  pmalloc : Machine π → Except Stop (Nat × Machine π)
  pfree : Machine π → Nat → Nat → Except Stop (Machine π)

namespace Machine

variable {π : Type}

/-- Directory entry `d`. -/
def pde (m : Machine π) (d : Nat) : Nat := m.mem m.cr3 d

/-- The frame a page is mapped to. -/
def frame? (m : Machine π) (page : Nat) : Option Nat :=
  let pde := m.pde (page / 1024)
  if pde % 2 = 1 then
    let pte := m.mem (pde / 4096) (page % 1024)
    if pte % 2 = 1 then some (pte / 4096) else none
  else none

def load (m : Machine π) (laddr : Nat) : Except Stop Nat :=
  match m.frame? (laddr / 4096) with
  | some f => .ok (m.mem f (laddr % 4096 / 4))
  | none => .error (.pageFault laddr)

/-- The machine with dword `k` of frame `f` replaced. -/
def setWord (m : Machine π) (f k v : Nat) : Machine π :=
  { m with mem := Function.update m.mem f (Function.update (m.mem f) k v) }

def store (m : Machine π) (laddr v : Nat) : Except Stop (Machine π) :=
  match m.frame? (laddr / 4096) with
  | some f => .ok (m.setWord f (laddr % 4096 / 4) v)
  | none => .error (.pageFault laddr)

end Machine

section
variable {π : Type} (pmm : PmmCalls π)

/-- `entry & PAGE_PRESENT` -/
def present (entry : Nat) : Bool := entry % 2 = 1

/-- `memset(base, 0, 4096)`, dword by dword. -/
def clear_table (m : Machine π) (base : Nat) : Except Stop (Machine π) :=
  forUp 0 1024 m fun i m => m.store (base + 4 * i) 0

/-- The new directory entry. `KERNEL_VIRTUAL_BASE` is a linker symbol, and the source reads the dword
that stands there. -/
def table_entry (m : Machine π) (laddr flags : Nat) : Except Stop (Nat × Machine π) := do
  if pmm.pmm_isInited m then
    let kvb ← m.load KERNEL_VIRTUAL_BASE
    let r ← pmm.pmalloc m
    .ok (r.1 ||| (if laddr ≥ kvb then 0x003 else 0x007), r.2)
  else .ok (0x1000 ||| 0x003 ||| (flags &&& PAGE_USER), m)

/-- Create the page table of `laddr`. -/
def add_table (m : Machine π) (laddr flags : Nat) : Except Stop (Machine π) := do
  let pd_index := laddr >>> (BLOCK_BITS + 10)
  let pt_index := laddr >>> BLOCK_BITS
  let r ← table_entry pmm m laddr flags
  let m ← r.2.store (PAGE_DIRECTORY + 4 * pd_index) r.1
  clear_table m ((PAGE_TABLE_BASE + 4 * pt_index) / 4096 * 4096)

/-- Set the entry of a page that has a page table. -/
def map_entry (m : Machine π) (pt_index paddr flags : Nat) : Except Stop (Nat × Machine π) := do
  let pte ← m.load (PAGE_TABLE_BASE + 4 * pt_index)
  if present pte ∧ flags &&& PAGE_REMAP = 0 then .ok (1, m)
  else
    let m ← m.store (PAGE_TABLE_BASE + 4 * pt_index) (paddr / 4096 * 4096 + flags % 4096)
    .ok (0, m)

def smap_page (m : Machine π) (laddr paddr flags : Nat) : Except Stop (Nat × Machine π) := do
  let pd_index := laddr >>> (BLOCK_BITS + 10)
  let pt_index := laddr >>> BLOCK_BITS
  let pde ← m.load (PAGE_DIRECTORY + 4 * pd_index)
  let m ← if !present pde then add_table pmm m laddr flags else .ok m
  map_entry m pt_index paddr flags

/-- Unmap a page; the result is the frame's address, or 0. -/
def sumap_page (m : Machine π) (laddr : Nat) : Except Stop (Nat × Machine π) := do
  let pd_index := laddr >>> (BLOCK_BITS + 10)
  let pt_index := laddr >>> BLOCK_BITS
  let pde ← m.load (PAGE_DIRECTORY + 4 * pd_index)
  if !present pde then .ok (0, m)
  else
    let pte ← m.load (PAGE_TABLE_BASE + 4 * pt_index)
    if !present pte then .ok (0, m)
    else
      let m ← m.store (PAGE_TABLE_BASE + 4 * pt_index) 0
      .ok (pte / 4096 * 4096, m)

def vmm_map_address (m : Machine π) (laddr paddr flags : Nat) : Except Stop (Nat × Machine π) :=
  if paddr = 0xFFFFFFFF then .ok (1, m)
  else if laddr = 0xFFFFFFFF then do
    let m ← pmm.pfree m paddr 1
    .ok (2, m)
  else smap_page pmm m laddr paddr (flags % 2 ^ 32)

def vmm_get_physical_addr (m : Machine π) (laddr : Nat) : Except Stop Nat := do
  let pd_index := laddr >>> (BLOCK_BITS + 10)
  let pt_index := laddr >>> BLOCK_BITS
  let pde ← m.load (PAGE_DIRECTORY + 4 * pd_index)
  if !present pde then .ok 0
  else
    let pte ← m.load (PAGE_TABLE_BASE + 4 * pt_index)
    if !present pte then .ok 0
    else .ok (pte / 4096 * 4096 + laddr % 4096)

/-- The page tables as the paging that the rest of the kernel uses. -/
def paging : Paging (Machine π) where
  vmm_get_physical_addr := vmm_get_physical_addr
  vmm_map_address := vmm_map_address pmm
  sumap_page := sumap_page
  load := Machine.load
  store := Machine.store

end

/-! ## Self-mapped directories -/

namespace Machine

variable {π : Type}

/-- The directory is its own entry 1023, and the present entries below name distinct other frames. -/
structure WF (m : Machine π) : Prop where
  self : m.pde 1023 % 2 = 1
  self_frame : m.pde 1023 / 4096 = m.cr3
  table_ne : ∀ d < 1023, m.pde d % 2 = 1 → m.pde d / 4096 ≠ m.cr3
  distinct : ∀ d < 1023, ∀ e < 1023, m.pde d % 2 = 1 → m.pde e % 2 = 1 →
    m.pde d / 4096 = m.pde e / 4096 → d = e

/-- Frame `f` is the directory or a page table. -/
def Used (m : Machine π) (f : Nat) : Prop :=
  f = m.cr3 ∨ ∃ d < 1023, m.pde d % 2 = 1 ∧ m.pde d / 4096 = f

variable {m m' : Machine π} {d t f k v page : Nat}

theorem frame?_of_table (h : m.pde (page / 1024) % 2 = 1) :
    m.frame? page = if m.mem (m.pde (page / 1024) / 4096) (page % 1024) % 2 = 1 then
      some (m.mem (m.pde (page / 1024) / 4096) (page % 1024) / 4096) else none := by
  unfold frame?
  exact if_pos h

theorem frame?_of_no_table (h : m.pde (page / 1024) % 2 ≠ 1) : m.frame? page = none := by
  unfold frame?
  exact if_neg h

/-- The last page is the directory. -/
theorem WF.frame?_directory (hw : m.WF) : m.frame? 0xFFFFF = some m.cr3 := by
  rw [frame?_of_table hw.self, show (0xFFFFF : Nat) / 1024 = 1023 by decide,
    show (0xFFFFF : Nat) % 1024 = 1023 by decide, hw.self_frame]
  show (if m.pde 1023 % 2 = 1 then some (m.pde 1023 / 4096) else none) = _
  rw [if_pos hw.self, hw.self_frame]

/-- The window page of table `d`. -/
theorem WF.frame?_window (hw : m.WF) (hd : d < 1023) (h : m.pde d % 2 = 1) :
    m.frame? (0xFFC00 + d) = some (m.pde d / 4096) := by
  have h1 : (0xFFC00 + d) / 1024 = 1023 := by omega
  have h2 : (0xFFC00 + d) % 1024 = d := by omega
  rw [frame?_of_table (by rw [h1]; exact hw.self), h1, h2, hw.self_frame]
  exact if_pos h

theorem load_of_frame {laddr : Nat} (h : m.frame? (laddr / 4096) = some f) :
    m.load laddr = .ok (m.mem f (laddr % 4096 / 4)) := by
  unfold load
  rw [h]

theorem store_of_frame {laddr : Nat} (h : m.frame? (laddr / 4096) = some f) (v : Nat) :
    m.store laddr v = .ok (m.setWord f (laddr % 4096 / 4) v) := by
  unfold store
  rw [h]

theorem directory_page (hd : d < 1024) : (PAGE_DIRECTORY + 4 * d) / 4096 = 0xFFFFF := by
  unfold PAGE_DIRECTORY
  omega

theorem directory_word (hd : d < 1024) : (PAGE_DIRECTORY + 4 * d) % 4096 / 4 = d := by
  unfold PAGE_DIRECTORY
  omega

theorem window_page : (PAGE_TABLE_BASE + 4 * page) / 4096 = 0xFFC00 + page / 1024 := by
  unfold PAGE_TABLE_BASE
  omega

theorem window_word : (PAGE_TABLE_BASE + 4 * page) % 4096 / 4 = page % 1024 := by
  unfold PAGE_TABLE_BASE
  omega

theorem WF.load_directory (hw : m.WF) (hd : d < 1024) :
    m.load (PAGE_DIRECTORY + 4 * d) = .ok (m.pde d) := by
  rw [load_of_frame ((congrArg _ (directory_page hd)).trans hw.frame?_directory), directory_word hd]
  rfl

theorem WF.store_directory (hw : m.WF) (hd : d < 1024) (v : Nat) :
    m.store (PAGE_DIRECTORY + 4 * d) v = .ok (m.setWord m.cr3 d v) := by
  rw [store_of_frame ((congrArg _ (directory_page hd)).trans hw.frame?_directory), directory_word hd]

theorem WF.load_table (hw : m.WF) (hp : page / 1024 < 1023) (h : m.pde (page / 1024) % 2 = 1) :
    m.load (PAGE_TABLE_BASE + 4 * page) =
      .ok (m.mem (m.pde (page / 1024) / 4096) (page % 1024)) := by
  rw [load_of_frame ((congrArg _ window_page).trans (hw.frame?_window hp h)), window_word]

theorem WF.store_table (hw : m.WF) (hp : page / 1024 < 1023) (h : m.pde (page / 1024) % 2 = 1)
    (v : Nat) :
    m.store (PAGE_TABLE_BASE + 4 * page) v =
      .ok (m.setWord (m.pde (page / 1024) / 4096) (page % 1024) v) := by
  rw [store_of_frame ((congrArg _ window_page).trans (hw.frame?_window hp h)), window_word]

/-! ## What a write changes -/

theorem setWord_mem_self : (m.setWord f k v).mem f = Function.update (m.mem f) k v :=
  Function.update_self ..

theorem setWord_mem_ne {f' : Nat} (h : f' ≠ f) : (m.setWord f k v).mem f' = m.mem f' :=
  Function.update_of_ne h ..

/-- A write to another frame than the directory changes no directory entry. -/
theorem pde_setWord (h : f ≠ m.cr3) (d : Nat) : (m.setWord f k v).pde d = m.pde d := by
  show (m.setWord f k v).mem m.cr3 d = _
  rw [setWord_mem_ne h.symm]
  rfl

/-- Machines with the same directory. -/
structure SameDirectory (m m' : Machine π) : Prop where
  cr3 : m'.cr3 = m.cr3
  pde : ∀ d, m'.pde d = m.pde d

theorem sameDirectory_setWord (h : f ≠ m.cr3) : SameDirectory m (m.setWord f k v) :=
  ⟨rfl, pde_setWord h⟩

theorem SameDirectory.wf (h : SameDirectory m m') (hw : m.WF) : m'.WF where
  self := by rw [h.pde]; exact hw.self
  self_frame := by rw [h.pde, h.cr3]; exact hw.self_frame
  table_ne d hd := by rw [h.pde, h.cr3]; exact hw.table_ne d hd
  distinct d hd e he := by rw [h.pde, h.pde]; exact hw.distinct d hd e he

theorem SameDirectory.used (h : SameDirectory m m') : m'.Used f ↔ m.Used f := by
  unfold Used
  simp only [h.cr3, h.pde]

/-- Two machines whose tables for a page agree map it alike. -/
theorem frame?_congr (hpde : m'.pde (page / 1024) = m.pde (page / 1024))
    (hmem : m.pde (page / 1024) % 2 = 1 →
      m'.mem (m.pde (page / 1024) / 4096) (page % 1024) =
        m.mem (m.pde (page / 1024) / 4096) (page % 1024)) : m'.frame? page = m.frame? page := by
  by_cases h : m.pde (page / 1024) % 2 = 1
  · rw [frame?_of_table h, frame?_of_table (by rw [hpde]; exact h), hpde, hmem h]
  · rw [frame?_of_no_table h, frame?_of_no_table (by rw [hpde]; exact h)]

/-- A write to a frame that is neither directory nor page table changes no mapping. -/
theorem frame?_setWord_unused (hf : ¬ m.Used f) (hp : page / 1024 < 1023) :
    (m.setWord f k v).frame? page = m.frame? page := by
  refine frame?_congr (pde_setWord (fun h => hf (.inl h)) _) fun h => ?_
  have hne : m.pde (page / 1024) / 4096 ≠ f := fun heq => hf (.inr ⟨_, hp, h, heq⟩)
  rw [setWord_mem_ne hne]

/-- A write to a page table changes the mapping of the page of the entry. -/
theorem WF.frame?_setWord_self (hw : m.WF) (hp : page / 1024 < 1023)
    (h : m.pde (page / 1024) % 2 = 1) :
    (m.setWord (m.pde (page / 1024) / 4096) (page % 1024) v).frame? page =
      if v % 2 = 1 then some (v / 4096) else none := by
  have hpde := pde_setWord (k := page % 1024) (v := v) (hw.table_ne _ hp h) (page / 1024)
  rw [frame?_of_table (by rw [hpde]; exact h), hpde, setWord_mem_self, Function.update_self]

/-- A write to a page table changes the mapping of no other page. -/
theorem WF.frame?_setWord_ne (hw : m.WF) (hp : page / 1024 < 1023)
    (h : m.pde (page / 1024) % 2 = 1) {q : Nat} (hq : q / 1024 < 1023) (hne : q ≠ page) :
    (m.setWord (m.pde (page / 1024) / 4096) (page % 1024) v).frame? q = m.frame? q := by
  refine frame?_congr (pde_setWord (hw.table_ne _ hp h) _) fun hq' => ?_
  by_cases heq : m.pde (q / 1024) / 4096 = m.pde (page / 1024) / 4096
  · have hd := hw.distinct _ hq _ hp hq' h heq
    rw [heq, setWord_mem_self, Function.update_of_ne (by omega)]
  · rw [setWord_mem_ne heq]

end Machine

end Condor.Vmm
