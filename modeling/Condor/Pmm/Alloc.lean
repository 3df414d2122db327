import Condor.Pmm.Bitmap
import Condor.Vmm.Space

/-!
# The physical memory manager of `pmm.c`

Blocks below 16 MiB are kept in the bitmaps, frames from 16 MiB on in the frame
stack: a linked list of pages, the top one mapped at `stack32`, each holding a
backlink and 1023 addresses (`free_stack32_t`). `freeAddrs[-1]` is the backlink
word, which is what an index of `-1` reaches. Physical addresses are 32 bits
wide in this build, so `stack64` only ever gets its page.

The bitmaps are kept as a field, apart from the frames behind `P : Paging σ`
that the frame stack is stored in. In the machine they are in frame 2, and a pop
that follows a backlink which is no list page could map `stack32` there: the
writes of such a stack to the bitmaps are not in the model.
-/

namespace Condor.Pmm

open Lib

def PMM_BASE : Nat := 0xC8023000

/-- The linear addresses of `stack32` and `stack64`. -/
def STACK32 : Nat := PMM_BASE + 0x1000
def STACK64 : Nat := PMM_BASE + 0x2000

def POISON_NULL : Nat := 0xFEEEEB1E

/-- The manager's state over a paging state `σ`. -/
structure State (σ : Type) where
  low_bitmaps : LomemBitmaps
  stack32_index : Int
  is_inited : Bool
  space : σ

/-- The linear address of `stack32->freeAddrs[i]`. -/
def freeAddrs (i : Int) : Nat := (STACK32 + 4 + 4 * i).toNat

section
variable {σ : Type} (P : Paging σ)

/-! ## The frame stack -/

/-- Map `addr` at a stack page and fill it with ones. -/
def map_stack_page (m : σ) (page addr flags : Nat) : Except Stop σ := do
  let r ← P.vmm_map_address m page addr flags
  P.memset r.2 page

def stack_push (s : State σ) (addr : Nat) : Except Stop (State σ) := do
  if (← P.vmm_get_physical_addr s.space STACK32) = 0x0 then
    let m ← map_stack_page P s.space STACK32 addr (PAGE_PRESENT ||| PAGE_RW)
    .ok { s with space := m }
  else if (← P.vmm_get_physical_addr s.space STACK64) = 0x0 then
    let m ← map_stack_page P s.space STACK64 addr (PAGE_PRESENT ||| PAGE_RW)
    .ok { s with space := m }
  else if addr = 0xFFFFFFFF then .error (.kpanic "Invalid Address Pushed (PMM)")
  else if s.stack32_index = 1023 then
    let old_address ← P.vmm_get_physical_addr s.space STACK32
    let m ← map_stack_page P s.space STACK32 addr (PAGE_PRESENT ||| PAGE_RW ||| PAGE_REMAP)
    let m ← P.store m STACK32 old_address
    .ok { s with space := m, stack32_index := 0 }
  else
    let m ← P.store s.space (freeAddrs s.stack32_index) addr
    .ok { s with space := m, stack32_index := s.stack32_index + 1 }

/-- Physical addresses are 32 bits wide: there is no 64-bit stack to pop from. -/
def stack_pop64 : Nat := 0xFFFFFFFF

def stack_pop32 (s : State σ) (alloc_flags : PallocFlags) : Except Stop (Nat × State σ) := do
  if s.stack32_index < 0 then
    let retval ← P.vmm_get_physical_addr s.space STACK32
    if retval = 0xFFFFFFFF then
      if alloc_flags.low_4gb then .ok (retval, s) else .ok (stack_pop64, s)
    else
      let backlink ← P.load s.space STACK32
      let r ← P.vmm_map_address s.space STACK32 backlink (PAGE_PRESENT ||| PAGE_RW ||| PAGE_REMAP)
      .ok (retval, { s with space := r.2, stack32_index := 1022 })
  else
    let retval ← P.load s.space (freeAddrs (s.stack32_index - 1))
    .ok (retval, { s with stack32_index := s.stack32_index - 1 })

/-! ## Regions -/

/-- The block after the last one a region touches, in 32-bit arithmetic. -/
def region_end (base size : Nat) : Nat := ((base + size + 0xFFF) % 2 ^ 32) >>> 12

/-- `block_bitmap[0] |= 0x00000007`. -/
def reserve_low (lb : LomemBitmaps) : LomemBitmaps :=
  set_block_word lb 0 (block_bitmap lb 0 ||| 0x00000007#32)

/-- Blocks from 16 MiB on go to the frame stack. -/
def push_high (s : State σ) (blocks : Nat) : Except Stop (State σ) :=
  if blocks ≥ 0x01000 then stack_push P s (blocks <<< 12) else .ok s

/-- One block of `pmm_clear_region`. -/
def clear_block (blocks : Nat) (s : State σ) : Except Stop (State σ) := do
  let s ← push_high P s blocks
  .ok { s with low_bitmaps := reserve_low (paddm_clear_bit s.low_bitmaps blocks) }

def pmm_clear_region (s : State σ) (base size : Nat) : Except Stop (State σ) :=
  if size = 0 then .ok s
  else forWhile (base >>> 12) (region_end base size) (fun blocks => blocks < 0xFFFFF) s
    (clear_block P)

def pmm_set_region (s : State σ) (base size : Nat) : State σ :=
  if size = 0 then s
  else
    let lb := loopWhile (base >>> 12) (region_end base size) (fun blocks => blocks < 0x01000)
      s.low_bitmaps fun blocks lb => paddm_set_bit lb blocks
    { s with low_bitmaps := lb }

/-! ## Initialisation -/

/-- `multiboot_memory_map_t`, without the `size` that leads to the next entry. -/
structure MmapEntry where
  addr : BitVec 64
  len : BitVec 64
  type : BitVec 32
  deriving DecidableEq, Repr

def MULTIBOOT_MEMORY_AVAILABLE : BitVec 32 := 1#32
def MULTIBOOT_MEMORY_ACPI_RECLAIMABLE : BitVec 32 := 3#32

/-- The entry describes memory the allocator may use. -/
def MmapEntry.usable (e : MmapEntry) : Bool :=
  e.type = MULTIBOOT_MEMORY_ACPI_RECLAIMABLE || e.type = MULTIBOOT_MEMORY_AVAILABLE

/-- `(udword_t) mmap->addr` and `(udword_t) mmap->len`. -/
def MmapEntry.addr32 (e : MmapEntry) : Nat := e.addr.toNat % 2 ^ 32
def MmapEntry.len32 (e : MmapEntry) : Nat := e.len.toNat % 2 ^ 32

def add_mmap_entry (s : State σ) (mmap : MmapEntry) : Except Stop (State σ) :=
  if mmap.usable then pmm_clear_region P s mmap.addr32 mmap.len32
  else if mmap.type > MULTIBOOT_MEMORY_AVAILABLE then .ok (pmm_set_region s mmap.addr32 mmap.len32)
  else .ok s

/-- The page after `kmemset(PMM_BASE, 0xFF, 0x1000)` and the fill of `reserved`. -/
def initial_bitmaps : LomemBitmaps := fun i =>
  if i < MAX_BLOCKS + MAX_SUPERBLOCKS then 0xFFFFFFFF#32 else 0x20202020#32

/-- Map the page of the bitmaps if it is not mapped yet. -/
def map_bitmaps (m : σ) : Except Stop σ := do
  if (← P.vmm_get_physical_addr m PMM_BASE) = 0 then
    let r ← P.vmm_map_address m (PMM_BASE + 0x0000) 0x2000 (PAGE_PRESENT ||| PAGE_RW)
    let r ← P.vmm_map_address r.2 (PMM_BASE + 0x3000) 0x0000 PAGE_PRESENT
    .ok r.2
  else .ok m

def pmm_init (s : State σ) (mmap : List MmapEntry) : Except Stop (State σ) := do
  let m ← map_bitmaps P s.space
  let s ← mmap.foldlM (add_mmap_entry P) { s with space := m, low_bitmaps := initial_bitmaps }
  .ok { s with is_inited := true }

/-! ## Allocation -/

/-- Mark the blocks of an allocation at `frame`. -/
def mark_blocks (lb : LomemBitmaps) (alloc_flags : PallocFlags) (frame : Nat) : LomemBitmaps :=
  let lb := paddm_set_bit lb frame
  if alloc_flags.contiguous then
    loop 1 alloc_flags.page_alloc_num lb fun bit lb => paddm_set_bit lb (bit + frame)
  else lb

def kpmalloc (s : State σ) (alloc_flags : PallocFlags) : Except Stop (Nat × State σ) :=
  match paddm_get_first_clear_bits s.low_bitmaps alloc_flags with
  | none => stack_pop32 P s alloc_flags
  | some frame =>
    .ok (frame <<< 12, { s with low_bitmaps := mark_blocks s.low_bitmaps alloc_flags frame })

/-- `pmalloc` passes its zero-initialised static flags. -/
def pmalloc (s : State σ) : Except Stop (Nat × State σ) := kpmalloc P s {}

def pfree (s : State σ) (base_address num_addresses : Nat) : Except Stop (State σ) :=
  if base_address = POISON_NULL then .ok s
  else if base_address = 0xFFFFFFFF then .error (.kpanic "Invalid address")
  else if base_address ≥ 0x01000000 ∧ num_addresses = 1 then stack_push P s base_address
  else if base_address >>> 12 < 4 then .ok s
  else
    let lb := loop 0 num_addresses s.low_bitmaps fun bit lb =>
      paddm_clear_bit lb ((bit + base_address >>> 12) % 2 ^ 32)
    .ok { s with low_bitmaps := lb }

/-! ## Runs -/

/-- The entry points of `pmm.h` that change the state. -/
inductive Op where
  | set_region (base size : Nat)
  | clear_region (base size : Nat)
  | kpmalloc (flags : PallocFlags)
  | pfree (base_address num_addresses : Nat)

/-- Run an entry point; allocations have a result. -/
def exec (s : State σ) : Op → Except Stop (Option Nat × State σ)
  | .set_region base size => .ok (none, pmm_set_region s base size)
  | .clear_region base size => do .ok (none, ← pmm_clear_region P s base size)
  | .kpmalloc flags => do
    let r ← Condor.Pmm.kpmalloc P s flags
    .ok (some r.1, r.2)
  | .pfree base num => do .ok (none, ← Condor.Pmm.pfree P s base num)

/-- The states after `pmm_init` and any entry points. -/
inductive Reachable : State σ → Prop where
  | init {s s' : State σ} {mmap : List MmapEntry} : pmm_init P s mmap = .ok s' → Reachable s'
  | step {s s' : State σ} {op : Op} {r : Option Nat} :
      Reachable s → exec P s op = .ok (r, s') → Reachable s'

end

end Condor.Pmm
