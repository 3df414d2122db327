import Condor.Isr.StackState
import Condor.Lib.Chain

/-!
# The scheduler of `scheduler.c`

Processes are named by an arbitrary type of addresses; `none` is `POISON_NULL`.
`scheduler_preempt` answers `none` where the source would follow a null pointer.
A process's registers, which the source keeps in an allocation of their own, are
a field of the process here. Interrupts are off inside `schedule_process`, so
calls happen one after the other.
-/

namespace Condor.Sched

/-- `registers_t` -/
structure Registers where
  state : StackState
  kernel_esp : BitVec 32
  deriving DecidableEq, Repr

inductive TaskState where
  | INITIALIZED
  | RUNNING
  | SLEEPING
  | BLOCKED
  | KERNEL_REQUEST
  deriving DecidableEq, Repr

/-- The fields of `process_t` that the scheduler uses. -/
structure Process (α : Type) where
  next : Option α
  current_state : TaskState
  regs : Registers

/-- The scheduler's variables, the processes, and the ring 0 stack of the TSS. -/
structure State (α : Type) where
  p_last : Option α
  p_current : Option α
  is_schedueling_proc : Bool
  proc : α → Process α
  tss_esp0 : BitVec 32

/-- The registers `process_create` gives a process. -/
def entry_regs (entry_point stack_base kstack_base : BitVec 32) (is_usermode : Bool) : Registers :=
  let frame := { StackState.zero with eip := entry_point, esp := stack_base + 0xFFC#32, eflags := 0x202#32 }
  if is_usermode then
    let code : BitVec 32 := 0x3#32 <<< 3 ||| 0b11#32
    let data : BitVec 32 := 0x4#32 <<< 3 ||| 0b11#32
    ⟨{ frame with cs := code, ds := data, es := data, fs := data, gs := data, ss := data }, kstack_base⟩
  else
    let code : BitVec 32 := 0x1#32 <<< 3 ||| 0b00#32
    let data : BitVec 32 := 0x2#32 <<< 3 ||| 0b00#32
    ⟨{ frame with cs := code, ds := data, es := data, fs := data, gs := data, ss := data }, stack_base⟩

/-- The record `process_create` builds. -/
def new_process {α : Type} (entry_point stack_base kstack_base : BitVec 32) (is_usermode : Bool) :
    Process α :=
  ⟨none, .INITIALIZED, entry_regs entry_point stack_base kstack_base is_usermode⟩

section
variable {α : Type} [DecidableEq α]

/-- `p->next = next` -/
def State.set_next (s : State α) (p : α) (next : Option α) : State α :=
  { s with proc := Function.update s.proc p { s.proc p with next := next } }

/-- `p->regs->state = state` -/
def State.set_regs (s : State α) (p : α) (state : StackState) : State α :=
  let regs := { (s.proc p).regs with state := state }
  { s with proc := Function.update s.proc p { s.proc p with regs := regs } }

/-- `p->current_state = state` -/
def State.set_state (s : State α) (p : α) (state : TaskState) : State α :=
  { s with proc := Function.update s.proc p { s.proc p with current_state := state } }

def schedule_process (s : State α) (process : α) : State α :=
  match s.p_current with
  | none => { s with p_current := some process, is_schedueling_proc := false }
  | some p_current =>
    match s.p_last with
    | none =>
      { s.set_next p_current (some process) with
        p_last := some process, is_schedueling_proc := false }
    | some p_last =>
      { s.set_next p_last (some process) with
        p_last := some process, is_schedueling_proc := false }

/-- Save the registers of the process that is preempted. -/
def save_registers (s : State α) (p_current : α) (state : StackState) : State α :=
  if (s.proc p_current).current_state ≠ .INITIALIZED then s.set_regs p_current state
  else s.set_state p_current .RUNNING

/-- `if(p_last != POISON_NULL) p_last->next = p_current;` -/
def link_last (s : State α) (p_current : α) : State α :=
  match s.p_last with
  | none => s
  | some p_last => s.set_next p_last (some p_current)

/-- Move the head of the queue to its end; the new head is the result. -/
def rotate (s : State α) (p_current : α) : Option (State α × α) :=
  let s := link_last s p_current
  let s := { s with p_last := some p_current }
  let s := { s with p_current := (s.proc p_current).next }
  let s := s.set_next p_current none
  s.p_current.map fun p => ({ s with tss_esp0 := (s.proc p).regs.kernel_esp }, p)

/-- Load the registers of `p`, but keep the interrupt's number. -/
def restore_registers (s : State α) (p : α) (state : StackState) : StackState :=
  { (s.proc p).regs.state with int_num := state.int_num }

def scheduler_preempt (s : State α) (state : StackState) : Option (State α × StackState) :=
  match s.p_current with
  | none => some (s, state)
  | some p_current =>
    if s.is_schedueling_proc then some (s, state)
    else if (s.proc p_current).next = none then some (s, restore_registers s p_current state)
    else
      (rotate (save_registers s p_current state) p_current).map fun r =>
        (r.1, restore_registers r.1 r.2 state)

/-- `process_create`: the record is written, then scheduled. -/
def process_create (s : State α) (p : α) (process : Process α) : State α :=
  schedule_process { s with proc := Function.update s.proc p process } p

end

/-! ## Runs -/

/-- The calls of a run. -/
inductive Event (α : Type) where
  | create (p : α) (process : Process α)
  | preempt (state : StackState)

section
variable {α : Type} [DecidableEq α]

def exec (s : State α) : Event α → Option (State α)
  | .create p process => some (process_create s p process)
  | .preempt state => (scheduler_preempt s state).map Prod.fst

/-- The state after a run. -/
def run (s : State α) (es : List (Event α)) : Option (State α) := es.foldlM exec s

/-- Before the first call. -/
structure Boot (s : State α) : Prop where
  current : s.p_current = none
  last : s.p_last = none
  idle : s.is_schedueling_proc = false

end

/-- The processes a run schedules, in order. -/
def scheduled {α : Type} : List (Event α) → List α
  | [] => []
  | .create p _ :: es => p :: scheduled es
  | .preempt _ :: es => scheduled es

/-- Every record scheduled has no link yet. -/
def FreshRecords {α : Type} (es : List (Event α)) : Prop :=
  ∀ p process, Event.create p process ∈ es → process.next = none

end Condor.Sched
