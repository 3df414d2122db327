/-!
# The trap frame of `stack_state.h`

The interrupt stubs build a `stack_state_t` on the kernel stack and resume from
it; the scheduler saves and loads it.
-/

namespace Condor

/-- `stack_state_t`: the trap frame of an interrupt. -/
structure StackState where
  gs : BitVec 32
  fs : BitVec 32
  es : BitVec 32
  ds : BitVec 32
  edi : BitVec 32
  esi : BitVec 32
  ebp : BitVec 32
  edx : BitVec 32
  ecx : BitVec 32
  ebx : BitVec 32
  eax : BitVec 32
  int_num : BitVec 32
  err_code : BitVec 32
  eip : BitVec 32
  cs : BitVec 32
  eflags : BitVec 32
  esp : BitVec 32
  ss : BitVec 32
  deriving DecidableEq, Repr

/-- The frame that `memset` clears. -/
def StackState.zero : StackState :=
  ⟨0, 0, 0, 0, 0, 0, 0, 0, 0, 0, 0, 0, 0, 0, 0, 0, 0, 0⟩

/-- The frame without the interrupt's number. -/
def StackState.context (f : StackState) : StackState := { f with int_num := 0 }

end Condor
