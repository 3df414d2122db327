import Condor.Isr.StackState
import Mathlib.Data.BitVec
import Mathlib.Logic.Function.Basic

/-!
# The processor, as the interrupt stubs use it

Memory is flat and made of dwords, one at each address the stubs use; segment
registers are 16-bit selectors, and descriptors are not modelled. Some
processors zero the upper half when a selector is pushed or copied to a 32-bit
register, others leave it as it was: the flag `z` of `exec` says which.

`interrupt` is what the processor does on its own when an interrupt arrives, and
`iret` is the return. Of the flags the stubs only test the zero flag, right
after a `test`.
-/

namespace Condor.Isr

/-- Dwords at addresses. -/
abbrev Mem := BitVec 32 → BitVec 32

structure Cpu where
  eax : BitVec 32
  ebx : BitVec 32
  ecx : BitVec 32
  edx : BitVec 32
  esi : BitVec 32
  edi : BitVec 32
  ebp : BitVec 32
  esp : BitVec 32
  gs : BitVec 16
  fs : BitVec 16
  es : BitVec 16
  ds : BitVec 16
  cs : BitVec 16
  ss : BitVec 16
  eip : BitVec 32
  eflags : BitVec 32
  zf : Bool
  mem : Mem

inductive Reg where
  | eax | ebx | ecx | edx | esi | edi | ebp | esp

inductive Seg where
  | gs | fs | es | ds | ss

inductive Instr where
  | cli
  | push (r : Reg)
  | pushImm (v : BitVec 32)
  | pushSeg (s : Seg)
  | pop (r : Reg)
  | popSeg (s : Seg)
  /-- `movl $v, r` -/
  | movImm (v : BitVec 32) (r : Reg)
  /-- `movl src, dst` -/
  | mov (src dst : Reg)
  /-- `movl s, r` -/
  | movFromSeg (s : Seg) (r : Reg)
  /-- `movw r, s` -/
  | movToSeg (r : Reg) (s : Seg)
  /-- `movl off(b), r` -/
  | load (off : BitVec 32) (b r : Reg)
  /-- `movl r, off(b)` -/
  | store (r : Reg) (off : BitVec 32) (b : Reg)
  /-- `addl $v, r` -/
  | add (v : BitVec 32) (r : Reg)
  /-- `subl $v, r` -/
  | sub (v : BitVec 32) (r : Reg)
  /-- `test $v, r` -/
  | test (v : BitVec 32) (r : Reg)
  /-- `testl $v, off(b)` -/
  | testMem (v off : BitVec 32) (b : Reg)

namespace Cpu

def get (c : Cpu) : Reg → BitVec 32
  | .eax => c.eax
  | .ebx => c.ebx
  | .ecx => c.ecx
  | .edx => c.edx
  | .esi => c.esi
  | .edi => c.edi
  | .ebp => c.ebp
  | .esp => c.esp

def set (c : Cpu) (r : Reg) (v : BitVec 32) : Cpu :=
  match r with
  | .eax => { c with eax := v }
  | .ebx => { c with ebx := v }
  | .ecx => { c with ecx := v }
  | .edx => { c with edx := v }
  | .esi => { c with esi := v }
  | .edi => { c with edi := v }
  | .ebp => { c with ebp := v }
  | .esp => { c with esp := v }

def seg (c : Cpu) : Seg → BitVec 16
  | .gs => c.gs
  | .fs => c.fs
  | .es => c.es
  | .ds => c.ds
  | .ss => c.ss

def setSeg (c : Cpu) (s : Seg) (v : BitVec 16) : Cpu :=
  match s with
  | .gs => { c with gs := v }
  | .fs => { c with fs := v }
  | .es => { c with es := v }
  | .ds => { c with ds := v }
  | .ss => { c with ss := v }

def write (c : Cpu) (a v : BitVec 32) : Cpu := { c with mem := Function.update c.mem a v }

def pushVal (c : Cpu) (v : BitVec 32) : Cpu := { c.write (c.esp - 4#32) v with esp := c.esp - 4#32 }

end Cpu

/-- The selector, the low half of a dword. -/
def sel (v : BitVec 32) : BitVec 16 := v.setWidth 16

/-- A selector moved over the dword `old`. -/
def sel32 (z : Bool) (old : BitVec 32) (s : BitVec 16) : BitVec 32 :=
  if z then s.setWidth 32 else old &&& 0xFFFF0000#32 ||| s.setWidth 32

def exec (z : Bool) (c : Cpu) : Instr → Cpu
  | .cli => { c with eflags := c.eflags &&& ~~~0x200#32 }
  | .push r => c.pushVal (c.get r)
  | .pushImm v => c.pushVal v
  | .pushSeg s => c.pushVal (sel32 z (c.mem (c.esp - 4#32)) (c.seg s))
  | .pop r => { c with esp := c.esp + 4#32 }.set r (c.mem c.esp)
  | .popSeg s => { c with esp := c.esp + 4#32 }.setSeg s (sel (c.mem c.esp))
  | .movImm v r => c.set r v
  | .mov src dst => c.set dst (c.get src)
  | .movFromSeg s r => c.set r (sel32 z (c.get r) (c.seg s))
  | .movToSeg r s => c.setSeg s (sel (c.get r))
  | .load off b r => c.set r (c.mem (c.get b + off))
  | .store r off b => c.write (c.get b + off) (c.get r)
  | .add v r => c.set r (c.get r + v)
  | .sub v r => c.set r (c.get r - v)
  | .test v r => { c with zf := c.get r &&& v = 0#32 }
  | .testMem v off b => { c with zf := c.mem (c.get b + off) &&& v = 0#32 }

/-- Run a block of instructions. -/
def run (z : Bool) (block : List Instr) (c : Cpu) : Cpu := block.foldl (exec z) c

/-- A code segment selector of ring 0. -/
def Ring0 (cs : BitVec 16) : Prop := cs.toNat % 4 = 0

instance (cs : BitVec 16) : Decidable (Ring0 cs) := inferInstanceAs (Decidable (_ = _))

/-- The stack that the task state segment names for ring 0. -/
structure Tss where
  esp0 : BitVec 32
  ss0 : BitVec 16

/-- An interrupt arrives: unless it interrupts ring 0 the stack is switched, and the old one saved;
`cs` and `eip` are set to the gate's afterwards, which the stubs do not look at. -/
def interrupt (z : Bool) (tss : Tss) (error : Option (BitVec 32)) (c : Cpu) : Cpu :=
  let pushSel (c : Cpu) (s : BitVec 16) : Cpu := c.pushVal (sel32 z (c.mem (c.esp - 4#32)) s)
  let c' := if Ring0 c.cs then c
    else (pushSel { c with esp := tss.esp0, ss := tss.ss0 } c.ss).pushVal c.esp
  let c' := (pushSel (c'.pushVal c.eflags) c.cs).pushVal c.eip
  match error with
  | none => c'
  | some e => c'.pushVal e

/-- `iret` from ring 0; to another ring it also loads the stack. -/
def iret (c : Cpu) : Cpu :=
  let c' := { c with
    eip := c.mem c.esp
    cs := sel (c.mem (c.esp + 4#32))
    eflags := c.mem (c.esp + 8#32) }
  if Ring0 c'.cs then { c' with esp := c.esp + 12#32 }
  else { c' with esp := c.mem (c.esp + 12#32), ss := sel (c.mem (c.esp + 16#32)) }

/-- The `stack_state_t` at address `p`. -/
def stackState (m : Mem) (p : BitVec 32) : StackState where
  gs := m p
  fs := m (p + 4#32)
  es := m (p + 8#32)
  ds := m (p + 12#32)
  edi := m (p + 16#32)
  esi := m (p + 20#32)
  ebp := m (p + 24#32)
  edx := m (p + 28#32)
  ecx := m (p + 32#32)
  ebx := m (p + 36#32)
  eax := m (p + 40#32)
  int_num := m (p + 44#32)
  err_code := m (p + 48#32)
  eip := m (p + 52#32)
  cs := m (p + 56#32)
  eflags := m (p + 60#32)
  esp := m (p + 64#32)
  ss := m (p + 68#32)

/-- The frame holds the registers of `c`. -/
structure Holds (f : StackState) (c : Cpu) : Prop where
  eax : f.eax = c.eax
  ebx : f.ebx = c.ebx
  ecx : f.ecx = c.ecx
  edx : f.edx = c.edx
  esi : f.esi = c.esi
  edi : f.edi = c.edi
  ebp : f.ebp = c.ebp
  esp : f.esp = c.esp
  gs : sel f.gs = c.gs
  fs : sel f.fs = c.fs
  es : sel f.es = c.es
  ds : sel f.ds = c.ds
  cs : sel f.cs = c.cs
  ss : sel f.ss = c.ss
  eip : f.eip = c.eip
  eflags : f.eflags = c.eflags

/-! ## Selectors and rings -/

/-- A selector survives being moved to a dword. -/
@[simp] theorem sel_sel32 (z : Bool) (old : BitVec 32) (s : BitVec 16) : sel (sel32 z old s) = s := by
  unfold sel sel32
  split
  · simp
  · apply BitVec.eq_of_getLsbD_eq
    intro i hi
    simp [hi]

/-- `testl $3` of a pushed `cs` tells whether it is of ring 0. -/
theorem and_three_iff {v : BitVec 32} : v &&& 3#32 = 0#32 ↔ Ring0 (sel v) := by
  have hand : (v &&& 3#32).toNat = v.toNat % 4 := Nat.and_two_pow_sub_one_eq_mod v.toNat 2
  have hsel : (sel v).toNat = v.toNat % 2 ^ 16 := BitVec.toNat_setWidth ..
  unfold Ring0
  rw [hsel, BitVec.toNat_eq, hand]
  show v.toNat % 4 = 0 ↔ _
  omega

/-! ## Memory below an address -/

/-- Address `a` lies in the `k` bytes below `t`. -/
def Below (t : BitVec 32) (k : Nat) (a : BitVec 32) : Prop := 1 ≤ (t - a).toNat ∧ (t - a).toNat ≤ k

/-- Memories that differ only in the `k` bytes below `t`. -/
def SameOutside (t : BitVec 32) (k : Nat) (m m' : Mem) : Prop := ∀ a, ¬ Below t k a → m' a = m a

variable {t a d : BitVec 32} {k k' : Nat} {m m' m'' : Mem}

theorem Below.mono (h : Below t k a) (hk : k ≤ k') : Below t k' a := ⟨h.1, Nat.le_trans h.2 hk⟩

/-- What is below `t` is below what lies further up. -/
theorem Below.up (h : Below t k a) (hk : k + d.toNat ≤ k') (hlt : k' < 2 ^ 32) : Below (t + d) k' a := by
  obtain ⟨h1, h2⟩ := h
  have hd : t + d - a = t - a + d := by rw [add_sub_right_comm]
  unfold Below
  rw [hd, BitVec.toNat_add, Nat.mod_eq_of_lt (by omega)]
  omega

theorem SameOutside.trans (h : SameOutside t k m m') (h' : SameOutside t k m' m'') :
    SameOutside t k m m'' := fun a ha => (h' a ha).trans (h a ha)

theorem SameOutside.mono (h : SameOutside t k m m') (hk : k ≤ k') : SameOutside t k' m m' :=
  fun a ha => h a fun hb => ha (hb.mono hk)

theorem SameOutside.up (h : SameOutside t k m m') (hk : k + d.toNat ≤ k') (hlt : k' < 2 ^ 32) :
    SameOutside (t + d) k' m m' := fun a ha => h a fun hb => ha (hb.up hk hlt)

/-- An address outside the `k` bytes below `p + t` is none of the cells in them. -/
theorem ne_cell {p : BitVec 32} (h : ¬ Below (p + t) k a) (h1 : 1 ≤ (t - d).toNat)
    (h2 : (t - d).toNat ≤ k) : a ≠ p + d := by
  rintro rfl
  refine h ?_
  unfold Below
  rw [add_sub_add_left_eq_sub]
  exact ⟨h1, h2⟩

/-- The same, for cells counted from the end of the bytes. -/
theorem ne_cell_top {q : BitVec 32} (h : ¬ Below q k a) (h1 : 1 ≤ (0#32 - d).toNat)
    (h2 : (0#32 - d).toNat ≤ k) : a ≠ q + d := by
  refine ne_cell ?_ h1 h2
  rwa [BitVec.add_zero]

/-- A cell above `q` is not in the `k` bytes below. -/
theorem not_below_add {q : BitVec 32} (h : d = 0#32 ∨ k < (-d).toNat) : ¬ Below q k (q + d) := by
  unfold Below
  rw [sub_add_cancel_left]
  rintro ⟨h1, h2⟩
  rcases h with rfl | h
  · exact absurd h1 (by decide)
  · omega

end Condor.Isr
