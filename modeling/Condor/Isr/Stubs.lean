import Condor.Isr.Cpu

/-!
# The stubs of `idt_stubs.S`

The code is kept as lists of instructions, one block for each stretch between
jumps and calls. `p` is the address of the `stack_state_t` in what follows: 72
bytes below the top of the frame, which is the interrupted stack pointer in
ring 0 and the top of the kernel stack else.

`change_stack` shifts the frame of an interrupt in ring 0 down by two dwords, so
that a stack pointer and segment fit above it; `revert_change_stack` moves it
back up, or over to another stack. The copies come in an order that never reads
what was already written.
-/

namespace Condor.Isr

/-! ## The code -/

def isr_no_errno (int_num : Nat) : List Instr := [.pushImm 0#32, .pushImm (.ofNat 32 int_num)]

def isr_errno (int_num : Nat) : List Instr := [.pushImm (.ofNat 32 int_num)]

def irq (int_num : Nat) : List Instr := [.pushImm 0#32, .pushImm (.ofNat 32 int_num)]

/-- `irq_spurious`, up to the call of `ic_checkSpurious`. -/
def irq_spurious_check (int_num : Nat) : List Instr := [
  .push .eax, .push .edx, .push .ecx,
  .pushImm (.ofNat 32 (int_num - 32))]

/-- `irq_spurious` after the call, up to `jnz fini_isr`. -/
def irq_spurious_test : List Instr := [
  .add 4#32 .esp,
  .test 1#32 .eax,
  .pop .ecx, .pop .edx, .pop .eax]

/-- `prep_isr`, up to `jz change_stack`. -/
def prep_isr : List Instr := [
  .cli,
  .testMem 3#32 12#32 .esp]

def change_stack : List Instr := [
  .store .eax (-12#32) .esp,
  -- int num
  .load 0#32 .esp .eax,
  .store .eax (-8#32) .esp,
  -- err code
  .load 4#32 .esp .eax,
  .store .eax (-4#32) .esp,
  -- eip
  .load 8#32 .esp .eax,
  .store .eax 0#32 .esp,
  -- cs
  .load 12#32 .esp .eax,
  .store .eax 4#32 .esp,
  -- eflags
  .load 16#32 .esp .eax,
  .store .eax 8#32 .esp,
  -- esp
  .mov .esp .eax,
  .add 20#32 .eax,
  .store .eax 12#32 .esp,
  -- ss
  .movFromSeg .ss .eax,
  .store .eax 16#32 .esp,
  .sub 8#32 .esp,
  .load (-4#32) .esp .eax]

/-- `common_isr`, up to `call isr_handler`. -/
def common_isr : List Instr := [
  .push .eax, .push .ebx, .push .ecx, .push .edx, .push .ebp, .push .esi, .push .edi,
  .pushSeg .ds, .pushSeg .es, .pushSeg .fs, .pushSeg .gs,
  .movImm 0x10#32 .edx,
  .movToSeg .edx .ds, .movToSeg .edx .es, .movToSeg .edx .fs, .movToSeg .edx .gs,
  .push .esp]

/-- `common_isr` after the call, up to `jz revert_change_stack`. -/
def common_isr_return : List Instr := [
  .add 4#32 .esp,
  .popSeg .gs, .popSeg .fs, .popSeg .es, .popSeg .ds,
  .pop .edi, .pop .esi, .pop .ebp, .pop .edx, .pop .ecx, .pop .ebx, .pop .eax,
  .add 8#32 .esp,
  .testMem 3#32 4#32 .esp]

/-- `revert_change_stack`: save three registers, and get the new stack. -/
def revert_setup : List Instr := [
  .store .eax (-4#32) .esp,
  .store .ebx (-8#32) .esp,
  .store .ecx (-12#32) .esp,
  .load 12#32 .esp .ebx,
  .load 16#32 .esp .ecx,
  .sub 12#32 .ebx]

/-- Copy what was saved to the new stack. -/
def revert_copy : List Instr := [
  -- eax
  .load (-4#32) .esp .eax,
  .store .eax (-12#32) .ebx,
  -- ebx
  .load (-8#32) .esp .eax,
  .store .eax (-16#32) .ebx,
  -- ecx
  .load (-12#32) .esp .eax,
  .store .eax (-20#32) .ebx,
  -- eflags
  .load 8#32 .esp .eax,
  .store .eax 8#32 .ebx,
  -- cs
  .load 4#32 .esp .eax,
  .store .eax 4#32 .ebx,
  -- eip
  .load 0#32 .esp .eax,
  .store .eax 0#32 .ebx]

/-- Switch to the new stack, and restore the three registers. -/
def revert_switch : List Instr := [
  .movToSeg .ecx .ss,
  .mov .ebx .esp,
  .load (-12#32) .esp .eax,
  .load (-16#32) .esp .ebx,
  .load (-20#32) .esp .ecx]

def revert_change_stack : List Instr := revert_setup ++ revert_copy ++ revert_switch

/-- The vectors for which the processor pushes an error code; they have the `isr_errno` stubs. -/
def errorVectors : List Nat := [8, 10, 11, 12, 13, 14, 17, 30]

/-- The vectors with `irq_spurious` stubs. -/
def spuriousVectors : List Nat := [39, 47]

/-- The stub of a vector up to `prep_isr`; there is no result if it goes to `fini_isr` instead, or if the
vector has no stub. `check` is the call of `ic_checkSpurious`. -/
def stub (z : Bool) (check : Cpu → Cpu) (int_num : Nat) (c : Cpu) : Option Cpu :=
  if int_num ∈ errorVectors then some (run z (isr_errno int_num) c)
  else if int_num ∈ spuriousVectors then
    let c := run z irq_spurious_test (check (run z (irq_spurious_check int_num) c))
    if c.zf then some (run z (isr_no_errno int_num) c) else none
  else if int_num < 32 then some (run z (isr_no_errno int_num) c)
  else if int_num < 48 then some (run z (irq int_num) c)
  else none

/-- From `prep_isr` to the entry of `isr_handler`, with `ret` the return address. -/
def isr_entry (z : Bool) (ret : BitVec 32) (c : Cpu) : Cpu :=
  let c := run z prep_isr c
  let c := if c.zf then run z change_stack c else c
  (run z common_isr c).pushVal ret

/-- From the return of `isr_handler` to the end of `iret`. -/
def isr_exit (z : Bool) (c : Cpu) : Cpu :=
  let c := run z common_isr_return c
  iret (if c.zf then run z revert_change_stack c else c)

/-! ## What the blocks do -/

/-- The registers that the trap frame's first eleven dwords stand for are the same. -/
structure SameRegs (c c' : Cpu) : Prop where
  eax : c'.eax = c.eax
  ebx : c'.ebx = c.ebx
  ecx : c'.ecx = c.ecx
  edx : c'.edx = c.edx
  esi : c'.esi = c.esi
  edi : c'.edi = c.edi
  ebp : c'.ebp = c.ebp
  gs : c'.gs = c.gs
  fs : c'.fs = c.fs
  es : c'.es = c.es
  ds : c'.ds = c.ds

theorem SameRegs.refl (c : Cpu) : SameRegs c c := ⟨rfl, rfl, rfl, rfl, rfl, rfl, rfl, rfl, rfl, rfl, rfl⟩

theorem SameRegs.trans {c c' c'' : Cpu} (h : SameRegs c c') (h' : SameRegs c' c'') : SameRegs c c'' :=
  ⟨h'.eax.trans h.eax, h'.ebx.trans h.ebx, h'.ecx.trans h.ecx, h'.edx.trans h.edx,
    h'.esi.trans h.esi, h'.edi.trans h.edi, h'.ebp.trans h.ebp, h'.gs.trans h.gs, h'.fs.trans h.fs,
    h'.es.trans h.es, h'.ds.trans h.ds⟩

variable {z : Bool} {c : Cpu} {p e : BitVec 32}

/-- The frame moves down by two dwords, and the stack pointer and segment are put above it. -/
theorem change_stack_spec (h : c.esp = p + 52#32) :
    let c' := run z change_stack c
    SameRegs c c' ∧ c'.esp = p + 44#32 ∧ c'.mem (p + 44#32) = c.mem (p + 52#32) ∧
      c'.mem (p + 52#32) = c.mem (p + 60#32) ∧ c'.mem (p + 56#32) = c.mem (p + 64#32) ∧
      c'.mem (p + 60#32) = c.mem (p + 68#32) ∧ c'.mem (p + 64#32) = p + 72#32 ∧
      sel (c'.mem (p + 68#32)) = c.ss ∧ SameOutside (p + 72#32) 80 c.mem c'.mem := by
  simp only [run, change_stack, List.foldl, exec, Cpu.get, Cpu.set, Cpu.write, Cpu.seg, h]
  simp only [BitVec.sub_eq_add_neg, BitVec.add_assoc, BitVec.reduceNeg, BitVec.reduceAdd]
  refine ⟨⟨?_, rfl, rfl, rfl, rfl, rfl, rfl, rfl, rfl, rfl, rfl⟩, trivial, ?_, ?_, ?_, ?_, ?_, ?_, fun a ha => ?_⟩
  all_goals simp
  simp [ne_cell ha]

/-- The pushes of `common_isr` complete the trap frame at `p`, and its address is the argument. -/
theorem common_isr_spec (h : c.esp = p + 44#32) :
    let c' := run z common_isr c
    c'.esp = p - 4#32 ∧ c'.mem (p - 4#32) = p ∧ SameOutside (p + 44#32) 48 c.mem c'.mem ∧
      let f := stackState c'.mem p
      f.eax = c.eax ∧ f.ebx = c.ebx ∧ f.ecx = c.ecx ∧ f.edx = c.edx ∧ f.esi = c.esi ∧ f.edi = c.edi ∧
        f.ebp = c.ebp ∧ sel f.gs = c.gs ∧ sel f.fs = c.fs ∧ sel f.es = c.es ∧ sel f.ds = c.ds := by
  simp only [run, common_isr, List.foldl, exec, Cpu.get, Cpu.set, Cpu.write, Cpu.seg, Cpu.setSeg,
    Cpu.pushVal, stackState, h]
  simp only [BitVec.sub_eq_add_neg, BitVec.add_assoc, BitVec.reduceNeg, BitVec.reduceAdd]
  refine ⟨trivial, ?_, fun a ha => ?_, ?_⟩
  · simp
  · have hp : a ≠ p + 0#32 := ne_cell ha (by decide) (by decide)
    rw [BitVec.add_zero] at hp
    simp [ne_cell ha, hp]
  · simp

/-- The pops take the registers from the frame at `p`, and the test looks at its `cs`. -/
theorem common_isr_return_spec (h : c.esp = p - 4#32) :
    let c' := run z common_isr_return c
    c'.mem = c.mem ∧ c'.esp = p + 52#32 ∧ (c'.zf = true ↔ Ring0 (sel (c.mem (p + 56#32)))) ∧
      let f := stackState c.mem p
      f.eax = c'.eax ∧ f.ebx = c'.ebx ∧ f.ecx = c'.ecx ∧ f.edx = c'.edx ∧ f.esi = c'.esi ∧
        f.edi = c'.edi ∧ f.ebp = c'.ebp ∧ sel f.gs = c'.gs ∧ sel f.fs = c'.fs ∧ sel f.es = c'.es ∧
        sel f.ds = c'.ds := by
  simp only [run, common_isr_return, List.foldl, exec, Cpu.get, Cpu.set, Cpu.setSeg, stackState, h]
  simp only [BitVec.sub_eq_add_neg, BitVec.add_assoc, BitVec.reduceNeg, BitVec.reduceAdd]
  refine ⟨trivial, ?_, ?_, ?_⟩
  · trivial
  · simp [and_three_iff]
  · simp

/-- `e` is a stack pointer for a return to ring 0 from the frame at `p`: the top of the frame, or one
with 32 bytes below it that are none of the last 32 bytes of the frame. -/
def CanMove (p e : BitVec 32) : Prop :=
  e = p + 72#32 ∨ ∀ i j : BitVec 32, i.toNat < 32 → j.toNat < 32 → e - 32#32 + i ≠ p + 40#32 + j

theorem revert_setup_spec (h : c.esp = p + 52#32) :
    let m := Function.update (Function.update (Function.update c.mem (p + 48#32) c.eax)
      (p + 44#32) c.ebx) (p + 40#32) c.ecx
    run z revert_setup c = { c with ebx := c.mem (p + 64#32) - 12#32, ecx := c.mem (p + 68#32), mem := m } := by
  simp only [run, revert_setup, List.foldl, exec, Cpu.get, Cpu.set, Cpu.write, h]
  simp only [BitVec.add_assoc, BitVec.reduceNeg, BitVec.reduceAdd]
  simp

/-- Dwords are copied through `eax`, each from an offset to `esp` to one to `ebx`. -/
def copies (l : List (BitVec 32 × BitVec 32)) : List Instr :=
  l.flatMap fun o => [.load o.1 .esp .eax, .store .eax o.2 .ebx]

/-- Copies in an order in which no source was written before have the effect of copying all at
once. -/
theorem run_copies {l : List (BitVec 32 × BitVec 32)}
    (hord : l.Pairwise fun a b => c.esp + b.1 ≠ c.ebx + a.2) :
    let c' := run z (copies l) c
    c' = { c with eax := c'.eax, mem := c'.mem } ∧
      c'.mem = l.foldl (fun m o => Function.update m (c.ebx + o.2) (c.mem (c.esp + o.1))) c.mem := by
  induction l generalizing c with
  | nil => exact ⟨rfl, rfl⟩
  | cons a l ih =>
    obtain ⟨hhead, htail⟩ := List.pairwise_cons.mp hord
    let c1 : Cpu := { c with
      eax := c.mem (c.esp + a.1)
      mem := Function.update c.mem (c.ebx + a.2) (c.mem (c.esp + a.1)) }
    have hread : ∀ m : Mem, ∀ b ∈ l, Function.update m (c.ebx + b.2) (c1.mem (c.esp + b.1)) =
        Function.update m (c.ebx + b.2) (c.mem (c.esp + b.1)) := by
      intro m b hb
      rw [show c1.mem (c.esp + b.1) = c.mem (c.esp + b.1) from
        Function.update_of_ne (hhead b hb) _ _]
    have hstep : run z (copies (a :: l)) c = run z (copies l) c1 := rfl
    obtain ⟨hregs, hmem⟩ := ih (c := c1) htail
    rw [hstep]
    exact ⟨hregs, hmem.trans (List.foldl_ext _ _ _ hread)⟩

/-- The copies to the new stack keep to the order: no source lies where something was put before. -/
theorem revert_copy_order (h : c.esp = p + 52#32) (hb : c.ebx = e - 12#32) (hok : CanMove p e) :
    [(-4#32, -12#32), (-8#32, -16#32), (-12#32, -20#32), (8#32, 8#32), (4#32, 4#32), (0#32, 0#32)].Pairwise
      fun a b => c.esp + b.1 ≠ c.ebx + a.2 := by
  rw [h, hb]
  rcases hok with rfl | hne
  · simp [BitVec.sub_eq_add_neg, BitVec.add_assoc]
  · have hcell (a b : BitVec 32) (ha : (a - 40#32).toNat < 32) (hb : (b + 32#32).toNat < 32) :
        p + a ≠ e + b := by
      have := hne (b + 32#32) (a - 40#32) hb ha
      rwa [sub_add_add_cancel, add_add_sub_cancel, ne_comm] at this
    simp [BitVec.sub_eq_add_neg, BitVec.add_assoc, hcell]

/-- What was saved is found again below the new stack pointer. -/
theorem revert_copy_spec (h : c.esp = p + 52#32) (hb : c.ebx = e - 12#32) (hok : CanMove p e) :
    let c' := run z revert_copy c
    c' = { c with eax := c'.eax, mem := c'.mem } ∧
      c'.mem (e - 24#32) = c.mem (p + 48#32) ∧ c'.mem (e - 28#32) = c.mem (p + 44#32) ∧
      c'.mem (e - 32#32) = c.mem (p + 40#32) ∧ c'.mem (e - 12#32) = c.mem (p + 52#32) ∧
      c'.mem (e - 8#32) = c.mem (p + 56#32) ∧ c'.mem (e - 4#32) = c.mem (p + 60#32) ∧
      SameOutside e 32 c.mem c'.mem := by
  intro c'
  obtain ⟨hregs, hmem⟩ := run_copies (z := z) (revert_copy_order h hb hok)
  simp only [List.foldl, h, hb, BitVec.sub_eq_add_neg, BitVec.add_assoc, BitVec.reduceNeg,
    BitVec.reduceAdd] at hmem
  refine ⟨hregs, ?_⟩
  rw [show c'.mem = _ from hmem]
  simp only [BitVec.sub_eq_add_neg, BitVec.reduceNeg]
  refine ⟨?_, ?_, ?_, ?_, ?_, ?_, fun a ha => ?_⟩
  all_goals try simp
  simp [ne_cell_top ha]

theorem revert_switch_spec (h : c.ebx = e - 12#32) :
    run z revert_switch c = { c with
      eax := c.mem (e - 24#32)
      ebx := c.mem (e - 28#32)
      ecx := c.mem (e - 32#32)
      esp := e - 12#32
      ss := sel c.ecx } := by
  simp only [run, revert_switch, List.foldl, exec, Cpu.get, Cpu.set, Cpu.setSeg, h]
  simp only [BitVec.sub_eq_add_neg, BitVec.add_assoc, BitVec.reduceNeg, BitVec.reduceAdd]

/-- The return frame moves below the new stack pointer, with the registers as they were. -/
theorem revert_change_stack_spec (h : c.esp = p + 52#32) (he : c.mem (p + 64#32) = e)
    (hok : CanMove p e) :
    let c' := run z revert_change_stack c
    SameRegs c c' ∧ c'.esp = e - 12#32 ∧ c'.ss = sel (c.mem (p + 68#32)) ∧
      c'.mem (e - 12#32) = c.mem (p + 52#32) ∧ c'.mem (e - 8#32) = c.mem (p + 56#32) ∧
      c'.mem (e - 4#32) = c.mem (p + 60#32) ∧
      (e = p + 72#32 → SameOutside (p + 72#32) 32 c.mem c'.mem) := by
  have hrun : run z revert_change_stack c =
      run z revert_switch (run z revert_copy (run z revert_setup c)) := by
    unfold run revert_change_stack
    rw [List.foldl_append, List.foldl_append]
  rw [hrun]
  generalize hc1 : run z revert_setup c = c1
  have h1 := hc1.symm.trans (revert_setup_spec h)
  rw [he] at h1
  have hebx : c1.ebx = e - 12#32 := by rw [h1]
  obtain ⟨h2, hm24, hm28, hm32, hm12, hm8, hm4, hout⟩ :=
    revert_copy_spec (z := z) (by rw [h1]; exact h) hebx hok
  generalize hc2 : run z revert_copy c1 = c2 at h2 hm24 hm28 hm32 hm12 hm8 hm4 hout ⊢
  have hkept := congrArg Cpu.mem h1
  have hout' : e = p + 72#32 → SameOutside (p + 72#32) 32 c.mem c2.mem := by
    rintro rfl
    refine SameOutside.trans (fun a ha => ?_) hout
    rw [hkept]
    simp [ne_cell ha]
  rw [revert_switch_spec ((congrArg Cpu.ebx h2).trans hebx)]
  refine ⟨⟨hm24.trans ?_, hm28.trans ?_, hm32.trans ?_, ?_, ?_, ?_, ?_, ?_, ?_, ?_, ?_⟩, rfl, ?_,
    hm12.trans ?_, hm8.trans ?_, hm4.trans ?_, hout'⟩
  any_goals rw [h2, h1]
  all_goals simp [hkept]

end Condor.Isr
