import Condor.Isr.Stubs

/-!
# From the interrupt to the handler and back

`isr_context` is about one interrupt: the trap frame that `isr_handler` is given
has the registers of what was interrupted, and what the handler leaves in the
frame is what is resumed. The return frame that the processor pushed, at `q`,
is followed through the vector's stub to `prep_isr`.
-/

namespace Condor.Isr

/-- The error code that the processor pushes for a vector. -/
def errorCode (n : Nat) (e : BitVec 32) : Option (BitVec 32) := if n ∈ errorVectors then some e else none

/-- The top of the trap frame. -/
def frameTop (tss : Tss) (ctx : Cpu) : BitVec 32 := if Ring0 ctx.cs then ctx.esp else tss.esp0

/-- The address of the return frame that the processor pushes. -/
def frameBase (tss : Tss) (ctx : Cpu) : BitVec 32 :=
  if Ring0 ctx.cs then ctx.esp - 12#32 else tss.esp0 - 20#32

/-- A call of C code with at most `depth` bytes of stack, its argument included: it keeps what the
calling convention says. -/
structure Cdecl (f : Cpu → Cpu) (depth : Nat) : Prop where
  esp (c : Cpu) : (f c).esp = c.esp
  ebx (c : Cpu) : (f c).ebx = c.ebx
  esi (c : Cpu) : (f c).esi = c.esi
  edi (c : Cpu) : (f c).edi = c.edi
  ebp (c : Cpu) : (f c).ebp = c.ebp
  gs (c : Cpu) : (f c).gs = c.gs
  fs (c : Cpu) : (f c).fs = c.fs
  es (c : Cpu) : (f c).es = c.es
  ds (c : Cpu) : (f c).ds = c.ds
  ss (c : Cpu) : (f c).ss = c.ss
  mem (c : Cpu) : SameOutside (c.esp + 4#32) depth c.mem (f c).mem

/-- The return frame of `ctx` is at `q`, and nothing else of it was changed. -/
structure Saved (q : BitVec 32) (ctx c : Cpu) : Prop where
  regs : SameRegs ctx c
  eip : c.mem q = ctx.eip
  cs : sel (c.mem (q + 4#32)) = ctx.cs
  eflags : c.mem (q + 8#32) = ctx.eflags
  esp : ¬ Ring0 ctx.cs → c.mem (q + 12#32) = ctx.esp
  ss : ¬ Ring0 ctx.cs → sel (c.mem (q + 16#32)) = ctx.ss
  ss0 : Ring0 ctx.cs → c.ss = ctx.ss

variable {z : Bool} {tss : Tss} {ctx c c' : Cpu} {p q e : BitVec 32} {err : Option (BitVec 32)}
  {check : Cpu → Cpu} {depth n : Nat}

theorem Saved.keep (h : Saved q ctx c) (hregs : SameRegs c c') (hss : c'.ss = c.ss) {k : Nat}
    (hm : SameOutside q k c.mem c'.mem) (hk : k < 2 ^ 32 - 16) : Saved q ctx c' := by
  have hcell (d : BitVec 32) (hd : d = 0#32 ∨ k < (-d).toNat) : c'.mem (q + d) = c.mem (q + d) :=
    hm _ (not_below_add hd)
  have h0 : c'.mem q = c.mem q := by simpa using hcell 0#32 (.inl rfl)
  constructor
  · exact h.regs.trans hregs
  · exact h0.trans h.eip
  · rw [hcell 4#32 (.inr (by simp; omega))]
    exact h.cs
  · rw [hcell 8#32 (.inr (by simp; omega))]
    exact h.eflags
  · rw [hcell 12#32 (.inr (by simp; omega))]
    exact h.esp
  · rw [hcell 16#32 (.inr (by simp; omega))]
    exact h.ss
  · rw [hss]
    exact h.ss0

/-- The return frame that the processor pushes is that of `ctx`. -/
theorem interrupt_spec (z : Bool) (tss : Tss) (ctx : Cpu) :
    let c := interrupt z tss none ctx
    Saved (frameBase tss ctx) ctx c ∧ c.esp = frameBase tss ctx ∧
      SameOutside (frameTop tss ctx) 20 ctx.mem c.mem := by
  unfold interrupt frameBase frameTop
  by_cases h : Ring0 ctx.cs
  · simp only [h, if_true, Cpu.pushVal, Cpu.write]
    simp only [BitVec.sub_eq_add_neg, BitVec.add_assoc, BitVec.reduceNeg, BitVec.reduceAdd]
    refine ⟨⟨⟨rfl, rfl, rfl, rfl, rfl, rfl, rfl, rfl, rfl, rfl, rfl⟩, ?_, ?_, ?_, ?_, ?_, ?_⟩,
      trivial, fun a ha => ?_⟩
    all_goals simp [BitVec.add_assoc, h]
    simp [ne_cell_top ha]
  · simp only [h, if_false, Cpu.pushVal, Cpu.write]
    simp only [BitVec.sub_eq_add_neg, BitVec.add_assoc, BitVec.reduceNeg, BitVec.reduceAdd]
    refine ⟨⟨⟨rfl, rfl, rfl, rfl, rfl, rfl, rfl, rfl, rfl, rfl, rfl⟩, ?_, ?_, ?_, ?_, ?_, ?_⟩,
      trivial, fun a ha => ?_⟩
    all_goals simp [BitVec.add_assoc, h]
    simp [ne_cell_top ha]

/-- What is done below the return frame is done below the top of the trap frame. -/
theorem SameOutside.of_frameBase {m m' : Mem} {k k' : Nat} (h : SameOutside (frameBase tss ctx) k m m')
    (hk : k + 20 ≤ k') (hlt : k' < 2 ^ 32) : SameOutside (frameTop tss ctx) k' m m' := by
  unfold frameBase at h
  unfold frameTop
  by_cases hr : Ring0 ctx.cs
  · rw [if_pos hr] at h ⊢
    have h' := h.up (d := 12#32) (by simp; omega) hlt
    rwa [BitVec.sub_add_cancel] at h'
  · rw [if_neg hr] at h ⊢
    have h' := h.up (d := 20#32) (by simp; omega) hlt
    rwa [BitVec.sub_add_cancel] at h'

theorem SameRegs.pushVal (c : Cpu) (v : BitVec 32) : SameRegs c (c.pushVal v) := by
  unfold Cpu.pushVal Cpu.write
  exact ⟨rfl, rfl, rfl, rfl, rfl, rfl, rfl, rfl, rfl, rfl, rfl⟩

/-- The error code and the number are pushed below the return frame. -/
theorem Saved.push (h : Saved q ctx c) (hesp : c.esp = q) (v w : BitVec 32) :
    let c' := (c.pushVal v).pushVal w
    Saved q ctx c' ∧ c'.esp = q - 8#32 ∧ c'.mem (q - 8#32) = w ∧ SameOutside q 8 c.mem c'.mem := by
  have hm : SameOutside q 8 c.mem ((c.pushVal v).pushVal w).mem := by
    intro a ha
    simp [Cpu.pushVal, Cpu.write, BitVec.sub_eq_add_neg, BitVec.add_assoc, hesp, ne_cell_top ha]
  have hregs : SameRegs c ((c.pushVal v).pushVal w) := (SameRegs.pushVal c v).trans (SameRegs.pushVal _ w)
  have hss : ((c.pushVal v).pushVal w).ss = c.ss := by simp only [Cpu.pushVal, Cpu.write]
  refine ⟨h.keep hregs hss hm (by omega), ?_, ?_, hm⟩
  all_goals simp [Cpu.pushVal, Cpu.write, BitVec.sub_eq_add_neg, BitVec.add_assoc, hesp]

theorem irq_spurious_check_spec (hesp : c.esp = q) :
    run z (irq_spurious_check n) c = { c with
      esp := q - 16#32
      mem := Function.update (Function.update (Function.update (Function.update c.mem
        (q - 4#32) c.eax) (q - 8#32) c.edx) (q - 12#32) c.ecx) (q - 16#32) (.ofNat 32 (n - 32)) } := by
  simp only [run, irq_spurious_check, List.foldl, exec, Cpu.get, Cpu.pushVal, Cpu.write, hesp]
  simp only [BitVec.sub_eq_add_neg, BitVec.add_assoc, BitVec.reduceNeg, BitVec.reduceAdd]

/-- The check keeps the registers, with the help of what the stub saves. -/
theorem irq_spurious_spec (hcheck : Cdecl check depth) (hd : depth + 80 < 2 ^ 32) (hesp : c.esp = q) :
    let c' := run z irq_spurious_test (check (run z (irq_spurious_check n) c))
    SameRegs c c' ∧ c'.ss = c.ss ∧ c'.esp = q ∧ SameOutside q (16 + depth) c.mem c'.mem := by
  generalize hc1 : run z (irq_spurious_check n) c = c1
  have h1 := hc1.symm.trans (irq_spurious_check_spec hesp)
  have hm := congrArg Cpu.mem h1
  have hesp1 : c1.esp = q - 16#32 := by rw [h1]
  have hregs : SameRegs c c1 := by
    rw [h1]
    exact ⟨rfl, rfl, rfl, rfl, rfl, rfl, rfl, rfl, rfl, rfl, rfl⟩
  have hss : c1.ss = c.ss := by rw [h1]
  have hmem := hcheck.mem c1
  simp only [BitVec.sub_eq_add_neg, BitVec.reduceNeg] at hm
  simp only [hesp1, BitVec.sub_eq_add_neg, BitVec.add_assoc, BitVec.reduceNeg, BitVec.reduceAdd] at hmem
  have hpush : SameOutside q 16 c.mem c1.mem := by
    intro a ha
    rw [hm]
    simp [ne_cell_top ha]
  have hcall : SameOutside (q + 4294967284#32 + 12#32) (16 + depth) c1.mem (check c1).mem :=
    hmem.up (by simp; omega) (by omega)
  simp only [BitVec.add_assoc, BitVec.reduceAdd, BitVec.add_zero] at hcall
  -- what the stub saved is not in the stack of the check
  have hcell (d : BitVec 32) (hd : d = 0#32 ∨ depth < (-d).toNat) :
      (check c1).mem (q + (4294967284#32 + d)) = c1.mem (q + (4294967284#32 + d)) := by
    rw [← BitVec.add_assoc]
    exact hmem _ (not_below_add hd)
  have heax := hcell 8#32 (.inr (by simp; omega))
  have hedx := hcell 4#32 (.inr (by simp; omega))
  have hecx := hcell 0#32 (.inl rfl)
  simp only [hm, BitVec.reduceAdd] at heax hedx hecx
  simp only [run, irq_spurious_test, List.foldl, exec, Cpu.get, Cpu.set, hcheck.esp, hesp1]
  simp only [BitVec.sub_eq_add_neg, BitVec.add_assoc, BitVec.reduceNeg, BitVec.reduceAdd]
  refine ⟨⟨heax.trans (by simp), ?_, hecx.trans (by simp), hedx.trans (by simp), ?_, ?_, ?_, ?_, ?_, ?_, ?_⟩,
    ?_, BitVec.add_zero q, (hpush.mono (by omega)).trans hcall⟩
  · exact (hcheck.ebx c1).trans hregs.ebx
  · exact (hcheck.esi c1).trans hregs.esi
  · exact (hcheck.edi c1).trans hregs.edi
  · exact (hcheck.ebp c1).trans hregs.ebp
  · exact (hcheck.gs c1).trans hregs.gs
  · exact (hcheck.fs c1).trans hregs.fs
  · exact (hcheck.es c1).trans hregs.es
  · exact (hcheck.ds c1).trans hregs.ds
  · exact (hcheck.ss c1).trans hss

/-- At `prep_isr` the return frame is that of `ctx`, with the number of the vector below. -/
theorem stub_spec (hcheck : Cdecl check depth) (hd : depth + 80 < 2 ^ 32)
    (h : stub z check n (interrupt z tss (errorCode n e) ctx) = some c) :
    let q := frameBase tss ctx
    Saved q ctx c ∧ c.esp = q - 8#32 ∧ c.mem (q - 8#32) = .ofNat 32 n ∧
      SameOutside (frameTop tss ctx) (80 + depth) ctx.mem c.mem := by
  obtain ⟨hsaved, hesp, hout⟩ := interrupt_spec z tss ctx
  have hpush {c0 : Cpu} (hc0 : Saved (frameBase tss ctx) ctx c0) (hesp0 : c0.esp = frameBase tss ctx)
      (hout0 : SameOutside (frameTop tss ctx) (80 + depth) ctx.mem c0.mem) (v : BitVec 32)
      (hc : c = (c0.pushVal v).pushVal (.ofNat 32 n)) :
      Saved (frameBase tss ctx) ctx c ∧ c.esp = frameBase tss ctx - 8#32 ∧
        c.mem (frameBase tss ctx - 8#32) = .ofNat 32 n ∧
        SameOutside (frameTop tss ctx) (80 + depth) ctx.mem c.mem := by
    subst hc
    obtain ⟨h1, h2, h3, h4⟩ := hc0.push hesp0 v (.ofNat 32 n)
    exact ⟨h1, h2, h3, hout0.trans (h4.of_frameBase (by omega) (by omega))⟩
  have hout0 : SameOutside (frameTop tss ctx) (80 + depth) ctx.mem (interrupt z tss none ctx).mem :=
    hout.mono (by omega)
  unfold stub errorCode at h
  by_cases herr : n ∈ errorVectors
  · rw [if_pos herr, if_pos herr, Option.some_inj] at h
    exact hpush hsaved hesp hout0 e h.symm
  · rw [if_neg herr, if_neg herr] at h
    by_cases hspurious : n ∈ spuriousVectors
    · rw [if_pos hspurious] at h
      obtain ⟨hregs, hss, hesp1, hmem⟩ := irq_spurious_spec (z := z) (n := n) hcheck hd hesp
      have hsaved1 := hsaved.keep hregs hss hmem (by omega)
      have hout1 := hout0.trans (hmem.of_frameBase (by omega) (by omega))
      have hlast := (Option.ite_none_right_eq_some.mp h).2
      exact hpush hsaved1 hesp1 hout1 0#32 (Option.some_inj.mp hlast).symm
    · rw [if_neg hspurious] at h
      have hlast : c = ((interrupt z tss none ctx).pushVal 0#32).pushVal (.ofNat 32 n) := by
        by_cases hlow : n < 32
        · rw [if_pos hlow] at h
          exact (Option.some_inj.mp h).symm
        · rw [if_neg hlow] at h
          exact (Option.some_inj.mp (Option.ite_none_right_eq_some.mp h).2).symm
      exact hpush hsaved hesp hout0 0#32 hlast

/-- The trap frame at `p` but for the registers, which are still those of `ctx`. -/
structure Ready (p : BitVec 32) (n : Nat) (ctx c : Cpu) : Prop where
  regs : SameRegs ctx c
  top : c.esp = p + 44#32
  int_num : c.mem (p + 44#32) = .ofNat 32 n
  eip : c.mem (p + 52#32) = ctx.eip
  cs : sel (c.mem (p + 56#32)) = ctx.cs
  eflags : c.mem (p + 60#32) = ctx.eflags
  esp : c.mem (p + 64#32) = ctx.esp
  ss : sel (c.mem (p + 68#32)) = ctx.ss

theorem prep_isr_spec (h : c.esp = q - 8#32) :
    run z prep_isr c = { c with
      eflags := c.eflags &&& ~~~0x200#32
      zf := c.mem (q + 4#32) &&& 3#32 = 0#32 } := by
  simp only [run, prep_isr, List.foldl, exec, Cpu.get, h]
  simp only [BitVec.sub_eq_add_neg, BitVec.add_assoc, BitVec.reduceNeg, BitVec.reduceAdd]

/-- `change_stack` makes room in ring 0 for what the processor pushes only in the other rings. -/
theorem Saved.ready (h : Saved (p + 60#32) ctx c) (hr : Ring0 ctx.cs) (hp : ctx.esp = p + 72#32)
    (hesp : c.esp = p + 52#32) (hnum : c.mem (p + 52#32) = .ofNat 32 n) :
    Ready p n ctx (run z change_stack c) := by
  obtain ⟨hregs, htop, h44, h52, h56, h60, h64, h68, -⟩ := change_stack_spec (z := z) hesp
  have hcs := h.cs
  have hflags := h.eflags
  rw [BitVec.add_assoc, BitVec.ofNat_add_ofNat] at hcs hflags
  exact ⟨h.regs.trans hregs, htop, h44.trans hnum, h52.trans h.eip, (congrArg sel h56).trans hcs,
    h60.trans hflags, h64.trans hp.symm, h68.trans (h.ss0 hr)⟩

theorem Saved.ready_user (h : Saved (p + 52#32) ctx c) (hr : ¬ Ring0 ctx.cs) (hesp : c.esp = p + 44#32)
    (hnum : c.mem (p + 44#32) = .ofNat 32 n) : Ready p n ctx c := by
  have hcs := h.cs
  have hflags := h.eflags
  have hsp := h.esp hr
  have hss := h.ss hr
  rw [BitVec.add_assoc, BitVec.ofNat_add_ofNat] at hcs hflags hsp hss
  exact ⟨h.regs, hesp, hnum, h.eip, hcs, hflags, hsp, hss⟩

/-- With two more dwords in ring 0 the frame looks the same from all rings. -/
theorem prep_spec (hp : frameTop tss ctx = p + 72#32) (hs : Saved (frameBase tss ctx) ctx c)
    (hesp : c.esp = frameBase tss ctx - 8#32) (hnum : c.mem (frameBase tss ctx - 8#32) = .ofNat 32 n) :
    let c1 := run z prep_isr c
    let c2 := if c1.zf then run z change_stack c1 else c1
    Ready p n ctx c2 ∧ SameOutside (p + 72#32) 80 c.mem c2.mem := by
  have hprep := prep_isr_spec (z := z) hesp
  have hzf : (run z prep_isr c).zf = decide (Ring0 ctx.cs) := by
    rw [hprep, ← hs.cs]
    exact decide_eq_decide.mpr and_three_iff
  have hs1 : Saved (frameBase tss ctx) ctx (run z prep_isr c) := by
    rw [hprep]
    exact ⟨hs.regs.trans ⟨rfl, rfl, rfl, rfl, rfl, rfl, rfl, rfl, rfl, rfl, rfl⟩, hs.eip, hs.cs,
      hs.eflags, hs.esp, hs.ss, hs.ss0⟩
  have hmem1 : (run z prep_isr c).mem = c.mem := by rw [hprep]
  have hesp1 : (run z prep_isr c).esp = c.esp := by rw [hprep]
  generalize run z prep_isr c = c1 at hzf hs1 hmem1 hesp1 ⊢
  rw [hesp] at hesp1
  rw [← hmem1] at hnum ⊢
  unfold frameTop at hp
  unfold frameBase at hs1 hesp1 hnum
  by_cases hr : Ring0 ctx.cs
  · rw [if_pos hr] at hp hs1 hesp1 hnum
    have hbase : ctx.esp - 12#32 = p + 60#32 := by
      rw [hp, BitVec.sub_eq_add_neg, BitVec.add_assoc]
      rfl
    have hlow : ctx.esp - 12#32 - 8#32 = p + 52#32 := by
      rw [hbase, BitVec.sub_eq_add_neg, BitVec.add_assoc]
      rfl
    rw [hlow] at hesp1 hnum
    rw [hbase] at hs1
    have hready := hs1.ready (z := z) hr hp hesp1 hnum
    obtain ⟨-, -, -, -, -, -, -, -, hout⟩ := change_stack_spec (z := z) hesp1
    simp only [hzf, hr, decide_true, if_true]
    exact ⟨hready, hout⟩
  · rw [if_neg hr] at hp hs1 hesp1 hnum
    have hbase : tss.esp0 - 20#32 = p + 52#32 := by
      rw [hp, BitVec.sub_eq_add_neg, BitVec.add_assoc]
      rfl
    have hlow : tss.esp0 - 20#32 - 8#32 = p + 44#32 := by
      rw [hbase, BitVec.sub_eq_add_neg, BitVec.add_assoc]
      rfl
    rw [hlow] at hesp1 hnum
    rw [hbase] at hs1
    simp only [hzf, hr, decide_false]
    exact ⟨hs1.ready_user hr hesp1 hnum, fun _ _ => rfl⟩

theorem Ready.common_isr_spec (h : Ready p n ctx c) :
    let c' := run z common_isr c
    Holds (stackState c'.mem p) ctx ∧ (stackState c'.mem p).int_num = .ofNat 32 n := by
  obtain ⟨-, -, hout, heax, hebx, hecx, hedx, hesi, hedi, hebp, hgs, hfs, hes, hds⟩ :=
    Isr.common_isr_spec (z := z) h.top
  generalize run z common_isr c = c' at *
  have hcell (d : BitVec 32) (hd : d = 0#32 ∨ 48 < (-d).toNat) :
      c'.mem (p + (44#32 + d)) = c.mem (p + (44#32 + d)) := by
    rw [← BitVec.add_assoc]
    exact hout _ (not_below_add hd)
  have hr := h.regs
  constructor
  · constructor
    · exact heax.trans hr.eax
    · exact hebx.trans hr.ebx
    · exact hecx.trans hr.ecx
    · exact hedx.trans hr.edx
    · exact hesi.trans hr.esi
    · exact hedi.trans hr.edi
    · exact hebp.trans hr.ebp
    · exact (hcell 20#32 (.inr (by decide))).trans h.esp
    · exact hgs.trans hr.gs
    · exact hfs.trans hr.fs
    · exact hes.trans hr.es
    · exact hds.trans hr.ds
    · exact (congrArg sel (hcell 12#32 (.inr (by decide)))).trans h.cs
    · exact (congrArg sel (hcell 24#32 (.inr (by decide)))).trans h.ss
    · exact (hcell 8#32 (.inr (by decide))).trans h.eip
    · exact (hcell 16#32 (.inr (by decide))).trans h.eflags
  · exact (hcell 0#32 (.inl rfl)).trans h.int_num

theorem stackState_pushVal (h : c.esp = p - 4#32) (v : BitVec 32) :
    stackState (c.pushVal v).mem p = stackState c.mem p := by
  simp [stackState, Cpu.pushVal, Cpu.write, BitVec.sub_eq_add_neg, BitVec.add_assoc, h]

/-- The handler is given the context. -/
theorem isr_entry_spec (ret : BitVec 32) (hp : frameTop tss ctx = p + 72#32)
    (hs : Saved (frameBase tss ctx) ctx c) (hesp : c.esp = frameBase tss ctx - 8#32)
    (hnum : c.mem (frameBase tss ctx - 8#32) = .ofNat 32 n) :
    let c' := isr_entry z ret c
    c'.esp = p - 8#32 ∧ c'.mem (p - 4#32) = p ∧ Holds (stackState c'.mem p) ctx ∧
      (stackState c'.mem p).int_num = .ofNat 32 n ∧ SameOutside (p + 72#32) 80 c.mem c'.mem := by
  obtain ⟨hready, hout⟩ := prep_spec (z := z) hp hs hesp hnum
  obtain ⟨htop, harg, hout', -⟩ := common_isr_spec (z := z) hready.top
  obtain ⟨hholds, hnum'⟩ := hready.common_isr_spec (z := z)
  simp only [isr_entry]
  generalize (if (run z prep_isr c).zf then _ else _) = c2 at *
  generalize run z common_isr c2 = c3 at *
  have hcall : SameOutside (p + 72#32) 80 c2.mem (c3.pushVal ret).mem := by
    have hout2 : SameOutside (p + 44#32 + 28#32) 80 c2.mem c3.mem := hout'.up (by decide) (by decide)
    rw [BitVec.add_assoc, BitVec.ofNat_add_ofNat] at hout2
    refine hout2.trans fun a ha => ?_
    simp [Cpu.pushVal, Cpu.write, htop, BitVec.sub_eq_add_neg, BitVec.add_assoc, ne_cell ha]
  refine ⟨?_, ?_, ?_, ?_, hout.trans hcall⟩
  · simp [Cpu.pushVal, htop, BitVec.sub_eq_add_neg, BitVec.add_assoc]
  · simpa [Cpu.pushVal, Cpu.write, htop, BitVec.sub_eq_add_neg, BitVec.add_assoc] using harg
  · rwa [stackState_pushVal htop]
  · rwa [stackState_pushVal htop]

theorem iret_ring0 (h : Ring0 (sel (c.mem (c.esp + 4#32)))) : iret c = { c with
    eip := c.mem c.esp
    cs := sel (c.mem (c.esp + 4#32))
    eflags := c.mem (c.esp + 8#32)
    esp := c.esp + 12#32 } := by
  unfold iret
  exact if_pos h

theorem iret_user (h : ¬ Ring0 (sel (c.mem (c.esp + 4#32)))) : iret c = { c with
    eip := c.mem c.esp
    cs := sel (c.mem (c.esp + 4#32))
    eflags := c.mem (c.esp + 8#32)
    esp := c.mem (c.esp + 12#32)
    ss := sel (c.mem (c.esp + 16#32)) } := by
  unfold iret
  exact if_neg h

/-- What is in the frame is resumed. -/
theorem isr_exit_spec (h : c.esp = p - 4#32)
    (hok : Ring0 (sel (stackState c.mem p).cs) → CanMove p (stackState c.mem p).esp) :
    Holds (stackState c.mem p) (isr_exit z c) ∧
      ((stackState c.mem p).esp = p + 72#32 ∨ ¬ Ring0 (sel (stackState c.mem p).cs) →
        SameOutside (p + 72#32) 80 c.mem (isr_exit z c).mem) := by
  obtain ⟨hmem, hesp, hzf, heax, hebx, hecx, hedx, hesi, hedi, hebp, hgs, hfs, hes, hds⟩ :=
    common_isr_return_spec (z := z) h
  simp only [isr_exit]
  generalize run z common_isr_return c = c1 at *
  rw [← hmem] at hok hzf heax hebx hecx hedx hesi hedi hebp hgs hfs hes hds ⊢
  by_cases hr : Ring0 (sel (c1.mem (p + 56#32)))
  · rw [if_pos (hzf.mpr hr)]
    obtain ⟨hregs, hesp2, hss2, heip, hcs, hflags, hout⟩ :=
      revert_change_stack_spec (z := z) hesp rfl (hok hr)
    generalize run z revert_change_stack c1 = c2 at *
    have h4 : c2.esp + 4#32 = c1.mem (p + 64#32) - 8#32 := by
      simp [hesp2, BitVec.sub_eq_add_neg, BitVec.add_assoc]
    have h8 : c2.esp + 8#32 = c1.mem (p + 64#32) - 4#32 := by
      simp [hesp2, BitVec.sub_eq_add_neg, BitVec.add_assoc]
    have h12 : c2.esp + 12#32 = c1.mem (p + 64#32) := by
      simp [hesp2, BitVec.sub_eq_add_neg, BitVec.add_assoc]
    rw [← hesp2] at heip
    rw [← h4] at hcs
    rw [← h8] at hflags
    rw [iret_ring0 (by rwa [hcs])]
    refine ⟨?_, fun htop => (hout (htop.resolve_right (not_not_intro hr))).mono (by omega)⟩
    constructor
    · exact heax.trans hregs.eax.symm
    · exact hebx.trans hregs.ebx.symm
    · exact hecx.trans hregs.ecx.symm
    · exact hedx.trans hregs.edx.symm
    · exact hesi.trans hregs.esi.symm
    · exact hedi.trans hregs.edi.symm
    · exact hebp.trans hregs.ebp.symm
    · exact h12.symm
    · exact hgs.trans hregs.gs.symm
    · exact hfs.trans hregs.fs.symm
    · exact hes.trans hregs.es.symm
    · exact hds.trans hregs.ds.symm
    · exact congrArg sel hcs.symm
    · exact hss2.symm
    · exact heip.symm
    · exact hflags.symm
  · rw [if_neg (mt hzf.mp hr)]
    have h4 : c1.esp + 4#32 = p + 56#32 := by simp [hesp, BitVec.add_assoc]
    have h8 : c1.esp + 8#32 = p + 60#32 := by simp [hesp, BitVec.add_assoc]
    have h12 : c1.esp + 12#32 = p + 64#32 := by simp [hesp, BitVec.add_assoc]
    have h16 : c1.esp + 16#32 = p + 68#32 := by simp [hesp, BitVec.add_assoc]
    rw [iret_user (by rwa [h4]), h4, h8, h12, h16, hesp]
    refine ⟨?_, fun _ _ _ => rfl⟩
    exact ⟨heax, hebx, hecx, hedx, hesi, hedi, hebp, rfl, hgs, hfs, hes, hds, rfl, rfl, rfl, rfl⟩

/-- A context of ring 0, and a check that finds its interrupt not spurious. -/
def kernelContext : Cpu where
  eax := 1#32
  ebx := 2#32
  ecx := 3#32
  edx := 4#32
  esi := 5#32
  edi := 6#32
  ebp := 0x8FF8#32
  esp := 0x9000#32
  gs := 0x10#16
  fs := 0x10#16
  es := 0x10#16
  ds := 0x10#16
  cs := 0x08#16
  ss := 0x10#16
  eip := 0x100000#32
  eflags := 0x202#32
  zf := false
  mem := fun _ => 0#32

def notSpurious (c : Cpu) : Cpu := { c with eax := 0#32 }

/-- **The handler is given the context that was interrupted, and what it leaves in the frame is
resumed.** With the context left in the frame, memory above the top is not changed on the way. -/
theorem isr_context (ret : BitVec 32) (hcheck : Cdecl check depth) (hd : depth + 80 < 2 ^ 32)
    (hstub : stub z check n (interrupt z tss (errorCode n e) ctx) = some c) :
    let top := frameTop tss ctx
    let p := top - 72#32
    let c' := isr_entry z ret c
    (c'.mem (c'.esp + 4#32) = p ∧ Holds (stackState c'.mem p) ctx ∧
      (stackState c'.mem p).int_num = .ofNat 32 n ∧
      SameOutside top (80 + depth) ctx.mem c'.mem) ∧
    ∀ r : Cpu, r.esp = c'.esp + 4#32 →
      let f := stackState r.mem p
      ((Ring0 (sel f.cs) → CanMove p f.esp) → Holds f (isr_exit z r)) ∧
        (Holds f ctx → SameOutside top 80 r.mem (isr_exit z r).mem) := by
  obtain ⟨hsaved, hesp, hnum, hout⟩ := stub_spec hcheck hd hstub
  have htop : frameTop tss ctx = frameTop tss ctx - 72#32 + 72#32 := (BitVec.sub_add_cancel _ _).symm
  obtain ⟨hesp', harg, hholds, hnum', hout'⟩ :=
    isr_entry_spec (z := z) ret htop hsaved hesp hnum
  have hring : Ring0 ctx.cs → ctx.esp = frameTop tss ctx := fun hr => (if_pos hr).symm
  dsimp only
  generalize isr_entry z ret c = c' at *
  generalize frameTop tss ctx = top at *
  generalize top - 72#32 = p at *
  subst htop
  have hsp : c'.esp + 4#32 = p - 4#32 := by
    simp [hesp', BitVec.sub_eq_add_neg, BitVec.add_assoc]
  rw [hsp]
  refine ⟨⟨harg, hholds, hnum', hout.trans (hout'.mono (by omega))⟩, fun r hret => ?_⟩
  refine ⟨fun hok => (isr_exit_spec hret hok).1, fun hf => ?_⟩
  have hback : (stackState r.mem p).esp = p + 72#32 ∨ ¬ Ring0 (sel (stackState r.mem p).cs) := by
    by_cases hr : Ring0 ctx.cs
    · exact .inl (hf.esp.trans (hring hr))
    · rw [hf.cs]
      exact .inr hr
  exact (isr_exit_spec hret fun hr => .inl (hback.resolve_right (not_not_intro hr))).2 hback

theorem isr_context_kernel :
    ∃ c, stub true notSpurious 39
        (interrupt true ⟨0xF000#32, 0x10#16⟩ (errorCode 39 0#32) kernelContext) = some c ∧
      let c' := isr_entry true 0x101000#32 c
      let f := stackState c'.mem 0x8FB8#32
      c'.mem (c'.esp + 4#32) = 0x8FB8#32 ∧ Holds f kernelContext ∧
        Holds f (isr_exit true { c' with esp := c'.esp + 4#32 }) := by
  have hcheck : Cdecl notSpurious 0 := by
    constructor
    all_goals intro c
    all_goals first | rfl | exact fun _ _ => rfl
  have hstub : stub true notSpurious 39
      (interrupt true ⟨0xF000#32, 0x10#16⟩ (errorCode 39 0#32) kernelContext) = some _ := rfl
  refine ⟨_, hstub, ?_⟩
  have hcontext := isr_context 0x101000#32 hcheck (by decide) hstub
  have hp : frameTop ⟨0xF000#32, 0x10#16⟩ kernelContext - 72#32 = 0x8FB8#32 := by decide
  dsimp only at hcontext ⊢
  rw [hp] at hcontext
  generalize isr_entry true 0x101000#32 _ = c' at *
  obtain ⟨⟨harg, hholds, -, -⟩, hret⟩ := hcontext
  have htop : kernelContext.esp = 0x8FB8#32 + 72#32 := by decide
  have hreturned := hret { c' with esp := c'.esp + 4#32 } rfl
  exact ⟨harg, hholds, hreturned.1 fun _ => .inl (hholds.esp.trans htop)⟩

end Condor.Isr
