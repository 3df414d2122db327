import Condor.Lib.Nesting
import Mathlib.Data.BitVec

/-!
# Sections without interrupts

`hal_disableInterrupts` and `hal_enableInterrupts` save the interrupt flag for
`hal_restoreInterrupts`. All sections share `were_intrs_enabled`, and the flag is
bit 9 of the dword that is stored there, where the variable is its low byte. So
after any section has been entered the variable is 0 and a restore always turns
interrupts off (`restores_iff`).
-/

namespace Condor.Hal

open Lib.Nesting

def INTERRUPT_FLAG : BitVec 32 := 0x200#32

/-- The flags register, and the dword that starts at `were_intrs_enabled`. -/
structure Flags where
  eflags : BitVec 32
  dword : BitVec 32
  deriving DecidableEq, Repr

namespace Flags

/-- The interrupt flag. -/
def enabled (h : Flags) : Bool := h.eflags &&& INTERRUPT_FLAG ≠ 0#32

/-- The variable is a byte. -/
def were_intrs_enabled (h : Flags) : BitVec 8 := h.dword.setWidth 8

def cli (h : Flags) : Flags := { h with eflags := h.eflags &&& ~~~INTERRUPT_FLAG }

def sti (h : Flags) : Flags := { h with eflags := h.eflags ||| INTERRUPT_FLAG }

/-- `pushf; popl %eax; andl $0x200, %eax; movl %eax, were_intrs_enabled`. -/
def save_flags (h : Flags) : Flags := { h with dword := h.eflags &&& INTERRUPT_FLAG }

def hal_disableInterrupts (h : Flags) : Flags := h.save_flags.cli

def hal_enableInterrupts (h : Flags) : Flags := h.save_flags.sti

def hal_restoreInterrupts (h : Flags) : Flags := if h.were_intrs_enabled ≠ 0#8 then h.sti else h.cli

end Flags

/-- The two ways to enter a section. -/
inductive Entry where
  | disable
  | enable
  deriving DecidableEq, Repr

def Flags.step (h : Flags) : Call Entry → Flags
  | .enter .disable => h.hal_disableInterrupts
  | .enter .enable => h.hal_enableInterrupts
  | .leave => h.hal_restoreInterrupts

/-- `liballoc_lock` and `liballoc_unlock` around the calls made in between. -/
def liballoc_section (inner : List (Call Entry)) : List (Call Entry) :=
  .enter .disable :: (inner ++ [.leave])

/-- `idt_addIRQ_ISR`, which allocates its record inside of its own section. -/
def idt_addIRQ_ISR : List (Call Entry) := .enter .disable :: (liballoc_section [] ++ [.leave])

variable {h : Flags} {l pre post : List (Call Entry)} {e : Entry}

/-! ## What a call does to the flag -/

theorem enabled_cli (h : Flags) : h.cli.enabled = false := by
  unfold Flags.cli Flags.enabled
  rw [BitVec.and_assoc, show ~~~INTERRUPT_FLAG &&& INTERRUPT_FLAG = 0#32 by decide, BitVec.and_zero]
  rfl

theorem enabled_sti (h : Flags) : h.sti.enabled = true := by
  unfold Flags.sti Flags.enabled
  rw [BitVec.and_or_distrib_right, BitVec.and_self]
  refine decide_eq_true fun hz => ?_
  have hbit := congrArg (·.getLsbD 9) hz
  simp [INTERRUPT_FLAG] at hbit

/-- The flag is not in the low byte of the dword. -/
theorem saved_byte (h : Flags) : h.save_flags.were_intrs_enabled = 0#8 := by
  unfold Flags.save_flags Flags.were_intrs_enabled
  rw [BitVec.setWidth_and, show INTERRUPT_FLAG.setWidth 8 = 0#8 by decide, BitVec.and_zero]

theorem byte_enter (h : Flags) (e : Entry) : (h.step (.enter e)).were_intrs_enabled = 0#8 := by
  cases e <;> exact saved_byte h

theorem byte_step (hb : h.were_intrs_enabled = 0#8) (c : Call Entry) :
    (h.step c).were_intrs_enabled = 0#8 := by
  cases c with
  | enter e => exact byte_enter h e
  | leave =>
    show h.hal_restoreInterrupts.were_intrs_enabled = 0#8
    unfold Flags.hal_restoreInterrupts
    split <;> exact hb

/-- Once a section was entered the variable stays 0. -/
theorem byte_run (hb : h.were_intrs_enabled = 0#8) (l : List (Call Entry)) :
    (l.foldl Flags.step h).were_intrs_enabled = 0#8 := by
  induction l generalizing h with
  | nil => exact hb
  | cons c l ih => exact ih (byte_step hb c)

theorem enabled_leave (hb : h.were_intrs_enabled = 0#8) : (h.step .leave).enabled = false := by
  show h.hal_restoreInterrupts.enabled = false
  unfold Flags.hal_restoreInterrupts
  rw [if_neg (not_not.mpr hb)]
  exact enabled_cli h

/-- A restore that comes after an entry turns interrupts off. -/
theorem enabled_after_leave (h : Flags) (e : Entry) (l : List (Call Entry)) :
    ((Call.enter e :: (l ++ [.leave])).foldl Flags.step h).enabled = false := by
  rw [List.foldl_cons, List.foldl_append]
  exact enabled_leave (byte_run (byte_enter h e) l)

/-! ## When a section restores the flag -/

/-- Every section that enables interrupts is left right away. -/
def Shallow (l : List (Call Entry)) : Prop :=
  ∀ pre c post, l = pre ++ .enter .enable :: c :: post → c = .leave

/-- The flag before an entry of a shallow sequence that starts with interrupts off. -/
theorem enabled_before (hl : Nested l) (hs : Shallow l) (hoff : h.enabled = false)
    (he : l = pre ++ .enter e :: post) : (pre.foldl Flags.step h).enabled = false := by
  rcases List.eq_nil_or_concat pre with rfl | ⟨pre, c, rfl⟩
  · exact hoff
  rw [List.concat_eq_append] at he ⊢
  rw [List.append_assoc, List.singleton_append] at he
  cases c with
  | enter e' =>
    rw [List.foldl_append]
    cases e' with
    | disable => exact enabled_cli _
    | enable => cases hs pre _ post he
  | leave =>
    obtain hnil | ⟨i, rest, hhead⟩ := hl.head
    · rw [hnil] at he
      cases pre <;> cases he
    · -- the restore is not the first call
      rw [hhead] at he
      cases pre with
      | nil => cases he
      | cons c pre =>
        obtain ⟨rfl, -⟩ := List.cons.inj he
        exact enabled_after_leave h i pre

/-- **Nested sections.** Each restore of a nested sequence brings back the flag that was in force before
its matching call if and only if interrupts are off at the start and no section that enables them has
another one inside. -/
theorem restores_iff (hl : Nested l) (h : Flags) :
    Restores Flags.step Flags.enabled l h ↔ l = [] ∨ h.enabled = false ∧ Shallow l := by
  have hafter (pre : List (Call Entry)) (e : Entry) (inner : List (Call Entry)) :
      ((pre ++ Call.enter e :: (inner ++ [.leave])).foldl Flags.step h).enabled = false := by
    rw [List.foldl_append]
    exact enabled_after_leave _ e inner
  constructor
  · intro hr
    have hbefore (pre : List (Call Entry)) (e : Entry) (post : List (Call Entry))
        (he : l = pre ++ .enter e :: post) : (pre.foldl Flags.step h).enabled = false := by
      obtain ⟨inner, rest, hinner, rfl⟩ := hl.exists_leave he
      exact (hr pre e inner rest hinner he).symm.trans (hafter pre e inner)
    refine hl.head.imp_right fun hhead => ⟨?_, fun pre c post hc => ?_⟩
    · obtain ⟨e, rest, hhead⟩ := hhead
      exact hbefore [] e rest hhead
    cases c with
    | leave => rfl
    | enter e' =>
      have hon : ((pre ++ [Call.enter Entry.enable]).foldl Flags.step h).enabled = true := by
        rw [List.foldl_append]
        exact enabled_sti _
      have hoff := hbefore (pre ++ [.enter .enable]) e' post (by rw [hc, List.append_assoc]; rfl)
      rw [hon] at hoff
      cases hoff
  · rintro (rfl | ⟨hoff, hs⟩) pre e inner post hinner he
    · cases pre <;> cases he
    · rw [hafter, enabled_before hl hs hoff he]

/-- With interrupts off, registering a handler leaves them off. -/
theorem restores_idt_addIRQ_ISR : Restores Flags.step Flags.enabled idt_addIRQ_ISR ⟨0x2#32, 0#32⟩ := by
  have hnested : Nested idt_addIRQ_ISR := .pair Entry.disable (.pair Entry.disable .nil .nil) .nil
  refine (restores_iff hnested _).mpr (.inr ⟨by decide, fun pre c post he => ?_⟩)
  have hmem : Call.enter Entry.enable ∈ idt_addIRQ_ISR := he ▸ by simp
  exact absurd hmem (by decide)

/-- A section entered with interrupts on leaves them off. -/
theorem restore_disables : ¬ Restores Flags.step Flags.enabled [.enter .disable, .leave] ⟨0x202#32, 0#32⟩ := by
  intro hr
  have hflag := hr [] .disable [] [] .nil rfl
  revert hflag
  decide

end Condor.Hal
