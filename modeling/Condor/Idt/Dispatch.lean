import Condor.Idt.Irqs
import Condor.Sched.Scheduler

/-!
# Dispatch in the order of registration

`isr_handler` for a line visits the handlers registered for it, in their order,
up to the first that takes the interrupt (`isr_handler_visits`). A handler may
put any frame in place of the one it is given. If it leaves the number of the
interrupt, as `scheduler_preempt` does, then it is the line of the interrupt that
is acknowledged (`isr_handler_order`).
-/

namespace Condor.Idt

open Lib

variable {α H σ : Type} {behave : Behaviour H σ} {fuel n : Nat} {t t' : Tables α H}
  {rs : List (Registration α H)} {c c' : Ctx H σ} {l : List H} {h : H}

/-- No handler changes the number of the interrupt. -/
def KeepsNumber (behave : Behaviour H σ) : Prop :=
  ∀ h frame w, (behave h frame w).2.1.int_num = frame.int_num

/-- The state after the handlers in the list have been called. -/
def called (behave : Behaviour H σ) (l : List H) (c : Ctx H σ) : Ctx H σ :=
  l.foldl (fun c h => (call behave h c).2) c

/-- The handlers in the list return `NOT_HANDLED`, each called in the state that the one before leaves. -/
def Declines (behave : Behaviour H σ) : List H → Ctx H σ → Prop
  | [], _ => True
  | h :: l, c => (call behave h c).1 = .NOT_HANDLED ∧ Declines behave l (call behave h c).2

/-! ## Calls -/

theorem called_log (l : List H) (c : Ctx H σ) : (called behave l c).log = c.log ++ l.map Event.call := by
  induction l generalizing c with
  | nil => rw [List.map_nil, List.append_nil]; rfl
  | cons h l ih =>
    have hrest := ih (call behave h c).2
    rw [List.map_cons, List.append_cons]
    exact hrest

theorem called_append (l : List H) (h : H) (c : Ctx H σ) :
    called behave (l ++ [h]) c = (call behave h (called behave l c)).2 :=
  List.foldl_append

theorem called_int_num (hnum : KeepsNumber behave) (l : List H) (c : Ctx H σ) :
    (called behave l c).frame.int_num = c.frame.int_num := by
  induction l generalizing c with
  | nil => rfl
  | cons h l ih => exact (ih (call behave h c).2).trans (hnum h c.frame c.world)

/-! ## The loop over the handlers -/

/-- A handler that does not take the interrupt. -/
theorem visit_declined (hr : (call behave h c).1 = .NOT_HANDLED) :
    visit behave h c = (false, (call behave h c).2) := by
  have hnot : (call behave h c).1 ≠ .HANDLED := by
    rw [hr]
    exact IrqReturn.noConfusion
  exact if_neg hnot

theorem visit_handled (hr : (call behave h c).1 = .HANDLED) :
    visit behave h c = (true, ic_ack (line (call behave h c).2.frame) (call behave h c).2) :=
  if_pos hr

theorem visit_stops : (visit behave h c).1 = true ↔ (call behave h c).1 = .HANDLED := by
  cases hr : (call behave h c).1 with
  | NOT_HANDLED => simp [visit_declined hr]
  | HANDLED => simp [visit_handled hr]

theorem declines_iff : AllDecline (visit behave) l c ↔ Declines behave l c := by
  induction l generalizing c with
  | nil => rfl
  | cons h l ih =>
    unfold AllDecline Declines
    rw [ih]
    cases hr : (call behave h c).1 with
    | NOT_HANDLED => rw [visit_declined hr]; simp
    | HANDLED => rw [visit_handled hr]; simp

theorem after_declined (hl : Declines behave l c) : after (visit behave) l c = called behave l c := by
  induction l generalizing c with
  | nil => rfl
  | cons h l ih =>
    have hrest := ih hl.2
    unfold after called at hrest ⊢
    rw [List.foldl_cons, List.foldl_cons, visit_declined hl.1, hrest]

/-- The walk over the records is one over the registered handlers. -/
theorem isr_handler_visits (ht : Linked t rs) (hfuel : rs.length ≤ fuel) (hn : n < NR_IRQS)
    (hnum : c.frame.int_num.toNat = IRQ0 + n) :
    isr_handler fuel t behave c = .ok (visits (visit behave) (registered rs n) c).2 := by
  have hline : IRQ0 + n - IRQ0 = n := Nat.add_sub_cancel_left IRQ0 n
  have hirq : 32 ≤ IRQ0 + n := Nat.le_add_right 32 n
  have hlen : ((forLine rs n).map Registration.action).length ≤ fuel := by
    rw [List.length_map]
    exact (forLine_length rs n).trans hfuel
  have hwalk : walk t.next (fun a => visit behave (t.handler a)) fuel (t.irqs n) c =
      some (visits (visit behave) (registered rs n) c) := by
    rw [walk_chain (ht.chain n hn) hlen, visits_map t.handler, List.map_map, registered]
    congr 2
    exact List.map_congr_left fun r hr => ht.handler r (List.mem_filter.mp hr).1
  unfold isr_handler
  dsimp only
  rw [hnum, if_neg (by omega), if_neg (by omega), if_pos ⟨Nat.le_add_right _ _, by omega⟩, hline, hwalk]

/-- All handlers of the line decline, or the first that does not is the last one called, and what
its frame says is acknowledged. -/
theorem isr_handler_cases (behave : Behaviour H σ) (ht : Linked t rs) (hfuel : rs.length ≤ fuel) (hn : n < NR_IRQS)
    (hnum : c.frame.int_num.toNat = IRQ0 + n) :
    (Declines behave (registered rs n) c ∧ isr_handler fuel t behave c = .ok (called behave (registered rs n) c)) ∨
    ∃ l₁ h l₂, registered rs n = l₁ ++ h :: l₂ ∧ Declines behave l₁ c ∧
      (call behave h (called behave l₁ c)).1 = .HANDLED ∧
      isr_handler fuel t behave c =
        .ok (ic_ack (line (called behave (l₁ ++ [h]) c).frame) (called behave (l₁ ++ [h]) c)) := by
  rw [isr_handler_visits ht hfuel hn hnum]
  rcases visits_cases (visit behave) (registered rs n) c with ⟨hall, heq⟩ |
    ⟨l₁, h, l₂, hsplit, hall, hstop, heq⟩
  · have hdecline := declines_iff.mp hall
    rw [heq, after_declined hdecline]
    exact .inl ⟨hdecline, rfl⟩
  · have hdecline := declines_iff.mp hall
    rw [after_declined hdecline] at hstop heq
    have hret := visit_stops.mp hstop
    rw [heq, visit_handled hret]
    refine .inr ⟨l₁, h, l₂, hsplit, hdecline, hret, ?_⟩
    rw [called_append]

/-- The number of an interrupt gives its line. -/
theorem line_irq {frame : StackState} (hn : n < NR_IRQS) (hnum : frame.int_num.toNat = IRQ0 + n) :
    line frame = .ofNat 8 n := by
  have hlt : n < 16 := hn
  unfold line
  refine BitVec.eq_of_toNat_eq ?_
  rw [BitVec.toNat_setWidth, BitVec.toNat_sub, hnum, BitVec.toNat_ofNat, BitVec.toNat_ofNat]
  unfold IRQ0
  omega

/-- **Dispatch in order.** After any registrations, an interrupt on a line calls the handlers
registered for the line in their order, up to the first that returns `HANDLED`, and no others. If
one does, then the line is acknowledged, once. -/
theorem isr_handler_order [DecidableEq α] (hbehave : KeepsNumber behave) (hrs : Valid rs)
    (hfuel : rs.length ≤ fuel)
    (t₀ : Tables α H) :
    ∃ t, register fuel (idt_init t₀) rs = some t ∧
      ∀ n < NR_IRQS, ∀ c, c.frame.int_num.toNat = IRQ0 + n →
        ∃ c', isr_handler fuel t behave c = .ok c' ∧
          ((Declines behave (registered rs n) c ∧ c'.log = c.log ++ (registered rs n).map .call) ∨
          ∃ l₁ h l₂, registered rs n = l₁ ++ h :: l₂ ∧ Declines behave l₁ c ∧
            (call behave h (called behave l₁ c)).1 = .HANDLED ∧
            c'.log = c.log ++ (l₁ ++ [h]).map .call ++ .ic_ack (.ofNat 8 n) :: pic_ack (.ofNat 8 n)) := by
  obtain ⟨t, ht, hlinked⟩ := register_linked t₀ hrs hfuel
  refine ⟨t, ht, fun n hn c hnum => ?_⟩
  rcases isr_handler_cases behave hlinked hfuel hn hnum with
    ⟨hdecline, heq⟩ | ⟨l₁, h, l₂, hsplit, hdecline, hret, heq⟩
  · exact ⟨_, heq, .inl ⟨hdecline, called_log _ c⟩⟩
  · refine ⟨_, heq, .inr ⟨l₁, h, l₂, hsplit, hdecline, hret, ?_⟩⟩
    have hline : line (called behave (l₁ ++ [h]) c).frame = .ofNat 8 n :=
      line_irq hn (by rw [called_int_num hbehave, hnum])
    rw [hline, ic_ack, called_log]

/-! ## The timer -/

/-- `timer_isr`. It does nothing where the scheduler would follow a bad pointer. -/
def timer_isr {β : Type} [DecidableEq β] (state : StackState) (s : Sched.State β) :
    IrqReturn × StackState × Sched.State β :=
  match Sched.scheduler_preempt s state with
  | some (s, state) => (.HANDLED, state, s)
  | none => (.HANDLED, state, s)

/-- `scheduler_preempt` loads the registers of another process into the frame, all but the number. -/
theorem scheduler_preempt_int_num {β : Type} [DecidableEq β] {s s' : Sched.State β}
    {state state' : StackState}
    (hs : Sched.scheduler_preempt s state = some (s', state')) : state'.int_num = state.int_num := by
  unfold Sched.scheduler_preempt at hs
  split at hs
  · cases hs
    rfl
  · split at hs
    · cases hs
      rfl
    · split at hs
      · cases hs
        rfl
      · obtain ⟨r, -, hr⟩ := Option.map_eq_some_iff.mp hs
        cases hr
        rfl

/-- The timer's handler, and one that takes nothing. -/
def timer_behave : Behaviour Bool (Sched.State Nat) := fun timer state s =>
  if timer then timer_isr state s else (.NOT_HANDLED, state, s)

theorem timer_keepsNumber : KeepsNumber timer_behave := by
  intro timer state s
  cases timer with
  | false => rfl
  | true =>
    unfold timer_behave timer_isr
    rw [if_pos rfl]
    split
    · exact scheduler_preempt_int_num ‹_›
    · rfl

/-- Two handlers of line 0, of which the timer's is the second. -/
def timer_registrations : List (Registration Nat Bool) := [⟨0, false, 1⟩, ⟨0, true, 2⟩]

/-- No process is scheduled. -/
def idle : Sched.State Nat := ⟨none, none, false, fun _ => Sched.new_process 0 0 0 false, 0⟩

theorem isr_handler_order_timer : ∃ t, register 2 (idt_init ⟨fun _ => none, fun _ => none, fun _ => none,
      fun _ => false⟩) timer_registrations = some t ∧
    ∃ c', isr_handler 2 t timer_behave ⟨{ StackState.zero with int_num := 32 }, idle, []⟩ = .ok c' := by
  have hvalid : Valid timer_registrations := ⟨by simp [timer_registrations, NR_IRQS, IRQ15], by decide⟩
  obtain ⟨t, ht, horder⟩ := isr_handler_order timer_keepsNumber hvalid (Nat.le_refl 2)
    ⟨fun _ => none, fun _ => none, fun _ => none, fun _ => false⟩
  obtain ⟨c', hc', -⟩ := horder 0 (by decide) ⟨{ StackState.zero with int_num := 32 }, idle, []⟩ rfl
  exact ⟨t, ht, c', hc'⟩

end Condor.Idt
