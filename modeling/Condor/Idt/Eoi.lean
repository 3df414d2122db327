import Condor.Idt.Dispatch
import Condor.Lib.Runs

/-!
# The end of an interrupt

The PICs hold back a line, and those below it, from when it is delivered until
they are told of its end, which `isr_handler` does where a handler takes the
interrupt. So a run keeps nothing in service if and only if each of its
interrupts is taken (`isr_handler_eoi`), and an interrupt on a line without
handlers is never ended.
-/

namespace Condor.Idt

open Lib

variable {α H σ : Type} {behave : Behaviour H σ} {fuel : Nat} {t : Tables α H}
  {rs : List (Registration α H)}
  {c : Ctx H σ} {l l₁ l₂ : List H} {h : H} {n irq : BitVec 8}

/-- The lines in service, a bit for each. -/
structure Pic where
  master : BitVec 8
  slave : BitVec 8
  deriving DecidableEq, Repr

/-- A line of the slave is delivered through line 2 of the master. -/
def Pic.deliver (p : Pic) (n : Nat) : Pic :=
  if n < 8 then { p with master := p.master ||| 1#8 <<< n }
  else ⟨p.master ||| 1#8 <<< 2, p.slave ||| 1#8 <<< (n - 8)⟩

/-- The end of interrupt clears the line of the highest priority, which has the lowest bit. -/
def Pic.outb (p : Pic) (port : BitVec 16) (value : BitVec 8) : Pic :=
  if value = PIC_EOI ∧ port = PIC1_COMMAND then { p with master := p.master &&& (p.master - 1) }
  else if value = PIC_EOI ∧ port = PIC2_COMMAND then { p with slave := p.slave &&& (p.slave - 1) }
  else p

def Pic.event (p : Pic) : Event H → Pic
  | .outb port value => p.outb port value
  | _ => p

def Event.isEoi (port : BitVec 16) : Event H → Bool
  | .outb port' value => port' = port ∧ value = PIC_EOI
  | _ => false

/-- How many ends of interrupt the log has for a PIC. -/
def eois (port : BitVec 16) (log : List (Event H)) : Nat := log.countP (Event.isEoi port)

/-- The log has one end of interrupt for the line `n`. -/
def Ended (n : Nat) (log : List (Event H)) : Prop :=
  eois PIC1_COMMAND log = 1 ∧ eois PIC2_COMMAND log = if 8 ≤ n then 1 else 0

/-- An interrupt on a line, and the frame that its stub builds, but for the number. -/
structure Interrupt where
  line : Nat
  lt : line < NR_IRQS
  frame : StackState

/-- The state between interrupts, with the last one and what was done for it. -/
structure System (H σ : Type) where
  world : σ
  pic : Pic
  last : Option (Interrupt × List (Event H))

/-- What `isr_handler` is given. -/
def arrive (s : System H σ) (e : Interrupt) : Ctx H σ :=
  ⟨{ e.frame with int_num := .ofNat 32 (IRQ0 + e.line) }, s.world, []⟩

def interrupt (fuel : Nat) (t : Tables α H) (behave : Behaviour H σ) (s : System H σ) (e : Interrupt) :
    System H σ :=
  match isr_handler fuel t behave (arrive s e) with
  | .ok c => ⟨c.world, c.log.foldl Pic.event (s.pic.deliver e.line), some (e, c.log)⟩
  | .error _ => s

/-- The last interrupt has been ended, and nothing is in service. -/
structure Served (s : System H σ) : Prop where
  ended : ∀ e ∈ s.last, Ended e.1.line e.2
  idle : s.pic = ⟨0, 0⟩

/-- A handler in the list takes the interrupt, and the first that does leaves a frame for which the
same is written to the PICs as for `n`. -/
def Takes (behave : Behaviour H σ) (n : BitVec 8) : List H → Ctx H σ → Prop
  | [], _ => False
  | h :: l, c =>
    if (call behave h c).1 = .HANDLED then
      (pic_ack (line (call behave h c).2.frame) : List (Event H)) = pic_ack n
    else Takes behave n l (call behave h c).2

/-! ## Handlers that take an interrupt -/

theorem not_takes (hl : Declines behave l c) : ¬ Takes behave n l c := by
  induction l generalizing c with
  | nil => exact id
  | cons h l ih =>
    unfold Takes
    rw [if_neg (by rw [hl.1]; exact IrqReturn.noConfusion)]
    exact ih hl.2

theorem takes_iff (hl : Declines behave l₁ c) (hret : (call behave h (called behave l₁ c)).1 = .HANDLED) :
    Takes behave n (l₁ ++ h :: l₂) c ↔
      (pic_ack (line (called behave (l₁ ++ [h]) c).frame) : List (Event H)) = pic_ack n := by
  induction l₁ generalizing c with
  | nil =>
    have hfirst : (call behave h c).1 = .HANDLED := hret
    rw [List.nil_append, Takes, if_pos hfirst]
    rfl
  | cons h' l₁ ih =>
    rw [List.cons_append, Takes, if_neg (by rw [hl.1]; exact IrqReturn.noConfusion)]
    exact ih hl.2 hret

/-! ## What is written to the PICs -/

theorem eois_append (port : BitVec 16) (l l' : List (Event H)) :
    eois port (l ++ l') = eois port l + eois port l' :=
  List.countP_append

theorem eois_calls (port : BitVec 16) (l : List H) : eois port (l.map Event.call) = 0 := by
  rw [eois, List.countP_map, List.countP_eq_zero]
  exact fun _ _ => Bool.false_ne_true

theorem event_calls (l : List H) (p : Pic) : (l.map Event.call).foldl Pic.event p = p := by
  induction l with
  | nil => rfl
  | cons h l ih => exact ih

/-- What is written to the PICs for a line, in numbers. -/
theorem pic_ack_eq (irq : BitVec 8) : (pic_ack irq : List (Event H)) =
    if irq.toNat < 8 then [.outb PIC1_COMMAND PIC_EOI]
    else if irq.toNat < 16 then [.outb PIC2_COMMAND PIC_EOI, .outb PIC1_COMMAND PIC_EOI] else [] := by
  have hhigh : (15 : BitVec 8) < irq ↔ 16 ≤ irq.toNat := by simp [BitVec.lt_def]; omega
  have hslave : (8 : BitVec 8) ≤ irq ↔ 8 ≤ irq.toNat := by simp [BitVec.le_def]
  simp only [pic_ack, hhigh, hslave]
  rcases Nat.lt_or_ge irq.toNat 8 with hlow | hge
  · rw [if_neg (by omega), if_neg (by omega), if_pos hlow, List.nil_append]
  · rcases Nat.lt_or_ge irq.toNat 16 with hmid | hout
    · rw [if_neg (by omega), if_pos hge, if_neg (by omega), if_pos hmid, List.singleton_append]
    · rw [if_pos hout, if_neg (by omega), if_neg (by omega)]

theorem toNat_line {n : Nat} (hn : n < NR_IRQS) : (BitVec.ofNat 8 n).toNat = n := by
  have hlt : n < 16 := hn
  rw [BitVec.toNat_ofNat, Nat.mod_eq_of_lt (by omega)]

/-- The interrupt of a line is ended if and only if what is written is what `pic_ack` writes for the
line. -/
theorem ended_ack_iff {n : Nat} (l : List H) (irq : BitVec 8) (hn : n < NR_IRQS) :
    Ended n (l.map Event.call ++ .ic_ack irq :: pic_ack irq) ↔
      (pic_ack irq : List (Event H)) = pic_ack (.ofNat 8 n) := by
  have hlt : n < 16 := hn
  have hack (port : BitVec 16) : eois port (l.map Event.call ++ .ic_ack irq :: pic_ack irq) =
      eois port (pic_ack irq : List (Event H)) := by
    rw [eois_append, eois_calls, Nat.zero_add]
    exact List.countP_cons_of_neg Bool.false_ne_true
  unfold Ended
  rw [hack, hack, pic_ack_eq, pic_ack_eq, toNat_line hn]
  have hmaster : (n < 8 ↔ ¬ 8 ≤ n) := Nat.not_le.symm
  rcases Nat.lt_or_ge irq.toNat 8 with hlow | hge
  · by_cases hslave : 8 ≤ n <;> simp [hlow, hmaster, hslave, hlt, eois, Event.isEoi, PIC1_COMMAND, PIC2_COMMAND]
  · have hnot : ¬ irq.toNat < 8 := by omega
    by_cases hmid : irq.toNat < 16 <;> by_cases hslave : 8 ≤ n <;>
      simp [hnot, hmid, hmaster, hslave, hlt, eois, Event.isEoi, PIC1_COMMAND, PIC2_COMMAND]

/-- An interrupt that is ended is no longer in service. -/
theorem deliver_ack {n : Nat} (hn : n < NR_IRQS) :
    ((pic_ack (.ofNat 8 n) : List (Event H)).foldl Pic.event (Pic.deliver ⟨0, 0⟩ n)) = ⟨0, 0⟩ := by
  have hlt : n < 16 := hn
  have hone : ∀ k < 8, 1#8 <<< k &&& (1#8 <<< k - 1#8) = 0#8 := by decide
  rw [pic_ack_eq, toNat_line hn]
  unfold Pic.deliver
  by_cases hlow : n < 8
  · rw [if_pos hlow, if_pos hlow]
    simp [Pic.event, Pic.outb, hone n hlow]
  · rw [if_neg hlow, if_neg hlow, if_pos hlt]
    simp [Pic.event, Pic.outb, PIC1_COMMAND, PIC2_COMMAND, hone (n - 8) (by omega)]

/-! ## Runs -/

/-- An interrupt is served if and only if a handler takes it. -/
theorem interrupt_served (ht : Linked t rs) (hfuel : rs.length ≤ fuel) (s : System H σ) (e : Interrupt)
    (hs : Served s) : Served (interrupt fuel t behave s e) ↔
      Takes behave (.ofNat 8 e.line) (registered rs e.line) (arrive s e) := by
  have hnum : (arrive s e).frame.int_num.toNat = IRQ0 + e.line := by
    have hlt : e.line < 16 := e.lt
    unfold arrive IRQ0
    rw [BitVec.toNat_ofNat, Nat.mod_eq_of_lt (by omega)]
  unfold interrupt
  rcases isr_handler_cases behave ht hfuel e.lt hnum with
    ⟨hdecline, heq⟩ | ⟨l₁, h, l₂, hsplit, hdecline, hret, heq⟩
  · refine iff_of_false (fun hserved => ?_) (not_takes hdecline)
    rw [heq] at hserved
    have hended : eois PIC1_COMMAND (called behave (registered rs e.line) (arrive s e)).log = 1 :=
      (hserved.ended _ rfl).1
    rw [called_log, eois_append, eois_calls] at hended
    exact Nat.zero_ne_one hended
  · rw [hsplit, takes_iff hdecline hret, heq]
    have hlog : (ic_ack (line (called behave (l₁ ++ [h]) (arrive s e)).frame)
        (called behave (l₁ ++ [h]) (arrive s e))).log = (l₁ ++ [h]).map Event.call ++
          .ic_ack (line (called behave (l₁ ++ [h]) (arrive s e)).frame) ::
            pic_ack (line (called behave (l₁ ++ [h]) (arrive s e)).frame) := by
      rw [ic_ack, called_log]
      rfl
    refine ⟨fun hserved => ?_, fun hsame => ⟨?_, ?_⟩⟩
    · have hended := hserved.ended _ rfl
      dsimp only at hended
      rw [hlog] at hended
      exact (ended_ack_iff _ _ e.lt).mp hended
    · rintro _ ⟨⟩
      dsimp only
      rw [hlog]
      exact (ended_ack_iff _ _ e.lt).mpr hsame
    · dsimp only
      rw [hlog, List.foldl_append, event_calls, List.foldl_cons, hsame, hs.idle]
      exact deliver_ack e.lt

/-- **The end of every interrupt.** After any registrations, every interrupt of a run is ended once and
nothing stays in service if and only if, each time, a handler of the line returns `HANDLED`, and the first
that does leaves the line's number. -/
theorem isr_handler_eoi [DecidableEq α] (hrs : Valid rs) (hfuel : rs.length ≤ fuel) (t₀ : Tables α H) :
    ∃ t, register fuel (idt_init t₀) rs = some t ∧ ∀ (behave : Behaviour H σ) (w : σ)
      (es : List Interrupt),
      Always (interrupt fuel t behave) Served ⟨w, ⟨0, 0⟩, none⟩ es ↔
        Under (interrupt fuel t behave)
          (fun s e => Takes behave (.ofNat 8 e.line) (registered rs e.line) (arrive s e))
            ⟨w, ⟨0, 0⟩, none⟩ es := by
  obtain ⟨t, ht, hlinked⟩ := register_linked t₀ hrs hfuel
  refine ⟨t, ht, fun behave w es => ?_⟩
  have hstart : Served (⟨w, ⟨0, 0⟩, none⟩ : System H σ) := ⟨fun _ he => (nomatch he), rfl⟩
  rw [always_iff (fun s e hs => interrupt_served hlinked hfuel s e hs), and_iff_right hstart]

theorem isr_handler_eoi_timer : ∃ t, register 2 (idt_init ⟨fun _ => none, fun _ => none, fun _ => none,
      fun _ => false⟩) timer_registrations = some t ∧
    (Always (interrupt 2 t timer_behave) Served ⟨idle, ⟨0, 0⟩, none⟩ [⟨0, by decide, StackState.zero⟩] ↔
      Under (interrupt 2 t timer_behave)
        (fun s e => Takes timer_behave (.ofNat 8 e.line) (registered timer_registrations e.line) (arrive s e))
        ⟨idle, ⟨0, 0⟩, none⟩ [⟨0, by decide, StackState.zero⟩]) := by
  have hvalid : Valid timer_registrations := ⟨by simp [timer_registrations, NR_IRQS, IRQ15], by decide⟩
  obtain ⟨t, ht, hiff⟩ := isr_handler_eoi hvalid (Nat.le_refl 2)
    ⟨fun _ => none, fun _ => none, fun _ => none, fun _ => false⟩
  exact ⟨t, ht, hiff timer_behave idle [⟨0, by decide, StackState.zero⟩]⟩

/-- The lines that `idt_init` unmasks. -/
def unmasked : List Nat := [0, 1, 2, 12, 14, 15]

/-- Nothing is written to the PICs for an interrupt on line 14 before a handler is registered, and
both have it in service from then on. -/
theorem unhandled_in_service : 14 ∈ unmasked ∧
    (interrupt 0 (idt_init ⟨fun _ => none, fun _ => none, fun _ => none, fun _ => false⟩ : Tables Nat Bool)
      timer_behave ⟨idle, ⟨0, 0⟩, none⟩ ⟨14, by decide, StackState.zero⟩).pic = ⟨4, 64⟩ ∧
    ¬ Always (interrupt 0 (idt_init ⟨fun _ => none, fun _ => none, fun _ => none, fun _ => false⟩ : Tables Nat Bool)
      timer_behave) Served ⟨idle, ⟨0, 0⟩, none⟩ [⟨14, by decide, StackState.zero⟩] := by
  refine ⟨by decide, by decide, fun h => ?_⟩
  exact absurd h.2.idle (by decide)

end Condor.Idt
