import Condor.Isr.StackState
import Condor.Lib.Walk
import Mathlib.Data.BitVec

/-!
# The interrupt handlers of `idt.c`

`irqs` has a list of records for each hardware line, which ends at
`POISON_NULL`. `idt_addIRQ_ISR` appends to one, and `isr_handler` calls its
handlers until one of them returns `HANDLED`, which it then acknowledges. A
handler is any function of the trap frame and of the rest of the state. Both
functions follow the list in a loop, and `fuel` bounds the records they visit.
-/

namespace Condor.Idt

open Lib

def IRQ0 : Nat := 32
def IRQ15 : Nat := IRQ0 + 15
def NR_IRQS : Nat := IRQ15 - IRQ0 + 1

def PIC1_COMMAND : BitVec 16 := 0x20
def PIC2_COMMAND : BitVec 16 := 0xA0
def PIC_EOI : BitVec 8 := 0x20

/-- `irqreturn_t`. -/
inductive IrqReturn where
  | NOT_HANDLED
  | HANDLED
  deriving DecidableEq, Repr

/-- `H` are the addresses of functions, and `α` those of records. `none` is `POISON_NULL` in a link,
and no function in `isrs`. -/
structure Tables (α H : Type) where
  isrs : Nat → Option H
  irqs : Nat → Option α
  next : α → Option α
  handler : α → H

/-- What the function at an address does with the frame and the rest of the state. -/
abbrev Behaviour (H σ : Type) := H → StackState → σ → IrqReturn × StackState × σ

inductive Event (H : Type) where
  | call (handler : H)
  | ic_ack (irq : BitVec 8)
  | outb (port : BitVec 16) (value : BitVec 8)
  deriving DecidableEq, Repr

/-- The state while an interrupt is handled. -/
structure Ctx (H σ : Type) where
  frame : StackState
  world : σ
  log : List (Event H)

/-- Why `isr_handler` does not return: it panics with a message of `predefMSGS`, or the fuel is spent. -/
inductive Halt where
  | kspanic (message : Nat)
  | fuel
  deriving DecidableEq, Repr

variable {α H σ : Type}

/-- The bytes that `pic_ack` writes to the ports. -/
def pic_ack (irq : BitVec 8) : List (Event H) :=
  if 15 < irq then []
  else (if 8 ≤ irq then [.outb PIC2_COMMAND PIC_EOI] else []) ++ [.outb PIC1_COMMAND PIC_EOI]

def ic_ack (irq : BitVec 8) (c : Ctx H σ) : Ctx H σ :=
  { c with log := c.log ++ .ic_ack irq :: pic_ack irq }

/-- A call through a pointer. -/
def call (behave : Behaviour H σ) (h : H) (c : Ctx H σ) : IrqReturn × Ctx H σ :=
  let (ret_val, frame, world) := behave h c.frame c.world
  (ret_val, ⟨frame, world, c.log ++ [.call h]⟩)

/-- `state->int_num-IRQ0`, as `ic_ack` takes it. -/
def line (frame : StackState) : BitVec 8 := (frame.int_num - BitVec.ofNat 32 IRQ0).setWidth 8

/-- The body of the loop over the handlers of a line. `true` leaves it. -/
def visit (behave : Behaviour H σ) (h : H) (c : Ctx H σ) : Bool × Ctx H σ :=
  let (ret_val, c) := call behave h c
  if ret_val = .HANDLED then (true, ic_ack (line c.frame) c) else (false, c)

def isr_handler (fuel : Nat) (t : Tables α H) (behave : Behaviour H σ) (c : Ctx H σ) :
    Except Halt (Ctx H σ) :=
  let int_num := c.frame.int_num.toNat
  if t.isrs int_num = none ∧ int_num < 32 then .error (.kspanic int_num)
  else if int_num < 32 then
    match t.isrs int_num with
    | some h => .ok (call behave h c).2
    | none => .ok c
  else if IRQ0 ≤ int_num ∧ int_num < NR_IRQS + IRQ0 then
    let action := t.irqs (int_num - IRQ0)
    match walk t.next (fun a => visit behave (t.handler a)) fuel action c with
    | some (_, c) => .ok c
    | none => .error .fuel
  else .ok c

variable [DecidableEq α]

/-- `irqs` as `idt_init` leaves it. -/
def idt_init (t : Tables α H) : Tables α H :=
  { t with irqs := fun n => if n < NR_IRQS then none else t.irqs n }

/-- `none` is `POISON_NULL`. The new record is at `action`. There is no result if the fuel is spent. -/
def idt_addIRQ_ISR (fuel : Nat) (t : Tables α H) (int_num : BitVec 16) (handler : Option H) (action : α) :
    Option (Tables α H) :=
  match handler with
  | none => some t
  | some h =>
    if NR_IRQS ≤ int_num.toNat then some t
    else
      let t := { t with
        next := Function.update t.next action none
        handler := Function.update t.handler action h }
      match t.irqs int_num.toNat with
      | none => some { t with irqs := Function.update t.irqs int_num.toNat (some action) }
      | some first =>
        (find_last t.next fuel first).map fun last =>
          { t with next := Function.update t.next last (some action) }

/-! ## Registrations -/

/-- A call of `idt_addIRQ_ISR` with a handler, and the record that it allocates. -/
structure Registration (α H : Type) where
  int_num : BitVec 16
  handler : H
  action : α

/-- The lines exist, and `kmalloc` has returned a new record each time. -/
structure Valid (rs : List (Registration α H)) : Prop where
  int_num : ∀ r ∈ rs, r.int_num.toNat < NR_IRQS
  nodup : (rs.map Registration.action).Nodup

def register (fuel : Nat) (t : Tables α H) (rs : List (Registration α H)) : Option (Tables α H) :=
  rs.foldlM (fun t r => idt_addIRQ_ISR fuel t r.int_num (some r.handler) r.action) t

omit [DecidableEq α] in
theorem Valid.tail {r : Registration α H} {rs : List (Registration α H)} (h : Valid (rs ++ [r])) :
    Valid rs ∧ r.int_num.toNat < NR_IRQS ∧ r.action ∉ rs.map Registration.action := by
  have hnodup := h.nodup
  rw [List.map_append, List.nodup_append] at hnodup
  refine ⟨⟨fun r' hr' => h.int_num r' (List.mem_append_left _ hr'), hnodup.1⟩, h.int_num r (by simp), fun hr => ?_⟩
  exact hnodup.2.2 _ hr r.action (by simp) rfl

/-- The registrations for a line, in their order. -/
def forLine (rs : List (Registration α H)) (n : Nat) : List (Registration α H) :=
  rs.filter fun r => r.int_num.toNat = n

/-- The handlers registered for a line, in their order. -/
def registered (rs : List (Registration α H)) (n : Nat) : List H :=
  (forLine rs n).map Registration.handler

/-- Each line's list has the records of its registrations, in their order. -/
structure Linked (t : Tables α H) (rs : List (Registration α H)) : Prop where
  chain : ∀ n < NR_IRQS, Chain t.next (t.irqs n) ((forLine rs n).map Registration.action) none
  handler : ∀ r ∈ rs, t.handler r.action = r.handler

variable {fuel n : Nat} {t t' : Tables α H} {rs : List (Registration α H)} {r : Registration α H}

omit [DecidableEq α] in
theorem linked_init (t : Tables α H) : Linked (idt_init t) [] where
  chain _ hn := if_pos hn
  handler _ h := nomatch h

omit [DecidableEq α] in
theorem forLine_append (rs : List (Registration α H)) (r : Registration α H) (n : Nat) :
    forLine (rs ++ [r]) n = forLine rs n ++ if r.int_num.toNat = n then [r] else [] := by
  by_cases h : r.int_num.toNat = n <;> simp [forLine, h]

omit [DecidableEq α] in
theorem notMem_forLine (h : r.action ∉ rs.map Registration.action) (n : Nat) :
    r.action ∉ (forLine rs n).map Registration.action :=
  fun hr => h (List.map_subset _ List.filter_sublist.subset hr)

omit [DecidableEq α] in
theorem forLine_length (rs : List (Registration α H)) (n : Nat) : (forLine rs n).length ≤ rs.length :=
  List.length_filter_le _ rs

omit [DecidableEq α] in
/-- A record is in the list of one line only. -/
theorem notMem_other {n m : Nat} (hnodup : (rs.map Registration.action).Nodup) (hne : n ≠ m) {z : α}
    (hz : z ∈ (forLine rs m).map Registration.action) : z ∉ (forLine rs n).map Registration.action := by
  intro hz'
  obtain ⟨r, hr, rfl⟩ := List.mem_map.mp hz
  obtain ⟨r', hr', heq⟩ := List.mem_map.mp hz'
  obtain ⟨hmem, hline⟩ := List.mem_filter.mp hr
  obtain ⟨hmem', hline'⟩ := List.mem_filter.mp hr'
  have hsame : r' = r := List.inj_on_of_nodup_map hnodup hmem' hmem heq
  subst hsame
  exact hne ((of_decide_eq_true hline').symm.trans (of_decide_eq_true hline))

/-- The tables with the record filled in, which is in no list yet. -/
def alloc (t : Tables α H) (r : Registration α H) : Tables α H :=
  { t with
    next := Function.update t.next r.action none
    handler := Function.update t.handler r.action r.handler }

theorem Linked.alloc (h : Linked t rs) (hnew : r.action ∉ rs.map Registration.action) :
    Linked (alloc t r) rs where
  chain n hn := (h.chain n hn).update_of_notMem (notMem_forLine hnew n) none
  handler r' hr' := by
    have hne : r'.action ≠ r.action := fun heq => hnew (heq ▸ List.mem_map_of_mem hr')
    exact (Function.update_of_ne hne ..).trans (h.handler r' hr')

omit [DecidableEq α] in
/-- A list of records that lacks only the last one of its line. -/
theorem Linked.append (h : Linked t rs) (hhandler : t'.handler = t.handler)
    (hnew : t.handler r.action = r.handler)
    (hown : Chain t'.next (t'.irqs r.int_num.toNat)
      ((forLine rs r.int_num.toNat).map Registration.action ++ [r.action]) none)
    (hother : ∀ n < NR_IRQS, n ≠ r.int_num.toNat →
      Chain t'.next (t'.irqs n) ((forLine rs n).map Registration.action) none) : Linked t'
        (rs ++ [r]) where
  chain n hn := by
    rw [forLine_append, List.map_append]
    by_cases hline : r.int_num.toNat = n
    · subst hline
      rwa [if_pos rfl]
    · rw [if_neg hline, List.map_nil, List.append_nil]
      exact hother n hn fun heq => hline heq.symm
  handler r' hr' := by
    rw [hhandler]
    rcases List.mem_append.mp hr' with hold | hlast
    · exact h.handler r' hold
    · rw [List.mem_singleton.mp hlast, hnew]

/-- A registration appends its record to the list of its line. -/
theorem Linked.add (h : Linked t rs) (hline : r.int_num.toNat < NR_IRQS)
    (hnew : r.action ∉ rs.map Registration.action) (hnodup : (rs.map Registration.action).Nodup)
    (hfuel : rs.length ≤ fuel) :
    ∃ t', idt_addIRQ_ISR fuel t r.int_num (some r.handler) r.action = some t' ∧
      Linked t' (rs ++ [r]) := by
  have halloc := h.alloc (r := r) hnew
  have hown := halloc.chain _ hline
  have hself : (Idt.alloc t r).handler r.action = r.handler := Function.update_self ..
  have hend : (Idt.alloc t r).next r.action = none := Function.update_self ..
  unfold idt_addIRQ_ISR
  dsimp only
  rw [if_neg (by omega)]
  cases hfirst : t.irqs r.int_num.toNat with
  | none =>
    have hempty : (forLine rs r.int_num.toNat).map Registration.action = [] := by
      have hhead := hown.head_eq
      rw [show (Idt.alloc t r).irqs r.int_num.toNat = none from hfirst] at hhead
      exact List.head?_eq_none_iff.mp hhead.symm
    refine ⟨_, rfl, halloc.append rfl hself ?_ fun n hn hne => ?_⟩
    · rw [hempty]
      exact ⟨Function.update_self .., hend⟩
    · dsimp only
      rw [Function.update_of_ne hne]
      exact halloc.chain n hn
  | some first =>
    rw [show (Idt.alloc t r).irqs r.int_num.toNat = some first from hfirst] at hown
    have hne : (forLine rs r.int_num.toNat).map Registration.action ≠ [] := fun hnil => by
      rw [hnil] at hown
      exact nomatch hown
    obtain ⟨l, z, hlz⟩ : ∃ l z, (forLine rs r.int_num.toNat).map Registration.action = l ++ [z] :=
      ⟨_, _, (List.dropLast_append_getLast hne).symm⟩
    have hlen : l.length < fuel := by
      have hcount := congrArg List.length hlz
      have hle := forLine_length rs r.int_num.toNat
      rw [List.length_map, List.length_append, List.length_singleton] at hcount
      omega
    have hz : z ∈ (forLine rs r.int_num.toNat).map Registration.action := by rw [hlz]; simp
    have hzl : z ∉ l := by
      have hlast : (l ++ [z]).Nodup := hlz ▸ hnodup.sublist
        (List.Sublist.map Registration.action List.filter_sublist)
      exact fun hmem => (List.nodup_append.mp hlast).2.2 z hmem z (by simp) rfl
    have hza : r.action ≠ z := fun heq => notMem_forLine hnew _ (heq ▸ hz)
    rw [hlz] at hown
    refine ⟨{ Idt.alloc t r with next := Function.update (Idt.alloc t r).next z (some r.action) }, ?_,
      halloc.append rfl hself ?_ fun n hn hne => ?_⟩
    · have hlast : find_last (Idt.alloc t r).next fuel first = some z := find_last_chain hown hlen
      exact congrArg (Option.map _) hlast
    · rw [hlz, show (Idt.alloc t r).irqs r.int_num.toNat = some first from hfirst]
      exact hown.link_last hzl hza hend
    · exact (halloc.chain n hn).update_of_notMem (notMem_other hnodup hne hz) _

/-- All registrations are made, and the lists have their records. -/
theorem register_linked (t : Tables α H) (hrs : Valid rs) (hfuel : rs.length ≤ fuel) :
    ∃ t', register fuel (idt_init t) rs = some t' ∧ Linked t' rs := by
  induction rs using List.reverseRecOn with
  | nil => exact ⟨_, rfl, linked_init t⟩
  | append_singleton rs r ih =>
    obtain ⟨hvalid, hline, hnew⟩ := hrs.tail
    rw [List.length_append, List.length_singleton] at hfuel
    obtain ⟨t₁, ht₁, hlinked⟩ := ih hvalid (by omega)
    obtain ⟨t₂, ht₂, hlinked'⟩ := hlinked.add hline hnew hvalid.nodup (show rs.length ≤ fuel by omega)
    refine ⟨t₂, ?_, hlinked'⟩
    unfold register at ht₁ ⊢
    rw [List.foldlM_append, ht₁]
    exact (congrArg (· >>= pure) ht₂).trans rfl

end Condor.Idt
