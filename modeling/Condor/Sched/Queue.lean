import Mathlib.Data.List.Rotate
import Condor.Sched.Scheduler

/-!
# The scheduler refines a queue

The abstract scheduler is a list of processes: `schedule_process` appends at the
tail, `scheduler_preempt` moves the head to the tail. `Represents s q` says the
links of `s` from `p_current` on are the queue `q`, and that `p_last` is its last
process once there are two. Both calls keep it (`Represents.create`,
`Represents.preempt`), so every run does (`scheduler_refines_queue`).
-/

namespace Condor.Sched

open Lib

variable {α : Type}

/-- The abstract scheduler. -/
def enqueue (q : List α) : Event α → List α
  | .create p _ => q ++ [p]
  | .preempt _ => q.rotate 1

/-- The queue after a run. -/
def queue (es : List (Event α)) : List α := es.foldl enqueue []

/-- The link of each process. -/
def State.next (s : State α) (p : α) : Option α := (s.proc p).next

/-- The concrete scheduler stores the queue. -/
structure Represents (s : State α) (q : List α) : Prop where
  chain : Chain s.next s.p_current q none
  nodup : q.Nodup
  last : s.p_last = if 2 ≤ q.length then q.getLast? else none
  idle : s.is_schedueling_proc = false

theorem Boot.represents {s : State α} (hs : Boot s) : Represents s [] where
  chain := hs.current
  nodup := List.nodup_nil
  last := hs.last
  idle := hs.idle

variable [DecidableEq α] {s s' : State α} {q : List α} {p : α}

theorem next_set_next (a : α) (m : Option α) : (s.set_next a m).next = Function.update s.next a m := by
  funext b
  unfold State.set_next State.next
  by_cases h : b = a
  · subst h
    simp only [Function.update_self]
  · simp only [Function.update_of_ne h]

theorem next_save_registers (a : α) (state : StackState) : (save_registers s a state).next = s.next := by
  funext b
  unfold save_registers State.set_regs State.set_state State.next
  split
  all_goals
    by_cases h : b = a
    · subst h
      simp only [Function.update_self]
    · simp only [Function.update_of_ne h]

/-! ## Scheduling a process -/

/-- Writing the record of a process outside the queue. -/
theorem Represents.alloc (h : Represents s q) (hp : p ∉ q) (process : Process α) :
    Represents { s with proc := Function.update s.proc p process } q where
  chain := h.chain.congr fun a ha => by
    show (Function.update s.proc p process a).next = s.next a
    rw [Function.update_of_ne (by rintro rfl; exact hp ha), State.next]
  nodup := h.nodup
  last := h.last
  idle := h.idle

omit [DecidableEq α] in
theorem nodup_concat (hn : q.Nodup) (hp : p ∉ q) : (q ++ [p]).Nodup := by
  refine List.nodup_append.mpr ⟨hn, by simp, fun a ha b hb => ?_⟩
  rw [List.mem_singleton.mp hb]
  rintro rfl
  exact hp ha

/-- Linking `p` behind the last process `z`. -/
theorem Represents.link {l : List α} {z : α} (h : Represents s (l ++ [z])) (hp : p ∉ l ++ [z])
    (hnext : s.next p = none) :
    Represents { s.set_next z (some p) with p_last := some p, is_schedueling_proc := false }
      ((l ++ [z]) ++ [p]) where
  chain := by
    have hz : z ∉ l := fun hz => (List.nodup_append.mp h.nodup).2.2 z hz z (by simp) rfl
    have hpz : p ≠ z := by rintro rfl; exact hp (by simp)
    have hchain := h.chain.update_last hz (some p)
    rw [← next_set_next] at hchain
    refine Chain.concat_iff.mpr ⟨hchain, ?_⟩
    show (s.set_next z (some p)).next p = none
    rw [next_set_next, Function.update_of_ne hpz, hnext]
  nodup := nodup_concat h.nodup hp
  last := by
    rw [if_pos (by simp), List.getLast?_concat]
  idle := rfl

theorem Represents.schedule (h : Represents s q) (hp : p ∉ q) (hnext : s.next p = none) :
    Represents (schedule_process s p) (q ++ [p]) := by
  rcases List.eq_nil_or_concat q with rfl | ⟨l, z, rfl⟩
  · have hcur : s.p_current = none := h.chain
    have hlast : s.p_last = none := h.last
    unfold schedule_process
    rw [hcur]
    exact ⟨⟨rfl, hnext⟩, nodup_concat h.nodup hp, hlast, rfl⟩
  · rw [List.concat_eq_append] at *
    have hlink := h.link hp hnext
    have hcur := h.chain.head_eq
    have hlast := h.last
    cases l with
    | nil =>
      unfold schedule_process
      rw [show s.p_current = some z from hcur, show s.p_last = none from hlast]
      exact hlink
    | cons c l =>
      rw [if_pos (by simp), List.getLast?_concat] at hlast
      unfold schedule_process
      rw [show s.p_current = some c from hcur, hlast]
      exact hlink

/-- `process_create` of a new process appends it to the queue. -/
theorem Represents.create (h : Represents s q) (hp : p ∉ q) {process : Process α}
    (hnext : process.next = none) : Represents (process_create s p process) (q ++ [p]) :=
  (h.alloc hp process).schedule hp (by
    show (Function.update s.proc p process p).next = none
    rw [Function.update_self, hnext])

/-! ## Preemption -/

/-- The state after the head `a` was moved behind the last process `z`, with `b` the new head. -/
def State.rotated (s : State α) (a z b : α) : State α :=
  let linked := s.set_next z (some a)
  let moved := linked.set_next a none
  { moved with
    p_last := some a
    p_current := linked.next a
    tss_esp0 := (moved.proc b).regs.kernel_esp }

theorem rotate_eq {a z b : α} (hlast : s.p_last = some z)
    (hnext : (s.set_next z (some a)).next a = some b) :
    Sched.rotate s a = some (s.rotated a z b, b) := by
  unfold Sched.rotate link_last
  rw [hlast]
  show Option.map _ ((s.set_next z (some a)).next a) = _
  rw [hnext]
  rfl

/-- Rotating a queue of two processes or more. -/
theorem Represents.rotate {a z : α} {l : List α} (h : Represents s (a :: (l ++ [z]))) :
    ∃ b, (l ++ [z]).head? = some b ∧ Sched.rotate s a = some (s.rotated a z b, b) ∧
      Represents (s.rotated a z b) ((l ++ [z]) ++ [a]) := by
  obtain ⟨-, hrest⟩ := h.chain
  obtain ⟨ha, hn⟩ := List.nodup_cons.mp h.nodup
  have hz : z ∉ l := fun hz => (List.nodup_append.mp hn).2.2 z hz z (by simp) rfl
  have haz : a ≠ z := by rintro rfl; exact ha (by simp)
  have hlast : s.p_last = some z := by
    rw [h.last, if_pos (by simp), List.getLast?_cons_of_ne_nil (by simp), List.getLast?_concat]
  -- the old head's link is read after the last process was linked to it
  have hnext : (s.set_next z (some a)).next a = s.next a := by
    rw [next_set_next, Function.update_of_ne haz]
  obtain ⟨b, hb⟩ : ∃ b, (l ++ [z]).head? = some b := by
    cases l with
    | nil => exact ⟨z, rfl⟩
    | cons c l => exact ⟨c, rfl⟩
  refine ⟨b, hb, rotate_eq hlast (by rw [hnext, hrest.head_eq, hb]), ?_, nodup_concat hn ha, ?_, h.idle⟩
  · show Chain ((s.set_next z (some a)).set_next a none).next ((s.set_next z (some a)).next a) _ none
    rw [hnext, next_set_next, next_set_next]
    exact Chain.concat_iff.mpr ⟨(hrest.update_last hz (some a)).update_of_notMem ha none,
      Function.update_self ..⟩
  · rw [if_pos (by simp), List.getLast?_concat]
    rfl

/-- Saving registers changes no link and none of the scheduler's variables. -/
theorem Represents.save (h : Represents s q) (a : α) (state : StackState) :
    Represents (save_registers s a state) q := by
  have hvars : (save_registers s a state).p_current = s.p_current ∧
      (save_registers s a state).p_last = s.p_last ∧
      (save_registers s a state).is_schedueling_proc = s.is_schedueling_proc := by
    unfold save_registers
    split <;> exact ⟨rfl, rfl, rfl⟩
  obtain ⟨hcur, hlast, hidle⟩ := hvars
  refine ⟨?_, h.nodup, hlast.trans h.last, hidle.trans h.idle⟩
  rw [next_save_registers, hcur]
  exact h.chain

/-- A process without a successor keeps running with the registers it has. -/
theorem scheduler_preempt_single {a : α} {state : StackState} (hcur : s.p_current = some a)
    (hidle : s.is_schedueling_proc = false) (hnext : (s.proc a).next = none) :
    scheduler_preempt s state = some (s, restore_registers s a state) := by
  unfold scheduler_preempt
  rw [hcur, hidle]
  show (if (s.proc a).next = none then _ else _) = _
  rw [if_pos hnext]

/-- What a preemption does on a queue of no process, of one, and of two or more. -/
theorem Represents.preempt_cases (h : Represents s q) (state : StackState) :
    (q = [] ∧ scheduler_preempt s state = some (s, state)) ∨
    (∃ a, q = [a] ∧ scheduler_preempt s state = some (s, restore_registers s a state)) ∨
    ∃ a l z b, q = a :: (l ++ [z]) ∧ (l ++ [z]).head? = some b ∧
      let s' := (save_registers s a state).rotated a z b
      scheduler_preempt s state = some (s', restore_registers s' b state) ∧
        Represents s' ((l ++ [z]) ++ [a]) := by
  have hcur := h.chain.head_eq
  cases q with
  | nil =>
    refine .inl ⟨rfl, ?_⟩
    unfold scheduler_preempt
    rw [show s.p_current = none from hcur]
  | cons a rest =>
    have hcur : s.p_current = some a := hcur
    have hnext : (s.proc a).next = rest.head? := h.chain.2.head_eq
    right
    rcases List.eq_nil_or_concat rest with rfl | ⟨l, z, rfl⟩
    · exact .inl ⟨a, rfl, scheduler_preempt_single hcur h.idle hnext⟩
    · rw [List.concat_eq_append] at *
      obtain ⟨b, hb, hrot, hrep⟩ := (h.save a state).rotate
      refine .inr ⟨a, l, z, b, rfl, hb, ?_, hrep⟩
      unfold scheduler_preempt
      rw [hcur, h.idle]
      show (if (s.proc a).next = none then _ else _) = _
      rw [if_neg (by rw [hnext, hb]; simp), hrot]
      rfl

/-- `scheduler_preempt` never follows a null pointer, and moves the head of the queue to its end. -/
theorem Represents.preempt (h : Represents s q) (state : StackState) :
    ∃ s' out, scheduler_preempt s state = some (s', out) ∧ Represents s' (q.rotate 1) := by
  rcases h.preempt_cases state with ⟨rfl, hp⟩ | ⟨a, rfl, hp⟩ | ⟨a, l, z, b, rfl, -, hp, hrep⟩
  · exact ⟨s, state, hp, h⟩
  · exact ⟨s, _, hp, by rwa [List.rotate_singleton]⟩
  · refine ⟨_, _, hp, ?_⟩
    rw [List.rotate_cons_succ, List.rotate_zero]
    exact hrep

/-! ## Runs -/

omit [DecidableEq α] in
/-- The queue holds the scheduled processes, each once. -/
theorem queue_perm (es : List (Event α)) : (queue es).Perm (scheduled es) := by
  have hfold : ∀ (es : List (Event α)) (q : List α), (es.foldl enqueue q).Perm (q ++ scheduled es) := by
    intro es
    induction es with
    | nil => exact fun q => by simp [scheduled]
    | cons e es ih =>
      intro q
      cases e with
      | create p process =>
        refine (ih (q ++ [p])).trans ?_
        rw [List.append_assoc]
        exact List.Perm.refl _
      | preempt state => exact (ih _).trans ((List.rotate_perm q 1).append_right _)
  exact hfold es []

/-- From a state that stores `q`, a run that schedules new processes stores the queue it reaches. -/
theorem Represents.run {es : List (Event α)} (h : Represents s q) (hnew : (q ++ scheduled es).Nodup)
    (hfresh : FreshRecords es) :
    ∃ s', Sched.run s es = some s' ∧ Represents s' (es.foldl enqueue q) := by
  induction es generalizing s q with
  | nil => exact ⟨s, rfl, h⟩
  | cons e es ih =>
    have hfresh' : FreshRecords es := fun p process hm => hfresh p process (List.mem_cons_of_mem _ hm)
    cases e with
    | create p process =>
      have hnew' : ((q ++ [p]) ++ scheduled es).Nodup := by rwa [List.append_assoc]
      have hp : p ∉ q := fun hp => (List.nodup_append.mp hnew).2.2 p hp p (by simp [scheduled]) rfl
      exact ih (h.create hp (hfresh p process (by simp))) hnew' hfresh'
    | preempt state =>
      obtain ⟨s', out, hp, hs'⟩ := h.preempt state
      have hnew' : (q.rotate 1 ++ scheduled es).Nodup :=
        (((List.rotate_perm q 1).append_right _).nodup_iff).mpr hnew
      obtain ⟨s'', hrun, hs''⟩ := ih hs' hnew' hfresh'
      refine ⟨s'', ?_, hs''⟩
      unfold Sched.run
      rw [List.foldlM_cons]
      show ((scheduler_preempt s state).map Prod.fst >>= _) = _
      rw [hp]
      exact hrun

omit [DecidableEq α] in
theorem foldl_preempt (fs : List StackState) (q : List α) :
    (fs.map Event.preempt).foldl enqueue q = q.rotate fs.length := by
  induction fs generalizing q with
  | nil => rw [List.length_nil, List.rotate_zero]; rfl
  | cons f fs ih =>
    show (fs.map Event.preempt).foldl enqueue (q.rotate 1) = _
    rw [ih, List.rotate_rotate, List.length_cons, Nat.add_comm]

omit [DecidableEq α] in
theorem scheduled_preempts (fs : List StackState) :
    scheduled (fs.map (Event.preempt (α := α))) = [] := by
  induction fs with
  | nil => rfl
  | cons f fs ih => exact ih

omit [DecidableEq α] in
theorem freshRecords_preempts (fs : List StackState) :
    FreshRecords (fs.map (Event.preempt (α := α))) := by
  intro p process hm
  obtain ⟨f, -, hf⟩ := List.mem_map.mp hm
  cases hf

/-- **The scheduler refines the queue.** After any run of fresh processes and preemptions, the chain
from `p_current` is the abstract queue, which holds every scheduled process once and ends in
`p_last` once there are two; and the process at place `i` of it becomes `p_current` after `i` more
preemptions. -/
theorem scheduler_refines_queue (hs : Boot s) {es : List (Event α)} (hnew : (scheduled es).Nodup)
    (hfresh : FreshRecords es) :
    ∃ s', Sched.run s es = some s' ∧ Represents s' (queue es) ∧ (queue es).Perm (scheduled es) ∧
      ∀ i (hi : i < (queue es).length) (fs : List StackState), fs.length = i →
        ∃ t, Sched.run s' (fs.map .preempt) = some t ∧ t.p_current = some (queue es)[i] := by
  obtain ⟨s', hrun, hs'⟩ := hs.represents.run (q := []) hnew hfresh
  have hs' : Represents s' (queue es) := hs'
  refine ⟨s', hrun, hs', queue_perm es, fun i hi fs hfs => ?_⟩
  obtain ⟨t, ht, hrep⟩ := hs'.run (by rw [scheduled_preempts, List.append_nil]; exact hs'.nodup)
    (freshRecords_preempts fs)
  refine ⟨t, ht, ?_⟩
  rw [hrep.chain.head_eq, foldl_preempt, hfs, List.head?_rotate hi, List.getElem?_eq_getElem hi]

/-- Two processes, a preemption between their creations and one after. -/
def two_processes : List (Event Nat) :=
  [.create 1 (new_process 0x1000#32 0x2000#32 0 false), .preempt .zero,
    .create 2 (new_process 0x3000#32 0x4000#32 0 false), .preempt .zero]

theorem freshRecords_two : FreshRecords two_processes := by
  intro p process hm
  simp only [two_processes, List.mem_cons, List.not_mem_nil, or_false, Event.create.injEq,
    reduceCtorEq, false_or] at hm
  rcases hm with ⟨rfl, rfl⟩ | ⟨rfl, rfl⟩
  · rfl
  · rfl

theorem scheduler_refines_queue_two : ∃ s',
    Sched.run (⟨none, none, false, fun _ => new_process 0 0 0 false, 0⟩ : State Nat) two_processes =
      some s' ∧ Represents s' [2, 1] := by
  have hboot : Boot (⟨none, none, false, fun _ => new_process 0 0 0 false, 0⟩ : State Nat) :=
    ⟨rfl, rfl, rfl⟩
  obtain ⟨s', hrun, hs', -⟩ := scheduler_refines_queue hboot (by decide) freshRecords_two
  exact ⟨s', hrun, hs'⟩

end Condor.Sched
