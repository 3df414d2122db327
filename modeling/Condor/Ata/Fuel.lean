import Condor.Ata.Rules

/-!
# The fuel of the loops

A turn of each loop of `ata.c` that is bounded by the device begins with a read
of a port, and a read takes a response. So the responses at hand bound the
turns, and a `loop` is the loop of the source: with more fuel it does the same
(`loops_eq`).
-/

namespace Condor.Ata

open Lib Lib.Prog

variable {α β : Type} {m : Machine} {device n : Nat} {a base alt_status : BitVec 32} {why : Why}

/-- There are fewer than `n` responses left. -/
def Fewer (n : Nat) (m : Machine) : Prop := m.responses.length < n

theorem Fewer.pop {v : BitVec 16} {vs : List (BitVec 16)} (h : Fewer (n + 1) m)
    (hr : m.responses = v :: vs) :
    Fewer n (m.set_responses vs) := by
  unfold Fewer at h
  rw [hr, List.length_cons] at h
  exact Nat.lt_of_succ_lt_succ h

theorem Fewer.succ (h : Fewer n m) : Fewer (n + 1) m := Nat.lt_succ_of_lt h

theorem Fewer.read {v : BitVec 16} {vs : List (BitVec 16)} (h : Fewer n m) (hr : m.responses = v :: vs) :
    Fewer n (m.set_responses vs) := h.succ.pop hr

theorem steady_fewer (n : Nat) : Steady (Fewer n) where
  toCalm := Inert.calm
    { arrivals := fun _ _ h => h
      read := fun _ _ _ _ _ _ hr h => h.read hr
      flags := fun _ _ _ _ _ _ _ h => h
      current := fun _ _ h => h }
  responses _ _ _ hr h := h.read hr
  access _ _ _ h := h
  used _ _ _ _ _ h := h
  stored _ _ _ h := h

theorem inb_fewer : Triple (Fewer (n + 1)) (inb why a) (fun _ => Fewer n) fun _ _ => True :=
  ((steady_fewer (n + 1)).toCalm.inb fun _ _ _ hr h => h.pop hr).stops fun _ _ _ => trivial

/-- The responses bound the turns of a loop whose turns all take one. -/
theorem loop_eq {body : α → M (α ⊕ β)}
    (hbody : ∀ n a, Triple (Fewer (n + 1)) (body a) (fun _ => Fewer n) fun _ _ => True) {fuel : Nat}
    (hf : m.responses.length < fuel) (a : α) : (loop body a).run m = (iterate body .pending fuel a).run m := by
  have hrun : (loop body a).run m = (iterate body .pending (m.responses.length + 1) a).run m :=
    bind_ok (get_run m)
  rw [hrun]
  refine iterate_fuel (μ := fun m => m.responses.length) (fun a m₁ a' m₂ h => ?_) (Nat.lt_succ_self _) hf
  exact (hbody _ a).ok (Nat.lt_succ_self _) h

theorem read_word_fewer (n i : Nat) :
    Triple (Fewer (n + 1)) (read_word device base i) (fun _ => Fewer n) fun _ _ => True := by
  have hI := steady_fewer n
  refine (Keeps.record _).returns.bind fun d => inb_fewer.bind fun status => ?_
  refine Triple.ite (fun _ => Keeps.returns ?_) fun _ => .pure fun _ h => h
  exact hI.inw.bind fun w => (Keeps.modify fun m h => hI.stored m i _ h).bind fun _ => Keeps.pure _

theorem write_word_fewer (n i : Nat) :
    Triple (Fewer (n + 1)) (write_word base i) (fun _ => Fewer n) fun _ _ => True := by
  have hI := steady_fewer n
  refine inb_fewer.bind fun status => Triple.ite (fun _ => Keeps.returns ?_) fun _ => .pure fun _ h => h
  exact (hI.load i).bind fun w => hI.sending.keeps_outw.bind fun _ => Keeps.pure _

theorem packet_busy_fewer (n : Nat) (u : Unit) :
    Triple (Fewer (n + 1)) (packet_busy alt_status u) (fun _ => Fewer n) fun _ _ => True := by
  have hI := steady_fewer n
  refine inb_fewer.bind fun _ => (Keeps.ite ?_ (Keeps.pure _)).returns
  exact hI.inb_other.bind fun _ => Keeps.ite (Keeps.pure _) (Keeps.pure _)

theorem try_again_fewer (type : CommandType) (word_count n k : Nat) :
    Triple (Fewer (n + 1)) (try_again device base alt_status type word_count k) (fun _ => Fewer n)
      fun _ _ => True :=
  inb_fewer.bind fun _ =>
    ((steady_fewer n).try_again_rest alt_status type word_count k).returns

/-- The loops of the requests with any fuel above the responses. -/
theorem loops_eq {fuel : Nat} (hf : m.responses.length < fuel) (device : Nat)
    (base alt_status : BitVec 32)
    (type : CommandType) (word_count : Nat) :
    (loop (read_word device base) 0).run m = (iterate (read_word device base) .pending fuel 0).run m ∧
    (loop (write_word base) 0).run m = (iterate (write_word base) .pending fuel 0).run m ∧
    (loop (packet_busy alt_status) ()).run m = (iterate (packet_busy alt_status) .pending fuel ()).run m ∧
    (loop (try_again device base alt_status type word_count) 0).run m =
      (iterate (try_again device base alt_status type word_count) .pending fuel 0).run m := by
  refine ⟨loop_eq read_word_fewer hf 0, loop_eq write_word_fewer hf 0, loop_eq packet_busy_fewer hf (), ?_⟩
  exact loop_eq (fun n k => try_again_fewer type word_count n k) hf 0

end Condor.Ata
