import Condor.Ata.Words
import Condor.Ata.Checks

/-!
# Quiet runs

Runs that no interrupt disturbs, on answers that are known beforehand. `Quiet` is
what such a run keeps track of. Each operation returns, and takes the answers it
reads off the list, so a request that is let through reads as many words as the
answers make it (`ata_readSectors_total`, `atapi_readSectors_total`).
-/

namespace Condor.Ata

open Lib Lib.Prog

/-- No interrupt arrives, the ports answer `vs`, the device is `d`, and `w` words have been read. -/
structure Quiet (device : Nat) (d : AtaDevice) (w : Nat) (vs : List (BitVec 16)) (m : Machine) :
    Prop where
  arrivals : m.arrivals = []
  responses : m.responses = vs
  record : m.record (device >>> DEVICE_INFO_SHIFT) = some d
  lt : device < m.controller_index
  words : words m.log = w

variable {device w : Nat} {d : AtaDevice} {v : BitVec 16} {vs : List (BitVec 16)} {a base : BitVec 32}
  {why : Why} {m : Machine} {lba : BitVec 64} {sector_count cmd48 cmd28 : BitVec 8}

theorem words_append {l : List Access} {e : Access} :
    words (l ++ [e]) = words l + e.mark.toList.count .word := by
  unfold words
  rw [marks_append, List.count_append]

theorem Quiet.append {e : Access} (h : Quiet device d w vs m) (he : e.mark ≠ some .word) :
    Quiet device d w vs (m.append_log e) := by
  refine ⟨h.arrivals, h.responses, h.record, h.lt, ?_⟩
  have hcount : e.mark.toList.count .word = 0 := by
    cases hm : e.mark with
    | none => rfl
    | some k =>
      rw [hm] at he
      exact List.count_eq_zero.mpr fun hk => he (congrArg some (List.mem_singleton.mp hk).symm)
  rw [Machine.append_log, words_append, h.words, hcount, Nat.add_zero]

theorem Quiet.drop (h : Quiet device d w (v :: vs) m) : Quiet device d w vs (m.set_responses vs) :=
  ⟨h.arrivals, rfl, h.record, h.lt, h.words⟩

/-! ## The operations -/

theorem interrupts_total : Total (Quiet device d w vs) interrupts fun _ => Quiet device d w vs :=
  .of_run fun m hm => ⟨(), m, interrupts_quiet hm.arrivals, hm⟩

theorem inb_total : Total (Quiet device d w (v :: vs)) (inb why a)
    fun r m => r = v.setWidth 8 ∧ Quiet device d w vs m := by
  refine .of_run fun m hm => ⟨_, _, inb_run hm.arrivals hm.responses, rfl, hm.drop.append ?_⟩
  cases why with
  | drq =>
    rw [Access.mark]
    split <;> rintro ⟨⟩
  | _ => rintro ⟨⟩

theorem inw_total : Total (Quiet device d w (v :: vs)) (inw a)
    fun r m => r = v ∧ Quiet device d (w + 1) vs m := by
  refine .of_run fun m hm => ⟨_, _, inw_run hm.arrivals hm.responses, rfl, hm.arrivals, rfl, hm.record, hm.lt, ?_⟩
  exact words_append.trans (congrArg (· + 1) hm.words)

theorem outb_total {x : BitVec 8} : Total (Quiet device d w vs) (outb a x) fun _ => Quiet device d w vs :=
  interrupts_total.bind fun _ => .modify fun _ hm => hm.append nofun

theorem outw_total {x : BitVec 16} : Total (Quiet device d w vs) (outw a x) fun _ =>
    Quiet device d w vs :=
  interrupts_total.bind fun _ => .modify fun _ hm => hm.append nofun

theorem store_total (i : Nat) (x : BitVec 32) :
    Total (Quiet device d w vs) (store i x) fun _ m => Quiet device d w vs m ∧ m.buffer i = x :=
  .modify fun _ hm => ⟨⟨hm.arrivals, hm.responses, hm.record, hm.lt, words_append.trans hm.words⟩,
    Function.update_self ..⟩

theorem outbs_total (l : List (BitVec 32 × BitVec 8)) :
    Total (Quiet device d w vs) (outbs base l) fun _ => Quiet device d w vs := by
  induction l with
  | nil => exact Triple.pure fun _ hm => hm
  | cons x l ih => exact outb_total.bind fun _ => ih

theorem controller_total : Total (Quiet device d w vs) (controller device)
    fun r m => r = d ∧ Quiet device d w vs m :=
  .of_run fun m hm => ⟨d, m, controller_run hm.record, rfl, hm⟩

theorem write_total (f : AtaDevice → AtaDevice) : Total (Quiet device d w vs)
    (write (device >>> DEVICE_INFO_SHIFT) f) fun _ => Quiet device (f d) w vs :=
  controller_total.next <| .modify fun _ hm =>
    ⟨hm.arrivals, hm.responses, (record_set_record hm.record).trans (if_pos rfl), hm.lt, hm.words⟩

theorem switchDevice_total {v₁ v₂ v₃ v₄ : BitVec 16} :
    Total (Quiet device d w (v₁ :: v₂ :: v₃ :: v₄ :: vs)) (switchDevice device)
      fun base m => base = d.base_port ∧ Quiet device d w vs m := by
  refine Triple.get.bind fun m₀ => Triple.assume (fun m hm => hm.1 ▸ hm.2.lt) fun hlt => ?_
  rw [if_neg (Nat.not_le.mpr hlt)]
  refine Triple.before ?_ fun m hm => hm.2
  refine controller_total.next (outb_total.bind fun _ => ?_)
  refine inb_total.next (inb_total.next (inb_total.next (inb_total.next ?_)))
  refine Triple.bind (Q := fun _ => Quiet device d w vs) (.modify fun m hm => ?_) fun _ => Total.pure
  exact ⟨hm.arrivals, hm.responses, hm.record, hm.lt, hm.words⟩

theorem ata_issue_total : Total (Quiet device d w vs)
    (ata_issue device base lba sector_count cmd48 cmd28) fun _ => Quiet device (d.use true) w vs :=
  (write_total _).bind fun _ => controller_total.next (outbs_total _)

/-! ## The wait -/

theorem is_blocked_total : Total (Quiet device d w vs) (is_blocked device)
    fun r m => r = d.is_blocked ∧ Quiet device d w vs m :=
  interrupts_total.bind fun _ => controller_total.next .pure

theorem has_errored_total : Total (Quiet device d w vs) (has_errored device)
    fun r m => r = d.has_errored ∧ Quiet device d w vs m :=
  interrupts_total.bind fun _ => controller_total.next .pure

/-- The answer that ends the wait, which is not asked for if `is_blocked` is clear. -/
def waited (d : AtaDevice) : List (BitVec 16) := if d.is_blocked then [1] else []

theorem wait_loop_total (n : Nat) : Total (Quiet device d w (waited d ++ vs)) (wait_loop device (n + 2) 0)
    fun _ => Quiet device d w vs := by
  refine is_blocked_total.next ?_
  cases hb : d.is_blocked with
  | false =>
    rw [if_neg (by decide), waited, hb]
    exact Triple.pure fun _ hm => hm
  | true =>
    rw [if_pos (by decide), waited, hb]
    refine controller_total.next (inb_total.next (is_blocked_total.next ?_))
    rw [hb, if_neg (by decide)]
    exact Triple.pure fun _ hm => hm

theorem waitForIRQ_total : Total (Quiet device d w (waited d ++ vs)) (waitForIRQ device)
    fun _ => Quiet device (d.block true) w vs := by
  refine Triple.get.bind fun m₀ => Triple.assume (fun m hm => hm.1 ▸ hm.2.lt) fun hlt => ?_
  rw [if_neg (Nat.not_le.mpr hlt)]
  refine Triple.before ?_ fun m hm => hm.2
  exact (wait_loop_total 254).bind fun _ => interrupts_total.bind fun _ => write_total _

theorem ata_finish_total : Total (Quiet device d w vs) (ata_finish device)
    fun r m => r = !d.has_errored ∧ Quiet device (d.use false) w vs m :=
  (write_total _).bind fun _ => has_errored_total.next .pure

/-! ## A device that hands out words -/

/-- The answers to the transfer loop of a drive that hands out `n` words. -/
def answers (n : Nat) : List (BitVec 16) := (List.replicate n [0x58, 0]).flatten ++ [0x50]

theorem read_word_more (i : Nat) : Total (Quiet device d w (0x58 :: 0 :: vs)) (read_word device base i)
    fun r m => r = .inl (i + 1) ∧ Quiet device d (w + 1) vs m := by
  refine controller_total.next (inb_total.next ?_)
  rw [if_pos (by decide)]
  exact inw_total.next ((store_total _ _).bind fun _ => Total.pure.before fun _ h => h.1)

theorem read_word_done (i : Nat) : Total (Quiet device d w [0x50]) (read_word device base i)
    fun r m => r = .inr () ∧ Quiet device d w [] m := by
  refine controller_total.next (inb_total.next ?_)
  rw [if_neg (by decide)]
  exact Total.pure

/-- How many words are read is up to the drive. -/
theorem read_words {n fuel : Nat} (hf : n ≤ fuel) (i : Nat) : Total (Quiet device d w (answers n))
    (iterate (read_word device base) .pending (fuel + 1) i) fun _ => Quiet device d (w + n) [] := by
  induction n generalizing w fuel i with
  | zero => exact (read_word_done i).next (Triple.pure fun _ hm => hm)
  | succ n ih =>
    obtain ⟨fuel, rfl⟩ : ∃ k, fuel = k + 1 := ⟨fuel - 1, by omega⟩
    refine (read_word_more i).next ((ih (Nat.le_of_succ_le_succ hf) (i + 1)).after fun _ m hm => ?_)
    rwa [Nat.add_assoc, Nat.add_comm 1 n] at hm

theorem loop_words (n : Nat) : Total (Quiet device d w (answers n)) (loop (read_word device base) 0)
    fun _ => Quiet device d (w + n) [] := by
  refine Triple.get.bind fun m₀ => Triple.assume (fun m hm => hm.1 ▸ hm.2.responses) fun hr => ?_
  have hlen : n ≤ m₀.responses.length := by
    rw [hr]
    simp [answers]
    omega
  exact (read_words hlen 0).before fun m hm => hm.2

/-- A request that is let through reads the words that the drive hands out. -/
theorem ata_readSectors_total (href : ¬ Refused d device lba sector_count) (hbase : d.base_port ≠ 0)
    (n : Nat) : Total (Quiet device d w (0 :: 0 :: 0 :: 0 :: (waited d ++ answers n)))
      (ata_readSectors device lba sector_count) fun r m => r = (!d.has_errored) ∧
      words m.log = w + n := by
  have hchecks {vs : List (BitVec 16)} : Total (Quiet device d w vs) (ata_refuses device lba sector_count)
      fun r m => r = false ∧ Quiet device d w vs m :=
    .of_run fun m hm => ⟨_, m, ata_refuses_run hm.record, decide_eq_false href, hm⟩
  refine hchecks.next (switchDevice_total.next ?_)
  rw [if_neg hbase]
  have hwait : Total (Quiet device (d.use true) w (waited d ++ answers n)) (waitForIRQ device)
    fun _ => Quiet device ((d.use true).block true) w (answers n) := waitForIRQ_total
  refine ata_issue_total.bind fun _ => hwait.bind fun _ => (loop_words n).bind fun _ => ?_
  exact ata_finish_total.after fun r m hm => ⟨hm.1, hm.2.words⟩

/-! ## A packet device that hands out words -/

theorem send_words_total (command : Nat → BitVec 8) (l : List Nat) :
    Total (Quiet device d w vs) (send_words base command l) fun _ => Quiet device d w vs := by
  induction l with
  | nil => exact Triple.pure fun _ hm => hm
  | cons i l ih => exact outw_total.bind fun _ => ih

theorem send_packet_total (command : Nat → BitVec 8) (command_length : BitVec 8) :
    Total (Quiet device d w vs) (send_packet device base command command_length)
      fun _ => Quiet device d w vs := by
  refine (send_words_total command _).bind fun _ => Triple.ite (fun _ => ?_) fun _ => ?_
  · exact Triple.pure fun _ hm => hm
  · exact (send_words_total command _).bind fun _ => controller_total.next (send_words_total command _)

theorem packet_busy_total {alt_status : BitVec 32} : Total (Quiet device d w (0 :: vs))
    (loop (packet_busy alt_status) ()) fun _ => Quiet device d w vs := by
  have hbody : Total (Quiet device d w (0 :: vs)) (packet_busy alt_status ())
      fun r m => r = .inr () ∧ Quiet device d w vs m := by
    refine inb_total.next ?_
    rw [if_neg (by decide)]
    exact Total.pure
  refine Triple.get.bind fun m₀ => Triple.before ?_ fun m hm => hm.2
  exact hbody.next (Triple.pure fun _ hm => hm)

variable {alt_status : BitVec 32}

theorem transfer_words_total (k : Nat) : Total (Quiet device d w (0 :: 8 :: v :: vs))
    (transfer_words base alt_status .READ 1 k 0) fun r m => r = (k + 1, 0) ∧
      Quiet device d (w + 1) vs m ∧ m.buffer k = v.setWidth 32 := by
  refine inb_total.next ?_
  rw [if_neg (by decide)]
  refine inb_total.next ?_
  rw [if_neg (by decide)]
  exact Triple.bind (inw_total.next (store_total k (v.setWidth 32))) fun _ => Total.pure

theorem wait_blocked_total (hb : d.is_blocked = true) : Total (Quiet device d w (1 :: vs))
    (waitForIRQ device) fun _ => Quiet device d w vs := by
  have hblock : d.block true = d := by
    rw [AtaDevice.block, ← hb]
  have hwait : Total (Quiet device d w (waited d ++ vs)) (waitForIRQ device)
    fun _ => Quiet device (d.block true) w vs := waitForIRQ_total
  rw [hblock, waited, hb] at hwait
  exact hwait

/-- The answers to a turn from `tryAgain` with one word, up to the last status. -/
def round : List (BitVec 16) := [0, 0, 0, 0, 0, 8, 0, 1]

/-- The answers of a device that goes back to `tryAgain` `n` times. -/
def rounds : Nat → List (BitVec 16)
  | 0 => round ++ [0]
  | n + 1 => round ++ 8 :: 1 :: rounds n

/-- A turn up to the last status, and what is done with that. -/
theorem try_again_round (hb : d.is_blocked = true) {k : Nat} {R : Nat ⊕ Bool → Machine → Prop}
    (hrest : Total (Quiet device d (w + 1) vs) (if v.setWidth 8 &&& 0x08 ≠ 0 then do
        waitForIRQ device
        return .inl (k + 1)
      else do
        write (device >>> DEVICE_INFO_SHIFT) (·.use false)
        return .inr true) R) :
    Total (Quiet device d w (round ++ v :: vs)) (try_again device base alt_status .READ 1 k) R := by
  refine inb_total.next (inb_total.next (inb_total.next (inb_total.next ?_)))
  refine (transfer_words_total k).next (Triple.before ?_ fun _ h => h.1)
  dsimp only
  rw [if_neg (by decide)]
  exact (wait_blocked_total hb).bind fun _ => inb_total.next hrest

theorem try_again_more (hb : d.is_blocked = true) (k : Nat) :
    Total (Quiet device d w (round ++ 8 :: 1 :: vs)) (try_again device base alt_status .READ 1 k)
      fun r m => r = .inl (k + 1) ∧ Quiet device d (w + 1) vs m := by
  apply try_again_round hb
  rw [if_pos (by decide)]
  exact (wait_blocked_total hb).bind fun _ => Total.pure

theorem try_again_done (hb : d.is_blocked = true) (k : Nat) :
    Total (Quiet device d w (round ++ [0])) (try_again device base alt_status .READ 1 k)
      fun r m => r = .inr true ∧ Quiet device (d.use false) (w + 1) [] m := by
  apply try_again_round hb
  rw [if_neg (by decide)]
  exact (write_total _).bind fun _ => Total.pure

theorem rounds_words (hb : d.is_blocked = true) {n fuel : Nat} (hf : n ≤ fuel) (k : Nat) :
    Total (Quiet device d w (rounds n))
      (iterate (try_again device base alt_status .READ 1) .pending (fuel + 1) k)
      fun _ m => words m.log = w + n + 1 := by
  induction n generalizing w fuel k with
  | zero => exact (try_again_done hb k).next (Triple.pure fun _ hm => hm.words)
  | succ n ih =>
    obtain ⟨fuel, rfl⟩ : ∃ k, fuel = k + 1 := ⟨fuel - 1, by omega⟩
    refine (try_again_more hb k).next ((ih (Nat.le_of_succ_le_succ hf) (k + 1)).after fun _ m hm => ?_)
    omega

theorem rounds_length (n : Nat) : n ≤ (rounds n).length := by
  induction n with
  | zero => exact Nat.zero_le _
  | succ n ih =>
    rw [rounds, List.length_append, List.length_cons, List.length_cons]
    omega

/-- A packet that is sent comes to its transfer loop. -/
theorem atapi_sendCommand_loop {command : Nat → BitVec 8} (command_length : BitVec 8)
    (hnot : ¬ Declined d) {R : Bool → Machine → Prop}
    (hloop : Total (Quiet device ((d.use true).block true) w vs)
      (loop (try_again device d.base_port d.alt_port (atapi_getCommandType (command 0)) 1) 0) R) :
    Total (Quiet device d w (0 :: 0 :: 0 :: 0 :: 0 :: (waited d ++ 2 :: 0 :: vs)))
      (atapi_sendCommand device command command_length) R := by
  obtain ⟨htype, huse, hport⟩ := by simpa only [Declined, not_or] using hnot
  have hwait {vs : List (BitVec 16)} : Total (Quiet device (d.use true) w (waited d ++ vs))
    (waitForIRQ device) fun _ => Quiet device ((d.use true).block true) w vs := waitForIRQ_total
  refine Triple.get.bind fun m₀ => Triple.assume (fun m hm => hm.1 ▸ controllers_isNone hm.2.record)
    fun hsome => ?_
  rw [if_neg (by rw [hsome]; exact Bool.false_ne_true)]
  refine Triple.before ?_ fun m hm => hm.2
  refine switchDevice_total.next (controller_total.next (controller_total.next ?_))
  rw [if_neg htype]
  refine controller_total.next ?_
  rw [if_neg huse, if_neg hport]
  refine (write_total _).bind fun _ => outb_total.bind fun _ => outb_total.bind fun _ =>
    outb_total.bind fun _ => outb_total.bind fun _ => ?_
  refine packet_busy_total.bind fun _ => (send_packet_total command _).bind fun _ => ?_
  exact hwait.bind fun _ => inb_total.next (inb_total.next hloop)

theorem atapi_refuses_total (href : ¬ AtapiRefused d lba sector_count) :
    Total (Quiet device d w vs) (atapi_refuses device lba sector_count)
      fun r m => r = false ∧ Quiet device d w vs m :=
  .of_run fun m hm => ⟨_, m, atapi_refuses_run hm.record, decide_eq_false href, hm⟩

/-- A packet that reads goes on as long as the device asks for more. -/
theorem atapi_sendCommand_total {command : Nat → BitVec 8} (command_length : BitVec 8)
    (hnot : ¬ Declined d) (hread : atapi_getCommandType (command 0) = .READ) (n : Nat) :
    Total (Quiet device d w (0 :: 0 :: 0 :: 0 :: 0 :: (waited d ++ 2 :: 0 :: rounds n)))
      (atapi_sendCommand device command command_length) fun _ m => words m.log = w + n + 1 := by
  apply atapi_sendCommand_loop command_length hnot
  rw [hread]
  refine Triple.get.bind fun m₁ => Triple.assume (fun m hm => hm.1 ▸ hm.2.responses) fun hr => ?_
  refine (rounds_words rfl ?_ 0).before fun m hm => hm.2
  rw [hr]
  exact rounds_length n

theorem atapi_readSectors_total (href : ¬ AtapiRefused d lba sector_count) (hnot : ¬ Declined d)
    (n : Nat) :
    Total (Quiet device d w (0 :: 0 :: 0 :: 0 :: 0 :: (waited d ++ 2 :: 0 :: rounds n)))
      (atapi_readSectors device lba sector_count) fun _ m => words m.log = w + n + 1 := by
  refine (atapi_refuses_total href).next ?_
  exact (atapi_sendCommand_total 12 hnot (rw_packet_read (.inl rfl)) n).bind fun _ => .pure fun _ hm => hm

end Condor.Ata
