import Condor.Ata.Rules

/-!
# The words of a request

Every transfer loop asks for DRQ and then moves one word, so what a request does
with the data port and the buffer is a number of equal turns. How many there are
is up to the device. `marks` is the part of the log that is about words, and
`turns` what a number of turns leaves there.
-/

namespace Condor.Ata

open Lib Lib.Prog

inductive Mark where
  | poll
  | word
  | send
  | store (index : Nat)
  | load (index : Nat)
  deriving DecidableEq, Repr

/-- A poll that finds DRQ set, a word of the data port, an access to the buffer. -/
def Access.mark : Access → Option Mark
  | .inb .drq _ v => if v &&& 0x08 = 0 then none else some .poll
  | .inw _ _ => some .word
  | .outw _ _ => some .send
  | .store i _ => some (.store i)
  | .load i => some (.load i)
  | _ => none

def marks (log : List Access) : List Mark := log.filterMap Access.mark

/-- The polls that have found DRQ set. -/
def polls (log : List Access) : Nat := (marks log).count .poll

/-- The words that the device has handed out. -/
def words (log : List Access) : Nat := (marks log).count .word

/-- The words that have been put out. -/
def sends (log : List Access) : Nat := (marks log).count .send

def Mark.store? : Mark → Option Nat
  | .store i => some i
  | _ => none

def Mark.load? : Mark → Option Nat
  | .load i => some i
  | _ => none

/-- The indices stored to, in their order. -/
def stores (log : List Access) : List Nat := (marks log).filterMap Mark.store?

/-- The indices loaded from, in their order. -/
def loads (log : List Access) : List Nat := (marks log).filterMap Mark.load?

/-- The marks of one turn of a transfer loop, and the part of them that it may stop in. -/
structure Turn where
  all : Nat → List Mark
  stop : Nat → List Mark

def read_turn : Turn := ⟨fun i => [.poll, .word, .store i], fun _ => [.poll]⟩

def write_turn : Turn := ⟨fun i => [.poll, .load i, .send], fun i => [.poll, .load i]⟩

/-- The marks of `k` turns. -/
def turns (turn : Turn) (k : Nat) : List Mark := (List.range k).flatMap turn.all

variable {m m' : Machine} {d : AtaDevice} {device i k : Nat} {t : List Mark} {a base : BitVec 32}
  {lba : BitVec 64} {sector_count cmd48 cmd28 : BitVec 8} {l : List Access} {e : Access}

theorem turns_succ (turn : Turn) (k : Nat) : turns turn (k + 1) = turns turn k ++ turn.all k := by
  rw [turns, List.range_succ, List.flatMap_append, List.flatMap_singleton]
  rfl

/-! ## One access -/

theorem marks_append : marks (l ++ [e]) = marks l ++ e.mark.toList := by
  unfold marks
  rw [List.filterMap_append]
  cases h : e.mark <;> simp [h]

theorem marks_append_none (he : e.mark = none) : marks (l ++ [e]) = marks l := by
  rw [marks_append, he, Option.toList_none, List.append_nil]

/-- `t` has been done with the words so far. -/
def Marked (t : List Mark) (m : Machine) : Prop := marks m.log = t

theorem Marked.append (h : Marked t m) : Marked (t ++ e.mark.toList) (m.append_log e) := by
  unfold Marked at h ⊢
  rw [Machine.append_log, marks_append, h]

theorem Marked.append_none (h : Marked t m) (he : e.mark = none) : Marked t (m.append_log e) := by
  unfold Marked at h ⊢
  rw [Machine.append_log, marks_append_none he, h]

theorem plain_marked (t : List Mark) : Plain (Marked t) where
  toCalm := by
    apply Inert.calm
    apply Inert.of_log (fun l => marks l = t)
    rintro l w p v (rfl | ⟨j, rfl⟩) hl
    · exact (marks_append_none rfl).trans hl
    · exact (marks_append_none rfl).trans hl
  outb_log _ _ _ h := h.append_none rfl

theorem inb_drq_marked : Triple (Marked t) (inb .drq a)
    (fun v m => if v &&& 0x08 = 0 then Marked t m else Marked (t ++ [.poll]) m) fun _ => Marked t := by
  refine (plain_marked t).inb fun m v vs _ hm => ?_
  have h := Marked.append (m := m.set_responses vs) (e := .inb .drq (port a) (v.setWidth 8)) hm
  split
  · rw [Access.mark, if_pos ‹_›, Option.toList_none, List.append_nil] at h
    exact h
  · rw [Access.mark, if_neg ‹_›] at h
    exact h

theorem inb_check_marked : Keeps (Marked t) (inb .check a) :=
  (plain_marked t).inb fun m _ vs _ hm => Marked.append_none (m := m.set_responses vs) hm rfl

theorem inw_marked : Triple (Marked t) (inw a) (fun _ => Marked (t ++ [.word])) fun _ => Marked t :=
  (plain_marked t).inw fun m _ vs _ hm => Marked.append (m := m.set_responses vs) hm

theorem outw_marked {v : BitVec 16} :
    Triple (Marked t) (outw a v) (fun _ => Marked (t ++ [.send])) fun _ => Marked t :=
  (plain_marked t).toCalm.outw fun _ hm => hm.append

theorem store_marked {v : BitVec 32} {E : Stop → Machine → Prop} :
    Triple (Marked t) (store k v) (fun _ => Marked (t ++ [.store k])) E :=
  .modify fun _ hm => Marked.append hm

theorem load_marked {E : Stop → Machine → Prop} :
    Triple (Marked t) (load k) (fun _ => Marked (t ++ [.load k])) E := by
  refine Triple.bind (Q := fun _ => Marked (t ++ [.load k])) (.modify fun _ hm => hm.append) fun _ => ?_
  exact Triple.get.bind fun _ => .pure fun _ h => h.2

/-! ## The transfer loops -/

/-- After `pre` a number of turns has been made, or one more has been stopped on the way. -/
def Stopped (pre : List Mark) (turn : Turn) (m : Machine) : Prop :=
  ∃ k mid, Marked (pre ++ turns turn k ++ mid) m ∧ mid <+: turn.stop k

variable {pre mid : List Mark} {turn : Turn}

theorem Marked.stopped (h : Marked (pre ++ turns turn k ++ mid) m) (hmid : mid <+: turn.stop k) :
    Stopped pre turn m := ⟨k, mid, h, hmid⟩

theorem Marked.between (h : Marked (pre ++ turns turn k) m) : Stopped pre turn m :=
  ⟨k, [], by rwa [List.append_nil], List.nil_prefix ..⟩

theorem Marked.turned (h : Marked (pre ++ turns turn k ++ turn.all k) m) :
    Marked (pre ++ turns turn (k + 1)) m := by
  rwa [turns_succ, ← List.append_assoc]

/-- The poll of a turn. -/
theorem poll_turn : Triple (Marked (pre ++ turns turn k)) (inb .drq a)
    (fun v m => if v &&& 0x08 = 0 then Marked (pre ++ turns turn k) m
      else Marked (pre ++ turns turn k ++ [.poll]) m) fun _ => Stopped pre turn :=
  inb_drq_marked.stops fun _ _ h => h.between

/-- The rest of a turn that reads a word. -/
theorem take_word : Triple (Marked (pre ++ turns read_turn k ++ [.poll])) (inw a)
    (fun _ => Marked (pre ++ turns read_turn k ++ [.poll, .word])) fun _ => Stopped pre read_turn := by
  refine inw_marked.weaken (fun _ h => h) (fun _ m h => ?_) fun _ _ h => Marked.stopped h List.prefix_rfl
  rwa [List.append_assoc] at h

theorem store_word {v : BitVec 32} {E : Stop → Machine → Prop} :
    Triple (Marked (pre ++ turns read_turn k ++ [.poll, .word])) (store k v)
      (fun _ => Marked (pre ++ turns read_turn (k + 1))) E := by
  refine store_marked.after fun _ m h => Marked.turned ?_
  rwa [List.append_assoc] at h

theorem read_word_turn (base : BitVec 32) (k : Nat) :
    Triple (Marked (pre ++ turns read_turn k)) (read_word device base k)
      (fun r m => r.elim (fun k => Marked (pre ++ turns read_turn k) m)
        fun _ => ∃ k, Marked (pre ++ turns read_turn k) m)
      fun _ => Stopped pre read_turn := by
  refine Triple.bind ((Keeps.record _).triple fun _ _ h => h.between) fun d => ?_
  refine poll_turn.bind fun v => ?_
  refine Triple.ite (fun hset => ?_) fun hclear => ?_
  · refine Triple.before ?_ fun m h => by rwa [if_neg hset] at h
    exact take_word.bind fun w => store_word.bind fun _ => .pure fun m h => h
  · exact .pure fun m h => ⟨k, by rwa [if_pos (not_not.mp hclear)] at h⟩

theorem write_word_turn (base : BitVec 32) (k : Nat) :
    Triple (Marked (pre ++ turns write_turn k)) (write_word base k)
      (fun r m => r.elim (fun k => Marked (pre ++ turns write_turn k) m)
        fun _ => ∃ k, Marked (pre ++ turns write_turn k) m)
      fun _ => Stopped pre write_turn := by
  have hmid : [.poll, .load k] <+: write_turn.stop k := List.prefix_rfl
  refine poll_turn.bind fun v => ?_
  refine Triple.ite (fun hset => ?_) fun hclear => ?_
  · refine Triple.before ?_ fun m h => by rwa [if_neg hset] at h
    refine load_marked.bind fun w => ?_
    refine (outw_marked.stops fun _ m h => ?_).bind fun _ => .pure fun m h => ?_
    · exact Marked.stopped (by simpa using h) hmid
    · exact Marked.turned (by simpa [write_turn] using h)
  · exact .pure fun m h => ⟨k, by rwa [if_pos (not_not.mp hclear)] at h⟩

/-- After `pre`, some number of turns. -/
def Turned (pre : List Mark) (turn : Turn) (m : Machine) : Prop := ∃ k, Marked (pre ++ turns turn k) m

theorem Turned.stopped (h : Turned pre turn m) : Stopped pre turn m := h.elim fun _ hk => hk.between

theorem plain_turned (pre : List Mark) (turn : Turn) : Plain (Turned pre turn) where
  toCalm := by
    apply Inert.calm
    apply Inert.of_log (fun l => ∃ k, marks l = pre ++ turns turn k)
    rintro l w p v (rfl | ⟨j, rfl⟩) ⟨k, hl⟩
    · exact ⟨k, (marks_append_none rfl).trans hl⟩
    · exact ⟨k, (marks_append_none rfl).trans hl⟩
  outb_log _ _ _ h := h.imp fun _ hk => hk.append_none rfl

theorem loop_turned {body : Nat → M (Nat ⊕ Unit)}
    (hbody : ∀ k, Triple (Marked (pre ++ turns turn k)) (body k)
      (fun r m => r.elim (fun k => Marked (pre ++ turns turn k) m) fun _ => Turned pre turn m)
      fun _ => Stopped pre turn) :
    Triple (Marked pre) (loop body 0) (fun _ => Turned pre turn) fun _ => Stopped pre turn := by
  refine Triple.bind (Keeps.get.triple fun _ m h => ?_) fun m₀ => ?_
  · exact Marked.between (k := 0) (by simpa [turns] using h)
  apply Triple.before (P := Marked (pre ++ turns turn 0))
  · exact Triple.iterate hbody (fun _ _ h => h.between) _ 0
  · intro m h
    simpa [turns] using h

theorem ata_finish_turned : Triple (Turned pre turn) (ata_finish device) (fun _ => Turned pre turn)
    fun _ => Stopped pre turn :=
  ((plain_turned pre turn).ata_finish (fun _ _ _ h => h) (fun _ _ h => h.stopped) fun _ _ h => h.stopped).after
    fun _ _ h => h.1

theorem read_rest_turned (base : BitVec 32) : Triple (Marked []) (read_rest device base)
    (fun _ => Turned [] read_turn) fun _ => Stopped [] read_turn := by
  have hstart (m : Machine) (h : Marked [] m) : Stopped [] read_turn m := Marked.between (k := 0) h
  refine ((plain_marked []).waitForIRQ.triple fun _ => hstart).bind fun _ => ?_
  refine (loop_turned fun k => read_word_turn base k).bind fun _ => ?_
  exact ata_finish_turned

theorem write_rest_turned (base : BitVec 32) : Triple (Marked []) (write_rest device base)
    (fun _ => Turned [] write_turn) fun _ => Stopped [] write_turn := by
  have hI := plain_turned [] write_turn
  refine (loop_turned fun k => write_word_turn base k).bind fun _ => ?_
  refine ((Keeps.record _).triple fun _ _ h => h.stopped).bind fun d => ?_
  refine (hI.keeps_outb.triple fun _ _ h => h.stopped).bind fun _ => ?_
  exact ata_finish_turned

/-- The result of a request: whole turns if it returns. -/
def Transferred (pre : List Mark) (turn : Turn) : Except Stop Bool → Machine → Prop
  | .ok _, m => Turned pre turn m
  | .error _, m => Stopped pre turn m

theorem ata_start_transferred {rest : BitVec 32 → M Bool}
    (hd : m.record (device >>> DEVICE_INFO_SHIFT) = some d) (hlt : device < m.controller_index)
    (hlog : m.log = [])
    (hrest : ∀ base, Triple (Marked []) (rest base) (fun _ => Turned [] turn) fun _ => Stopped [] turn) :
    Transferred [] turn ((ata_start device lba sector_count cmd48 cmd28 rest).run m).1
      ((ata_start device lba sector_count cmd48 cmd28 rest).run m).2 := by
  have hstart (m : Machine) (h : Marked [] m) : Turned [] turn m := ⟨0, h⟩
  apply ata_start_rule hd hlt (plain_marked []) (plain_marked [])
  · show marks m.log = []
    rw [hlog]
    rfl
  · intro _ _ _ h
    exact h
  · intro _ m' h
    exact hstart m' h
  · intro _ m' h
    exact (hstart m' h).stopped
  · intro _ m' h
    exact (hstart m' h).stopped
  · intro _ _
    exact hrest d.base_port

/-! ## The packet -/

/-- The words of the packet have been sent, and then `k` turns made. -/
def PacketTurned (k : Nat) (m : Machine) : Prop :=
  ∃ s, Marked (List.replicate s .send ++ turns read_turn k) m

/-- The result of a packet that reads: none has been sent, or its words and whole turns. -/
def PacketTransferred (d : AtaDevice) : Except Stop Bool → Machine → Prop
  | .ok _, m => (Declined d ∧ Marked [] m) ∨
    (¬ Declined d ∧ ∃ s, Turned (List.replicate s .send) read_turn m)
  | .error _, m => ∃ s, Stopped (List.replicate s .send) read_turn m

theorem PacketTurned.stopped (h : PacketTurned k m) : ∃ s, Stopped (List.replicate s .send) read_turn m :=
  h.imp fun _ hs => hs.between

theorem plain_packetTurned (k : Nat) : Plain (PacketTurned k) where
  toCalm := by
    apply Inert.calm
    apply Inert.of_log (fun l => ∃ s, marks l = List.replicate s Mark.send ++ turns read_turn k)
    rintro l w p v (rfl | ⟨j, rfl⟩) ⟨s, hl⟩
    · exact ⟨s, (marks_append_none rfl).trans hl⟩
    · exact ⟨s, (marks_append_none rfl).trans hl⟩
  outb_log _ _ _ h := h.imp fun _ hs => hs.append_none rfl

/-- Before the first turn there is no end to the packet. -/
theorem sending_packetTurned : Sending (PacketTurned 0) where
  toPlain := plain_packetTurned 0
  outw_log m p v := by
    rintro ⟨s, hs⟩
    refine ⟨s + 1, ?_⟩
    have h := hs.append (e := .outw p v)
    rw [turns, List.range_zero, List.flatMap_nil, List.append_nil] at h ⊢
    rwa [List.replicate_succ']

theorem transfer_words_turned {alt_status : BitVec 32} (n k : Nat) : Triple (PacketTurned k)
    (transfer_words base alt_status .READ n k 0)
    (fun r m => if r.2 &&& 0x1 ≠ 0 then PacketTurned r.1 m else PacketTurned r.1 m)
    fun _ m => ∃ s, Stopped (List.replicate s .send) read_turn m := by
  apply transfer_words_rule (D := fun k m => ∃ s, Marked (List.replicate s .send ++ turns read_turn k ++ [.poll]) m)
  · intro k
    refine .of_exists fun s => ?_
    refine (inb_check_marked.triple fun _ _ h => ⟨s, h.between⟩).after fun v m h => ?_
    rw [ite_self]
    exact ⟨s, h⟩
  · intro k
    refine .of_exists fun s => poll_turn.weaken (fun _ h => h) (fun v m h => ?_) fun _ _ h => ⟨s, h⟩
    split
    · rw [if_pos ‹_›] at h
      exact ⟨s, h⟩
    · rw [if_neg ‹_›] at h
      exact ⟨s, h⟩
  · intro k
    refine .of_exists fun s => ?_
    exact (take_word.bind fun w => store_word).weaken (fun _ h => h) (fun _ _ h => ⟨s, h⟩)
      fun _ _ h => ⟨s, h⟩
  · rfl

theorem PacketTurned.transferred (h : PacketTurned k m) :
    ∃ s, Turned (List.replicate s .send) read_turn m :=
  h.imp fun _ hs => ⟨k, hs⟩

theorem atapi_sendCommand_transferred {command : Nat → BitVec 8} (command_length : BitVec 8)
    (hd : m.record (device >>> DEVICE_INFO_SHIFT) = some d) (hlt : device < m.controller_index)
    (hlog : m.log = []) (hread : atapi_getCommandType (command 0) = .READ) :
    PacketTransferred d ((atapi_sendCommand device command command_length).run m).1
      ((atapi_sendCommand device command command_length).run m).2 := by
  have hstart (m : Machine) (h : Marked [] m) : PacketTurned 0 m := ⟨0, h⟩
  apply atapi_sendCommand_rule hd hlt (plain_marked []) (plain_marked []) sending_packetTurned
  · show marks m.log = []
    rw [hlog]
    rfl
  · intro _ _ _ _ h
    exact h
  · intro m' h
    exact hstart _ (h.append_none rfl)
  · intro hdec m' h
    exact .inl ⟨hdec, h⟩
  · intro _ m' h
    exact (hstart m' h).stopped
  · intro _ m' h
    exact (hstart m' h).stopped
  · intro _ m' h
    exact h.stopped
  · intro hnot alt_status n
    rw [hread]
    apply try_again_rule (B := PacketTurned)
    · exact fun k => (plain_packetTurned k).toCalm
    · exact transfer_words_turned
    · intro k m' h
      exact .inr ⟨hnot, h.transferred⟩
    · intro k m' d' _ h
      exact .inr ⟨hnot, PacketTurned.transferred (m := m'.set_record _ _) h⟩
    · intro k _ m' h
      exact h.stopped

/-! ## Counting -/

theorem turns_read_succ (k : Nat) :
    turns read_turn (k + 1) = turns read_turn k ++ [.poll, .word, .store k] := turns_succ read_turn k

theorem turns_write_succ (k : Nat) :
    turns write_turn (k + 1) = turns write_turn k ++ [.poll, .load k, .send] := turns_succ write_turn k

theorem turns_read_poll (k : Nat) : (turns read_turn k).count .poll = k := by
  induction k with
  | zero => rfl
  | succ k ih => simp [turns_read_succ, List.count_append, ih]

theorem turns_read_word (k : Nat) : (turns read_turn k).count .word = k := by
  induction k with
  | zero => rfl
  | succ k ih => simp [turns_read_succ, List.count_append, ih]

theorem turns_read_store (k : Nat) : (turns read_turn k).filterMap Mark.store? = List.range k := by
  induction k with
  | zero => rfl
  | succ k ih =>
    rw [turns_read_succ, List.filterMap_append, ih, List.range_succ]
    rfl

theorem turns_read_load (k : Nat) : (turns read_turn k).filterMap Mark.load? = [] := by
  induction k with
  | zero => rfl
  | succ k ih =>
    rw [turns_read_succ, List.filterMap_append, ih]
    rfl

theorem sent_filterMap {f : Mark → Option Nat} (hf : f .send = none) (s : Nat) :
    (List.replicate s .send).filterMap f = [] := by
  simp [hf]

theorem Stopped.stores_eq {s : Nat} (h : Stopped (List.replicate s .send) read_turn m) :
    stores m.log = List.range (words m.log) := by
  obtain ⟨k, mid, hm, hmid⟩ := h
  have hcut : mid = [] ∨ mid = [.poll] := by
    rcases List.prefix_cons_iff.mp hmid with hnil | ⟨l, rfl, hl⟩
    · exact .inl hnil
    · exact .inr (by rw [List.prefix_nil.mp hl])
  have hwords : mid.count .word = 0 := by rcases hcut with rfl | rfl <;> rfl
  have hstores : mid.filterMap Mark.store? = [] := by rcases hcut with rfl | rfl <;> rfl
  unfold Marked at hm
  unfold stores words
  rw [hm, List.filterMap_append, List.filterMap_append, List.count_append, List.count_append,
    sent_filterMap rfl, turns_read_store, turns_read_word, hwords, hstores, List.count_replicate]
  simp

/-- What a request that reads has done when it returns. -/
theorem Turned.read {s : Nat} (h : Turned (List.replicate s .send) read_turn m) :
    polls m.log = words m.log ∧ stores m.log = List.range (words m.log) ∧ loads m.log = [] := by
  obtain ⟨k, hm⟩ := h
  unfold Marked at hm
  refine ⟨?_, Turned.stopped ⟨k, hm⟩ |>.stores_eq, ?_⟩
  · unfold polls words
    rw [hm, List.count_append, List.count_append, turns_read_poll, turns_read_word, List.count_replicate,
      List.count_replicate]
    rfl
  · unfold loads
    rw [hm, List.filterMap_append, sent_filterMap rfl, turns_read_load]
    rfl

theorem turns_write_counts (k : Nat) : (turns write_turn k).count .poll = k ∧
    (turns write_turn k).count .send = k ∧ (turns write_turn k).filterMap Mark.load? = List.range k := by
  induction k with
  | zero => exact ⟨rfl, rfl, rfl⟩
  | succ k ih =>
    rw [turns_write_succ, List.filterMap_append, List.count_append, List.count_append, ih.1, ih.2.1, ih.2.2,
      List.range_succ]
    exact ⟨rfl, rfl, rfl⟩

/-- What a request that writes has done when it returns. -/
theorem Turned.write (h : Turned [] write_turn m) :
    sends m.log = polls m.log ∧ loads m.log = List.range (polls m.log) := by
  obtain ⟨k, hm⟩ := h
  unfold Marked at hm
  obtain ⟨hpoll, hsend, hload⟩ := turns_write_counts k
  unfold polls sends loads
  rw [hm, List.nil_append, hpoll, hsend, hload]
  exact ⟨rfl, rfl⟩

end Condor.Ata
