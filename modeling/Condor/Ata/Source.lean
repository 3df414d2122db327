import Condor.Ata.Quiet

/-!
# The source of a packet write

`atapi_writeSectors` sends its packet with `ATAPI_WRITE_12`, whose bits
`atapi_getCommandType` takes for those of a read. So nothing but the packet is
sent, and what the device hands out goes to the buffer that was to be written
(`atapi_writeSectors_source`).
-/

namespace Condor.Ata

open Lib Lib.Prog

variable {m m' : Machine} {d : AtaDevice} {device k w : Nat} {a base alt_status : BitVec 32}
  {lba : BitVec 64}
  {sector_count : BitVec 8} {ps ws vs : List (BitVec 16)} {b : Nat → BitVec 32} {v : BitVec 16}
  {command : Nat → BitVec 8} {l : List Access} {e : Access}

def Access.sent? : Access → Option (BitVec 16)
  | .outw _ v => some v
  | _ => none

def Access.handed? : Access → Option (BitVec 16)
  | .inw _ v => some v
  | _ => none

/-- The words put out, in their order. -/
def sent (log : List Access) : List (BitVec 16) := log.filterMap Access.sent?

/-- The words that the device has handed out, in their order. -/
def handed (log : List Access) : List (BitVec 16) := log.filterMap Access.handed?

/-- The buffer `b` with the words `ws` in its first units. -/
def overwritten (b : Nat → BitVec 32) (ws : List (BitVec 16)) (i : Nat) : BitVec 32 :=
  (ws[i]?.map (·.setWidth 32)).getD (b i)

/-- The word of the packet at `i`. -/
def packet_word (command : Nat → BitVec 8) (i : Nat) : BitVec 16 :=
  (command (2 * i)).setWidth 16 ||| (command (2 * i + 1)).setWidth 16 <<< 8

/-- The words of a packet of twelve bytes. -/
def packet_words (command : Nat → BitVec 8) : List (BitVec 16) := (List.range 6).map (packet_word command)

/-- The buffer is `b`, and what is sent behind the packet is a prefix of it. -/
def SentFrom (b : Nat → BitVec 32) (m : Machine) : Prop :=
  m.buffer = b ∧ ∃ n, (sent m.log).drop 6 = (List.range n).map fun i => (b i).setWidth 16

theorem overwritten_nil (b : Nat → BitVec 32) : overwritten b [] = b := rfl

theorem overwritten_append (b : Nat → BitVec 32) (ws : List (BitVec 16)) (v : BitVec 16) :
    overwritten b (ws ++ [v]) = Function.update (overwritten b ws) ws.length (v.setWidth 32) := by
  funext i
  rw [Function.update_apply]
  split
  · subst i
    simp [overwritten]
  · simp only [overwritten, List.getElem?_append]
    split
    · rfl
    · have hbehind : ws[i]? = none := List.getElem?_eq_none (by omega)
      have hlast : [v][i - ws.length]? = none := List.getElem?_eq_none (by simp; omega)
      rw [hbehind, hlast]

/-! ## What has been sent and handed out -/

/-- `ps` has been sent, `ws` handed out, and the buffer is `b`. -/
structure Moved (ps ws : List (BitVec 16)) (b : Nat → BitVec 32) (m : Machine) : Prop where
  sent : sent m.log = ps
  handed : handed m.log = ws
  buffer : m.buffer = b

theorem Moved.append (h : Moved ps ws b m) :
    Moved (ps ++ e.sent?.toList) (ws ++ e.handed?.toList) b (m.append_log e) where
  sent := by
    rw [← h.sent, Machine.append_log, Ata.sent, List.filterMap_append]
    cases he : e.sent? <;> simp [Ata.sent, he]
  handed := by
    rw [← h.handed, Machine.append_log, Ata.handed, List.filterMap_append]
    cases he : e.handed? <;> simp [Ata.handed, he]
  buffer := h.buffer

theorem Moved.append_none (h : Moved ps ws b m) (hs : e.sent? = none) (hh : e.handed? = none) :
    Moved ps ws b (m.append_log e) := by
  have happ := h.append (e := e)
  rwa [hs, hh, Option.toList_none, List.append_nil, List.append_nil] at happ

theorem plain_moved (ps ws : List (BitVec 16)) (b : Nat → BitVec 32) : Plain (Moved ps ws b) where
  toCalm := by
    apply Inert.calm
    refine ⟨fun _ _ h => ⟨h.sent, h.handed, h.buffer⟩, fun m w p v vs _ _ h => ?_,
      fun _ _ _ _ _ _ _ h => ⟨h.sent, h.handed, h.buffer⟩, fun _ _ h => ⟨h.sent, h.handed, h.buffer⟩⟩
    exact Moved.append_none (m := m.set_responses vs) ⟨h.sent, h.handed, h.buffer⟩ rfl rfl
  outb_log _ _ _ h := h.append_none rfl rfl

theorem outw_moved : Triple (Moved ps ws b) (outw a v) (fun _ => Moved (ps ++ [v]) ws b)
    fun _ => Moved ps ws b := by
  refine (plain_moved ps ws b).toCalm.outw fun m h => ?_
  have happ := h.append (e := .outw (port a) v)
  rwa [show (Access.outw (port a) v).handed? = none from rfl, Option.toList_none, List.append_nil] at happ

theorem inw_moved : Triple (Moved ps ws b) (inw a) (fun v => Moved ps (ws ++ [v]) b)
    fun _ => Moved ps ws b := by
  refine (plain_moved ps ws b).inw fun m v vs _ h => ?_
  have happ := Moved.append (m := m.set_responses vs) (e := .inw (port a) v) ⟨h.sent, h.handed, h.buffer⟩
  rwa [show (Access.inw (port a) v).sent? = none from rfl, Option.toList_none, List.append_nil] at happ

/-- A word that is stored behind those before it. -/
theorem store_moved {E : Stop → Machine → Prop} : Triple (Moved ps (ws ++ [v]) (overwritten b ws))
    (store ws.length (v.setWidth 32)) (fun _ => Moved ps (ws ++ [v]) (overwritten b (ws ++ [v]))) E := by
  refine .modify fun m h => ?_
  have hlog := h.append_none (e := .store ws.length (v.setWidth 32)) rfl rfl
  refine ⟨hlog.sent, hlog.handed, ?_⟩
  rw [overwritten_append, ← h.buffer]
  rfl

/-! ## The packet -/

theorem send_words_moved (l : List Nat) : Triple (Moved ps ws b) (send_words base command l)
    (fun _ => Moved (ps ++ l.map (packet_word command)) ws b) fun _ _ => True := by
  induction l generalizing ps with
  | nil =>
    refine Triple.pure fun m h => ?_
    rwa [List.map_nil, List.append_nil]
  | cons i l ih =>
    refine (outw_moved.stops fun _ _ _ => trivial).bind fun _ => ?_
    have hrest := @ih (ps ++ [packet_word command i])
    rwa [List.append_assoc, List.singleton_append, ← List.map_cons] at hrest

/-- A packet of twelve bytes has no words behind the first six. -/
theorem packet_tail_twelve (n : BitVec 2) : packet_tail 12 n = [] := by
  simp [packet_tail]

theorem send_packet_moved : Triple (Moved [] ws b) (send_packet device base command 12)
    (fun _ => Moved (packet_words command) ws b) fun _ _ => True := by
  refine (send_words_moved [0, 1, 2]).bind fun _ => ?_
  rw [if_neg (by decide)]
  refine (send_words_moved [3, 4, 5]).bind fun _ => ?_
  refine (Keeps.record _).returns.bind fun d => ?_
  rw [packet_tail_twelve]
  exact Triple.pure fun m h => h

/-! ## The transfer -/

/-- Behind the packet `ps`, `k` words have been taken into the buffer `b`. -/
def Taken (ps : List (BitVec 16)) (b : Nat → BitVec 32) (k : Nat) (m : Machine) : Prop :=
  ∃ ws, ws.length = k ∧ Moved ps ws (overwritten b ws) m

theorem calm_taken (ps : List (BitVec 16)) (b : Nat → BitVec 32) (k : Nat) : Calm (Taken ps b k) where
  irq := by
    refine Triple.of_exists fun ws => Triple.assume (fun _ h => h.1) fun hk => ?_
    refine ((plain_moved ps ws _).irq.weaken (fun _ h => h.2) ?_ ?_)
    · exact fun _ _ h => ⟨ws, hk, h⟩
    · exact fun _ _ h => ⟨ws, hk, h⟩
  arrivals m ns h := h.imp fun ws hw => ⟨hw.1, (plain_moved ps ws _).arrivals m ns hw.2⟩
  read m p v vs hr h := h.imp fun ws hw => ⟨hw.1, (plain_moved ps ws _).read m p v vs hr hw.2⟩
  block m i d hd h := h.imp fun ws hw => ⟨hw.1, (plain_moved ps ws _).block m i d hd hw.2⟩
  current m device h := h.imp fun ws hw => ⟨hw.1, (plain_moved ps ws _).current m device hw.2⟩

theorem inb_taken {why : Why} : Triple (Taken ps b k) (inb why a) (fun _ => Taken ps b k) fun _ _ =>
    True := by
  refine Triple.stops ((calm_taken ps b k).inb fun m v vs _ h => h.imp fun ws hw => ⟨hw.1, ?_⟩)
    fun _ _ _ => trivial
  exact Moved.append_none (m := m.set_responses vs) ⟨hw.2.sent, hw.2.handed, hw.2.buffer⟩ rfl rfl

theorem transfer_word_taken : Triple (Taken ps b k) (transfer_word base .READ k)
    (fun _ => Taken ps b (k + 1)) fun _ _ => True := by
  refine Triple.of_exists fun ws => Triple.assume (fun _ h => h.1) fun hk => ?_
  subst hk
  refine (inw_moved.weaken (fun _ h => h.2) (fun _ _ h => h) fun _ _ _ => trivial).bind fun v => ?_
  exact store_moved.after fun _ m h => ⟨ws ++ [v], List.length_append, h⟩

theorem transfer_words_taken (n k : Nat) : Triple (Taken ps b k)
    (transfer_words base alt_status .READ n k 0)
    (fun r m => if r.2 &&& 0x1 ≠ 0 then Taken ps b r.1 m else Taken ps b r.1 m) fun _ _ => True := by
  apply transfer_words_rule (D := Taken ps b)
  · exact fun k => inb_taken.after fun v m h => by rwa [ite_self]
  · exact fun k => inb_taken.after fun v m h => by rwa [ite_self]
  · exact fun k => transfer_word_taken
  · rfl

/-! ## The command -/

/-- What a command for words that are read leaves if it returns: nothing if it is declined, and else the
packet behind it and the words handed out in the buffer. -/
theorem atapi_sendCommand_moved (hd : m.record (device >>> DEVICE_INFO_SHIFT) = some d)
    (hlt : device < m.controller_index) (hlog : m.log = [])
    (hread : atapi_getCommandType (command 0) = .READ) :
    Returned (fun _ m' => (Declined d ∧ Moved [] [] m.buffer m') ∨
        (¬ Declined d ∧ ∃ ws, Moved (packet_words command) ws (overwritten m.buffer ws) m'))
      ((atapi_sendCommand device command 12).run m).1
      ((atapi_sendCommand device command 12).run m).2 := by
  have hplain := plain_moved [] [] m.buffer
  have hstart : Moved [] [] m.buffer m := ⟨by rw [hlog]; rfl, by rw [hlog]; rfl, rfl⟩
  apply atapi_sendCommand_parts hd hlt hplain hplain hplain
    (plain_moved (packet_words command) [] m.buffer) hstart
  · exact fun _ _ _ _ h => ⟨h.sent, h.handed, h.buffer⟩
  · exact fun _ h => h.append_none rfl rfl
  · exact fun hdec _ h => .inl ⟨hdec, h⟩
  · exact fun _ _ _ => trivial
  · exact fun _ _ _ => trivial
  · exact fun _ _ _ => trivial
  · exact fun _ _ _ => trivial
  · exact send_packet_moved
  · intro hnot alt_status n
    rw [hread]
    refine Triple.before (P := Taken (packet_words command) m.buffer 0) ?_ fun _ h => ⟨[], rfl, h⟩
    apply try_again_rule (B := Taken (packet_words command) m.buffer)
    · exact calm_taken _ _
    · exact transfer_words_taken
    · rintro k m' ⟨ws, -, h⟩
      exact .inr ⟨hnot, ws, h⟩
    · rintro k m' d' - ⟨ws, -, h⟩
      exact .inr ⟨hnot, ws, h.sent, h.handed, h.buffer⟩
    · exact fun _ _ _ _ => trivial

/-- The packet request is turned down by its checks or by those of `atapi_sendCommand`. -/
def TurnedDown (m : Machine) (device : Nat) (lba : BitVec 64) (sector_count : BitVec 8) : Prop :=
  ∀ d, m.record (device >>> DEVICE_INFO_SHIFT) = some d → AtapiRefused d lba sector_count ∨ Declined d

/-- What a packet write leaves if it returns: nothing if it is turned down, and else it has sent its
packet and no more, and the words handed out are in the buffer. -/
theorem atapi_writeSectors_moved (hm : Indexed m) (hlog : m.log = []) (device : Nat) (lba : BitVec 64)
    (sector_count : BitVec 8) (destination : BitVec 32) :
    Returned (fun _ m' => (TurnedDown m device lba sector_count ∧ Moved [] [] m.buffer m') ∨
        (¬ TurnedDown m device lba sector_count ∧ ∃ ws,
          Moved (packet_words (rw_packet ATAPI_WRITE_12 lba sector_count)) ws
            (overwritten m.buffer ws) m'))
      ((atapi_writeSectors device lba sector_count destination).run m).1
      ((atapi_writeSectors device lba sector_count destination).run m).2 := by
  have hsame : Moved [] [] m.buffer m := ⟨by rw [hlog]; rfl, by rw [hlog]; rfl, rfl⟩
  rw [atapi_writeSectors_eq]
  cases hd : m.record (device >>> DEVICE_INFO_SHIFT) with
  | none =>
    rcases atapi_start_nothing hd with h | h
    · rw [h]
      exact .inl ⟨by simp [TurnedDown, hd], hsame⟩
    · rw [h]
      trivial
  | some d =>
    have hdown : TurnedDown m device lba sector_count ↔ AtapiRefused d lba sector_count ∨ Declined d := by
      simp [TurnedDown, hd]
    rw [atapi_start_run hd]
    split
    · rename_i href
      exact .inl ⟨hdown.mpr (.inl href), hsame⟩
    rename_i href
    rw [atapi_rest_run, hdown, or_iff_right href]
    have hread : atapi_getCommandType (rw_packet ATAPI_WRITE_12 lba sector_count 0) = .READ :=
      rw_packet_read (.inr rfl)
    have hsent := atapi_sendCommand_moved hd (hm.lt hd) hlog hread
    cases hr : ((atapi_sendCommand device (rw_packet ATAPI_WRITE_12 lba sector_count) 12).run m).1 with
    | error e => trivial
    | ok r =>
      rw [hr] at hsent
      exact hsent

/-! ## A device that hands out a word -/

/-- The answers to the transfer loop of a device that hands out the word `v`. -/
def handing (v : BitVec 16) : List (BitVec 16) := [0, 0, 0, 0, 0, 8, v, 1, 0]

theorem try_again_handing (hb : d.is_blocked = true) (v : BitVec 16) (k : Nat) :
    Total (Quiet device d w (handing v)) (try_again device base alt_status .READ 1 k)
      fun r m => r = .inr true ∧ m.buffer k = v.setWidth 32 := by
  have hkeep : Calm fun m : Machine => m.buffer k = v.setWidth 32 :=
    Inert.calm ⟨fun _ _ h => h, fun _ _ _ _ _ _ _ h => h, fun _ _ _ _ _ _ _ h => h, fun _ _ h => h⟩
  refine inb_total.next (inb_total.next (inb_total.next (inb_total.next ?_)))
  refine (transfer_words_total k).next ?_
  dsimp only
  rw [if_neg (by decide)]
  -- From the store on the unit is kept.
  refine ((wait_blocked_total hb).and_keeps hkeep.waitForIRQ).bind fun _ => ?_
  have hstatus : Total (fun m => Quiet device d (w + 1) [0] m ∧ m.buffer k = v.setWidth 32)
      (inb .other alt_status)
      fun r m => r = 0 ∧ Quiet device d (w + 1) [] m ∧ m.buffer k = v.setWidth 32 :=
    (inb_total.and_keeps hkeep.inb_other).after fun _ _ h => ⟨h.1.1, h.1.2, h.2⟩
  refine hstatus.next ?_
  rw [if_neg (by decide)]
  refine ((write_total _).and_keeps (write_spec (fun _ _ _ h => h) fun _ h => h)).bind fun _ => ?_
  exact Triple.pure fun _ h => ⟨rfl, h.2⟩

/-- A packet write that is let through takes a word from a device that hands one out. -/
theorem atapi_writeSectors_total (href : ¬ AtapiRefused d lba sector_count) (hnot : ¬ Declined d)
    (destination : BitVec 32) (v : BitVec 16) :
    Total (Quiet device d w (0 :: 0 :: 0 :: 0 :: 0 :: (waited d ++ 2 :: 0 :: handing v)))
      (atapi_writeSectors device lba sector_count destination)
      fun r m => r = decide (destination ≠ 0) ∧ m.buffer 0 = v.setWidth 32 := by
  unfold atapi_writeSectors
  rw [atapi_write_refuses_eq]
  refine (atapi_refuses_total href).next ?_
  refine Triple.bind (Q := fun _ m => m.buffer 0 = v.setWidth 32) ?_ fun _ => .pure fun _ h => ⟨rfl, h⟩
  apply atapi_sendCommand_loop 12 hnot
  rw [rw_packet_read (.inr rfl)]
  refine Triple.get.bind fun m₀ => Triple.before ?_ fun _ h => h.2
  exact (try_again_handing rfl v 0).next (Triple.pure fun _ h => h)

/-! ## The source -/

/-- A write that returns has sent nothing behind its packet. -/
theorem source_of_moved (h : (TurnedDown m device lba sector_count ∧ Moved [] [] b m') ∨
      (¬ TurnedDown m device lba sector_count ∧ ∃ ws, Moved (packet_words command) ws (overwritten b ws) m')) :
    ((sent m'.log).drop 6 = [] ∧ (SentFrom b m' ↔ overwritten b (handed m'.log) = b)) ∧
      (TurnedDown m device lba sector_count → SentFrom b m') := by
  have hiff {ps ws : List (BitVec 16)} (h : Moved ps ws (overwritten b ws) m') (hps : ps.drop 6 = []) :
      (sent m'.log).drop 6 = [] ∧ (SentFrom b m' ↔ overwritten b (handed m'.log) = b) := by
    unfold SentFrom
    rw [h.buffer, h.handed, h.sent, hps]
    exact ⟨rfl, and_iff_left ⟨0, rfl⟩⟩
  rcases h with ⟨-, h⟩ | ⟨hnot, ws, h⟩
  · refine ⟨hiff h rfl, fun _ => (hiff h rfl).2.mpr ?_⟩
    rw [h.handed, overwritten_nil]
  · exact ⟨hiff h rfl, fun hdown => absurd hdown hnot⟩

/-- **The source of a packet write.** Every packet write that returns leaves its source as it was,
with a prefix of it sent behind the packet, if and only if the write is turned down. One run does if
and only if the words handed out are those in the source; it has sent nothing behind the packet. -/
theorem atapi_writeSectors_source (hm : Indexed m) (hlog : m.log = []) (device : Nat) (lba : BitVec 64)
    (sector_count : BitVec 8) (destination : BitVec 32) :
    ((∀ responses arrivals, Returned (fun _ => SentFrom m.buffer)
        ((atapi_writeSectors device lba sector_count destination).run
          ((m.set_responses responses).set_arrivals arrivals)).1
        ((atapi_writeSectors device lba sector_count destination).run
          ((m.set_responses responses).set_arrivals arrivals)).2) ↔
      TurnedDown m device lba sector_count) ∧
    Returned (fun _ m' => (sent m'.log).drop 6 = [] ∧
        (SentFrom m.buffer m' ↔ overwritten m.buffer (handed m'.log) = m.buffer))
      ((atapi_writeSectors device lba sector_count destination).run m).1
      ((atapi_writeSectors device lba sector_count destination).run m).2 := by
  refine ⟨⟨fun hall d hd => ?_, fun hdown responses arrivals => ?_⟩, ?_⟩
  · by_contra hc
    obtain ⟨href, hnot⟩ := not_or.mp hc
    -- A word that is not in the first unit.
    obtain ⟨v, hv⟩ : ∃ v : BitVec 16, v.setWidth 32 ≠ m.buffer 0 := by
      by_cases hzero : m.buffer 0 = 0
      · exact ⟨1, by rw [hzero]; decide⟩
      · exact ⟨0, fun h => hzero h.symm⟩
    have hquiet : Quiet device d (words m.log) (0 :: 0 :: 0 :: 0 :: 0 :: (waited d ++ 2 :: 0 :: handing v))
      ((m.set_responses (0 :: 0 :: 0 :: 0 :: 0 :: (waited d ++ 2 :: 0 :: handing v))).set_arrivals []) :=
      ⟨rfl, rfl, hd, hm.lt hd, rfl⟩
    obtain ⟨r, m', hrun, -, hbuffer⟩ := (atapi_writeSectors_total href hnot destination v).run hquiet
    have hsame := Returned.of_run (hall _ _) hrun
    exact hv (hbuffer.symm.trans (congrFun hsame.1 0))
  · have hmoved := atapi_writeSectors_moved (m := (m.set_responses responses).set_arrivals arrivals) hm hlog
      device lba sector_count destination
    exact hmoved.imp fun _ h => (source_of_moved h).2 hdown
  · exact (atapi_writeSectors_moved hm hlog device lba sector_count destination).imp fun _ h =>
      (source_of_moved h).1

/-- A packet device at the usual ports that hands out the word `v`. -/
def device_handing (v : BitVec 16) : Machine :=
  ⟨2, some [⟨0x1F0, 0x3F6, .ATAPI, false, 0, false, true, false, 0⟩], 0,
    0 :: 0 :: 0 :: 0 :: 0 :: 1 :: 2 :: 0 :: handing v, [], fun _ => 0, []⟩

theorem device_handing_run (v : BitVec 16) : ∃ m', (atapi_writeSectors 0 0 1 1).run (device_handing v) =
    (.ok true, m') ∧ m'.buffer 0 = v.setWidth 32 := by
  have hquiet : Quiet 0 ⟨0x1F0, 0x3F6, .ATAPI, false, 0, false, true, false, 0⟩ 0
    (0 :: 0 :: 0 :: 0 :: 0 :: 1 :: 2 :: 0 :: handing v) (device_handing v) :=
    ⟨rfl, rfl, rfl, Nat.zero_lt_two, rfl⟩
  have href : ¬ AtapiRefused ⟨0x1F0, 0x3F6, .ATAPI, false, 0, false, true, false, 0⟩ 0 1 := by decide
  have hnot : ¬ Declined ⟨0x1F0, 0x3F6, .ATAPI, false, 0, false, true, false, 0⟩ := by
    simp [Declined]
  obtain ⟨r, m', hrun, rfl, hbuffer⟩ := (atapi_writeSectors_total href hnot 1 v).run hquiet
  exact ⟨m', hrun, hbuffer⟩

theorem atapi_writeSectors_source_seven : ∃ m', (atapi_writeSectors 0 0 1 1).run (device_handing 7) =
    (.ok true, m') ∧ (sent m'.log).drop 6 = [] := by
  obtain ⟨m', hrun, -⟩ := device_handing_run 7
  have hmoved := (atapi_writeSectors_source (m := device_handing 7) rfl rfl 0 0 1 1).2
  exact ⟨m', hrun, (Returned.of_run hmoved hrun).1⟩

/-- A device that is asked to write hands out a word, and the source has it in its first unit. -/
theorem source_overwritten : ∃ m', (atapi_writeSectors 0 0 1 1).run (device_handing 7) = (.ok true, m') ∧
    m'.buffer 0 = 7 ∧ ¬ SentFrom (device_handing 7).buffer m' := by
  obtain ⟨m', hrun, hbuffer⟩ := device_handing_run 7
  refine ⟨m', hrun, hbuffer, fun h => ?_⟩
  have hzero : m'.buffer 0 = 0 := congrFun h.1 0
  rw [hbuffer] at hzero
  exact absurd hzero (by decide)

end Condor.Ata
