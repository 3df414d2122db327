import Condor.Ata.Source

/-!
# The words of a packet

Which words `send_packet` sends is decided by the length of the packet and by
what the device takes: six bytes are sent as twelve, since the test behind the
first three words is for a packet shorter than six bytes, and a packet of
thirty-two bytes goes from the sixth word to the eighth, since its switch is
entered at `case 2` (`atapi_sendPacket_words`).
-/

namespace Condor.Ata

open Lib Lib.Prog

variable {m m' : Machine} {d : AtaDevice} {device : Nat} {base : BitVec 32}
  {ports : BitVec 32 × BitVec 32}
  {command command' : Nat → BitVec 8} {command_length : BitVec 8} {max_command_length : BitVec 2}
  {ws : List (BitVec 16)} {b : Nat → BitVec 32} {l : List Nat}

/-- The longest packet a device takes, in bytes. The last value is not in use. -/
def packet_size (max_command_length : BitVec 2) : Nat :=
  if max_command_length = 0 then 12 else if max_command_length = 1 then 16
  else if max_command_length = 2 then 32 else 0

/-- The indices of the words that `send_packet` sends. -/
def packet_indices (command_length : BitVec 8) (max_command_length : BitVec 2) : List Nat :=
  [0, 1, 2] ++ if command_length < 6 then [] else [3, 4, 5] ++ packet_tail command_length max_command_length

/-- The words of the packet have been sent, and no byte behind it has been read: whatever is there, the
run is the same. -/
def Packed (m : Machine) (device : Nat) (command : Nat → BitVec 8) (command_length : BitVec 8) : Prop :=
  sent ((atapi_sendPacket device command command_length).run m).2.log =
      (List.range (command_length.toNat / 2)).map (packet_word command) ∧
    ∀ command', (∀ i < command_length.toNat, command' i = command i) →
      (atapi_sendPacket device command' command_length).run m =
        (atapi_sendPacket device command command_length).run m

/-! ## What is sent -/

theorem send_packet_indices (c : Config) (u : Bool) :
    Triple (fun m => Moved [] ws b m ∧ Held (device >>> DEVICE_INFO_SHIFT) c u m)
      (send_packet device base command command_length)
      (fun _ => Moved ((packet_indices command_length c.max_command_length).map (packet_word command)) ws b)
      fun _ _ => True := by
  have hkeep {ps : List (BitVec 16)} (l : List Nat) :
      Triple (fun m => Moved ps ws b m ∧ Held (device >>> DEVICE_INFO_SHIFT) c u m)
        (send_words base command l)
        (fun _ m => Moved (ps ++ l.map (packet_word command)) ws b m ∧ Held (device >>> DEVICE_INFO_SHIFT) c u m)
        fun _ _ => True :=
    ((send_words_moved l).and (((sending_held _ c u).send_words command l).returns)).stops
    fun _ _ _ => trivial
  refine (hkeep [0, 1, 2]).bind fun _ => Triple.ite (fun hshort => ?_) fun hlong => ?_
  · refine .pure fun m h => ?_
    rw [packet_indices, if_pos hshort]
    exact h.1
  · refine (hkeep [3, 4, 5]).bind fun _ => ?_
    refine (controller_held fun _ _ => trivial).bind fun d => Triple.assume (fun _ h => h.1) fun hd => ?_
    have hmax : d.max_command_length = c.max_command_length := congrArg Config.max_command_length hd.1
    rw [hmax, packet_indices, if_neg hlong]
    refine ((send_words_moved _).before fun _ h => h.2.1).after fun _ m h => ?_
    simpa only [List.map_append, List.append_assoc, List.nil_append] using h

/-- A run that gets to its wait has sent the words at the indices. -/
theorem atapi_sendPacket_sent (hd : m.record (device >>> DEVICE_INFO_SHIFT) = some d)
    (hlt : device < m.controller_index) (hlog : m.log = [])
    (hrun : (atapi_sendPacket device command command_length).run m = (.ok (some ports), m')) :
    sent m'.log = (packet_indices command_length d.max_command_length).map (packet_word command) := by
  have hstart : Moved [] [] m.buffer m := ⟨by rw [hlog]; rfl, by rw [hlog]; rfl, rfl⟩
  have hplain (u : Bool) : Plain fun m' =>
      Moved [] [] m.buffer m' ∧ Held (device >>> DEVICE_INFO_SHIFT) d.config u m' :=
    (plain_moved [] [] m.buffer).and (sending_held _ _ u).toPlain
  have htake : ∀ m₁ d₁, m₁.record (device >>> DEVICE_INFO_SHIFT) = some d₁ →
      Moved [] [] m.buffer m₁ ∧ Held (device >>> DEVICE_INFO_SHIFT) d.config d.in_use m₁ →
      Moved [] [] m.buffer (m₁.set_record (device >>> DEVICE_INFO_SHIFT) (d₁.use true)) ∧
        Held (device >>> DEVICE_INFO_SHIFT) d.config true
          (m₁.set_record (device >>> DEVICE_INFO_SHIFT) (d₁.use true)) := by
    rintro m₁ d₁ hd₁ ⟨hmoved, hheld⟩
    exact ⟨⟨hmoved.sent, hmoved.handed, hmoved.buffer⟩, hheld.hasConfig.release hd₁ true⟩
  have hpacket := @send_packet_indices device d.base_port command command_length [] m.buffer d.config true
  have hsent := atapi_sendPacket_rule hd hlt (hplain d.in_use) (hplain true) (hplain true)
    ⟨hstart, d, hd, rfl, rfl⟩
    (fun _ => htake) (fun m₁ h => (hplain true).outb_log m₁ _ _ h) (fun _ _ _ => trivial)
    (fun _ _ _ => trivial)
    (fun _ _ _ => trivial) hpacket
  obtain ⟨hr, -⟩ | ⟨_, -, -, h⟩ := Triple.ok hsent rfl hrun
  · cases hr
  · exact h.sent

/-! ## What is read -/

theorem send_words_congr (h : ∀ i ∈ l, packet_word command' i = packet_word command i) :
    send_words base command' l = send_words base command l := by
  induction l with
  | nil => rfl
  | cons i l ih =>
    have hword : packet_word command' i = packet_word command i := h i List.mem_cons_self
    have hrest := ih fun j hj => h j (List.mem_cons_of_mem i hj)
    change (outw (base + ATA_DATA) (packet_word command' i) >>= fun _ => send_words base command' l) = _
    rw [hword, hrest]
    rfl

/-- Packets that agree in the words sent make the same runs. -/
theorem atapi_sendPacket_congr
    (h : ∀ n, ∀ i ∈ packet_indices command_length n, packet_word command' i = packet_word command i) :
    atapi_sendPacket device command' command_length = atapi_sendPacket device command command_length := by
  have hhead : ∀ i ∈ [0, 1, 2], packet_word command' i = packet_word command i :=
    fun i hi => h 0 i (List.mem_append_left _ hi)
  have hsend (base : BitVec 32) : send_packet device base command' command_length =
      send_packet device base command command_length := by
    unfold send_packet
    by_cases hshort : command_length < 6
    · rw [send_words_congr hhead, if_pos hshort, if_pos hshort]
    · have hlong (n : BitVec 2) : ∀ i ∈ [3, 4, 5] ++ packet_tail command_length n,
          packet_word command' i = packet_word command i := by
        refine fun i hi => h n i (List.mem_append_right _ ?_)
        rwa [if_neg hshort]
      have hbody : send_words base command' [3, 4, 5] = send_words base command [3, 4, 5] :=
        send_words_congr fun i hi => hlong 0 i (List.mem_append_left _ hi)
      have htail (n : BitVec 2) : send_words base command' (packet_tail command_length n) =
          send_words base command (packet_tail command_length n) :=
        send_words_congr fun i hi => hlong n i (List.mem_append_right _ hi)
      simp only [send_words_congr hhead, hbody, htail]
  unfold atapi_sendPacket
  simp only [hsend]

theorem packet_word_congr (h : ∀ i < command_length.toNat, command' i = command i) {i : Nat}
    (hi : 2 * i + 1 < command_length.toNat) : packet_word command' i = packet_word command i := by
  rw [packet_word, h (2 * i) (by omega), h (2 * i + 1) hi, packet_word]

/-! ## The lengths -/

theorem packet_indices_whole (hlen : command_length = 12 ∨ command_length = 16)
    (hmax : command_length.toNat ≤ packet_size max_command_length) :
    packet_indices command_length max_command_length = List.range (command_length.toNat / 2) := by
  revert max_command_length
  rcases hlen with rfl | rfl <;> decide

/-- The words of a packet of twelve or sixteen bytes are all in it, for any device. -/
theorem packet_indices_inside (hlen : command_length = 12 ∨ command_length = 16) (n : BitVec 2) :
    ∀ i ∈ packet_indices command_length n, 2 * i + 1 < command_length.toNat := by
  revert n
  rcases hlen with rfl | rfl <;> decide

/-- Six bytes are sent as six words, and thirty-two as fourteen. -/
theorem packet_indices_length (hlen : command_length = 6 ∨ command_length = 32)
    (hmax : command_length.toNat ≤ packet_size max_command_length) :
    (packet_indices command_length max_command_length).length ≠ command_length.toNat / 2 := by
  revert max_command_length
  rcases hlen with rfl | rfl <;> decide

/-- **The words of a packet.** A run of `atapi_sendCommand` that gets to its wait has sent the words of
the packet, and has read nothing behind it, if and only if the packet has twelve or sixteen bytes. -/
theorem atapi_sendPacket_words (hm : Indexed m) (hd : m.record (device >>> DEVICE_INFO_SHIFT) = some d)
    (hlog : m.log = []) (hlen : command_length ∈ [6, 12, 16, 32])
    (hmax : command_length.toNat ≤ packet_size d.max_command_length)
    (hrun : (atapi_sendPacket device command command_length).run m = (.ok (some ports), m')) :
    Packed m device command command_length ↔ command_length = 12 ∨ command_length = 16 := by
  have hsent := atapi_sendPacket_sent hd (hm.lt hd) hlog hrun
  unfold Packed
  rw [hrun, hsent]
  constructor
  · rintro ⟨hwords, -⟩
    by_contra hnot
    have hother : command_length = 6 ∨ command_length = 32 := by
      simp only [List.mem_cons, List.not_mem_nil, or_false] at hlen
      tauto
    have hcount := congrArg List.length hwords
    rw [List.length_map, List.length_map, List.length_range] at hcount
    exact packet_indices_length hother hmax hcount
  · intro hwhole
    refine ⟨by rw [packet_indices_whole hwhole hmax], fun command' h => ?_⟩
    rw [← hrun, atapi_sendPacket_congr fun n i hi => packet_word_congr h (packet_indices_inside hwhole n i hi)]

/-- A packet device at the usual ports that is ready for a packet. -/
def packet_drive (max_command_length : BitVec 2) : Machine :=
  ⟨2, some [⟨0x1F0, 0x3F6, .ATAPI, false, max_command_length, false, true, false, 0⟩], 0,
    [0, 0, 0, 0, 0], [], fun _ => 0, []⟩

theorem atapi_sendPacket_words_drive :
    (Packed (packet_drive 1) 0 (fun i => .ofNat 8 i) 16 ↔ (16 : BitVec 8) = 12 ∨ (16 : BitVec 8) = 16) ∧
      (Packed (packet_drive 2) 0 (fun i => .ofNat 8 i) 32 ↔ (32 : BitVec 8) = 12 ∨ (32 : BitVec 8) = 16) :=
  ⟨atapi_sendPacket_words (m := packet_drive 1) rfl rfl rfl (by simp) (by decide) rfl,
    atapi_sendPacket_words (m := packet_drive 2) rfl rfl rfl (by simp) (by decide) rfl⟩

/-- A packet of six bytes is sent with the six bytes behind it. -/
theorem six_bytes_sent : ∃ m', (atapi_sendPacket 0 (fun i => .ofNat 8 i) 6).run (packet_drive 0) =
      (.ok (some (0x1F0, 0x3F6)), m') ∧
    sent m'.log = [0x0100, 0x0302, 0x0504, 0x0706, 0x0908, 0x0B0A] ∧
    ¬ Packed (packet_drive 0) 0 (fun i => .ofNat 8 i) 6 :=
  ⟨_, rfl, by decide, fun h => absurd h.1 (by decide)⟩

end Condor.Ata
