import Condor.Ata.Rules

/-!
# Giving the device back

Whether `in_use` is clear again when a request returns. The two ATA requests end
in one place, behind the store that clears it. `atapi_sendCommand` has a second
return, which a status with CHK takes before the store.
-/

namespace Condor.Ata

open Lib Lib.Prog

variable {m m' : Machine} {d : AtaDevice} {device i : Nat} {c : Config} {lba : BitVec 64}
  {sector_count cmd48 cmd28 : BitVec 8} {rest : BitVec 32 → M Bool} {r : Bool}

/-- The record of the device is not in use. -/
def Free (device : Nat) (m : Machine) : Prop :=
  ∃ d, m.record (device >>> DEVICE_INFO_SHIFT) = some d ∧ d.in_use = false

/-- The check of CHK has never found it set. -/
def Unchecked (log : List Access) : Prop := ∀ p v, Access.inb .check p v ∈ log → v &&& 0x1 = 0

theorem Held.free (h : Held (device >>> DEVICE_INFO_SHIFT) c false m) : Free device m :=
  h.imp fun _ hd => ⟨hd.1, hd.2.2⟩

theorem ata_finish_held : Triple (HasConfig (device >>> DEVICE_INFO_SHIFT) c) (ata_finish device)
    (fun _ => Held (device >>> DEVICE_INFO_SHIFT) c false) fun _ _ => True :=
  ((inert_held _ c false).calm.ata_finish (fun _ _ hd h => h.release hd false) (fun _ _ _ => trivial)
    fun _ _ _ => trivial).after fun _ _ h => h.1

theorem read_rest_held (base : BitVec 32) : Triple (HasConfig (device >>> DEVICE_INFO_SHIFT) c)
    (read_rest device base) (fun _ => Held (device >>> DEVICE_INFO_SHIFT) c false) fun _ _ => True := by
  have hc := steady_hasConfig (device >>> DEVICE_INFO_SHIFT) c
  refine hc.waitForIRQ.returns.bind fun _ => ?_
  refine (Keeps.loop (hc.read_word base) 0).returns.bind fun _ => ?_
  exact ata_finish_held

theorem write_rest_held (base : BitVec 32) : Triple (HasConfig (device >>> DEVICE_INFO_SHIFT) c)
    (write_rest device base) (fun _ => Held (device >>> DEVICE_INFO_SHIFT) c false) fun _ _ => True := by
  have hc := steady_hasConfig (device >>> DEVICE_INFO_SHIFT) c
  refine (Keeps.loop (hc.write_word base) 0).returns.bind fun _ => ?_
  refine (Keeps.record _).returns.bind fun _ => ?_
  refine hc.sending.keeps_outb.returns.bind fun _ => ?_
  exact ata_finish_held

theorem ata_start_free (hd : m.record (device >>> DEVICE_INFO_SHIFT) = some d)
    (hlt : device < m.controller_index) (hfree : d.in_use = false)
    (hrest : ∀ base, Triple (HasConfig (device >>> DEVICE_INFO_SHIFT) d.config) (rest base)
      (fun _ => Held (device >>> DEVICE_INFO_SHIFT) d.config false) fun _ _ => True)
    (hrun : (ata_start device lba sector_count cmd48 cmd28 rest).run m = (.ok r, m')) : Free device m' := by
  apply Returned.of_run (Q := fun _ => Free device) ?_ hrun
  apply ata_start_rule (P := Held (device >>> DEVICE_INFO_SHIFT) d.config false)
    (I := HasConfig (device >>> DEVICE_INFO_SHIFT) d.config) hd hlt
  · exact (sending_held _ _ _).toPlain
  · exact (steady_hasConfig _ _).sending.toPlain
  · exact ⟨d, hd, rfl, hfree⟩
  · intro m₁ d₁ hd₁ h
    exact h.hasConfig.set_record hd₁ rfl
  · intro _ m₁ h
    exact h.free
  · exact fun _ _ _ => trivial
  · exact fun _ _ _ => trivial
  · intro _ _
    exact (hrest d.base_port).after fun _ _ h => h.free

/-! ## The packet -/

theorem unchecked_append {l : List Access} {e : Access} :
    Unchecked (l ++ [e]) ↔ Unchecked l ∧ ∀ p v, e = .inb .check p v → v &&& 0x1 = 0 := by
  simp only [Unchecked, List.mem_append, List.mem_singleton, or_imp, forall_and, eq_comm]

theorem Unchecked.append {l : List Access} {e : Access} (h : Unchecked l)
    (he : ∀ p v, e ≠ .inb .check p v) :
    Unchecked (l ++ [e]) :=
  unchecked_append.mpr ⟨h, fun p v heq => absurd heq (he p v)⟩

theorem sending_unchecked : Sending fun m => Unchecked m.log where
  toCalm := by
    apply Inert.calm
    apply Inert.of_log
    rintro l w p v (rfl | ⟨j, rfl⟩) hl <;> exact hl.append nofun
  outb_log _ _ _ h := h.append nofun
  outw_log _ _ _ h := h.append nofun

/-- The device is taken, and the check of CHK has not found it set. -/
def Moving (i : Nat) (c : Config) (m : Machine) : Prop := Held i c true m ∧ Unchecked m.log

theorem sending_moving : Sending (Moving i c) := (sending_held i c true).and sending_unchecked

/-- The device is given back if and only if no check of CHK has found it set. -/
def Settled (i : Nat) (m : Machine) : Prop :=
  ∃ d, m.record i = some d ∧ (d.in_use = false ↔ Unchecked m.log)

theorem Moving.append {e : Access} (h : Moving i c m) (he : ∀ p v, e ≠ .inb .check p v) :
    Moving i c (m.append_log e) := ⟨h.1, h.2.append he⟩

theorem Moving.settled (h : Moving i c m) {p : BitVec 16} {v : BitVec 8} (hv : v &&& 0x1 ≠ 0) :
    Settled i (m.append_log (.inb .check p v)) := by
  obtain ⟨⟨d, hd, -, hu⟩, -⟩ := h
  refine ⟨d, hd, fun hfree => ?_, fun hall => ?_⟩
  · rw [hu] at hfree
    cases hfree
  · exact absurd ((unchecked_append.mp hall).2 p v rfl) hv

theorem transfer_word_moving {base : BitVec 32} {type : CommandType} (k : Nat) :
    Triple (Moving i c) (transfer_word base type k) (fun _ => Moving i c) fun _ _ => True := by
  have hI : Sending (Moving i c) := sending_moving
  cases type with
  | READ =>
    refine Triple.bind (Keeps.returns (hI.inw fun m v vs _ hm => ?_)) fun w => .modify fun m hm => ?_
    · exact Moving.append (m := m.set_responses vs) hm nofun
    · exact ⟨hm.1, hm.2.append nofun⟩
  | WRITE =>
    refine Triple.bind (Q := fun _ => Moving i c) ?_ fun w => hI.keeps_outw.returns
    refine Triple.bind (Q := fun _ => Moving i c) (.modify fun m hm => hm.append nofun) fun _ => ?_
    exact (Keeps.get.bind fun _ => Keeps.pure _).returns
  | MISC => exact .pure fun m hm => hm

theorem transfer_words_moving {base alt_status : BitVec 32} {type : CommandType} (n k : Nat) :
    Triple (Moving i c) (transfer_words base alt_status type n k 0)
      (fun r m => if r.2 &&& 0x1 ≠ 0 then Settled i m else Moving i c m) fun _ _ => True := by
  have hI : Sending (Moving i c) := sending_moving
  apply transfer_words_rule (W := fun _ => Moving i c) (D := fun _ => Moving i c)
    (B := fun _ => Settled i)
  · intro k
    refine (hI.inb fun m v vs _ hm => ?_).stops fun _ _ _ => trivial
    split
    · exact Moving.settled (m := m.set_responses vs) hm ‹_›
    · exact ⟨hm.1, unchecked_append.mpr ⟨hm.2, fun p w heq => by cases heq; exact not_not.mp ‹_›⟩⟩
  · intro k
    refine (hI.inb fun m v vs _ hm => ?_).stops fun _ _ _ => trivial
    rw [ite_self]
    exact Moving.append (m := m.set_responses vs) hm nofun
  · exact transfer_word_moving
  · rfl

theorem atapi_sendCommand_settled {command : Nat → BitVec 8} {command_length : BitVec 8}
    (hd : m.record (device >>> DEVICE_INFO_SHIFT) = some d) (hlt : device < m.controller_index)
    (hlog : m.log = []) (hfree : d.in_use = false)
    (hrun : (atapi_sendCommand device command command_length).run m = (.ok r, m')) :
    Settled (device >>> DEVICE_INFO_SHIFT) m' := by
  have hnil : Unchecked [] := nofun
  apply Returned.of_run (Q := fun _ => Settled (device >>> DEVICE_INFO_SHIFT)) ?_ hrun
  apply atapi_sendCommand_rule (I := Moving (device >>> DEVICE_INFO_SHIFT) d.config)
    (J := Moving (device >>> DEVICE_INFO_SHIFT) d.config)
    (P := fun m => Held (device >>> DEVICE_INFO_SHIFT) d.config false m ∧ Unchecked m.log) hd hlt
  · exact ((sending_held _ _ _).and sending_unchecked).toPlain
  · exact sending_moving.toPlain
  · exact sending_moving
  · exact ⟨⟨d, hd, rfl, hfree⟩, hlog ▸ hnil⟩
  · intro _ m₁ d₁ hd₁ h
    exact ⟨h.1.hasConfig.release hd₁ true, h.2⟩
  · intro m₁ h
    exact h.append nofun
  · intro _ m₁ h
    exact h.1.imp fun d₁ hd₁ => ⟨hd₁.1, fun _ => h.2, fun _ => hd₁.2.2⟩
  · exact fun _ _ _ => trivial
  · exact fun _ _ _ => trivial
  · exact fun _ _ _ => trivial
  · intro _ alt_status n
    apply try_again_rule (W := fun _ => Moving (device >>> DEVICE_INFO_SHIFT) d.config)
      (B := fun _ => Settled (device >>> DEVICE_INFO_SHIFT))
    · exact fun _ => sending_moving.toCalm
    · exact transfer_words_moving
    · exact fun _ _ h => h
    · intro k m₁ d₁ hd₁ h
      refine ⟨d₁.use false, (record_set_record hd₁).trans (if_pos rfl), fun _ => h.2, fun _ => rfl⟩
    · exact fun _ _ _ _ => trivial

/-- A packet device at the usual ports, with what it answers. -/
def cdrom_found (responses : List (BitVec 16)) : Machine :=
  ⟨2, some [⟨0x170, 0x376, .ATAPI, false, 0, false, true, false, 0⟩], 0, responses, [], fun _ => 0, []⟩

/-- **Giving the device back.** The ATA requests always do. `atapi_sendCommand` does unless a check
of CHK has found it set. -/
theorem in_use_after (hm : Indexed m) (hlog : m.log = [])
    (hd : m.record (device >>> DEVICE_INFO_SHIFT) = some d)
    (hfree : d.in_use = false) :
    (∀ lba sector_count r m', (ata_readSectors device lba sector_count).run m = (.ok r, m') → Free device m') ∧
    (∀ lba sector_count r m', (ata_writeSectors device lba sector_count).run m = (.ok r, m') → Free device m') ∧
    ∀ command command_length r m', (atapi_sendCommand device command command_length).run m = (.ok r, m') →
      (Free device m' ↔ Unchecked m'.log) := by
  refine ⟨fun lba n r m' hrun => ?_, fun lba n r m' hrun => ?_, fun command length r m' hrun => ?_⟩
  · exact ata_start_free hd (hm.lt hd) hfree read_rest_held hrun
  · exact ata_start_free hd (hm.lt hd) hfree write_rest_held hrun
  · obtain ⟨d', hd', hiff⟩ := atapi_sendCommand_settled hd (hm.lt hd) hlog hfree hrun
    rw [← hiff]
    constructor
    · rintro ⟨d₀, hd₀, hu⟩
      rw [hd'] at hd₀
      cases hd₀
      exact hu
    · intro hu
      exact ⟨d', hd', hu⟩

theorem in_use_after_packet :
    let m' := ((atapi_sendCommand 0 (fun _ => 0) 12).run
      (cdrom_found [0, 0, 0, 0, 0, 1, 0, 0, 0, 0, 0, 0, 1, 0])).2
    Free 0 m' ↔ Unchecked m'.log :=
  (in_use_after (m := cdrom_found [0, 0, 0, 0, 0, 1, 0, 0, 0, 0, 0, 0, 1, 0]) rfl rfl rfl rfl).2.2
    (fun _ => 0) 12 true _ rfl

/-- The device answers the packet with CHK. It is not given back, and the next packet is not sent. -/
theorem not_given_back :
    let m := cdrom_found [0, 0, 0, 0, 0, 1, 2, 0, 0, 0, 0, 0, 1, 0, 0, 0, 0]
    let r := (atapi_sendCommand 0 (fun _ => 0) 12).run m
    (m.record 0).map (·.in_use) = some false ∧ r.1 = .ok false ∧
    (r.2.record 0).map (·.in_use) = some true ∧
      ((atapi_sendCommand 0 (fun _ => 0) 12).run r.2).1 = .ok false := by
  decide

end Condor.Ata
