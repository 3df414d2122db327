import Condor.Ata.Calm

/-!
# Invalid device ids

What the seven entry points do with an id that `ide_init` has not given out.
Only `ata_getDeviceInfo` checks the id before it uses it: the others look at
the record first, or compare the result of `switchDevice` with another failure
value (`rejects_invalid`).
-/

namespace Condor.Ata

open Lib Lib.Prog

/-- The tables that `ide_init` makes. -/
inductive Registered : Machine → Prop
  | init {m : Machine} (hi : m.controller_index = 0) (hn : m.controllers = none) : Registered m
  | ide_init {m : Machine} (h : Registered m) (base_port alt_port : BitVec 32) (p : Probe) :
      Registered (ide_init m base_port alt_port p).2

/-- The function returns `r`, and has accessed no port. Then it has not indexed `controllers` out of
bounds either. -/
def Rejects {α : Type} (x : M α) (m : Machine) (r : α) : Prop :=
  ∃ m', x.run m = (.ok r, m') ∧ m'.log = m.log

variable {m : Machine} {device : Nat}

/-- A call of `ide_init` fails and leaves the state, or appends one record, which is blocked. -/
theorem ide_init_cases (m : Machine) (base_port alt_port : BitVec 32) (p : Probe) :
    ide_init m base_port alt_port p = (ATA_DEVICE_INVALID, m) ∨
    ∃ d : AtaDevice, d.is_blocked = true ∧ ide_init m base_port alt_port p = (m.controller_index, { m with
      controller_index := m.controller_index + 2
      controllers := some (m.controllers.getD [] ++ [d]) }) := by
  unfold ide_init
  by_cases hports : base_port = 0 ∨ alt_port = 0
  · exact .inl (if_pos hports)
  rw [if_neg hports]
  by_cases hfound : (if p.slave ≠ .INVALID then p.slave else p.master) ≠ .INVALID
  · refine .inr ⟨_, ?_, if_pos hfound⟩
    rfl
  · exact .inl (if_neg hfound)

theorem Registered.indexed (h : Registered m) : Indexed m := by
  unfold Indexed
  induction h with
  | init hi hn => rw [hi, hn]; rfl
  | @ide_init m h base_port alt_port p ih =>
    rcases ide_init_cases m base_port alt_port p with hr | ⟨d, -, hr⟩
    · rw [hr]
      exact ih
    · rw [hr]
      simp only [Option.getD_some, List.length_append, List.length_singleton]
      omega

theorem controller_wild (h : m.record (device >>> DEVICE_INFO_SHIFT) = none) :
    (controller device).run m = (.error .wild, m) := by
  simp only [controller, record, bind_run, get_run, h, stop_run]

theorem switchDevice_invalid (hd : m.controller_index ≤ device) :
    (switchDevice device).run m = (.ok 0xFFFF, m) := by
  simp only [switchDevice, bind_run, get_run, if_pos hd, pure_run]

theorem in_range_run {lba : BitVec 64} {sector_count : BitVec 8}
    (h : ¬ 0x0FFFFFFF < lba + sector_count.setWidth 64) :
    (out_of_range device lba sector_count).run m = (.ok false, m) := by
  rw [out_of_range, if_neg h, pure_run]

/-- The checks refuse a zero count before they look at the record, unless they look at it for the
range. -/
theorem ata_refuses_early {lba : BitVec 64} (h : lba ≤ 0x0FFFFFFF) :
    (ata_refuses device lba 0).run m = (.ok true, m) := by
  have hsum : lba + (0 : BitVec 8).setWidth 64 = lba := BitVec.add_zero lba
  have hrange : ¬ 0x0FFFFFFF < lba + (0 : BitVec 8).setWidth 64 := by
    rw [hsum]
    exact BitVec.not_lt.mpr h
  unfold ata_refuses
  rw [bind_ok (in_range_run hrange), if_neg Bool.false_ne_true, if_pos rfl, pure_run]

theorem ata_refuses_wild {lba : BitVec 64} {sector_count : BitVec 8}
    (h : m.record (device >>> DEVICE_INFO_SHIFT) = none) (hc : ¬ (sector_count = 0 ∧ lba ≤ 0x0FFFFFFF)) :
    (ata_refuses device lba sector_count).run m = (.error .wild, m) := by
  have hwild := controller_wild h
  unfold ata_refuses
  by_cases hrange : 0x0FFFFFFF < lba + sector_count.setWidth 64
  · have hout : (out_of_range device lba sector_count).run m = (.error .wild, m) := by
      rw [out_of_range, if_pos hrange, bind_error hwild]
    exact bind_error hout
  · have hcount : sector_count ≠ 0 := by
      rintro rfl
      have hsum : lba + (0 : BitVec 8).setWidth 64 = lba := BitVec.add_zero lba
      rw [hsum] at hrange
      exact hc ⟨rfl, BitVec.not_lt.mp hrange⟩
    rw [bind_ok (in_range_run hrange), if_neg Bool.false_ne_true, if_neg hcount]
    exact bind_error hwild

/-- What `ata_readSectors` and `ata_writeSectors` do with the result of their checks. -/
theorem rejects_ata {lba : BitVec 64} {sector_count : BitVec 8} {rest : M Bool}
    (h : m.record (device >>> DEVICE_INFO_SHIFT) = none) :
    Rejects (ata_refuses device lba sector_count >>= fun r => if r then pure false else rest) m false ↔
      sector_count = 0 ∧ lba ≤ 0x0FFFFFFF := by
  constructor
  · rintro ⟨m', hr, -⟩
    by_contra hc
    rw [bind_error (ata_refuses_wild h hc)] at hr
    cases hr
  · rintro ⟨rfl, hlba⟩
    exact ⟨m, bind_ok (ata_refuses_early hlba), rfl⟩

theorem atapi_refuses_early {lba : BitVec 64} {sector_count : BitVec 8}
    (hc : sector_count = 0 ∨ 0x0FFFFFFF < lba ∨ m.controllers = none) :
    (atapi_refuses device lba sector_count).run m = (.ok true, m) := by
  unfold atapi_refuses
  by_cases hcount : sector_count = 0
  · rw [if_pos hcount]
    rfl
  by_cases hlba : 0x0FFFFFFF < lba
  · rw [if_neg hcount, if_pos hlba]
    rfl
  · have hnone : m.controllers.isNone = true := by
      rw [(hc.resolve_left hcount).resolve_left hlba]
      rfl
    rw [if_neg hcount, if_neg hlba, bind_ok (get_run m), if_pos hnone]
    rfl

theorem atapi_refuses_wild {lba : BitVec 64} {sector_count : BitVec 8}
    (h : m.record (device >>> DEVICE_INFO_SHIFT) = none)
    (hc : ¬ (sector_count = 0 ∨ 0x0FFFFFFF < lba ∨ m.controllers = none)) :
    (atapi_refuses device lba sector_count).run m = (.error .wild, m) := by
  obtain ⟨hcount, hlba, hnone⟩ := by simpa only [not_or] using hc
  have hsome : ¬ m.controllers.isNone = true := by simpa using hnone
  unfold atapi_refuses
  rw [if_neg hcount, if_neg hlba, bind_ok (get_run m), if_neg hsome]
  exact bind_error (controller_wild h)

/-- What `atapi_readSectors` and `atapi_writeSectors` do with the result of their checks. -/
theorem rejects_atapi {lba : BitVec 64} {sector_count : BitVec 8} {rest : M Bool}
    (h : m.record (device >>> DEVICE_INFO_SHIFT) = none) :
    Rejects (atapi_refuses device lba sector_count >>= fun r => if r then pure false else rest) m false ↔
      sector_count = 0 ∨ 0x0FFFFFFF < lba ∨ m.controllers = none := by
  constructor
  · rintro ⟨m', hr, -⟩
    by_contra hc
    rw [bind_error (atapi_refuses_wild h hc)] at hr
    cases hr
  · intro hc
    exact ⟨m, bind_ok (atapi_refuses_early hc), rfl⟩

theorem rejects_atapi_sendCommand (h : m.record (device >>> DEVICE_INFO_SHIFT) = none)
    (hd : m.controller_index ≤ device) (command : Nat → BitVec 8) (command_length : BitVec 8) :
    Rejects (atapi_sendCommand device command command_length) m false ↔ m.controllers = none := by
  constructor
  · rintro ⟨m', hr, -⟩
    by_contra hnone
    have hsome : ¬ m.controllers.isNone = true := by simpa using hnone
    unfold atapi_sendCommand at hr
    rw [bind_ok (get_run m), if_neg hsome, bind_ok (switchDevice_invalid hd),
      bind_error (controller_wild h)] at hr
    cases hr
  · intro hnone
    refine ⟨m, ?_, rfl⟩
    unfold atapi_sendCommand
    rw [bind_ok (get_run m), if_pos (by rw [hnone]; rfl)]
    rfl

/-- A port access stays in the log. -/
theorem logged_outb {x : M Bool} {a : BitVec 32} {v : BitVec 8} {m' : Machine} {r : Bool}
    (hx : ∀ I, Calm I → Keeps I x) (h : (outb a v >>= fun _ => x).run m = (.ok r, m')) :
    m.log.length < m'.log.length := by
  have hle : Inert fun m' => m.log.length ≤ m'.log.length :=
    .of_log (m.log.length ≤ ·.length) fun l w p v _ hl =>
      hl.trans (List.sublist_append_left l _).length_le
  have hlt : Inert fun m' => m.log.length < m'.log.length :=
    .of_log (m.log.length < ·.length) fun l w p v _ hl =>
      hl.trans_le (List.sublist_append_left l _).length_le
  have hout := hle.calm.outb (a := a) (v := v) (Q := fun m' => m.log.length < m'.log.length)
    fun m' hm => by
    rw [Machine.append_log, List.length_append]
    exact Nat.lt_succ_of_le hm
  have hrest := (hx _ hlt.calm).stops fun _ _ h => Nat.le_of_lt h
  exact (hout.bind fun _ => hrest).ok (Nat.le_refl _) h

/-- A command to a device that there is none of is written to the ports that `switchDevice` answers. -/
theorem rejects_ata_sendCommand (hd : m.controller_index ≤ device) (command : BitVec 8)
    (data_length : Nat) :
    Rejects (ata_sendCommand device command data_length) m false ↔
      device = ATA_DEVICE_INVALID ∨ data_length = 0 := by
  have hbase : ¬ ((0xFFFF : BitVec 32) = 0xFFF) := by decide
  constructor
  · rintro ⟨m', hr, hlog⟩
    by_contra hc
    have hlen : m.log.length < m'.log.length := by
      unfold ata_sendCommand at hr
      rw [bind_ok (switchDevice_invalid hd), if_neg (by tauto)] at hr
      exact logged_outb (fun I hI => hI.waitForIRQ.bind fun _ => (Keeps.record _).bind fun _ => Keeps.pure _) hr
    rw [hlog] at hlen
    exact absurd hlen (Nat.lt_irrefl _)
  · intro hc
    refine ⟨m, ?_, rfl⟩
    unfold ata_sendCommand
    rw [bind_ok (switchDevice_invalid hd), if_pos (by tauto)]
    rfl

/-- **Invalid ids.** What each entry point does with an id not below `controller_index`, for every
table that `ide_init` makes. -/
theorem rejects_invalid (h : Registered m) (hd : m.controller_index ≤ device) :
    Rejects (ata_getDeviceInfo device) m none ∧
    (∀ command data_length, Rejects (ata_sendCommand device command data_length) m false ↔
      device = ATA_DEVICE_INVALID ∨ data_length = 0) ∧
    (∀ lba sector_count, (Rejects (ata_readSectors device lba sector_count) m false ↔
        sector_count = 0 ∧ lba ≤ 0x0FFFFFFF) ∧
      (Rejects (ata_writeSectors device lba sector_count) m false ↔
        sector_count = 0 ∧ lba ≤ 0x0FFFFFFF)) ∧
    (∀ command command_length,
      Rejects (atapi_sendCommand device command command_length) m false ↔ m.controllers = none) ∧
    ∀ lba sector_count destination, (Rejects (atapi_readSectors device lba sector_count) m false ↔
        sector_count = 0 ∨ 0x0FFFFFFF < lba ∨ m.controllers = none) ∧
      (Rejects (atapi_writeSectors device lba sector_count destination) m false ↔
        sector_count = 0 ∨ 0x0FFFFFFF < lba ∨ m.controllers = none) := by
  have hnone := h.indexed.record_eq_none hd
  refine ⟨⟨m, ?_, rfl⟩, fun command data_length => ?_, fun lba sector_count => ⟨?_, ?_⟩,
    rejects_atapi_sendCommand hnone hd, fun lba sector_count destination => ⟨?_, ?_⟩⟩
  · unfold ata_getDeviceInfo
    rw [bind_ok (get_run m), if_pos (.inr hd)]
    rfl
  · exact rejects_ata_sendCommand hd command data_length
  · exact rejects_ata hnone
  · exact rejects_ata hnone
  · exact rejects_atapi hnone
  · unfold atapi_writeSectors
    rw [atapi_write_refuses_eq]
    exact rejects_atapi hnone

/-- A disk on the first channel and a disc drive on the second one. -/
def two_controllers : Machine :=
  let fresh : AtaDevice := ⟨0, 0, .INVALID, false, 0, false, false, false, 0⟩
  let m := (ide_init ⟨0, none, 0, [], [], fun _ => 0, []⟩ 0x1F0 0x3F6 ⟨.INVALID, .ATA, true, fresh⟩).2
  (ide_init m 0x170 0x376 ⟨.ATAPI, .INVALID, false, fresh⟩).2

/-- Behind the two controllers, each entry point on both sides of its condition. -/
theorem rejects_invalid_two : Registered two_controllers ∧ two_controllers.controller_index = 4 ∧
    Rejects (ata_getDeviceInfo 4) two_controllers none ∧
    Rejects (ata_sendCommand 4 0xEC 0) two_controllers false ∧
    ¬ Rejects (ata_sendCommand 4 0xEC 512) two_controllers false ∧
    Rejects (ata_readSectors 4 0 0) two_controllers false ∧ ¬ Rejects (ata_readSectors 4 0 1) two_controllers false ∧
    Rejects (ata_writeSectors 4 0 0) two_controllers false ∧
    ¬ Rejects (ata_writeSectors 4 0x10000000 0) two_controllers false ∧
    ¬ Rejects (atapi_sendCommand 4 (fun _ => 0) 12) two_controllers false ∧
    Rejects (atapi_readSectors 4 0x10000000 1) two_controllers false ∧
    ¬ Rejects (atapi_readSectors 4 0 1) two_controllers false ∧
    Rejects (atapi_writeSectors 4 0 0 1) two_controllers false ∧
    ¬ Rejects (atapi_writeSectors 4 0 1 1) two_controllers false := by
  have hm : Registered two_controllers := .ide_init (.ide_init (.init rfl rfl) _ _ _) _ _ _
  have hsome : two_controllers.controllers ≠ none := by decide
  have hbehind : two_controllers.controller_index ≤ 4 := by decide
  obtain ⟨hinfo, hsend, hata, hpacket, hatapi⟩ := rejects_invalid hm hbehind
  exact ⟨hm, rfl, hinfo, (hsend _ _).mpr (by decide), mt (hsend _ _).mp (by decide), (hata _ _).1.mpr (by decide),
    mt (hata _ _).1.mp (by decide), (hata _ _).2.mpr (by decide), mt (hata _ _).2.mp (by decide),
    mt (hpacket _ _).mp hsome, (hatapi _ _ 0).1.mpr (by decide), mt (hatapi _ _ 0).1.mp (by simp [hsome]),
    (hatapi _ _ _).2.mpr (by decide), mt (hatapi _ _ _).2.mp (by simp [hsome])⟩

/-- No device has been found, and the first sector of one is read. -/
theorem read_of_no_device :
    let m : Machine := ⟨0, none, 0, [], [], fun _ => 0, []⟩
    Registered m ∧ m.controller_index ≤ ATA_DEVICE_INVALID ∧
      (ata_readSectors ATA_DEVICE_INVALID 0 1).run m = (.error .wild, m) :=
  ⟨.init rfl rfl, Nat.zero_le _, rfl⟩

end Condor.Ata
