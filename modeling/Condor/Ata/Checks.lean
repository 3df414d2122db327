import Condor.Ata.Rules
import Condor.Ata.Reject

/-!
# What the checks let through

The packet requests as checks and a packet, as `ata_start` is for the others, and
what the checks of either kind make of an id that there is no record for.
-/

namespace Condor.Ata

open Lib Lib.Prog

variable {m : Machine} {d : AtaDevice} {device : Nat} {lba : BitVec 64}
  {sector_count cmd48 cmd28 : BitVec 8}

/-- The request has ended in its checks. -/
def Nothing (x : M Bool) (m : Machine) : Prop := x.run m = (.ok false, m) ∨ x.run m = (.error .wild, m)

theorem ata_start_nothing {rest : BitVec 32 → M Bool}
    (h : m.record (device >>> DEVICE_INFO_SHIFT) = none) :
    Nothing (ata_start device lba sector_count cmd48 cmd28 rest) m := by
  unfold ata_start
  by_cases hc : sector_count = 0 ∧ lba ≤ 0x0FFFFFFF
  · obtain ⟨rfl, hlba⟩ := hc
    exact .inl (bind_ok (ata_refuses_early hlba))
  · exact .inr (bind_error (ata_refuses_wild h hc))

/-- The checks of the packet requests turn the request down. -/
def AtapiRefused (d : AtaDevice) (lba : BitVec 64) (sector_count : BitVec 8) : Prop :=
  sector_count = 0 ∨ 0x0FFFFFFF < lba ∨ d.interface_type ≠ .ATAPI

instance : Decidable (AtapiRefused d lba sector_count) := inferInstanceAs (Decidable (_ ∨ _))

theorem atapi_refuses_run (h : m.record (device >>> DEVICE_INFO_SHIFT) = some d) :
    (atapi_refuses device lba sector_count).run m = (.ok (decide (AtapiRefused d lba sector_count)), m) := by
  have hsome := controllers_isNone h
  unfold atapi_refuses
  by_cases hcount : sector_count = 0
  · rw [if_pos hcount, pure_run, decide_eq_true (show AtapiRefused _ _ _ from .inl hcount)]
  by_cases hlba : 0x0FFFFFFF < lba
  · rw [if_neg hcount, if_pos hlba, pure_run, decide_eq_true (show AtapiRefused _ _ _ from .inr (.inl hlba))]
  rw [if_neg hcount, if_neg hlba, bind_ok (get_run m), if_neg (by simp [hsome]), bind_ok (controller_run h), pure_run]
  have hiff : AtapiRefused d lba sector_count ↔ d.interface_type ≠ .ATAPI := by
    unfold AtapiRefused
    tauto
  rw [decide_eq_decide.mpr hiff]

/-- The head of `atapi_readSectors` and `atapi_writeSectors`, before `rest`. -/
def atapi_start (device : Nat) (lba : BitVec 64) (sector_count : BitVec 8) (rest : M Bool) : M Bool := do
  if ← atapi_refuses device lba sector_count then return false
  rest

theorem atapi_start_nothing {rest : M Bool} (h : m.record (device >>> DEVICE_INFO_SHIFT) = none) :
    Nothing (atapi_start device lba sector_count rest) m := by
  unfold atapi_start
  by_cases hc : sector_count = 0 ∨ 0x0FFFFFFF < lba ∨ m.controllers = none
  · exact .inl (bind_ok (atapi_refuses_early hc))
  · exact .inr (bind_error (atapi_refuses_wild h hc))

theorem atapi_start_run {rest : M Bool} (h : m.record (device >>> DEVICE_INFO_SHIFT) = some d) :
    (atapi_start device lba sector_count rest).run m =
      if AtapiRefused d lba sector_count then (.ok false, m) else rest.run m := by
  unfold atapi_start
  rw [bind_ok (atapi_refuses_run h), ite_run, pure_run]
  simp only [decide_eq_true_eq]

/-- `atapi_readSectors` and `atapi_writeSectors` send a packet and do not look at the result. -/
def atapi_rest (device : Nat) (packet : Nat → BitVec 8) (result : Bool) : M Bool := do
  let _ ← atapi_sendCommand device packet 12
  return result

theorem atapi_readSectors_eq : atapi_readSectors device lba sector_count =
    atapi_start device lba sector_count (atapi_rest device (rw_packet ATAPI_READ_12 lba sector_count) true) := rfl

theorem atapi_writeSectors_eq (destination : BitVec 32) :
    atapi_writeSectors device lba sector_count destination = atapi_start device lba sector_count
      (atapi_rest device (rw_packet ATAPI_WRITE_12 lba sector_count) (destination ≠ 0)) := by
  unfold atapi_writeSectors
  rw [atapi_write_refuses_eq]
  rfl

theorem lba_byte_toNat (n : Nat) : (lba_byte lba n).toNat = lba.toNat / 2 ^ n % 2 ^ 8 := by
  rw [lba_byte, BitVec.toNat_setWidth, BitVec.toNat_ushiftRight, Nat.shiftRight_eq_div_pow]

/-- The bytes of a write are taken for those of a read. -/
theorem rw_packet_read {opcode : BitVec 8} (h : opcode = ATAPI_READ_12 ∨ opcode = ATAPI_WRITE_12) :
    atapi_getCommandType (rw_packet opcode lba sector_count 0) = .READ := by
  rcases h with rfl | rfl
  · exact (by decide : atapi_getCommandType ATAPI_READ_12 = .READ)
  · exact (by decide : atapi_getCommandType ATAPI_WRITE_12 = .READ)

theorem atapi_rest_run (packet : Nat → BitVec 8) (result : Bool) (m : Machine) :
    (atapi_rest device packet result).run m =
      (((atapi_sendCommand device packet 12).run m).1.map fun _ => result,
        ((atapi_sendCommand device packet 12).run m).2) := by
  unfold atapi_rest
  cases h : (atapi_sendCommand device packet 12).run m with
  | mk r m' =>
    cases r with
    | ok b => exact bind_ok h
    | error e => exact bind_error h

end Condor.Ata
