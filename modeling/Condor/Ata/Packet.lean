import Condor.Ata.Checks
import Mathlib.Data.Nat.Digits.Defs

/-!
# The packet of a read or write

READ(12) and WRITE(12) have the block in the bytes 2 to 5 of the packet and the
number of blocks in the bytes 6 to 9, the highest byte first. The shifts for the
block are 18 and 10 where those of its highest bytes are 24 and 16, so a block
is asked for as it is only if the wrong bytes happen to be the right ones
(`decodes_iff`).
-/

namespace Condor.Ata

variable {lba : BitVec 64} {opcode sector_count : BitVec 8} {x : Nat}

/-- The number in the four bytes from the byte at `i` on, the highest byte first. -/
def big_endian (packet : Nat → BitVec 8) (i : Nat) : Nat :=
  Nat.ofDigits 256 [(packet (i + 3)).toNat, (packet (i + 2)).toNat, (packet (i + 1)).toNat, (packet i).toNat]

/-- The packet asks for these blocks. -/
def Decodes (packet : Nat → BitVec 8) (lba : BitVec 64) (sector_count : BitVec 8) : Prop :=
  big_endian packet 2 = lba.toNat ∧ big_endian packet 6 = sector_count.toNat

instance (packet : Nat → BitVec 8) : Decidable (Decodes packet lba sector_count) :=
  inferInstanceAs (Decidable (_ ∧ _))

theorem packet_block (opcode : BitVec 8) (lba : BitVec 64) (sector_count : BitVec 8) :
    big_endian (rw_packet opcode lba sector_count) 2 = lba.toNat % 256 + 256 * (lba.toNat / 2 ^ 8 % 256 +
      256 * (lba.toNat / 2 ^ 10 % 256 + 256 * (lba.toNat / 2 ^ 18 % 256))) := by
  simp [big_endian, rw_packet, Nat.ofDigits_cons, lba_byte_toNat]

/-- The number of blocks is always right. -/
theorem packet_count (opcode : BitVec 8) (lba : BitVec 64) (sector_count : BitVec 8) :
    big_endian (rw_packet opcode lba sector_count) 6 = sector_count.toNat := by
  simp [big_endian, rw_packet, Nat.ofDigits_cons]

/-- The two lowest bytes are right, so the block is if the other two are. -/
theorem digits_iff (hx : x < 2 ^ 28) :
    x % 256 + 256 * (x / 2 ^ 8 % 256 + 256 * (x / 2 ^ 10 % 256 + 256 * (x / 2 ^ 18 % 256))) = x ↔
      x / 2 ^ 18 % 256 = x / 2 ^ 24 ∧ x / 2 ^ 10 % 256 = x / 2 ^ 16 % 256 := by
  omega

/-- The highest byte is right. -/
theorem high_byte_iff {y : Nat} (hy : y < 2 ^ 10) : y % 256 = y / 64 ↔ y = 260 * (y / 256) := by
  have hquot : y / 256 = 0 ∨ y / 256 = 1 ∨ y / 256 = 2 ∨ y / 256 = 3 := by omega
  rcases hquot with hk | hk | hk | hk <;> omega

/-- The next byte is right as well. -/
theorem next_byte_iff {k : Nat} (hk : k < 4) (hx : x / 2 ^ 18 = 260 * k) :
    x / 2 ^ 10 % 256 = x / 2 ^ 16 % 256 ↔ x / 2 ^ 10 = 66576 * k := by
  have hnext : x / 2 ^ 16 % 256 = 16 * k + x / 2 ^ 10 / 64 % 4 := by omega
  have hlow : x / 2 ^ 10 = 256 * (260 * k) + x / 2 ^ 10 % 256 := by omega
  have hrest : x / 2 ^ 10 / 64 % 4 = 0 ∨ x / 2 ^ 10 / 64 % 4 = 1 ∨ x / 2 ^ 10 / 64 % 4 = 2 ∨
    x / 2 ^ 10 / 64 % 4 = 3 := by omega
  rcases hrest with hr | hr | hr | hr <;> omega

theorem block_iff (hx : x < 2 ^ 28) :
    (x / 2 ^ 18 % 256 = x / 2 ^ 24 ∧ x / 2 ^ 10 % 256 = x / 2 ^ 16 % 256) ↔ x % 0x4104000 < 1024 := by
  constructor
  · rintro ⟨hhigh, hnext⟩
    have hquot := (high_byte_iff (y := x / 2 ^ 18) (by omega)).mp (by omega)
    have hlow := (next_byte_iff (by omega) hquot).mp hnext
    omega
  · intro h
    have hk : x / 0x4104000 < 4 := by omega
    have hlow : x / 2 ^ 10 = 66576 * (x / 0x4104000) := by omega
    have hquot : x / 2 ^ 18 = 260 * (x / 0x4104000) := by omega
    have hhigh := (high_byte_iff (y := x / 2 ^ 18) (by omega)).mpr (by omega)
    exact ⟨by omega, (next_byte_iff hk hquot).mpr hlow⟩

/-- **The block of a packet.** The packets of `atapi_readSectors` and `atapi_writeSectors` ask for
the block and the number of blocks they are for if and only if the block is one of the first 1024
from a multiple of `2^26 + 2^20 + 2^14` on. -/
theorem decodes_iff (lba : BitVec 64) (sector_count : BitVec 8) (hlba : lba ≤ 0x0FFFFFFF) :
    (Decodes (rw_packet ATAPI_READ_12 lba sector_count) lba sector_count ↔ lba.toNat % 0x4104000 < 1024) ∧
    (Decodes (rw_packet ATAPI_WRITE_12 lba sector_count) lba sector_count ↔ lba.toNat % 0x4104000 < 1024) := by
  have hx : lba.toNat < 2 ^ 28 := Nat.lt_succ_of_le (BitVec.le_def.mp hlba)
  have hboth (opcode : BitVec 8) :
      Decodes (rw_packet opcode lba sector_count) lba sector_count ↔ lba.toNat % 0x4104000 < 1024 := by
    unfold Decodes
    rw [packet_block, packet_count, and_iff_left rfl, digits_iff hx, block_iff hx]
  exact ⟨hboth _, hboth _⟩

theorem decodes_iff_first : (1023 : BitVec 64) ≤ 0x0FFFFFFF ∧
    Decodes (rw_packet ATAPI_READ_12 1023 1) 1023 1 :=
  ⟨by decide, (decodes_iff 1023 1 (by decide)).1.mpr (by decide)⟩

/-- A read of block 1024 is one of block 66560. -/
theorem block_moved : (1024 : BitVec 64) ≤ 0x0FFFFFFF ∧
    ¬ Decodes (rw_packet ATAPI_READ_12 1024 1) 1024 1 ∧
    big_endian (rw_packet ATAPI_READ_12 1024 1) 2 = 66560 ∧
    big_endian (rw_packet ATAPI_WRITE_12 1024 1) 2 = 66560 := by
  simp [Decodes, packet_block]

end Condor.Ata
